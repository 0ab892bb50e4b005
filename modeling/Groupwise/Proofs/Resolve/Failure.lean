import Groupwise.Proofs.Config.Ordered
import Groupwise.Proofs.Ensures
import Groupwise.Proofs.Resolve.Run
import Groupwise.Proofs.Rule.Criterion

namespace Groupwise

namespace Rule

/-- The criteria of a rule cannot be decided, or the rule holds and has a path of more than 64 keys. -/
def Bad (groups : Groups) (rule : Rule) : Prop :=
  (∃ bad, rule.criterion? groups = .error bad) ∨
    ((∃ criterion, rule.criterion? groups = .ok (some criterion)) ∧
      ∃ path ∈ Members.keys rule.overrides, 64 < (keysOf path).length)

/-- The error of a rule: an expression that no list spares, or the least of the paths with too many keys. -/
inductive Fails (groups : Groups) (rule : Rule) : Error → Prop where
  | expression (text : String) (cause : Expr.Error) (hlists : ¬ rule.ListHolds groups)
      (htext : rule.expression = some text) (hne : text ≠ "") (hcause : Expr.parse text = .error cause) :
      Fails groups rule (.expression text cause)
  | path (path : String) (criterion : Criterion) (hcriterion : rule.criterion? groups = .ok (some criterion))
      (hmem : path ∈ Members.keys rule.overrides) (hlong : 64 < (keysOf path).length)
      (hleast : ∀ other ∈ Members.keys rule.overrides, 64 < (keysOf other).length → path ≤ other) :
      Fails groups rule (.invalid path (.tooManyKeys (keysOf path).length))

variable {groups : Groups} {rule : Rule}

theorem fault?_eq_none : rule.fault? groups = none ↔ ¬ rule.Bad groups := by
  rw [fault?, Bad]
  cases hcriterion : rule.criterion? groups with
  | error bad => simp
  | ok found =>
      cases found with
      | none => simp
      | some criterion => simp [overlong?_eq_none, Fits, maxKeys]

theorem fails_iff (hkeys : rule.overrides.Ascending) {fault : Error} :
    rule.Fails groups fault ↔ rule.fault? groups = some fault := by
  constructor
  · intro h
    cases h with
    | expression text cause hlists htext hne hcause =>
        have hcriterion : rule.criterion? groups = .error ⟨text, cause⟩ :=
          criterion?_eq_error.2 ⟨hlists, activeExpression_eq_some.2 ⟨htext, hne⟩, hcause⟩
        rw [fault?, hcriterion]
    | path path criterion hcriterion hmem hlong hleast =>
        simp only [fault?, hcriterion]
        cases hfind : overlong? rule.overrides with
        | none => exact absurd (overlong?_eq_none.1 hfind path hmem) (Nat.not_le_of_gt hlong)
        | some found =>
            obtain ⟨hmem', hlong', hleast'⟩ := le_of_overlong?_eq_some hkeys hfind
            -- The first path that is too long is the least one, and there is only one least.
            have heq : found = path :=
              String.le_antisymm (hleast' path hmem (Nat.not_le_of_gt hlong)) (hleast found hmem' (Nat.lt_of_not_le hlong'))
            rw [heq]
            rfl
  · intro h
    rw [fault?] at h
    split at h
    · next bad hbad =>
      obtain rfl := Option.some.inj h
      obtain ⟨hlists, hactive, hcause⟩ := criterion?_eq_error.1 hbad
      obtain ⟨htext, hne⟩ := activeExpression_eq_some.1 hactive
      exact .expression _ _ hlists htext hne hcause
    · contradiction
    · next criterion hcriterion =>
      obtain ⟨path, hfind, rfl⟩ := Option.map_eq_some_iff.1 h
      obtain ⟨hmem, hlong, hleast⟩ := le_of_overlong?_eq_some hkeys hfind
      exact .path path criterion hcriterion hmem (Nat.lt_of_not_le hlong)
        fun other hother hlong' => hleast other hother (Nat.not_le_of_gt hlong')

end Rule

/--
How the rules end a run: with a result if none of them is bad, and else with the one error that the first bad rule
has. A list that holds spares its rule the expression, and a rule that does not hold is spared its paths.
-/
structure Config.StopsAtFirstBad (config : Config) (groups : Groups) (outcome : Except Error Properties) : Prop where
  succeeds : (∃ result, outcome = .ok result) ↔ ∀ rule ∈ config.rules, ¬ rule.Bad groups
  fails : ∀ before rule after, config.rules = before ++ rule :: after → (∀ earlier ∈ before, ¬ earlier.Bad groups) →
    rule.Bad groups → ∃ fault, outcome = .error fault ∧ ∀ other, rule.Fails groups other ↔ other = fault
  spared : ∀ rule ∈ config.rules, rule.ListHolds groups → ∀ text cause, ¬ rule.Fails groups (.expression text cause)
  unmatched : ∀ rule ∈ config.rules, rule.criterion? groups = .ok none → ¬ rule.Bad groups

namespace Config

variable {config : Config} {groups : Groups} {properties : Properties} {fault : Error}

theorem outcome_resolve_eq_error (format : Format) (h : config.properties = .ok properties) :
    (config.resolve groups format).outcome = .error fault ↔ config.rules.findSome? (·.fault? groups) = some fault := by
  rw [outcome_resolve groups format h]
  cases config.rules.findSome? (·.fault? groups) with
  | none => simp
  | some other => simp

theorem findSome?_fault?_eq_none :
    config.rules.findSome? (·.fault? groups) = none ↔ ∀ rule ∈ config.rules, ¬ rule.Bad groups := by
  simp only [List.findSome?_eq_none_iff, Rule.fault?_eq_none]

theorem exists_outcome_eq_ok (format : Format) (h : config.properties = .ok properties) :
    (∃ result, (config.resolve groups format).outcome = .ok result) ↔ ∀ rule ∈ config.rules, ¬ rule.Bad groups := by
  rw [outcome_resolve groups format h, ← findSome?_fault?_eq_none]
  cases config.rules.findSome? (·.fault? groups) with
  | none => simp
  | some other => simp

theorem stopsAtFirstBad (hordered : config.Ordered) (format : Format) (h : config.properties = .ok properties) :
    config.StopsAtFirstBad groups (config.resolve groups format).outcome where
  succeeds := exists_outcome_eq_ok format h
  fails := by
    intro before rule after hrules hbefore hbad
    obtain ⟨fault, hfault⟩ : ∃ fault, rule.fault? groups = some fault := by
      apply Option.ne_none_iff_exists'.1
      intro hnone
      exact Rule.fault?_eq_none.1 hnone hbad
    refine ⟨fault, ?_, fun other => ?_⟩
    · have hnone : before.findSome? (·.fault? groups) = none := by
        simp only [List.findSome?_eq_none_iff, Rule.fault?_eq_none]
        exact hbefore
      rw [outcome_resolve_eq_error format h, hrules, List.findSome?_append, hnone, Option.none_or,
        List.findSome?_cons, hfault]
    · have hrule : rule ∈ config.rules := by simp [hrules]
      rw [Rule.fails_iff (hordered.rules rule hrule).ascending, hfault, Option.some.injEq, eq_comm]
  spared := by
    intro rule hrule hlists text cause hfails
    cases hfails with
    | expression text cause hlists' => exact hlists' hlists
  unmatched := by
    intro rule hrule hcriterion hbad
    rcases hbad with ⟨bad, hbad⟩ | ⟨⟨criterion, hfound⟩, -⟩
    · simp [hcriterion] at hbad
    · simp [hcriterion] at hfound

end Config

/--
Whether and how a run fails. What cannot be read fails first, then default properties that are not an object, then
the first bad rule; and which one that is depends on the rules and the groups alone.
-/
theorem outcome_resolve_exact (text : String) (names : List String) (format : Format) :
    (∀ fault, Config.parse format text = .error fault → (resolve text names format).outcome = .error fault) ∧
    (∀ config, Config.parse format text = .ok config →
      match config.defaults with
      | some (.object _) =>
        config.StopsAtFirstBad (Groups.ofList names) (resolve text names format).outcome ∧
          ∀ text' format' config' defaults', Config.parse format' text' = .ok config' →
            config'.rules = config.rules → config'.defaults = some (.object defaults') →
            ∀ fault, (resolve text names format).outcome = .error fault ↔
              (resolve text' names format').outcome = .error fault
      | none | some .null => (resolve text names format).outcome = .error (.invalid Config.defaultsKey .missing)
      | some other =>
        (resolve text names format).outcome = .error (.invalid Config.defaultsKey (.notAnObject other.kind))) := by
  constructor
  · intro fault hparse
    rw [resolve_of_unread hparse]
  · intro config hparse
    rw [resolve_of_parse hparse]
    split
    · next defaults hdefaults =>
      have hproperties : config.properties = .ok defaults := by rw [Config.properties, hdefaults]
      refine ⟨Config.stopsAtFirstBad (Config.ordered_parse hparse) format hproperties, ?_⟩
      intro text' format' config' defaults' hparse' hrules hdefaults' fault
      have hproperties' : config'.properties = .ok defaults' := by rw [Config.properties, hdefaults']
      rw [resolve_of_parse hparse', Config.outcome_resolve_eq_error format hproperties,
        Config.outcome_resolve_eq_error format' hproperties', hrules]
    · next hdefaults =>
      apply Config.outcome_resolve_of_error
      rw [Config.properties, hdefaults]
    · next hdefaults =>
      apply Config.outcome_resolve_of_error
      rw [Config.properties, hdefaults]
    · next other hobject hnull hdefaults =>
      apply Config.outcome_resolve_of_error
      rw [Config.properties, hdefaults]
      cases other with
      | null => exact (hnull rfl).elim
      | object members => exact (hobject members rfl).elim
      | bool | number | string | array => rfl

set_option maxRecDepth 8000 in
theorem outcome_resolve_exact_third_bad :
    let text := "\x7b\"default-properties\": \x7b\x7d, \"override-rules\": [" ++
      "\x7b\"user-is-in-any-group\": [\"a\"], \"custom-expression\": \"(\"\x7d, " ++
      "\x7b\"user-is-in-any-group\": [\"b\"], \"override\": \x7b\"" ++ String.ofList (List.replicate 64 '.') ++
      "\": 1\x7d\x7d, \x7b\"custom-expression\": \"!\"\x7d]\x7d"
    let bad : Rule := ⟨[], [], [], some "!", []⟩
    ∃ fault, (resolve text ["a"] .json).outcome = .error fault ∧
      ∀ other, bad.Fails (Groups.ofList ["a"]) other ↔ other = fault := by
  intro text bad
  have hparse : Config.parse .json text = .ok ⟨[⟨[], ["a"], [], some "(", []⟩,
      ⟨[], ["b"], [], none, [(String.ofList (List.replicate 64 '.'), .number (.integer 1))]⟩, bad],
      some (.object [])⟩ := Outcome.eq_ok_of_toOption (by decide +kernel)
  have hstops := ((outcome_resolve_exact text ["a"] .json).2 _ hparse).1
  refine hstops.fails [_, _] bad [] rfl ?_ ?_
  · simp only [List.forall_mem_cons, ← Rule.fault?_eq_none]
    exact ⟨by decide +kernel, by decide +kernel, by simp⟩
  · have hfault : bad.fault? (Groups.ofList ["a"]) ≠ none := by decide +kernel
    exact Classical.byContradiction fun hgood => hfault (Rule.fault?_eq_none.2 hgood)

end Groupwise
