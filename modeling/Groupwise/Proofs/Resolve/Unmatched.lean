import Groupwise.Proofs.Resolve.Run
import Groupwise.Proofs.Rule.Criterion

namespace Groupwise

namespace Rule

/-- A list of rules after some of those with a property were deleted, of which equal ones need not go together. -/
inductive Thinned (P : Rule → Prop) : List Rule → List Rule → Prop
  | nil : Thinned P [] []
  | keep (rule : Rule) {rules rest : List Rule} (h : Thinned P rules rest) : Thinned P (rule :: rules) (rule :: rest)
  | delete {rule : Rule} (hrule : P rule) {rules rest : List Rule} (h : Thinned P rules rest) :
      Thinned P (rule :: rules) rest

namespace Thinned

variable {P Q : Rule → Prop} {rules rest : List Rule} {groups : Groups}

theorem imp (hP : ∀ rule, P rule → Q rule) (h : Thinned P rules rest) : Thinned Q rules rest := by
  induction h with
  | nil => exact .nil
  | keep rule _ ih => exact .keep rule ih
  | delete hrule _ ih => exact .delete (hP _ hrule) ih

theorem findSome?_fault? (h : Thinned (fun rule => rule.criterion? groups = .ok none) rules rest) :
    rest.findSome? (·.fault? groups) = rules.findSome? (·.fault? groups) := by
  induction h with
  | nil => rfl
  | keep rule _ ih => rw [List.findSome?_cons, List.findSome?_cons, ih]
  | delete hrule _ ih =>
      rw [List.findSome?_cons, ih, fault?]
      simp only [hrule]

theorem flatMap_writes (h : Thinned (fun rule => rule.criterion? groups = .ok none) rules rest) :
    rest.flatMap (·.writes groups) = rules.flatMap (·.writes groups) := by
  induction h with
  | nil => rfl
  | keep rule _ ih => rw [List.flatMap_cons, List.flatMap_cons, ih]
  | delete hrule _ ih =>
      rw [List.flatMap_cons, ih, writes]
      simp only [hrule, List.nil_append]

end Thinned

end Rule

namespace Config

variable {config : Config} {groups : Groups} {rest : List Rule}

theorem outcome_resolve_of_thinned (format : Format)
    (h : Rule.Thinned (fun rule => rule.criterion? groups = .ok none) config.rules rest) :
    ({ config with rules := rest }.resolve groups format).outcome = (config.resolve groups format).outcome := by
  cases hdefaults : config.properties with
  | error fault =>
      have hrest : { config with rules := rest }.properties = .error fault := hdefaults
      rw [outcome_resolve_of_error _ _ hdefaults, outcome_resolve_of_error _ _ hrest]
  | ok defaults =>
      have hrest : { config with rules := rest }.properties = .ok defaults := hdefaults
      rw [outcome_resolve _ _ hdefaults, outcome_resolve _ _ hrest, h.findSome?_fault?, writes, h.flatMap_writes, writes]

/--
Rules that do not hold for a user may be deleted without any change in what the user gets, be it properties or an error.
Rules without a criterion may be deleted for everybody.
-/
theorem outcome_resolve_thinned (config : Config) (format : Format) :
    (∀ names rest, Rule.Thinned (fun rule => rule.criterion? (Groups.ofList names) = .ok none) config.rules rest →
      ({ config with rules := rest }.resolve (Groups.ofList names) format).outcome =
        (config.resolve (Groups.ofList names) format).outcome) ∧
    (∀ rest, Rule.Thinned (fun rule => rule.isInert = true) config.rules rest → ∀ names,
      ({ config with rules := rest }.resolve (Groups.ofList names) format).outcome =
        (config.resolve (Groups.ofList names) format).outcome) := by
  constructor
  · intro names rest h
    exact outcome_resolve_of_thinned format h
  · intro rest h names
    refine outcome_resolve_of_thinned format (h.imp fun rule hinert => ?_)
    exact Rule.criterion?_eq_iff.2 (Rule.decided_of_isInert hinert _)

theorem outcome_resolve_thinned_overlong :
    let inert : Rule := ⟨[], [], [], some "", [(String.ofList (List.replicate 64 '.'), .null)]⟩
    let held : Rule := ⟨[], ["g"], [], none, [("a", .bool true)]⟩
    let unmatched : Rule := ⟨["g", "h"], [], ["g"], none, [("a", .bool false)]⟩
    let bad : Rule := ⟨[], [], [], some "!", []⟩
    let defaults : Option Tree := some (.object [])
    let groups := Groups.ofList ["g"]
    (resolve ⟨[held, unmatched], defaults⟩ groups .json).outcome =
        (resolve ⟨[unmatched, held, inert, unmatched], defaults⟩ groups .json).outcome ∧
      (resolve ⟨[held, bad], defaults⟩ groups .json).outcome =
        (resolve ⟨[inert, held, bad], defaults⟩ groups .json).outcome ∧
      (resolve ⟨[held, unmatched], defaults⟩ groups .json).outcome = .ok [("a", .bool true)] ∧
      (resolve ⟨[held, bad], defaults⟩ groups .json).outcome =
        .error (.expression "!" ⟨.unsupportedOperator "!", 0⟩) := by
  intro inert held unmatched bad defaults groups
  have hunmatched : unmatched.criterion? groups = .ok none := Outcome.eq_ok_of_toOption (by decide +kernel)
  have hspared : inert.criterion? groups = .ok none := Outcome.eq_ok_of_toOption (by decide +kernel)
  have hinert : inert.isInert = true := rfl
  refine ⟨?_, ?_, Outcome.eq_ok_of_toOption (by decide +kernel), Outcome.eq_error_of_fault? (by decide +kernel)⟩
  · have hthinned : Rule.Thinned (fun rule => rule.criterion? groups = .ok none) [unmatched, held, inert, unmatched]
        [held, unmatched] := .delete hunmatched (.keep held (.delete hspared (.keep unmatched .nil)))
    exact (outcome_resolve_thinned ⟨[unmatched, held, inert, unmatched], defaults⟩ .json).1 _ _ hthinned
  · have hthinned : Rule.Thinned (fun rule => rule.isInert = true) [inert, held, bad] [held, bad] :=
      .delete hinert (.keep held (.keep bad .nil))
    exact (outcome_resolve_thinned ⟨[inert, held, bad], defaults⟩ .json).2 _ hthinned ["g"]

end Config

end Groupwise
