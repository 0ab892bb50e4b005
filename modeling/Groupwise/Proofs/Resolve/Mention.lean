import Groupwise.Proofs.Ensures
import Groupwise.Proofs.Expr.Tested
import Groupwise.Proofs.Resolve.Run

namespace Groupwise

namespace Groups

variable {groups groups' : Groups} {names : List String}

theorem containsAll_congr (h : ∀ name ∈ names, groups.contains name = groups'.contains name) :
    groups.containsAll names = groups'.containsAll names := by
  have hmap : names.map groups.contains = names.map groups'.contains := List.map_congr_left h
  simpa [containsAll, List.all_map] using congrArg (·.all id) hmap

theorem containsAny_congr (h : ∀ name ∈ names, groups.contains name = groups'.contains name) :
    groups.containsAny names = groups'.containsAny names := by
  have hmap : names.map groups.contains = names.map groups'.contains := List.map_congr_left h
  simpa [containsAny, List.any_map] using congrArg (·.any id) hmap

end Groups

namespace Rule

/-- A group is named by a rule, in one of its lists or in a membership test of an expression that can be read. -/
def Mentions (group : String) (rule : Rule) : Prop :=
  group ∈ rule.allGroups ∨ group ∈ rule.anyGroup ∨ group ∈ rule.noneOfGroups ∨
    ∃ text e tokens, rule.expression = some text ∧ Expr.parse text = .ok e ∧ Expr.tokens text = .ok tokens ∧
      Expr.Tested group tokens

variable {groups groups' : Groups} {rule : Rule}

theorem mentions_of_tests {text : String} {e : Expr} {group : String} (htext : rule.activeExpression = some text)
    (hparse : Expr.parse text = .ok e) (h : e.Tests group) : rule.Mentions group := by
  obtain ⟨tokens, htokens, htests⟩ := Expr.exists_tokens_of_parse hparse
  obtain ⟨hexpression, -⟩ := Option.filter_eq_some_iff.1 htext
  exact .inr (.inr (.inr ⟨text, e, tokens, hexpression, hparse, htokens, (htests group).1 h⟩))

theorem criterion?_eq_of_mentions
    (h : ∀ group, rule.Mentions group → groups.contains group = groups'.contains group) :
    rule.criterion? groups = rule.criterion? groups' := by
  have hall : groups.containsAll rule.allGroups = groups'.containsAll rule.allGroups :=
    Groups.containsAll_congr fun group hgroup => h group (.inl hgroup)
  have hany : groups.containsAny rule.anyGroup = groups'.containsAny rule.anyGroup :=
    Groups.containsAny_congr fun group hgroup => h group (.inr (.inl hgroup))
  have hnone : groups.containsAny rule.noneOfGroups = groups'.containsAny rule.noneOfGroups :=
    Groups.containsAny_congr fun group hgroup => h group (.inr (.inr (.inl hgroup)))
  rw [criterion?, criterion?, hall, hany, hnone]
  cases htext : rule.activeExpression with
  | none => rfl
  | some text =>
      cases hparse : Expr.parse text with
      | error cause => simp only [hparse]
      | ok e =>
          have heval : e.evaluate groups = e.evaluate groups' :=
            Expr.evaluate_eq_of_tests fun group htests => h group (mentions_of_tests htext hparse htests)
          simp only [hparse, heval]

end Rule

variable {groups groups' : Groups} {rules : List Rule}

theorem applyRules_eq_of_mentions
    (h : ∀ rule ∈ rules, ∀ group, rule.Mentions group → groups.contains group = groups'.contains group)
    (index : Nat) (properties : Properties) :
    applyRules groups index rules properties = applyRules groups' index rules properties := by
  induction rules generalizing index properties with
  | nil => rfl
  | cons rule rules ih =>
      obtain ⟨hrule, hrules⟩ := List.forall_mem_cons.1 h
      have hcriterion := Rule.criterion?_eq_of_mentions hrule
      simp only [applyRules, hcriterion, ih hrules]

theorem Config.outcome_resolve_eq_of_mentions {config : Config}
    (h : ∀ rule ∈ config.rules, ∀ group, rule.Mentions group → groups.contains group = groups'.contains group)
    (format : Format) : (config.resolve groups format).outcome = (config.resolve groups' format).outcome := by
  cases hdefaults : config.properties with
  | error fault => rw [outcome_resolve_of_error _ _ hdefaults, outcome_resolve_of_error _ _ hdefaults]
  | ok defaults =>
      have happlied := applyRules_eq_of_mentions h 0 defaults
      rw [resolve, resolve]
      simp only [hdefaults, happlied]
      split <;> rfl

/-- A list of groups counts only for the names that some rule mentions: their order and how often they occur do not. -/
theorem outcome_resolve_of_agree {text : String} {format : Format} {names names' : List String}
    (h : ∀ config, Config.parse format text = .ok config → ∀ rule ∈ config.rules, ∀ group, rule.Mentions group →
      (group ∈ names ↔ group ∈ names')) :
    (resolve text names format).outcome = (resolve text names' format).outcome := by
  cases hparse : Config.parse format text with
  | error fault => rw [resolve_of_unread hparse, resolve_of_unread hparse]
  | ok config =>
      rw [resolve_of_parse hparse, resolve_of_parse hparse]
      apply Config.outcome_resolve_eq_of_mentions
      intro rule hrule group hmentions
      rw [Bool.eq_iff_iff, Groups.contains_ofList, Groups.contains_ofList]
      exact h config hparse rule hrule group hmentions

set_option maxRecDepth 8000 in
theorem outcome_resolve_of_agree_unread :
    let text := "\x7b\"default-properties\": \x7b\x7d, \"override-rules\": [" ++
      "\x7b\"user-is-in-all-groups\": [\"a\"], \"custom-expression\": \"#user.contains('x') &\"\x7d, " ++
      "\x7b\"custom-expression\": \"not #user.contains('b')\", \"override\": \x7b\"p.q\": 1\x7d\x7d]\x7d"
    let names := ["x", "a", "a"]
    let names' := ["a", "y"]
    let rules : List Rule := [⟨["a"], [], [], some "#user.contains('x') &", []⟩,
      ⟨[], [], [], some "not #user.contains('b')", [("p.q", .number (.integer 1))]⟩]
    Config.parse .json text = .ok ⟨rules, some (.object [])⟩ ∧
      (∀ rule ∈ rules, ∀ group, rule.Mentions group → (group ∈ names ↔ group ∈ names')) ∧
      (resolve text names .json).outcome = (resolve text names' .json).outcome := by
  intro text names names' rules
  have hparse : Config.parse .json text = .ok ⟨rules, some (.object [])⟩ :=
    Outcome.eq_ok_of_toOption (by decide +kernel)
  have hunread : (Expr.parse "#user.contains('x') &").toOption = none := by decide +kernel
  have htokens : Expr.tokens "not #user.contains('b')" = .ok [⟨.not, 0⟩, ⟨.member "b", 4⟩] :=
    Outcome.eq_ok_of_toOption (by decide +kernel)
  have hagree : ∀ rule ∈ rules, ∀ group, rule.Mentions group → (group ∈ names ↔ group ∈ names') := by
    simp only [rules, List.forall_mem_cons]
    refine ⟨fun group hmentions => ?_, fun group hmentions => ?_, by simp⟩
    · rcases hmentions with h | h | h | ⟨_, e, _, htext, he, -⟩
      · simp_all [names, names']
      · simp at h
      · simp at h
      · obtain rfl := Option.some.inj htext
        simp [he, Except.toOption] at hunread
    · rcases hmentions with h | h | h | ⟨_, e, ts, htext, -, hts, htested⟩
      · simp at h
      · simp at h
      · simp at h
      · obtain rfl := Option.some.inj htext
        rw [htokens, Except.ok.injEq] at hts
        have hgroup : group = "b" := by simpa [← hts, eq_comm] using htested
        simp [hgroup, names, names']
  refine ⟨hparse, hagree, outcome_resolve_of_agree fun config hconfig => ?_⟩
  rw [hparse, Except.ok.injEq] at hconfig
  exact hconfig ▸ hagree

end Groupwise
