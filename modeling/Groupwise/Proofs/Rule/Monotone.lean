import Groupwise.Proofs.Expr.Rendering
import Groupwise.Proofs.Resolve.Run
import Groupwise.Proofs.Rule.Criterion

namespace Groupwise

instance : HasSubset Groups := ⟨fun groups groups' => ∀ name, groups.contains name = true → groups'.contains name = true⟩

namespace Expr

def negations (around : Nat) : Expr → List Nat
  | .member _ => [around]
  | .not operand => operand.negations (around + 1)
  | .and left right | .or left right => left.negations around ++ right.negations around

def Positive (e : Expr) : Prop := ∀ n ∈ e.negations 0, n % 2 = 0

def Negative (e : Expr) : Prop := ∀ n ∈ e.negations 0, n % 2 = 1

instance (e : Expr) : Decidable e.Positive := inferInstanceAs (Decidable (∀ n ∈ e.negations 0, n % 2 = 0))

instance (e : Expr) : Decidable e.Negative := inferInstanceAs (Decidable (∀ n ∈ e.negations 0, n % 2 = 1))

variable {groups groups' : Groups}

/-- Both halves go through a negation together, which turns one into the other. -/
theorem evaluate_of_negations (hsub : groups ⊆ groups') (e : Expr) (around : Nat) :
    ((∀ n ∈ e.negations around, n % 2 = around % 2) → e.evaluate groups = true → e.evaluate groups' = true) ∧
      ((∀ n ∈ e.negations around, n % 2 ≠ around % 2) → e.evaluate groups' = true → e.evaluate groups = true) := by
  induction e generalizing around with
  | member group =>
      constructor
      · intro _ h
        exact hsub group h
      · intro hodd
        exact absurd rfl (hodd around (by simp [negations]))
  | not operand ih =>
      obtain ⟨hmono, hanti⟩ := ih (around + 1)
      simp only [evaluate, Bool.not_eq_true', ← Bool.not_eq_true]
      constructor
      · intro heven h h'
        refine h (hanti (fun n hn => ?_) h')
        have := heven n hn
        omega
      · intro hodd h' h
        refine h' (hmono (fun n hn => ?_) h)
        have := hodd n hn
        omega
  | and left right ihleft ihright =>
      simp only [negations, List.forall_mem_append, evaluate, Bool.and_eq_true]
      constructor
      · rintro ⟨hleft, hright⟩ ⟨h, h'⟩
        exact ⟨(ihleft around).1 hleft h, (ihright around).1 hright h'⟩
      · rintro ⟨hleft, hright⟩ ⟨h, h'⟩
        exact ⟨(ihleft around).2 hleft h, (ihright around).2 hright h'⟩
  | or left right ihleft ihright =>
      simp only [negations, List.forall_mem_append, evaluate, Bool.or_eq_true]
      constructor
      · rintro ⟨hleft, hright⟩ h
        exact h.imp ((ihleft around).1 hleft) ((ihright around).1 hright)
      · rintro ⟨hleft, hright⟩ h
        exact h.imp ((ihleft around).2 hleft) ((ihright around).2 hright)

theorem Positive.evaluate {e : Expr} (h : e.Positive) (hsub : groups ⊆ groups') (htrue : e.evaluate groups = true) :
    e.evaluate groups' = true := (evaluate_of_negations hsub e 0).1 h htrue

theorem Negative.evaluate {e : Expr} (h : e.Negative) (hsub : groups ⊆ groups') (hfalse : e.evaluate groups = false) :
    e.evaluate groups' = false := by
  have hodd : ∀ n ∈ e.negations 0, n % 2 ≠ 0 % 2 := by
    intro n hn
    simp [h n hn]
  rw [← Bool.not_eq_true] at hfalse ⊢
  exact mt ((evaluate_of_negations hsub e 0).2 hodd) hfalse

end Expr

namespace Rule

variable {groups groups' : Groups} {rule : Rule}

/-- No user has to be out of a group for the rule to hold. -/
structure Positive (rule : Rule) : Prop where
  none : rule.noneOfGroups = []
  expression : ∀ text, rule.activeExpression = some text → ∃ e, Expr.parse text = .ok e ∧ e.Positive

theorem holds_iff :
    rule.Holds groups ↔ rule.ListHolds groups ∨
      ∃ text e, rule.activeExpression = some text ∧ Expr.parse text = .ok e ∧ e.evaluate groups = true := by
  by_cases hlists : rule.ListHolds groups
  · simp only [hlists, true_or, iff_true]
    exact exists_of_listHolds hlists
  · simp only [Holds, criterion?_of_not_listHolds hlists, hlists, false_or]
    cases hactive : rule.activeExpression with
    | none => simp
    | some text =>
        cases hparse : Expr.parse text with
        | error cause => simp [hparse]
        | ok e => simp [hparse]

theorem Positive.listHolds (h : rule.Positive) (hsub : groups ⊆ groups') (hlists : rule.ListHolds groups) :
    rule.ListHolds groups' := by
  rcases hlists with ⟨hne, hall⟩ | hany | ⟨hne, -⟩
  · rw [Groups.containsAll_iff] at hall
    exact .inl ⟨hne, Groups.containsAll_iff.2 fun name hname => hsub name (hall name hname)⟩
  · obtain ⟨name, hname, hin⟩ := Groups.containsAny_iff.1 hany
    exact .inr (.inl (Groups.containsAny_iff.2 ⟨name, hname, hsub name hin⟩))
  · exact absurd h.none hne

theorem Positive.holds (h : rule.Positive) (hsub : groups ⊆ groups') (hholds : rule.Holds groups) :
    rule.Holds groups' := by
  rw [holds_iff] at hholds ⊢
  rcases hholds with hlists | ⟨text, e, hactive, hparse, htrue⟩
  · exact .inl (h.listHolds hsub hlists)
  · obtain ⟨e', hparse', hpositive⟩ := h.expression text hactive
    rw [hparse, Except.ok.injEq] at hparse'
    exact .inr ⟨text, e, hactive, hparse, (hparse' ▸ hpositive).evaluate hsub htrue⟩

/--
What only tests for groups under an even number of negations stays true for a user who gets more groups, and what only
tests for them under an odd number stays false. So a rule that asks for no absence goes on to hold, though it may be
another criterion for which it does.
-/
theorem holds_of_subset :
    (∀ (e : Expr) groups groups', groups ⊆ groups' →
      (e.Positive → e.evaluate groups = true → e.evaluate groups' = true) ∧
      (e.Negative → e.evaluate groups = false → e.evaluate groups' = false)) ∧
    ∀ (rule : Rule) groups groups', rule.Positive → groups ⊆ groups' → rule.Holds groups → rule.Holds groups' := by
  constructor
  · intro e groups groups' hsub
    exact ⟨fun h => h.evaluate hsub, fun h => h.evaluate hsub⟩
  · intro rule groups groups' h hsub
    exact h.holds hsub

theorem holds_of_subset_double_negation :
    let e : Expr := .or (.not (.and (.not (.member "a")) (.not (.member "c")))) (.member "d")
    let rule : Rule := ⟨["a", "b"], ["x"], [], some e.toText, []⟩
    let groups := Groups.ofList ["a"]
    let groups' := Groups.ofList ["b", "a"]
    groups ⊆ groups' ∧ e.Positive ∧ e.evaluate groups = true ∧ e.evaluate groups' = true ∧
      (Expr.not e).Negative ∧ (Expr.not e).evaluate groups = false ∧ (Expr.not e).evaluate groups' = false ∧
      rule.Positive ∧ ¬ rule.ListHolds groups ∧ rule.Holds groups ∧ rule.ListHolds groups' ∧ rule.Holds groups' := by
  intro e rule groups groups'
  have hsub : groups ⊆ groups' := by
    intro name
    rw [Groups.contains_ofList, Groups.contains_ofList]
    simp +contextual
  have hnamed : e.AllNamed := by
    simp only [e, Expr.AllNamed]
    decide
  have hparse : Expr.parse e.toText = .ok e := Expr.parse_toText_of_height_le hnamed (by decide)
  have hpositive : e.Positive := by decide
  have hnegative : (Expr.not e).Negative := by decide
  have htrue : e.evaluate groups = true := by decide +kernel
  have hfalse : (Expr.not e).evaluate groups = false := by decide +kernel
  have hactive : rule.activeExpression = some e.toText := activeExpression_eq_some.2 ⟨rfl, by decide +kernel⟩
  have hrule : rule.Positive := by
    refine ⟨rfl, fun text htext => ⟨e, ?_, hpositive⟩⟩
    rw [hactive, Option.some.injEq] at htext
    exact htext ▸ hparse
  have hholds : rule.Holds groups := holds_iff.2 (.inr ⟨_, e, hactive, hparse, htrue⟩)
  obtain ⟨hexpr, hkept⟩ := holds_of_subset
  exact ⟨hsub, hpositive, htrue, (hexpr e groups groups' hsub).1 hpositive htrue, hnegative, hfalse,
    (hexpr (.not e) groups groups' hsub).2 hnegative hfalse, hrule, by decide +kernel, hholds, by decide +kernel,
    hkept rule groups groups' hrule hsub hholds⟩

end Rule

end Groupwise
