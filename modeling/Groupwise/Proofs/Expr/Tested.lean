import Groupwise.Proofs.Expr.Parser

namespace Groupwise.Expr

def Tests (group : String) : Expr → Prop
  | .member other => other = group
  | .not operand => operand.Tests group
  | .and left right | .or left right => left.Tests group ∨ right.Tests group

theorem evaluate_eq_of_tests {groups groups' : Groups} {e : Expr}
    (h : ∀ group, e.Tests group → groups.contains group = groups'.contains group) :
    e.evaluate groups = e.evaluate groups' := by
  induction e with
  | member group => exact h group rfl
  | not operand ih => rw [evaluate, evaluate, ih h]
  | and left right ihleft ihright =>
      have hleft := ihleft fun group htests => h group (.inl htests)
      have hright := ihright fun group htests => h group (.inr htests)
      rw [evaluate, evaluate, hleft, hright]
  | or left right ihleft ihright =>
      have hleft := ihleft fun group htests => h group (.inl htests)
      have hright := ihright fun group htests => h group (.inr htests)
      rw [evaluate, evaluate, hleft, hright]

def Tested (group : String) (tokens : List Token) : Prop := ∃ token ∈ tokens, token.symbol = .member group

@[simp] theorem tested_nil (group : String) : ¬ Tested group [] := by
  simp [Tested]

@[simp] theorem tested_cons {group : String} {token : Token} {tokens : List Token} :
    Tested group (token :: tokens) ↔ token.symbol = .member group ∨ Tested group tokens := by
  simp [Tested]

@[simp] theorem tested_append {group : String} {first second : List Token} :
    Tested group (first ++ second) ↔ Tested group first ∨ Tested group second := by
  simp [Tested, or_and_right, exists_or]

variable {group : String}

mutual
theorem OrTree.tests_iff (around : Nat) (tree : OrTree) :
    tree.expr.Tests group ↔ Tested group (tokensOf (tree.places around)) := by
  obtain ⟨first, rest⟩ := tree
  rw [OrTree.expr, OrTree.places, tokensOf_append, tested_append, OrTail.tests_iff around rest,
    AndTree.tests_iff around first]
termination_by structural tree

theorem OrTail.tests_iff {left : Expr} (around : Nat) (tail : OrTail) :
    (tail.expr left).Tests group ↔ left.Tests group ∨ Tested group (tokensOf (tail.places around)) := by
  cases tail with
  | nil => simp [OrTail.expr, OrTail.places]
  | cons position next rest =>
      rw [OrTail.expr, OrTail.tests_iff around rest, Tests, AndTree.tests_iff around next]
      simp [OrTail.places, or_assoc]
termination_by structural tail

theorem AndTree.tests_iff (around : Nat) (tree : AndTree) :
    tree.expr.Tests group ↔ Tested group (tokensOf (tree.places around)) := by
  obtain ⟨first, rest⟩ := tree
  rw [AndTree.expr, AndTree.places, tokensOf_append, tested_append, AndTail.tests_iff around rest,
    UnaryTree.tests_iff around first]
termination_by structural tree

theorem AndTail.tests_iff {left : Expr} (around : Nat) (tail : AndTail) :
    (tail.expr left).Tests group ↔ left.Tests group ∨ Tested group (tokensOf (tail.places around)) := by
  cases tail with
  | nil => simp [AndTail.expr, AndTail.places]
  | cons position next rest =>
      rw [AndTail.expr, AndTail.tests_iff around rest, Tests, UnaryTree.tests_iff around next]
      simp [AndTail.places, or_assoc]
termination_by structural tail

theorem UnaryTree.tests_iff (around : Nat) (tree : UnaryTree) :
    tree.expr.Tests group ↔ Tested group (tokensOf (tree.places around)) := by
  cases tree with
  | not position operand =>
      rw [UnaryTree.expr, Tests, UnaryTree.tests_iff (around + 1) operand]
      simp [UnaryTree.places]
  | primary tree => exact PrimaryTree.tests_iff around tree
termination_by structural tree

theorem PrimaryTree.tests_iff (around : Nat) (tree : PrimaryTree) :
    tree.expr.Tests group ↔ Tested group (tokensOf (tree.places around)) := by
  cases tree with
  | group opened closed inner =>
      rw [PrimaryTree.expr, OrTree.tests_iff (around + 1) inner]
      simp [PrimaryTree.places]
  | member position other => simp [PrimaryTree.expr, PrimaryTree.places, Tests]
termination_by structural tree
end

theorem exists_tokens_of_parse {text : String} {e : Expr} (h : parse text = .ok e) :
    ∃ ts, tokens text = .ok ts ∧ ∀ group, e.Tests group ↔ Tested group ts := by
  obtain ⟨tree, htokens, rfl, -⟩ := exists_of_parse_eq_ok h
  exact ⟨_, htokens, fun group => tree.tests_iff 0⟩

end Groupwise.Expr
