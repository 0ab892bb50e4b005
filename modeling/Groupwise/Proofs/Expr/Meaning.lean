import Groupwise.Proofs.Expr.Parser

namespace Groupwise.Expr

mutual
def OrTree.Holds (inGroup : String → Prop) : OrTree → Prop
  | .chain first rest => first.Holds inGroup ∨ rest.Holds inGroup

def OrTail.Holds (inGroup : String → Prop) : OrTail → Prop
  | .nil => False
  | .cons _ next rest => next.Holds inGroup ∨ rest.Holds inGroup

def AndTree.Holds (inGroup : String → Prop) : AndTree → Prop
  | .chain first rest => first.Holds inGroup ∧ rest.Holds inGroup

def AndTail.Holds (inGroup : String → Prop) : AndTail → Prop
  | .nil => True
  | .cons _ next rest => next.Holds inGroup ∧ rest.Holds inGroup

def UnaryTree.Holds (inGroup : String → Prop) : UnaryTree → Prop
  | .not _ operand => ¬ operand.Holds inGroup
  | .primary tree => tree.Holds inGroup

def PrimaryTree.Holds (inGroup : String → Prop) : PrimaryTree → Prop
  | .group _ _ inner => inner.Holds inGroup
  | .member _ group => inGroup group
end

/-- The tokens of a text have a derivation that reads as true. -/
def TextHolds (inGroup : String → Prop) (text : String) : Prop :=
  ∃ tree : OrTree, tokens text = .ok (tokensOf (tree.places 0)) ∧ tree.Holds inGroup

variable {groups : Groups}

mutual
theorem OrTree.evaluate_expr (tree : OrTree) :
    tree.expr.evaluate groups = true ↔ tree.Holds (groups.contains ·) := by
  obtain ⟨first, rest⟩ := tree
  rw [OrTree.expr, OrTree.Holds, OrTail.evaluate_expr rest, AndTree.evaluate_expr first]
termination_by structural tree

theorem OrTail.evaluate_expr {left : Expr} (tail : OrTail) :
    (tail.expr left).evaluate groups = true ↔ left.evaluate groups = true ∨ tail.Holds (groups.contains ·) := by
  cases tail with
  | nil => simp [OrTail.expr, OrTail.Holds]
  | cons position next rest =>
      rw [OrTail.expr, OrTail.Holds, OrTail.evaluate_expr rest, evaluate, Bool.or_eq_true, AndTree.evaluate_expr next,
        or_assoc]
termination_by structural tail

theorem AndTree.evaluate_expr (tree : AndTree) :
    tree.expr.evaluate groups = true ↔ tree.Holds (groups.contains ·) := by
  obtain ⟨first, rest⟩ := tree
  rw [AndTree.expr, AndTree.Holds, AndTail.evaluate_expr rest, UnaryTree.evaluate_expr first]
termination_by structural tree

theorem AndTail.evaluate_expr {left : Expr} (tail : AndTail) :
    (tail.expr left).evaluate groups = true ↔ left.evaluate groups = true ∧ tail.Holds (groups.contains ·) := by
  cases tail with
  | nil => simp [AndTail.expr, AndTail.Holds]
  | cons position next rest =>
      rw [AndTail.expr, AndTail.Holds, AndTail.evaluate_expr rest, evaluate, Bool.and_eq_true,
        UnaryTree.evaluate_expr next, and_assoc]
termination_by structural tail

theorem UnaryTree.evaluate_expr (tree : UnaryTree) :
    tree.expr.evaluate groups = true ↔ tree.Holds (groups.contains ·) := by
  cases tree with
  | not position operand =>
      rw [UnaryTree.expr, UnaryTree.Holds, evaluate, Bool.not_eq_true', ← Bool.not_eq_true,
        UnaryTree.evaluate_expr operand]
  | primary tree => exact PrimaryTree.evaluate_expr tree
termination_by structural tree

theorem PrimaryTree.evaluate_expr (tree : PrimaryTree) :
    tree.expr.evaluate groups = true ↔ tree.Holds (groups.contains ·) := by
  cases tree with
  | group opened closed inner => exact OrTree.evaluate_expr inner
  | member position group => rfl
termination_by structural tree
end

theorem textHolds_iff {text : String} {e : Expr} (h : parse text = .ok e) :
    TextHolds (groups.contains ·) text ↔ e.evaluate groups = true := by
  obtain ⟨tree, htokens, rfl, -⟩ := exists_of_parse_eq_ok h
  rw [OrTree.evaluate_expr]
  constructor
  · rintro ⟨tree', htokens', hholds⟩
    rw [htokens', Except.ok.injEq] at htokens
    exact OrTree.eq_of_tokens_eq htokens ▸ hholds
  · intro hholds
    exact ⟨tree, htokens, hholds⟩

end Groupwise.Expr
