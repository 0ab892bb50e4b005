import Groupwise.Proofs.Expr.Grammar
import Groupwise.Proofs.Expr.Reader

namespace Groupwise.Expr

open State

def Place.overdeep (place : Place) : Bool := place.token.symbol.opens && decide (maxDepth ≤ place.around)

/-- The expression, or the first of these tokens that is nested too deeply. -/
def reading (places : List Place) (e : Expr) (after : State) : Except Error (Expr × State) :=
  match places.find? Place.overdeep with
  | none => .ok (e, after)
  | some place => .error ⟨.tooDeep, place.token.position⟩

theorem reading_nil (e : Expr) (after : State) : reading [] e after = .ok (e, after) := rfl

theorem reading_append {first second : List Place} {e e' : Expr} {after after' : State}
    {f : Expr × State → Except Error (Expr × State)} (h : f (e, after) = reading second e' after') :
    (reading first e after >>= f) = reading (first ++ second) e' after' := by
  rw [reading, reading, List.find?_append]
  cases first.find? Place.overdeep with
  | none => exact h
  | some place => rfl

theorem reading_bind {places : List Place} {e e' : Expr} {after after' : State}
    {f : Expr × State → Except Error (Expr × State)} (h : f (e, after) = .ok (e', after')) :
    (reading places e after >>= f) = reading places e' after' := by
  rw [reading_append (h.trans (reading_nil e' after').symm), List.append_nil]

theorem reading_cons {place : Place} (h : place.overdeep = false) (places : List Place) (e : Expr) (after : State) :
    reading (place :: places) e after = reading places e after := by
  simp only [reading, List.find?_cons, h]

theorem reading_cons_of_overdeep {place : Place} (h : place.overdeep = true) (places : List Place) (e : Expr)
    (after : State) : reading (place :: places) e after = .error ⟨.tooDeep, place.token.position⟩ := by
  simp only [reading, List.find?_cons, h]

theorem not_next_of_ends {symbol : Symbol} {tokens : List Token} {depth : Nat} (h : Ends symbol tokens) :
    ¬ State.nextIs symbol ⟨tokens, depth⟩ := by
  cases tokens with
  | nil => simp [nextIs]
  | cons token rest => simpa [nextIs] using h

mutual
theorem OrTree.read (stop around : Nat) {rest : List Token} (hand : Ends .and rest) (hor : Ends .or rest)
    (tree : OrTree) :
    plain (readOr stop ⟨tokensOf (tree.places around) ++ rest, around⟩) =
      reading (tree.places around) tree.expr ⟨rest, around⟩ := by
  -- The tokens behind a tree must not carry on a chain, or the reader would go on.
  obtain ⟨first, tail⟩ := tree
  rw [OrTree.places, tokensOf_append, List.append_assoc, plain_readOr,
    AndTree.read stop around (tail.ends_and hand around) first]
  apply reading_append
  exact OrTail.read stop around hand hor tail first.expr
termination_by structural tree

theorem OrTail.read (stop around : Nat) {rest : List Token} (hand : Ends .and rest) (hor : Ends .or rest)
    (tail : OrTail) (left : Expr) :
    plain (readOrs stop left ⟨tokensOf (tail.places around) ++ rest, around⟩) =
      reading (tail.places around) (tail.expr left) ⟨rest, around⟩ := by
  cases tail with
  | nil => exact plain_readOrs_of_not_next stop left (not_next_of_ends hor)
  | cons position next tail =>
      rw [OrTail.places, tokensOf_cons, tokensOf_append, List.cons_append, List.append_assoc,
        plain_readOrs_of_next stop left (by simp [nextIs]), reading_cons (by simp [Place.overdeep, Symbol.opens])]
      simp only [State.pass, List.tail_cons]
      rw [AndTree.read stop around (tail.ends_and hand around) next]
      apply reading_append
      exact OrTail.read stop around hand hor tail (.or left next.expr)
termination_by structural tail

theorem AndTree.read (stop around : Nat) {rest : List Token} (hand : Ends .and rest) (tree : AndTree) :
    plain (readAnd stop ⟨tokensOf (tree.places around) ++ rest, around⟩) =
      reading (tree.places around) tree.expr ⟨rest, around⟩ := by
  obtain ⟨first, tail⟩ := tree
  rw [AndTree.places, tokensOf_append, List.append_assoc, plain_readAnd, UnaryTree.read stop around _ first]
  apply reading_append
  exact AndTail.read stop around hand tail first.expr
termination_by structural tree

theorem AndTail.read (stop around : Nat) {rest : List Token} (hand : Ends .and rest) (tail : AndTail)
    (left : Expr) :
    plain (readAnds stop left ⟨tokensOf (tail.places around) ++ rest, around⟩) =
      reading (tail.places around) (tail.expr left) ⟨rest, around⟩ := by
  cases tail with
  | nil => exact plain_readAnds_of_not_next stop left (not_next_of_ends hand)
  | cons position next tail =>
      rw [AndTail.places, tokensOf_cons, tokensOf_append, List.cons_append, List.append_assoc,
        plain_readAnds_of_next stop left (by simp [nextIs]), reading_cons (by simp [Place.overdeep, Symbol.opens])]
      simp only [State.pass, List.tail_cons]
      rw [UnaryTree.read stop around _ next]
      apply reading_append
      exact AndTail.read stop around hand tail (.and left next.expr)
termination_by structural tail

theorem UnaryTree.read (stop around : Nat) (rest : List Token) (tree : UnaryTree) :
    plain (readUnary stop ⟨tokensOf (tree.places around) ++ rest, around⟩) =
      reading (tree.places around) tree.expr ⟨rest, around⟩ := by
  cases tree with
  | not position operand =>
      rw [UnaryTree.places, tokensOf_cons, List.cons_append, plain_readUnary_not]
      by_cases hdepth : around < maxDepth
      · rw [if_pos hdepth, UnaryTree.read stop (around + 1) rest operand,
          reading_cons (by simpa [Place.overdeep, Symbol.opens] using hdepth)]
        apply reading_bind
        rfl
      · rw [if_neg hdepth, reading_cons_of_overdeep (by simpa [Place.overdeep, Symbol.opens] using hdepth)]
  | primary tree => exact PrimaryTree.read stop around rest tree
termination_by structural tree

theorem PrimaryTree.read (stop around : Nat) (rest : List Token) (tree : PrimaryTree) :
    plain (readUnary stop ⟨tokensOf (tree.places around) ++ rest, around⟩) =
      reading (tree.places around) tree.expr ⟨rest, around⟩ := by
  cases tree with
  | group opened closed inner =>
      rw [PrimaryTree.places, tokensOf_cons, tokensOf_append, List.cons_append, List.append_assoc,
        plain_readUnary_of_not_next stop (by simp [nextIs]), plain_readPrimary_open, plain_readGroup]
      by_cases hdepth : around < maxDepth
      · rw [if_pos hdepth, OrTree.read stop (around + 1) (by simp) (by simp) inner,
          reading_cons (by simpa [Place.overdeep, Symbol.opens] using hdepth)]
        apply reading_append
        rfl
      · rw [if_neg hdepth, reading_cons_of_overdeep (by simpa [Place.overdeep, Symbol.opens] using hdepth)]
  | member position group =>
      rw [PrimaryTree.places, tokensOf_cons, tokensOf_nil, List.cons_append, List.nil_append,
        plain_readUnary_of_not_next stop (by simp [nextIs]), plain_readPrimary_member,
        reading_cons (by simp [Place.overdeep, Symbol.opens]), reading_nil, PrimaryTree.expr]
termination_by structural tree
end

end Groupwise.Expr
