import Groupwise.Expr.Parser

namespace Groupwise.Expr

def Symbol.opens : Symbol → Bool
  | .open | .not => true
  | _ => false

mutual
/-- The derivations of the grammar that the readers go by. A tree keeps the offsets of its tokens. -/
inductive OrTree where
  | chain (first : AndTree) (rest : OrTail)

inductive OrTail where
  | nil
  | cons (position : Nat) (next : AndTree) (rest : OrTail)

inductive AndTree where
  | chain (first : UnaryTree) (rest : AndTail)

inductive AndTail where
  | nil
  | cons (position : Nat) (next : UnaryTree) (rest : AndTail)

inductive UnaryTree where
  | not (position : Nat) (operand : UnaryTree)
  | primary (tree : PrimaryTree)

inductive PrimaryTree where
  | group (opened closed : Nat) (inner : OrTree)
  | member (position : Nat) (group : String)
end

mutual
def OrTree.expr : OrTree → Expr
  | .chain first rest => rest.expr first.expr

def OrTail.expr (left : Expr) : OrTail → Expr
  | .nil => left
  | .cons _ next rest => rest.expr (.or left next.expr)

def AndTree.expr : AndTree → Expr
  | .chain first rest => rest.expr first.expr

def AndTail.expr (left : Expr) : AndTail → Expr
  | .nil => left
  | .cons _ next rest => rest.expr (.and left next.expr)

def UnaryTree.expr : UnaryTree → Expr
  | .not _ operand => .not operand.expr
  | .primary tree => tree.expr

def PrimaryTree.expr : PrimaryTree → Expr
  | .group _ _ inner => inner.expr
  | .member _ group => .member group
end

/-- A token, and the number of groups and of operands of negations that it stands inside of. -/
structure Place where
  token : Token
  around : Nat
  deriving DecidableEq, Repr

mutual
def OrTree.places (around : Nat) : OrTree → List Place
  | .chain first rest => first.places around ++ rest.places around

def OrTail.places (around : Nat) : OrTail → List Place
  | .nil => []
  | .cons position next rest => ⟨⟨.or, position⟩, around⟩ :: (next.places around ++ rest.places around)

def AndTree.places (around : Nat) : AndTree → List Place
  | .chain first rest => first.places around ++ rest.places around

def AndTail.places (around : Nat) : AndTail → List Place
  | .nil => []
  | .cons position next rest => ⟨⟨.and, position⟩, around⟩ :: (next.places around ++ rest.places around)

def UnaryTree.places (around : Nat) : UnaryTree → List Place
  | .not position operand => ⟨⟨.not, position⟩, around⟩ :: operand.places (around + 1)
  | .primary tree => tree.places around

def PrimaryTree.places (around : Nat) : PrimaryTree → List Place
  | .group opened closed inner =>
    ⟨⟨.open, opened⟩, around⟩ :: (inner.places (around + 1) ++ [⟨⟨.close, closed⟩, around⟩])
  | .member position group => [⟨⟨.member group, position⟩, around⟩]
end

def OrTree.ofOperands (first : AndTree) (others : List (Nat × AndTree)) : OrTree :=
  .chain first (others.foldr (fun next rest => .cons next.1 next.2 rest) .nil)

def AndTree.ofOperands (first : UnaryTree) (others : List (Nat × UnaryTree)) : AndTree :=
  .chain first (others.foldr (fun next rest => .cons next.1 next.2 rest) .nil)

theorem OrTree.expr_ofOperands (first : AndTree) (others : List (Nat × AndTree)) :
    (OrTree.ofOperands first others).expr = others.foldl (fun left next => .or left next.2.expr) first.expr := by
  rw [ofOperands, expr]
  generalize first.expr = left
  induction others generalizing left with
  | nil => rfl
  | cons next others ih => exact ih (.or left next.2.expr)

theorem AndTree.expr_ofOperands (first : UnaryTree) (others : List (Nat × UnaryTree)) :
    (AndTree.ofOperands first others).expr = others.foldl (fun left next => .and left next.2.expr) first.expr := by
  rw [ofOperands, expr]
  generalize first.expr = left
  induction others generalizing left with
  | nil => rfl
  | cons next others ih => exact ih (.and left next.2.expr)

theorem OrTree.places_ofOperands (around : Nat) (first : AndTree) (others : List (Nat × AndTree)) :
    (OrTree.ofOperands first others).places around =
      first.places around ++ others.flatMap fun next => ⟨⟨.or, next.1⟩, around⟩ :: next.2.places around := by
  rw [ofOperands, places]
  congr 1
  induction others with
  | nil => rfl
  | cons next others ih => simp only [List.foldr_cons, OrTail.places, ih, List.flatMap_cons, List.cons_append]

theorem AndTree.places_ofOperands (around : Nat) (first : UnaryTree) (others : List (Nat × UnaryTree)) :
    (AndTree.ofOperands first others).places around =
      first.places around ++ others.flatMap fun next => ⟨⟨.and, next.1⟩, around⟩ :: next.2.places around := by
  rw [ofOperands, places]
  congr 1
  induction others with
  | nil => rfl
  | cons next others ih => simp only [List.foldr_cons, AndTail.places, ih, List.flatMap_cons, List.cons_append]

theorem UnaryTree.places_ne_nil (around : Nat) (tree : UnaryTree) : tree.places around ≠ [] := by
  cases tree with
  | not position operand => simp [places]
  | primary tree => cases tree <;> simp [places, PrimaryTree.places]

theorem OrTree.places_ne_nil (around : Nat) (tree : OrTree) : tree.places around ≠ [] := by
  obtain ⟨⟨first, tail⟩, tail'⟩ := tree
  simp [places, AndTree.places, UnaryTree.places_ne_nil]

def tokensOf (places : List Place) : List Token := places.map Place.token

@[simp] theorem tokensOf_nil : tokensOf [] = [] := rfl

@[simp] theorem tokensOf_cons (place : Place) (places : List Place) :
    tokensOf (place :: places) = place.token :: tokensOf places := rfl

@[simp] theorem tokensOf_append (first second : List Place) :
    tokensOf (first ++ second) = tokensOf first ++ tokensOf second :=
  List.map_append

def Ends (symbol : Symbol) (rest : List Token) : Prop := ∀ token ∈ rest.head?, token.symbol ≠ symbol

@[simp] theorem ends_nil (symbol : Symbol) : Ends symbol [] := by
  simp [Ends]

@[simp] theorem ends_cons {symbol : Symbol} {token : Token} {rest : List Token} :
    Ends symbol (token :: rest) ↔ token.symbol ≠ symbol := by
  simp [Ends]

theorem OrTail.ends_and {rest : List Token} (h : Ends .and rest) (around : Nat) (tail : OrTail) :
    Ends .and (tokensOf (tail.places around) ++ rest) := by
  cases tail with
  | nil => exact h
  | cons position next tail => simp [OrTail.places]

mutual
theorem OrTree.unique {around : Nat} {rest rest' : List Token} (tree tree' : OrTree)
    (hand : Ends .and rest) (hor : Ends .or rest) (hand' : Ends .and rest') (hor' : Ends .or rest')
    (h : tokensOf (tree.places around) ++ rest = tokensOf (tree'.places around) ++ rest') :
    tree = tree' ∧ rest = rest' := by
  obtain ⟨first, tail⟩ := tree
  obtain ⟨first', tail'⟩ := tree'
  simp only [OrTree.places, tokensOf_append, List.append_assoc] at h
  obtain ⟨rfl, htail⟩ := AndTree.unique first first' (tail.ends_and hand around) (tail'.ends_and hand' around) h
  obtain ⟨rfl, hrest⟩ := OrTail.unique tail tail' hand hor hand' hor' htail
  exact ⟨rfl, hrest⟩
termination_by structural tree

theorem OrTail.unique {around : Nat} {rest rest' : List Token} (tail tail' : OrTail)
    (hand : Ends .and rest) (hor : Ends .or rest) (hand' : Ends .and rest') (hor' : Ends .or rest')
    (h : tokensOf (tail.places around) ++ rest = tokensOf (tail'.places around) ++ rest') :
    tail = tail' ∧ rest = rest' := by
  cases tail with
  | nil =>
      cases tail' with
      | nil => exact ⟨rfl, h⟩
      | cons position' next' tail' =>
          simp only [OrTail.places, tokensOf_nil, tokensOf_cons, List.nil_append, List.cons_append] at h
          simp [h] at hor
  | cons position next tail =>
      cases tail' with
      | nil =>
          simp only [OrTail.places, tokensOf_nil, tokensOf_cons, List.nil_append, List.cons_append] at h
          simp [← h] at hor'
      | cons position' next' tail' =>
          simp only [OrTail.places, tokensOf_cons, tokensOf_append, List.cons_append, List.append_assoc,
            List.cons.injEq, Token.mk.injEq, true_and] at h
          obtain ⟨rfl, hnext⟩ := h
          obtain ⟨rfl, htail⟩ := AndTree.unique next next' (tail.ends_and hand around) (tail'.ends_and hand' around) hnext
          obtain ⟨rfl, hrest⟩ := OrTail.unique tail tail' hand hor hand' hor' htail
          exact ⟨rfl, hrest⟩
termination_by structural tail

theorem AndTree.unique {around : Nat} {rest rest' : List Token} (tree tree' : AndTree)
    (hand : Ends .and rest) (hand' : Ends .and rest')
    (h : tokensOf (tree.places around) ++ rest = tokensOf (tree'.places around) ++ rest') :
    tree = tree' ∧ rest = rest' := by
  obtain ⟨first, tail⟩ := tree
  obtain ⟨first', tail'⟩ := tree'
  simp only [AndTree.places, tokensOf_append, List.append_assoc] at h
  obtain ⟨rfl, htail⟩ := UnaryTree.unique first first' h
  obtain ⟨rfl, hrest⟩ := AndTail.unique tail tail' hand hand' htail
  exact ⟨rfl, hrest⟩
termination_by structural tree

theorem AndTail.unique {around : Nat} {rest rest' : List Token} (tail tail' : AndTail)
    (hand : Ends .and rest) (hand' : Ends .and rest')
    (h : tokensOf (tail.places around) ++ rest = tokensOf (tail'.places around) ++ rest') :
    tail = tail' ∧ rest = rest' := by
  cases tail with
  | nil =>
      cases tail' with
      | nil => exact ⟨rfl, h⟩
      | cons position' next' tail' =>
          simp only [AndTail.places, tokensOf_nil, tokensOf_cons, List.nil_append, List.cons_append] at h
          simp [h] at hand
  | cons position next tail =>
      cases tail' with
      | nil =>
          simp only [AndTail.places, tokensOf_nil, tokensOf_cons, List.nil_append, List.cons_append] at h
          simp [← h] at hand'
      | cons position' next' tail' =>
          simp only [AndTail.places, tokensOf_cons, tokensOf_append, List.cons_append, List.append_assoc,
            List.cons.injEq, Token.mk.injEq, true_and] at h
          obtain ⟨rfl, hnext⟩ := h
          obtain ⟨rfl, htail⟩ := UnaryTree.unique next next' hnext
          obtain ⟨rfl, hrest⟩ := AndTail.unique tail tail' hand hand' htail
          exact ⟨rfl, hrest⟩
termination_by structural tail

theorem UnaryTree.unique {around : Nat} {rest rest' : List Token} (tree tree' : UnaryTree)
    (h : tokensOf (tree.places around) ++ rest = tokensOf (tree'.places around) ++ rest') :
    tree = tree' ∧ rest = rest' := by
  cases tree with
  | not position operand =>
      cases tree' with
      | not position' operand' =>
          simp only [UnaryTree.places, tokensOf_cons, List.cons_append, List.cons.injEq, Token.mk.injEq,
            true_and] at h
          obtain ⟨rfl, hoperand⟩ := h
          obtain ⟨rfl, hrest⟩ := UnaryTree.unique operand operand' hoperand
          exact ⟨rfl, hrest⟩
      | primary tree' => cases tree' <;> simp [UnaryTree.places, PrimaryTree.places] at h
  | primary tree =>
      cases tree' with
      | not position' operand' => cases tree <;> simp [UnaryTree.places, PrimaryTree.places] at h
      | primary tree' =>
          obtain ⟨rfl, hrest⟩ := PrimaryTree.unique tree tree' h
          exact ⟨rfl, hrest⟩
termination_by structural tree

theorem PrimaryTree.unique {around : Nat} {rest rest' : List Token} (tree tree' : PrimaryTree)
    (h : tokensOf (tree.places around) ++ rest = tokensOf (tree'.places around) ++ rest') :
    tree = tree' ∧ rest = rest' := by
  cases tree with
  | group opened closed inner =>
      cases tree' with
      | group opened' closed' inner' =>
          simp only [PrimaryTree.places, tokensOf_cons, tokensOf_append, tokensOf_nil, List.cons_append,
            List.append_assoc, List.nil_append, List.cons.injEq, Token.mk.injEq, true_and] at h
          obtain ⟨rfl, hinner⟩ := h
          obtain ⟨rfl, hclose⟩ := OrTree.unique inner inner' (by simp) (by simp) (by simp) (by simp) hinner
          simp only [List.cons.injEq, Token.mk.injEq, true_and] at hclose
          obtain ⟨rfl, hrest⟩ := hclose
          exact ⟨rfl, hrest⟩
      | member position' group' => simp [PrimaryTree.places] at h
  | member position group =>
      cases tree' with
      | group opened' closed' inner' => simp [PrimaryTree.places] at h
      | member position' group' => simpa [PrimaryTree.places, and_comm] using h
termination_by structural tree
end

/-- The grammar is unambiguous: tokens have one tree at most. -/
theorem OrTree.eq_of_tokens_eq {tree tree' : OrTree} (h : tokensOf (tree.places 0) = tokensOf (tree'.places 0)) :
    tree = tree' := by
  have hnil : tokensOf (tree.places 0) ++ [] = tokensOf (tree'.places 0) ++ [] := by rw [h]
  exact (OrTree.unique tree tree' (ends_nil _) (ends_nil _) (ends_nil _) (ends_nil _) hnil).1

end Groupwise.Expr
