import Groupwise.Proofs.Expr.Lexer
import Groupwise.Proofs.Expr.Parser

namespace Groupwise.Expr

open Text (byteSize)

inductive Connective where
  | and
  | or

namespace Connective

def join : Connective → Expr → Expr → Expr
  | .and => .and
  | .or => .or

def symbol : Connective → Symbol
  | .and => .and
  | .or => .or

def word : Connective → List Char
  | .and => " and ".toList
  | .or => " or ".toList

theorem opens_symbol (c : Connective) : c.symbol.opens = false := by
  cases c <;> rfl

theorem induction {motive : Expr → Prop} (member : ∀ group, motive (.member group))
    (not : ∀ operand, motive operand → motive (.not operand))
    (join : ∀ (c : Connective) left right, motive left → motive right → motive (c.join left right)) (e : Expr) :
    motive e := by
  induction e with
  | member group => exact member group
  | not operand ih => exact not operand ih
  | and left right ihl ihr => exact join .and left right ihl ihr
  | or left right ihl ihr => exact join .or left right ihl ihr

theorem tokensFrom_word (c : Connective) (offset : Nat) (rest : List Char) :
    tokensFrom ⟨offset, c.word ++ rest⟩ =
      (⟨c.symbol, offset + 1⟩ :: ·) <$> tokensFrom ⟨offset + byteSize c.word, rest⟩ := by
  cases c with
  | and => exact tokensFrom_and offset rest
  | or => exact tokensFrom_or offset rest

def chain (c : Connective) (first : String) (others : List String) : Expr :=
  others.foldl (fun left group => c.join left (.member group)) (.member first)

def chainText (c : Connective) (first : String) (others : List String) : String :=
  String.ofList (memberText first ++ others.flatMap fun group => c.word ++ memberText group)

def chainSymbols (c : Connective) (first : String) (others : List String) : List Symbol :=
  .member first :: others.flatMap fun group => [c.symbol, .member group]

theorem symbols_tokensFrom_others (c : Connective) {others : List String} (h : ∀ group ∈ others, Named group)
    (offset : Nat) :
    List.map Token.symbol <$> tokensFrom ⟨offset, others.flatMap fun group => c.word ++ memberText group⟩ =
      .ok (others.flatMap fun group => [c.symbol, .member group]) := by
  induction others generalizing offset with
  | nil =>
      rw [List.flatMap_nil, tokensFrom_nil]
      rfl
  | cons group others ih =>
      rw [List.forall_mem_cons] at h
      rw [List.flatMap_cons, List.append_assoc, tokensFrom_word, tokensFrom_member h.1, Functor.map_map,
        Functor.map_map]
      have hothers := congrArg (([c.symbol, Symbol.member group] ++ ·) <$> ·)
        (ih h.2 (offset + byteSize c.word + byteSize (memberText group)))
      simp only [Functor.map_map] at hothers
      exact hothers

theorem exists_spots {c : Connective} {others : List String} {ts : List Token}
    (h : ts.map Token.symbol = others.flatMap fun group => [c.symbol, .member group]) :
    ∃ spots : List (Nat × Nat × String), others = spots.map (fun spot => spot.2.2) ∧
      ts = spots.flatMap fun spot => [⟨c.symbol, spot.1⟩, ⟨.member spot.2.2, spot.2.1⟩] := by
  induction others generalizing ts with
  | nil => exact ⟨[], rfl, by simpa using h⟩
  | cons group others ih =>
      rw [List.flatMap_cons, List.cons_append, List.cons_append, List.nil_append] at h
      obtain ⟨joined, rest, rfl, hjoined, h⟩ := List.map_eq_cons_iff.1 h
      obtain ⟨test, rest, rfl, htest, h⟩ := List.map_eq_cons_iff.1 h
      obtain ⟨spots, rfl, rfl⟩ := ih h
      refine ⟨(joined.position, test.position, group) :: spots, rfl, ?_⟩
      rw [List.flatMap_cons, ← hjoined, ← htest]
      rfl

theorem symbols_chainText (c : Connective) {first : String} {others : List String}
    (h : ∀ group ∈ first :: others, Named group) :
    List.map Token.symbol <$> tokens (c.chainText first others) = .ok (c.chainSymbols first others) := by
  rw [List.forall_mem_cons] at h
  rw [tokens, chainText, String.toList_ofList, tokensFrom_member h.1, Functor.map_map]
  have hothers := congrArg ((Symbol.member first :: ·) <$> ·)
    (c.symbols_tokensFrom_others h.2 (0 + byteSize (memberText first)))
  simp only [Functor.map_map] at hothers
  exact hothers

def chainTree (position : Nat) (first : String) (spots : List (Nat × Nat × String)) : Connective → OrTree
  | .and => .chain (.ofOperands (.primary (.member position first))
      (spots.map fun spot => (spot.1, .primary (.member spot.2.1 spot.2.2)))) .nil
  | .or => .ofOperands (.chain (.primary (.member position first)) .nil)
      (spots.map fun spot => (spot.1, .chain (.primary (.member spot.2.1 spot.2.2)) .nil))

theorem expr_chainTree (c : Connective) (position : Nat) (first : String) (spots : List (Nat × Nat × String)) :
    (c.chainTree position first spots).expr = c.chain first (spots.map fun spot => spot.2.2) := by
  cases c with
  | and =>
      rw [chainTree, OrTree.expr, OrTail.expr, AndTree.expr_ofOperands, chain, List.foldl_map, List.foldl_map]
      rfl
  | or =>
      rw [chainTree, OrTree.expr_ofOperands, chain, List.foldl_map, List.foldl_map]
      rfl

theorem places_chainTree (c : Connective) (position : Nat) (first : String) (spots : List (Nat × Nat × String)) :
    (c.chainTree position first spots).places 0 =
      ⟨⟨.member first, position⟩, 0⟩ ::
        spots.flatMap fun spot => [⟨⟨c.symbol, spot.1⟩, 0⟩, ⟨⟨.member spot.2.2, spot.2.1⟩, 0⟩] := by
  cases c with
  | and =>
      rw [chainTree, OrTree.places, OrTail.places, List.append_nil, AndTree.places_ofOperands, List.flatMap_map]
      rfl
  | or =>
      rw [chainTree, OrTree.places_ofOperands, List.flatMap_map]
      rfl

/-- A chain may be as long as it likes. -/
theorem parse_chain {c : Connective} {text first : String} {others : List String}
    (h : List.map Token.symbol <$> tokens text = .ok (c.chainSymbols first others)) :
    parse text = .ok (c.chain first others) := by
  cases htokens : tokens text with
  | error fault =>
      rw [htokens] at h
      contradiction
  | ok ts =>
      rw [htokens, Outcome.map_ok, Except.ok.injEq] at h
      obtain ⟨⟨symbol, position⟩, ts, rfl, rfl, hothers⟩ := List.map_eq_cons_iff.1 h
      obtain ⟨spots, rfl, rfl⟩ := exists_spots hothers
      rw [← expr_chainTree c position]
      apply parse_of_shallow
      · rw [htokens, places_chainTree, tokensOf_cons, tokensOf, List.map_flatMap]
        rfl
      · -- Nothing in a chain stands inside of anything.
        intro place hplace
        rw [places_chainTree, List.mem_cons, List.mem_flatMap] at hplace
        rcases hplace with rfl | ⟨spot, -, hplace⟩
        · rfl
        · simp only [List.mem_cons, List.not_mem_nil, or_false] at hplace
          rcases hplace with rfl | rfl
          · simp [Place.overdeep, c.opens_symbol]
          · rfl

end Connective

end Groupwise.Expr
