import Groupwise.Proofs.Ensures
import Groupwise.Proofs.Expr.Sound

namespace Groupwise.Expr

theorem overdeep_eq_false {place : Place} :
    place.overdeep = false ↔ (place.token.symbol.opens → place.around ≤ 63) := by
  cases hopens : place.token.symbol.opens
  · simp [Place.overdeep, hopens]
  · simp only [Place.overdeep, hopens, Bool.true_and, decide_eq_false_iff_not, forall_const]
    rw [maxDepth]
    omega

theorem parse_of_tree {text : String} {tree : OrTree} (h : tokens text = .ok (tokensOf (tree.places 0))) :
    parse text = Prod.fst <$> reading (tree.places 0) tree.expr ⟨[], 0⟩ := by
  have hne : tokensOf (tree.places 0) ≠ [] := by
    simp [tokensOf, tree.places_ne_nil]
  have hread := OrTree.read text.utf8ByteSize 0 (ends_nil _) (ends_nil _) tree
  rw [List.append_nil] at hread
  rw [parse_of_tokens h hne, hread, reading]
  cases (tree.places 0).find? Place.overdeep <;> rfl

theorem parse_of_shallow {text : String} {tree : OrTree} (h : tokens text = .ok (tokensOf (tree.places 0)))
    (hshallow : ∀ place ∈ tree.places 0, place.overdeep = false) : parse text = .ok tree.expr := by
  have hfind : (tree.places 0).find? Place.overdeep = none := by
    simpa using hshallow
  rw [parse_of_tree h, reading, hfind]
  rfl

theorem parse_of_find_overdeep {text : String} {tree : OrTree} {place : Place}
    (h : tokens text = .ok (tokensOf (tree.places 0))) (hfind : (tree.places 0).find? Place.overdeep = some place) :
    parse text = .error ⟨.tooDeep, place.token.position⟩ := by
  rw [parse_of_tree h, reading, hfind]
  rfl

theorem exists_of_parse_eq_ok {text : String} {e : Expr} (h : parse text = .ok e) :
    ∃ tree : OrTree, tokens text = .ok (tokensOf (tree.places 0)) ∧ tree.expr = e ∧
      ∀ place ∈ tree.places 0, place.overdeep = false := by
  have h' := h
  rw [parse] at h'
  obtain ⟨ts, hts, h'⟩ := Outcome.bind_eq_ok.1 h'
  have hne : ts ≠ [] := by
    rintro rfl
    simp at h'
  rw [parse_of_tokens hts hne] at h
  obtain ⟨⟨e', rest, depth⟩, hread, hend⟩ := Outcome.bind_eq_ok.1 h
  obtain ⟨tree, hpasses, rfl⟩ := exists_orTree hread
  cases rest with
  | nil =>
      simp only [Except.ok.injEq] at hend
      refine ⟨tree, ?_, hend, hpasses.shallow⟩
      have htokens := hpasses.tokens
      simp only [List.append_nil] at htokens
      rw [hts, htokens]
  | cons token rest => contradiction

theorem shallow_operands {α : Type} {places : α → List Place} {joiner : Symbol} (hjoiner : joiner.opens = false)
    {first : α} {others : List (Nat × α)}
    (h : ∀ operand ∈ first :: others.map Prod.snd, ∀ place ∈ places operand, place.overdeep = false) :
    ∀ place ∈ places first ++ others.flatMap (fun next => ⟨⟨joiner, next.1⟩, 0⟩ :: places next.2),
      place.overdeep = false := by
  intro place hplace
  rw [List.mem_append, List.mem_flatMap] at hplace
  rcases hplace with hplace | ⟨next, hnext, hplace⟩
  · exact h first List.mem_cons_self place hplace
  · rcases List.mem_cons.1 hplace with rfl | hplace
    · simp [Place.overdeep, hjoiner]
    · have hoperand : next.2 ∈ first :: others.map Prod.snd :=
        List.mem_cons_of_mem first (List.mem_map_of_mem hnext)
      exact h next.2 hoperand place hplace

theorem parse_of_shallow_operands {text : String} {first : AndTree} {others : List (Nat × AndTree)}
    (h : tokens text = .ok (tokensOf ((OrTree.ofOperands first others).places 0)))
    (hshallow : ∀ operand ∈ first :: others.map Prod.snd, ∀ place ∈ operand.places 0, place.overdeep = false) :
    parse text = .ok (others.foldl (fun left next => .or left next.2.expr) first.expr) := by
  rw [parse_of_shallow h, OrTree.expr_ofOperands]
  rw [OrTree.places_ofOperands]
  exact shallow_operands rfl hshallow

theorem parse_of_shallow_factors {text : String} {first : UnaryTree} {others : List (Nat × UnaryTree)}
    (h : tokens text = .ok (tokensOf ((AndTree.ofOperands first others).places 0)))
    (hshallow : ∀ operand ∈ first :: others.map Prod.snd, ∀ place ∈ operand.places 0, place.overdeep = false) :
    parse text = .ok (others.foldl (fun left next => .and left next.2.expr) first.expr) := by
  have htokens : tokens text = .ok (tokensOf ((OrTree.chain (.ofOperands first others) .nil).places 0)) := by
    rw [h, OrTree.places, OrTail.places, List.append_nil]
  rw [parse_of_shallow htokens, OrTree.expr, OrTail.expr, AndTree.expr_ofOperands]
  rw [OrTree.places, OrTail.places, List.append_nil, AndTree.places_ofOperands]
  exact shallow_operands rfl hshallow

/-- The reader accepts what the grammar derives, as long as no group and no negation stands inside of more
than 63 others. No chain is too long, and no tokens have two derivations. -/
theorem parse_accepts_grammar :
    (∀ text e, parse text = .ok e ↔
      ∃ ts, tokens text = .ok ts ∧ ∃ tree : OrTree, tokensOf (tree.places 0) = ts ∧ tree.expr = e ∧
        ∀ place ∈ tree.places 0, place.token.symbol.opens → place.around ≤ 63) ∧
    (∀ text (first : AndTree) (others : List (Nat × AndTree)),
      tokens text = .ok (tokensOf ((OrTree.ofOperands first others).places 0)) →
      (∀ operand ∈ first :: others.map Prod.snd, ∀ place ∈ operand.places 0,
        place.token.symbol.opens → place.around ≤ 63) →
      parse text = .ok (others.foldl (fun left next => .or left next.2.expr) first.expr)) ∧
    (∀ text (first : UnaryTree) (others : List (Nat × UnaryTree)),
      tokens text = .ok (tokensOf ((AndTree.ofOperands first others).places 0)) →
      (∀ operand ∈ first :: others.map Prod.snd, ∀ place ∈ operand.places 0,
        place.token.symbol.opens → place.around ≤ 63) →
      parse text = .ok (others.foldl (fun left next => .and left next.2.expr) first.expr)) ∧
    (∀ tree tree' : OrTree, tokensOf (tree.places 0) = tokensOf (tree'.places 0) → tree = tree') := by
  simp only [← overdeep_eq_false]
  refine ⟨?_, ?_, ?_, ?_⟩
  · intro text e
    constructor
    · intro h
      obtain ⟨tree, htokens, hexpr, hshallow⟩ := exists_of_parse_eq_ok h
      exact ⟨_, htokens, tree, rfl, hexpr, hshallow⟩
    · rintro ⟨ts, htokens, tree, rfl, rfl, hshallow⟩
      exact parse_of_shallow htokens hshallow
  · intro text first others htokens hshallow
    exact parse_of_shallow_operands htokens hshallow
  · intro text first others htokens hshallow
    exact parse_of_shallow_factors htokens hshallow
  · intro tree tree' h
    exact OrTree.eq_of_tokens_eq h

theorem parse_accepts_grammar_mixed :
    parse "#user.contains('a') or not #user.contains('b') and (#user.contains('c'))" =
      .ok (.or (.member "a") (.and (.not (.member "b")) (.member "c"))) :=
  parse_accepts_grammar.2.1 _ (.chain (.primary (.member 0 "a")) .nil)
    [(20, .ofOperands (.not 23 (.primary (.member 27 "b"))) [(47, .primary (.group 51 71
      (.chain (.chain (.primary (.member 52 "c")) .nil) .nil)))])]
    (Outcome.eq_ok_of_toOption (by decide +kernel)) (by decide +kernel)

end Groupwise.Expr
