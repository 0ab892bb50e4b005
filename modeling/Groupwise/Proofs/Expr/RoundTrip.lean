import Groupwise.Proofs.Expr.Rendering

namespace Groupwise.Expr

theorem height_chain (c : Connective) (first : String) (others : List String) :
    (c.chain first others).height = others.length := by
  have hfold : ∀ left : Expr, (others.foldl (fun left group => c.join left (.member group)) left).height =
      left.height + others.length := by
    induction others with
    | nil => exact fun left => rfl
    | cons group others ih =>
        intro left
        rw [List.foldl_cons, ih, height_join, List.length_cons, height, Nat.max_zero]
        omega
  rw [Connective.chain, hfold, height, Nat.zero_add]

theorem message_tooDeep : Fault.message .tooDeep = "expression nests deeper than 64 levels" := rfl

/-- A chain of more than 65 tests is read from its own text, but not from the text in which it is rendered. -/
theorem exists_tooDeep_of_chain {c : Connective} {text first : String} {others : List String}
    (h : List.map Token.symbol <$> tokens text = .ok (c.chainSymbols first others)) (hlength : 65 ≤ others.length) :
    parse text = .ok (c.chain first others) ∧
      ∃ position, parse (c.chain first others).toText = .error ⟨.tooDeep, position⟩ := by
  have hparse := Connective.parse_chain h
  have hheight : maxDepth < (c.chain first others).height := by
    rw [height_chain, maxDepth]
    omega
  obtain ⟨place, -, -, -, -, -, -, herror⟩ := exists_of_height_gt (allNamed_of_parse hparse) hheight
  exact ⟨hparse, _, herror⟩

/--
The text of an expression is read back as that expression if it is at most 64 operators high. Otherwise the first
`(` or `not` that stands inside of 64 groups and operands is reported.
-/
theorem parse_toText :
    (∀ e : Expr, e.AllNamed →
      (e.height ≤ 64 → parse e.toText = .ok e) ∧
      (64 < e.height → ∃ (tree : OrTree) (place : Place) (before after : List Place) (error : Error),
        tokens e.toText = .ok (tokensOf (tree.places 0)) ∧ tree.places 0 = before ++ place :: after ∧
        place.token.symbol.opens ∧ place.around = 64 ∧
        (∀ other ∈ before, other.token.symbol.opens → other.around < 64) ∧
        parse e.toText = .error error ∧ error.kind = .malformed ∧
        error.fault.message = "expression nests deeper than 64 levels" ∧ error.position = place.token.position)) ∧
    (∀ text e, parse text = .ok e → e.AllNamed) ∧
    (∀ e e' : Expr, e.AllNamed → parse e.toText = .ok e' → e'.toText = e.toText) ∧
    (∀ (c : Connective) text first others,
      List.map Token.symbol <$> tokens text = .ok (c.chainSymbols first others) → 66 ≤ (first :: others).length →
      parse text = .ok (c.chain first others) ∧
        ∃ position, parse (c.chain first others).toText = .error ⟨.tooDeep, position⟩) ∧
    (∀ (c : Connective) first others, (∀ group ∈ first :: others, Named group) →
      List.map Token.symbol <$> tokens (c.chainText first others) = .ok (c.chainSymbols first others)) := by
  refine ⟨?_, ?_, ?_, ?_, ?_⟩
  · intro e hnamed
    refine ⟨parse_toText_of_height_le hnamed, ?_⟩
    intro hheight
    obtain ⟨place, before, after, hplaces, hopens, haround, hbefore, herror⟩ := exists_of_height_gt hnamed hheight
    refine ⟨e.wholeDerivation, place, before, after, _, tokens_toText hnamed, hplaces, hopens, haround, ?_, herror,
      rfl, message_tooDeep, rfl⟩
    intro other hother hopens'
    exact Nat.lt_succ_of_le (overdeep_eq_false.1 (hbefore other hother) hopens')
  · intro text e h
    exact allNamed_of_parse h
  · intro e e' hnamed hparse
    by_cases hheight : e.height ≤ 64
    · rw [parse_toText_of_height_le hnamed hheight, Except.ok.injEq] at hparse
      rw [hparse]
    · obtain ⟨place, -, -, -, -, -, -, herror⟩ := exists_of_height_gt hnamed (Nat.lt_of_not_le hheight)
      rw [herror] at hparse
      contradiction
  · intro c text first others hsymbols hlength
    exact exists_tooDeep_of_chain hsymbols (Nat.le_of_succ_le_succ hlength)
  · intro c first others hnamed
    exact c.symbols_chainText hnamed

theorem parse_toText_long_chain :
    let tests := List.replicate 65 "a"
    parse (Connective.or.chainText "a" tests) = .ok (Connective.or.chain "a" tests) ∧
      ∃ position, parse (Connective.or.chain "a" tests).toText = .error ⟨.tooDeep, position⟩ := by
  intro tests
  have hnamed : ∀ group ∈ "a" :: tests, Named group := by decide
  exact parse_toText.2.2.2.1 .or _ "a" tests (parse_toText.2.2.2.2 .or "a" tests hnamed) (by decide)

end Groupwise.Expr
