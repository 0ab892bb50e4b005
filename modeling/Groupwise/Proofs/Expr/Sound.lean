import Groupwise.Proofs.Expr.Complete

namespace Groupwise.Expr

open State

structure Passes (places : List Place) (s t : State) : Prop where
  tokens : s.tokens = tokensOf places ++ t.tokens
  depth : t.depth = s.depth
  shallow : ∀ place ∈ places, place.overdeep = false

namespace Passes

variable {first second : List Place} {s t u : State}

theorem refl (s : State) : Passes [] s s := ⟨rfl, rfl, by simp⟩

theorem trans (h : Passes first s t) (h' : Passes second t u) : Passes (first ++ second) s u where
  tokens := by rw [h.tokens, h'.tokens, tokensOf_append, List.append_assoc]
  depth := h'.depth.trans h.depth
  shallow := by
    intro place hplace
    rcases List.mem_append.1 hplace with hplace | hplace
    · exact h.shallow place hplace
    · exact h'.shallow place hplace

theorem single {token : Token} {rest : List Token} {depth : Nat} (h : Place.overdeep ⟨token, depth⟩ = false) :
    Passes [⟨token, depth⟩] ⟨token :: rest, depth⟩ ⟨rest, depth⟩ :=
  ⟨rfl, rfl, by simpa using h⟩

theorem opened {token : Token} {rest : List Token} {depth : Nat} (hdepth : depth < maxDepth)
    (h : Passes first ⟨rest, depth + 1⟩ t) : Passes (⟨token, depth⟩ :: first) ⟨token :: rest, depth⟩ t.ascend where
  tokens := congrArg (token :: ·) h.tokens
  depth := by
    have hdepth' := h.depth
    simp only at hdepth'
    simp [ascend, hdepth']
  shallow := by
    intro place hplace
    rcases List.mem_cons.1 hplace with rfl | hplace
    · simp [Place.overdeep, hdepth]
    · exact h.shallow place hplace

theorem enclosed {position closed depth : Nat} {rest : List Token} (hdepth : depth < maxDepth)
    (h : Passes first ⟨rest, depth + 1⟩ t) (ht : t.tokens = ⟨.close, closed⟩ :: u.tokens)
    (hu : u.depth = t.depth - 1) :
    Passes (⟨⟨.open, position⟩, depth⟩ :: (first ++ [⟨⟨.close, closed⟩, depth⟩]))
      ⟨⟨.open, position⟩ :: rest, depth⟩ u := by
  have hclose : Passes [⟨⟨.close, closed⟩, depth⟩] t.ascend u := by
    obtain ⟨ts, depth'⟩ := t
    obtain ⟨us, depth''⟩ := u
    have hdepth' : depth' = depth + 1 := h.depth
    simp only at ht hu
    subst ht hu hdepth'
    exact .single rfl
  exact (h.opened hdepth).trans hclose

end Passes

theorem exists_of_next {symbol : Symbol} {s : State} (h : s.nextIs symbol) :
    ∃ position rest, s = ⟨⟨symbol, position⟩ :: rest, s.depth⟩ := by
  obtain ⟨ts, depth⟩ := s
  cases ts with
  | nil => simp [nextIs] at h
  | cons token rest =>
      obtain ⟨found, position⟩ := token
      exact ⟨position, rest, by simpa [nextIs] using h⟩

mutual
theorem exists_orTree {stop : Nat} {s t : State} {e : Expr} (h : plain (readOr stop s) = .ok (e, t)) :
    ∃ tree : OrTree, Passes (tree.places s.depth) s t ∧ tree.expr = e := by
  -- The recursion is that of the readers, on the tokens that are left.
  rw [plain_readOr] at h
  obtain ⟨⟨left, u⟩, hleft, htail⟩ := Outcome.bind_eq_ok.1 h
  obtain ⟨first, hfirst, rfl⟩ := exists_andTree hleft
  have hlength := of_plain_eq_ok hleft
  obtain ⟨tail, hpasses, rfl⟩ := exists_orTail htail
  rw [hfirst.depth] at hpasses
  exact ⟨.chain first tail, hfirst.trans hpasses, rfl⟩
termination_by (s.tokens.length, 4)

theorem exists_orTail {stop : Nat} {s t : State} {left e : Expr} (h : plain (readOrs stop left s) = .ok (e, t)) :
    ∃ tail : OrTail, Passes (tail.places s.depth) s t ∧ tail.expr left = e := by
  by_cases hnext : s.nextIs .or
  · have hlength := length_pass hnext
    obtain ⟨position, rest, hs⟩ := exists_of_next hnext
    rw [plain_readOrs_of_next stop left hnext] at h
    obtain ⟨⟨right, u⟩, hright, htail⟩ := Outcome.bind_eq_ok.1 h
    obtain ⟨next, hpasses, rfl⟩ := exists_andTree hright
    have hlength' : u.tokens.length < s.tokens.length := Nat.lt_trans (of_plain_eq_ok hright) hlength
    obtain ⟨tail, hpasses', rfl⟩ := exists_orTail htail
    rw [hpasses.depth] at hpasses'
    refine ⟨.cons position next tail, ?_, rfl⟩
    rw [hs]
    apply Passes.trans (Passes.single (by simp [Place.overdeep, Symbol.opens]))
    rw [hs] at hpasses hpasses'
    exact hpasses.trans hpasses'
  · rw [plain_readOrs_of_not_next stop left hnext] at h
    simp only [Except.ok.injEq, Prod.mk.injEq] at h
    obtain ⟨rfl, rfl⟩ := h
    exact ⟨.nil, .refl s, rfl⟩
termination_by (s.tokens.length, 0)

theorem exists_andTree {stop : Nat} {s t : State} {e : Expr} (h : plain (readAnd stop s) = .ok (e, t)) :
    ∃ tree : AndTree, Passes (tree.places s.depth) s t ∧ tree.expr = e := by
  rw [plain_readAnd] at h
  obtain ⟨⟨left, u⟩, hleft, htail⟩ := Outcome.bind_eq_ok.1 h
  obtain ⟨first, hfirst, rfl⟩ := exists_unaryTree hleft
  have hlength := of_plain_eq_ok hleft
  obtain ⟨tail, hpasses, rfl⟩ := exists_andTail htail
  rw [hfirst.depth] at hpasses
  exact ⟨.chain first tail, hfirst.trans hpasses, rfl⟩
termination_by (s.tokens.length, 3)

theorem exists_andTail {stop : Nat} {s t : State} {left e : Expr} (h : plain (readAnds stop left s) = .ok (e, t)) :
    ∃ tail : AndTail, Passes (tail.places s.depth) s t ∧ tail.expr left = e := by
  by_cases hnext : s.nextIs .and
  · have hlength := length_pass hnext
    obtain ⟨position, rest, hs⟩ := exists_of_next hnext
    rw [plain_readAnds_of_next stop left hnext] at h
    obtain ⟨⟨right, u⟩, hright, htail⟩ := Outcome.bind_eq_ok.1 h
    obtain ⟨next, hpasses, rfl⟩ := exists_unaryTree hright
    have hlength' : u.tokens.length < s.tokens.length := Nat.lt_trans (of_plain_eq_ok hright) hlength
    obtain ⟨tail, hpasses', rfl⟩ := exists_andTail htail
    rw [hpasses.depth] at hpasses'
    refine ⟨.cons position next tail, ?_, rfl⟩
    rw [hs]
    apply Passes.trans (Passes.single (by simp [Place.overdeep, Symbol.opens]))
    rw [hs] at hpasses hpasses'
    exact hpasses.trans hpasses'
  · rw [plain_readAnds_of_not_next stop left hnext] at h
    simp only [Except.ok.injEq, Prod.mk.injEq] at h
    obtain ⟨rfl, rfl⟩ := h
    exact ⟨.nil, .refl s, rfl⟩
termination_by (s.tokens.length, 0)

theorem exists_unaryTree {stop : Nat} {s t : State} {e : Expr} (h : plain (readUnary stop s) = .ok (e, t)) :
    ∃ tree : UnaryTree, Passes (tree.places s.depth) s t ∧ tree.expr = e := by
  by_cases hnext : s.nextIs .not
  · obtain ⟨position, rest, hs⟩ := exists_of_next hnext
    have hlength : rest.length < s.tokens.length := by
      rw [hs]
      simp
    rw [hs, plain_readUnary_not] at h
    split at h
    · next hdepth =>
      obtain ⟨⟨inner, u⟩, hinner, ht⟩ := Outcome.bind_eq_ok.1 h
      obtain ⟨operand, hpasses, rfl⟩ := exists_unaryTree hinner
      simp only [Except.ok.injEq, Prod.mk.injEq] at ht
      obtain ⟨rfl, rfl⟩ := ht
      refine ⟨.not position operand, ?_, rfl⟩
      rw [hs]
      exact hpasses.opened hdepth
    · contradiction
  · rw [plain_readUnary_of_not_next stop hnext] at h
    obtain ⟨tree, hpasses, rfl⟩ := exists_primaryTree h
    exact ⟨.primary tree, hpasses, rfl⟩
termination_by (s.tokens.length, 2)

theorem exists_primaryTree {stop : Nat} {s t : State} {e : Expr} (h : plain (readPrimary stop s) = .ok (e, t)) :
    ∃ tree : PrimaryTree, Passes (tree.places s.depth) s t ∧ tree.expr = e := by
  rcases cases_of_readPrimary_eq_ok stop h with
    ⟨group, position, rfl, rfl⟩ | ⟨opened, closed, rest, u, hs, hdepth, hinner, hu, ht⟩
  · exact ⟨.member position group, .single rfl, rfl⟩
  · have hlength : rest.length < s.tokens.length := by
      rw [hs]
      simp
    obtain ⟨inner, hpasses, rfl⟩ := exists_orTree hinner
    refine ⟨.group opened closed inner, ?_, rfl⟩
    rw [hs]
    exact hpasses.enclosed hdepth hu ht
termination_by (s.tokens.length, 1)
end

end Groupwise.Expr
