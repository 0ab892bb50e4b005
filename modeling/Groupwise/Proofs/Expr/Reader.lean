import Groupwise.Expr.Parser

namespace Groupwise.Expr

namespace State

variable {p : State → Prop}

def plain (x : Except Error (Expr × { t : State // p t })) : Except Error (Expr × State) :=
  (fun r => (r.1, r.2.1)) <$> x

@[simp] theorem plain_ok (e : Expr) (t : { t : State // p t }) : plain (.ok (e, t)) = .ok (e, t.1) := rfl

@[simp] theorem plain_error (fault : Error) : plain (p := p) (.error fault) = .error fault := rfl

theorem of_plain_eq_ok {x : Except Error (Expr × { t : State // p t })} {e : Expr} {t : State}
    (h : plain x = .ok (e, t)) : p t := by
  rcases x with fault | ⟨e', t', ht'⟩
  · contradiction
  · simp only [plain_ok, Except.ok.injEq, Prod.mk.injEq] at h
    obtain ⟨-, rfl⟩ := h
    exact ht'

def close (stop opened : Nat) (r : Expr × State) : Except Error (Expr × State) :=
  match r.2.tokens with
  | [] => .error ⟨.missingClose opened, stop⟩
  | token :: rest =>
    if token.symbol = .close then .ok (r.1, ⟨rest, r.2.depth - 1⟩)
    else .error ⟨.notAClose opened token.symbol, token.position⟩

end State

open State

section Readers

variable (stop : Nat)

theorem plain_readOr (s : State) :
    plain (readOr stop s) = plain (readAnd stop s) >>= fun r => plain (readOrs stop r.1 r.2) := by
  rw [readOr]
  rcases readAnd stop s with fault | ⟨left, t, ht⟩
  · rfl
  · simp only [Outcome.ok_bind, plain_ok]
    rcases readOrs stop left t with fault | ⟨e, u, hu⟩ <;> rfl

theorem plain_readOrs_of_next (left : Expr) {s : State} (h : s.nextIs .or) :
    plain (readOrs stop left s) =
      plain (readAnd stop s.pass) >>= fun r => plain (readOrs stop (.or left r.1) r.2) := by
  rw [readOrs, dif_pos h]
  rcases readAnd stop s.pass with fault | ⟨right, t, ht⟩
  · rfl
  · simp only [Outcome.ok_bind, plain_ok]
    rcases readOrs stop (.or left right) t with fault | ⟨e, u, hu⟩ <;> rfl

theorem plain_readOrs_of_not_next (left : Expr) {s : State} (h : ¬ s.nextIs .or) :
    plain (readOrs stop left s) = .ok (left, s) := by
  rw [readOrs, dif_neg h]
  rfl

theorem plain_readAnd (s : State) :
    plain (readAnd stop s) = plain (readUnary stop s) >>= fun r => plain (readAnds stop r.1 r.2) := by
  rw [readAnd]
  rcases readUnary stop s with fault | ⟨left, t, ht⟩
  · rfl
  · simp only [Outcome.ok_bind, plain_ok]
    rcases readAnds stop left t with fault | ⟨e, u, hu⟩ <;> rfl

theorem plain_readAnds_of_next (left : Expr) {s : State} (h : s.nextIs .and) :
    plain (readAnds stop left s) =
      plain (readUnary stop s.pass) >>= fun r => plain (readAnds stop (.and left r.1) r.2) := by
  rw [readAnds, dif_pos h]
  rcases readUnary stop s.pass with fault | ⟨right, t, ht⟩
  · rfl
  · simp only [Outcome.ok_bind, plain_ok]
    rcases readAnds stop (.and left right) t with fault | ⟨e, u, hu⟩ <;> rfl

theorem plain_readAnds_of_not_next (left : Expr) {s : State} (h : ¬ s.nextIs .and) :
    plain (readAnds stop left s) = .ok (left, s) := by
  rw [readAnds, dif_neg h]
  rfl

theorem plain_readUnary_not (position depth : Nat) (rest : List Token) :
    plain (readUnary stop ⟨⟨.not, position⟩ :: rest, depth⟩) =
      if depth < maxDepth then
        plain (readUnary stop ⟨rest, depth + 1⟩) >>= fun r => .ok (.not r.1, r.2.ascend)
      else .error ⟨.tooDeep, position⟩ := by
  rw [readUnary]
  by_cases hdepth : depth < maxDepth
  · simp only [if_pos hdepth]
    rcases readUnary stop ⟨rest, depth + 1⟩ with fault | ⟨operand, t, ht⟩ <;> rfl
  · simp only [if_neg hdepth]
    rfl

theorem plain_readUnary_of_not_next {s : State} (h : ¬ s.nextIs .not) :
    plain (readUnary stop s) = plain (readPrimary stop s) := by
  obtain ⟨ts, depth⟩ := s
  cases ts with
  | nil => rw [readUnary, readPrimary]
  | cons token rest =>
      obtain ⟨symbol, position⟩ := token
      cases symbol with
      | not => simp [nextIs] at h
      | «open» | close | and | or | member => rw [readUnary]

theorem plain_readPrimary_nil (depth : Nat) :
    plain (readPrimary stop ⟨[], depth⟩) = .error ⟨.missingOperand, stop⟩ := by
  rw [readPrimary]
  rfl

theorem plain_readPrimary_member (group : String) (position depth : Nat) (rest : List Token) :
    plain (readPrimary stop ⟨⟨.member group, position⟩ :: rest, depth⟩) = .ok (.member group, ⟨rest, depth⟩) := by
  rw [readPrimary]
  rfl

theorem plain_readPrimary_open (opened depth : Nat) (rest : List Token) :
    plain (readPrimary stop ⟨⟨.open, opened⟩ :: rest, depth⟩) = plain (readGroup stop opened ⟨rest, depth⟩) := by
  rw [readPrimary]
  simp only
  rcases readGroup stop opened ⟨rest, depth⟩ with fault | ⟨e, t, ht⟩ <;> rfl

theorem plain_readPrimary_other {token : Token} (hmember : ∀ group, token.symbol ≠ .member group)
    (hopen : token.symbol ≠ .open) (depth : Nat) (rest : List Token) :
    plain (readPrimary stop ⟨token :: rest, depth⟩) = .error ⟨.notAnOperand token.symbol, token.position⟩ := by
  obtain ⟨symbol, position⟩ := token
  cases symbol with
  | member group => exact absurd rfl (hmember group)
  | «open» => contradiction
  | close | and | or | not =>
      rw [readPrimary]
      rfl

theorem plain_readGroup (opened depth : Nat) (tokens : List Token) :
    plain (readGroup stop opened ⟨tokens, depth⟩) =
      if depth < maxDepth then
        plain (readOr stop ⟨tokens, depth + 1⟩) >>= close stop opened
      else .error ⟨.tooDeep, opened⟩ := by
  rw [readGroup]
  by_cases hdepth : depth < maxDepth
  · simp only [if_pos hdepth]
    rcases readOr stop ⟨tokens, depth + 1⟩ with fault | ⟨e, ⟨left, depth'⟩, ht⟩
    · rfl
    · simp only [Outcome.ok_bind, plain_ok, ascend]
      cases left with
      | nil => rfl
      | cons token rest => by_cases hclose : token.symbol = .close <;> simp [close, hclose]
  · simp only [if_neg hdepth]
    rfl

theorem exists_of_readGroup_eq_ok {opened depth : Nat} {ts : List Token} {e : Expr} {t : State}
    (h : plain (readGroup stop opened ⟨ts, depth⟩) = .ok (e, t)) :
    depth < maxDepth ∧ ∃ u closed, plain (readOr stop ⟨ts, depth + 1⟩) = .ok (e, u) ∧
      u.tokens = ⟨.close, closed⟩ :: t.tokens ∧ t.depth = u.depth - 1 := by
  rw [plain_readGroup] at h
  split at h
  · next hdepth =>
    refine ⟨hdepth, ?_⟩
    obtain ⟨⟨e', us, depth'⟩, hinner, hclose⟩ := Outcome.bind_eq_ok.1 h
    cases us with
    | nil => contradiction
    | cons token rest =>
        obtain ⟨symbol, position⟩ := token
        by_cases hsymbol : symbol = .close
        · simp only [close, if_pos hsymbol, Except.ok.injEq, Prod.mk.injEq] at hclose
          obtain ⟨rfl, rfl⟩ := hclose
          exact ⟨⟨⟨symbol, position⟩ :: rest, depth'⟩, position, hinner, by rw [hsymbol], rfl⟩
        · simp [close, if_neg hsymbol] at hclose
  · contradiction

theorem cases_of_readPrimary_eq_ok {s t : State} {e : Expr} (h : plain (readPrimary stop s) = .ok (e, t)) :
    (∃ group position, s = ⟨⟨.member group, position⟩ :: t.tokens, t.depth⟩ ∧ e = .member group) ∨
      ∃ opened closed rest u, s = ⟨⟨.open, opened⟩ :: rest, s.depth⟩ ∧ s.depth < maxDepth ∧
        plain (readOr stop ⟨rest, s.depth + 1⟩) = .ok (e, u) ∧
        u.tokens = ⟨.close, closed⟩ :: t.tokens ∧ t.depth = u.depth - 1 := by
  obtain ⟨ts, depth⟩ := s
  cases ts with
  | nil =>
      rw [plain_readPrimary_nil] at h
      contradiction
  | cons token rest =>
      obtain ⟨symbol, position⟩ := token
      cases symbol with
      | member group =>
          rw [plain_readPrimary_member] at h
          simp only [Except.ok.injEq, Prod.mk.injEq] at h
          obtain ⟨rfl, rfl⟩ := h
          exact .inl ⟨group, position, rfl, rfl⟩
      | «open» =>
          rw [plain_readPrimary_open] at h
          obtain ⟨hdepth, u, closed, hinner, hu, ht⟩ := exists_of_readGroup_eq_ok stop h
          exact .inr ⟨position, closed, rest, u, rfl, hdepth, hinner, hu, ht⟩
      | close | and | or | not =>
          rw [plain_readPrimary_other stop (by simp) (by simp)] at h
          contradiction

theorem parse_of_tokens {text : String} {ts : List Token} (h : tokens text = .ok ts) (hne : ts ≠ []) :
    parse text =
      plain (readOr text.utf8ByteSize ⟨ts, 0⟩) >>= fun r =>
        match r.2.tokens with
        | [] => .ok r.1
        | token :: _ => .error ⟨.surplus token.symbol, token.position⟩ := by
  simp only [parse, h, Outcome.ok_bind, if_neg hne]
  rcases readOr text.utf8ByteSize ⟨ts, 0⟩ with fault | ⟨e, t, ht⟩ <;> rfl

end Readers

end Groupwise.Expr
