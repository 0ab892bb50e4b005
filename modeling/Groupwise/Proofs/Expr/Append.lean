import Groupwise.Proofs.Expr.Cut

namespace Groupwise.Expr

open Text (isBlank byteSize)

def Fault.moved (n : Nat) : Fault → Fault
  | .unterminatedGroup start => .unterminatedGroup (start + n)
  | fault => fault

def Error.moved (n : Nat) (fault : Error) : Error := ⟨fault.fault.moved n, fault.position + n⟩

def Token.moved (n : Nat) (token : Token) : Token := ⟨token.symbol, token.position + n⟩

def Cursor.moved (n : Nat) (c : Cursor) : Cursor := ⟨c.offset + n, c.rest⟩

section relocate

variable {α β γ δ : Type} {n : Nat}

/-- What is read from the same characters that stand so many bytes further on. -/
def relocate (n : Nat) (move : α → β) : Except Error α → Except Error β
  | .ok a => .ok (move a)
  | .error fault => .error (fault.moved n)

theorem relocate_bind {move : α → β} {move' : γ → δ} {f : α → Except Error γ} {g : β → Except Error δ}
    (h : ∀ a, g (move a) = relocate n move' (f a)) (x : Except Error α) :
    relocate n move x >>= g = relocate n move' (x >>= f) := by
  cases x with
  | ok a => exact h a
  | error fault => rfl

end relocate

namespace Cursor

variable (n : Nat) (c : Cursor)

theorem drop_moved (p : Char → Bool) : (c.moved n).drop p = (c.drop p).moved n := by
  simp only [drop, moved, Nat.add_right_comm]

theorem expect_moved (mark : Mark) : (c.moved n).expect mark = relocate n (moved n) (c.expect mark) := by
  obtain ⟨offset, rest⟩ := c
  cases rest with
  | nil => rfl
  | cons x rest =>
      simp only [moved, expect]
      by_cases hx : x = mark.char
      · rw [if_pos hx, if_pos hx, Nat.add_right_comm]
        rfl
      · rw [if_neg hx, if_neg hx]
        rfl

theorem groupName_moved : (c.moved n).groupName = relocate n (Prod.map id (moved n)) c.groupName := by
  rw [groupName, groupName]
  simp only [moved, unquoted]
  cases c.rest.dropWhile (· ≠ '\'') with
  | nil => simp only [relocate, Error.moved, Fault.moved, Nat.add_right_comm]
  | cons quote rest =>
      by_cases hempty : c.rest.takeWhile (· ≠ '\'') = []
      · simp only [hempty, if_true]
        rfl
      · simp only [hempty, if_false, relocate, Prod.map, id, moved, Nat.add_right_comm]

theorem membership_moved (start : Nat) :
    membership (start + n) (c.moved n) = relocate n (Prod.map id (moved n)) (membership start c) := by
  -- Every test is about characters alone, so both readings take the same branch.
  rw [membership, membership]
  change (if c.word = "" then _ else if c.word ≠ "user" then _ else _) = _
  by_cases hempty : c.word = ""
  · rw [if_pos hempty, if_pos hempty]
    rfl
  rw [if_neg hempty, if_neg hempty]
  by_cases huser : c.word ≠ "user"
  · rw [if_pos huser, if_pos huser]
    rfl
  rw [if_neg huser, if_neg huser, drop_moved, expect_moved]
  apply relocate_bind
  intro method
  change (if method.word = "" then _ else if method.word ≠ "contains" then _ else _) = _
  by_cases hmethod : method.word = ""
  · rw [if_pos hmethod, if_pos hmethod]
    rfl
  rw [if_neg hmethod, if_neg hmethod]
  by_cases hcontains : method.word ≠ "contains"
  · rw [if_pos hcontains, if_pos hcontains]
    rfl
  rw [if_neg hcontains, if_neg hcontains, drop_moved, drop_moved, expect_moved]
  apply relocate_bind
  intro opened
  rw [drop_moved, expect_moved]
  apply relocate_bind
  intro quoted
  rw [groupName_moved]
  apply relocate_bind
  rintro ⟨group, named⟩
  change (do let closed ← ((named.moved n).drop isBlank).expect .close; _) = _
  rw [drop_moved, expect_moved]
  apply relocate_bind
  intro closed
  rfl

theorem keyword_moved : (c.moved n).keyword = relocate n (Prod.map id (moved n)) c.keyword := by
  cases h : c.keyword with
  | ok result =>
      obtain ⟨symbol, next⟩ := result
      obtain ⟨hword, rfl⟩ := keyword_eq_ok.1 h
      exact keyword_eq_ok.2 ⟨hword, (drop_moved n c isWordChar).symm⟩
  | error fault =>
      obtain ⟨hword, rfl⟩ := keyword_eq_error.1 h
      exact keyword_eq_error.2 ⟨hword, rfl⟩

theorem token_moved (offset : Nat) (x : Char) (rest : List Char) :
    token (offset + n) x rest = relocate n (Prod.map id (moved n)) (token offset x rest) := by
  rw [token, token, Nat.add_right_comm]
  by_cases hopen : x = '('
  · rw [if_pos hopen, if_pos hopen]
    rfl
  rw [if_neg hopen, if_neg hopen]
  by_cases hclose : x = ')'
  · rw [if_pos hclose, if_pos hclose]
    rfl
  rw [if_neg hclose, if_neg hclose]
  by_cases hhash : x = '#'
  · rw [if_pos hhash, if_pos hhash]
    exact membership_moved n ⟨offset + x.utf8Size, rest⟩ offset
  rw [if_neg hhash, if_neg hhash]
  by_cases hstart : isWordStart x = true
  · rw [if_pos hstart, if_pos hstart]
    exact keyword_moved n ⟨offset, x :: rest⟩
  rw [if_neg hstart, if_neg hstart]
  by_cases hoperator : isOperatorChar x = true
  · rw [if_pos hoperator, if_pos hoperator]
    rfl
  rw [if_neg hoperator, if_neg hoperator]
  rfl

end Cursor

theorem tokensFrom_moved (n : Nat) (c : Cursor) :
    tokensFrom (c.moved n) = relocate n (List.map (Token.moved n)) (tokensFrom c) := by
  fun_induction tokensFrom c with
  | case1 c hrest => rw [Cursor.moved, hrest, tokensFrom_nil]; rfl
  | case2 c x rest hrest hblank ih =>
      rw [Cursor.moved, hrest, tokensFrom_blank hblank, Nat.add_right_comm]
      exact ih
  | case3 c x rest hrest hblank fault hscan =>
      have hmoved := Cursor.token_moved n c.offset x rest
      rw [hscan] at hmoved
      rw [Cursor.moved, hrest, tokensFrom_error (Bool.eq_false_iff.2 hblank) hmoved]
      rfl
  | case4 c x rest hrest hblank symbol next hscan ih =>
      have hmoved := Cursor.token_moved n c.offset x rest
      rw [hscan] at hmoved
      rw [Cursor.moved, hrest, tokensFrom_token (Bool.eq_false_iff.2 hblank) hmoved]
      change _ <$> tokensFrom (next.moved n) = _
      rw [ih]
      cases tokensFrom next <;> rfl

theorem tokens_append_eq {first second : String} {ts : List Token} (h : tokens first = .ok ts)
    (hparted : Parted first.toList second.toList) :
    tokens (first ++ second) =
      (ts ++ ·) <$> relocate first.utf8ByteSize (List.map (Token.moved first.utf8ByteSize)) (tokens second) := by
  obtain ⟨cut, hcut, htext, rfl⟩ := tokens_eq_ok.1 h
  rw [← htext] at hparted
  rw [tokens, String.toList_append, ← htext, hcut.tokensFrom_append hparted, htext, Text.byteSize_toList]
  exact congrArg _ (tokensFrom_moved first.utf8ByteSize ⟨0, second.toList⟩)

theorem Fault.kind_moved (n : Nat) (fault : Fault) : (fault.moved n).kind = fault.kind := by
  cases fault <;> rfl

/--
A text that has tokens may be put before any other one, unless a word would go from the one into the other. The tokens of
the other text come behind its own, further on by its length, or else the fault of the other text does.
-/
theorem tokens_append {first second : String} {ts : List Token} (h : tokens first = .ok ts)
    (hparted : Parted first.toList second.toList) :
    (∀ us, tokens second = .ok us → tokens (first ++ second) = .ok (ts ++ us.map (Token.moved first.utf8ByteSize))) ∧
    (∀ fault, tokens second = .error fault → ∃ fault', tokens (first ++ second) = .error fault' ∧
      fault'.kind = fault.kind ∧ fault'.position = fault.position + first.utf8ByteSize ∧
      fault'.fault.message =
        match fault.fault with
        | .unterminatedGroup start => s!"unterminated group name starting at offset {start + first.utf8ByteSize}"
        | other => other.message) := by
  rw [tokens_append_eq h hparted]
  constructor
  · intro us hus
    rw [hus]
    rfl
  · intro fault hfault
    refine ⟨fault.moved first.utf8ByteSize, by rw [hfault]; rfl, Fault.kind_moved _ _, rfl, ?_⟩
    rw [Error.moved]
    cases fault.fault <;> rfl

theorem tokens_append_unterminated :
    let first := "#user.contains('ß')or"
    let second := "\u00a0#user.contains('é"
    ∃ fault, tokens (first ++ second) = .error fault ∧ fault.kind = .malformed ∧ fault.position = 42 ∧
      fault.fault.message = "unterminated group name starting at offset 40" := by
  intro first second
  have hfirst : tokens first = .ok [⟨.member "ß", 0⟩, ⟨.or, 20⟩] := Outcome.eq_ok_of_toOption (by decide +kernel)
  have hparted : Parted first.toList second.toList := by decide +kernel
  have hsecond : tokens second = .error ⟨.unterminatedGroup 18, 20⟩ :=
    Outcome.eq_error_of_fault? (by decide +kernel)
  obtain ⟨fault, hfault, hkind, hposition, hmessage⟩ := (tokens_append hfirst hparted).2 _ hsecond
  exact ⟨fault, hfault, hkind, hposition.trans (by decide +kernel), hmessage.trans (by decide +kernel)⟩

end Groupwise.Expr
