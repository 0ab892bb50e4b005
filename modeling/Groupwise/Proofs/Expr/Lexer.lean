import Groupwise.Expr.Basic
import Groupwise.Expr.Lexer
import Groupwise.Proofs.Ensures

namespace Groupwise.Expr

open Text (isBlank byteSize)

def Named (group : String) : Prop := group ≠ "" ∧ '\'' ∉ group.toList

instance (group : String) : Decidable (Named group) := inferInstanceAs (Decidable (_ ∧ _))

theorem tokensFrom_nil (offset : Nat) : tokensFrom ⟨offset, []⟩ = .ok [] := by
  rw [tokensFrom]

theorem tokensFrom_blank {x : Char} (h : isBlank x = true) (offset : Nat) (rest : List Char) :
    tokensFrom ⟨offset, x :: rest⟩ = tokensFrom ⟨offset + x.utf8Size, rest⟩ := by
  rw [tokensFrom]
  simp only [h, if_true]

theorem tokensFrom_token {offset : Nat} {x : Char} {rest : List Char} {symbol : Symbol} {next : Cursor}
    (hblank : isBlank x = false) (h : Cursor.token offset x rest = .ok (symbol, next)) :
    tokensFrom ⟨offset, x :: rest⟩ = (⟨symbol, offset⟩ :: ·) <$> tokensFrom next := by
  rw [tokensFrom]
  simp only [hblank, Bool.false_eq_true, if_false]
  split
  · next fault hfault =>
    rw [h] at hfault
    contradiction
  · next symbol' next' hnext =>
    rw [h] at hnext
    simp only [Except.ok.injEq, Prod.mk.injEq] at hnext
    obtain ⟨rfl, rfl⟩ := hnext
    cases tokensFrom next <;> rfl

theorem tokensFrom_error {offset : Nat} {x : Char} {rest : List Char} {fault : Error} (hblank : isBlank x = false)
    (h : Cursor.token offset x rest = .error fault) : tokensFrom ⟨offset, x :: rest⟩ = .error fault := by
  rw [tokensFrom]
  simp only [hblank, Bool.false_eq_true, if_false]
  split
  · next fault' hfault =>
    rw [h] at hfault
    rw [Except.error.inj hfault]
  · next symbol next hnext =>
    rw [h] at hnext
    contradiction

theorem tokensFrom_open (offset : Nat) (rest : List Char) :
    tokensFrom ⟨offset, '(' :: rest⟩ = (⟨.open, offset⟩ :: ·) <$> tokensFrom ⟨offset + 1, rest⟩ :=
  tokensFrom_token rfl rfl

theorem tokensFrom_close (offset : Nat) (rest : List Char) :
    tokensFrom ⟨offset, ')' :: rest⟩ = (⟨.close, offset⟩ :: ·) <$> tokensFrom ⟨offset + 1, rest⟩ :=
  tokensFrom_token rfl rfl

theorem tokensFrom_space (offset : Nat) (rest : List Char) :
    tokensFrom ⟨offset, ' ' :: rest⟩ = tokensFrom ⟨offset + 1, rest⟩ :=
  tokensFrom_blank rfl offset rest

theorem tokensFrom_and (offset : Nat) (rest : List Char) :
    tokensFrom ⟨offset, " and ".toList ++ rest⟩ =
      (⟨.and, offset + 1⟩ :: ·) <$> tokensFrom ⟨offset + 5, rest⟩ := by
  have htoken : tokensFrom ⟨offset + 1, "and ".toList ++ rest⟩ =
      (⟨.and, offset + 1⟩ :: ·) <$> tokensFrom ⟨offset + 1 + 3, ' ' :: rest⟩ :=
    tokensFrom_token rfl rfl
  rw [← tokensFrom_space, ← htoken]
  exact tokensFrom_space offset ("and ".toList ++ rest)

theorem tokensFrom_or (offset : Nat) (rest : List Char) :
    tokensFrom ⟨offset, " or ".toList ++ rest⟩ =
      (⟨.or, offset + 1⟩ :: ·) <$> tokensFrom ⟨offset + 4, rest⟩ := by
  have htoken : tokensFrom ⟨offset + 1, "or ".toList ++ rest⟩ =
      (⟨.or, offset + 1⟩ :: ·) <$> tokensFrom ⟨offset + 1 + 2, ' ' :: rest⟩ :=
    tokensFrom_token rfl rfl
  rw [← tokensFrom_space, ← htoken]
  exact tokensFrom_space offset ("or ".toList ++ rest)

theorem tokensFrom_not (offset : Nat) (rest : List Char) :
    tokensFrom ⟨offset, "not ".toList ++ rest⟩ = (⟨.not, offset⟩ :: ·) <$> tokensFrom ⟨offset + 4, rest⟩ := by
  rw [← tokensFrom_space]
  exact tokensFrom_token rfl rfl

theorem isWordChar_of_isBlank {c : Char} (h : isBlank c = true) : isWordChar c = false := by
  simp only [isBlank, Text.blankRanges, List.any_cons, List.any_nil, Bool.or_false, Bool.or_eq_true, Bool.and_eq_true,
    decide_eq_true_eq] at h
  have hunderscore : c ≠ '_' := by
    rintro rfl
    simp at h
  have halpha : c.isAlpha = (c.isUpper || c.isLower) := rfl
  have hupper : c.isUpper = decide (65 ≤ c.val ∧ c.val ≤ 90) := rfl
  have hlower : c.isLower = (decide (97 ≤ c.val) && decide (c.val ≤ 122)) := rfl
  have hdigit : c.isDigit = (decide (48 ≤ c.val) && decide (c.val ≤ 57)) := rfl
  simp only [isWordChar, Char.isAlphanum, halpha, hupper, hlower, hdigit, UInt32.le_iff_toNat_le, UInt32.reduceToNat,
    Char.toNat_val, Bool.decide_and, hunderscore, decide_false, Bool.or_false, Bool.or_eq_false_iff,
    Bool.and_eq_false_imp, decide_eq_true_eq, decide_eq_false_iff_not, Nat.not_le]
  omega

theorem Mark.utf8Size_char (mark : Mark) : mark.char.utf8Size = 1 := by
  cases mark <;> rfl

namespace Cursor

theorem drop_append {p : Char → Bool} {passed rest : List Char} (hpassed : ∀ c ∈ passed, p c = true)
    (hrest : ∀ c ∈ rest.head?, p c = false) (offset : Nat) :
    drop p ⟨offset, passed ++ rest⟩ = ⟨offset + byteSize passed, rest⟩ := by
  have hnil : rest.takeWhile p = [] ∧ rest.dropWhile p = rest := by
    cases rest with
    | nil => simp
    | cons x rest =>
        have hx : p x = false := hrest x rfl
        simp [hx]
  rw [drop, List.takeWhile_append_of_pos hpassed, List.dropWhile_append_of_pos hpassed, hnil.1, hnil.2,
    List.append_nil]

theorem word_append {letters rest : List Char} (hletters : ∀ c ∈ letters, isWordChar c = true)
    (hrest : ∀ c ∈ rest.head?, isWordChar c = false) (offset : Nat) :
    word ⟨offset, letters ++ rest⟩ = String.ofList letters := by
  have hnil : rest.takeWhile isWordChar = [] := by
    cases rest with
    | nil => rfl
    | cons x rest =>
        have hx : isWordChar x = false := hrest x rfl
        simp [hx]
  rw [word, List.takeWhile_append_of_pos hletters, hnil, List.append_nil]

theorem expect_mark (mark : Mark) (offset : Nat) (rest : List Char) :
    expect mark ⟨offset, mark.char :: rest⟩ = .ok ⟨offset + 1, rest⟩ := by
  cases mark <;> rfl

theorem groupName_append {group : String} (h : Named group) (offset : Nat) (rest : List Char) :
    groupName ⟨offset, group.toList ++ '\'' :: rest⟩ =
      .ok (group, ⟨offset + byteSize group.toList + 1, rest⟩) := by
  have hquote : ∀ c ∈ group.toList, (decide (c ≠ '\'')) = true := by
    intro c hc
    simp only [decide_eq_true_eq]
    rintro rfl
    exact h.2 hc
  have hunquoted : unquoted ⟨offset, group.toList ++ '\'' :: rest⟩ = group.toList := by
    rw [unquoted, List.takeWhile_append_of_pos hquote, List.takeWhile_cons_of_neg (by simp),
      List.append_nil]
  have hne : group.toList ≠ [] := by
    simpa using h.1
  rw [groupName, List.dropWhile_append_of_pos hquote, List.dropWhile_cons_of_neg (by simp)]
  simp only [hunquoted, if_neg hne, String.ofList_toList]
  rfl

theorem expect_drop_blank {blanks : List Char} (h : ∀ c ∈ blanks, isBlank c = true) (mark : Mark) (offset : Nat)
    (rest : List Char) :
    (drop isBlank ⟨offset, blanks ++ mark.char :: rest⟩).expect mark = .ok ⟨offset + byteSize blanks + 1, rest⟩ := by
  rw [drop_append h (by cases mark <;> simp [Mark.char] <;> rfl), expect_mark]

theorem token_hash (offset : Nat) (rest : List Char) :
    token offset '#' rest = membership offset ⟨offset + 1, rest⟩ := rfl

def spelling (group : String) (first second third : List Char) : List Char :=
  "user".toList ++ Mark.dot.char :: ("contains".toList ++ (first ++ Mark.open.char :: (second ++
    Mark.quote.char :: (group.toList ++ '\'' :: (third ++ [Mark.close.char])))))

theorem byteSize_spelling (group : String) (first second third : List Char) :
    byteSize (spelling group first second third) =
      4 + 1 + 8 + byteSize first + 1 + byteSize second + 1 + byteSize group.toList + 1 + byteSize third + 1 := by
  have huser : byteSize "user".toList = 4 := rfl
  have hcontains : byteSize "contains".toList = 8 := rfl
  have hquote : '\''.utf8Size = 1 := rfl
  rw [spelling]
  simp only [Text.byteSize_append, Text.byteSize_cons, Text.byteSize_nil, Mark.utf8Size_char, huser, hcontains,
    hquote]
  omega

theorem membership_append {group : String} {first second third : List Char} (h : Named group)
    (hfirst : ∀ c ∈ first, isBlank c = true) (hsecond : ∀ c ∈ second, isBlank c = true)
    (hthird : ∀ c ∈ third, isBlank c = true) (start offset : Nat) (rest : List Char) :
    membership start ⟨offset, spelling group first second third ++ rest⟩ =
      .ok (.member group, ⟨offset + byteSize (spelling group first second third), rest⟩) := by
  have hopen : ∀ c ∈ (first ++ Mark.open.char :: (second ++ Mark.quote.char ::
      (group.toList ++ '\'' :: (third ++ Mark.close.char :: rest)))).head?, isWordChar c = false := by
    cases first with
    | nil => simp [Mark.char, isWordChar]
    | cons x first =>
        have hx := isWordChar_of_isBlank (hfirst x List.mem_cons_self)
        simpa using hx
  have huser : ∀ c ∈ "user".toList, isWordChar c = true := List.all_eq_true.1 rfl
  have hcontains : ∀ c ∈ "contains".toList, isWordChar c = true := List.all_eq_true.1 rfl
  have hdot : ∀ {tail : List Char}, ∀ c ∈ (Mark.dot.char :: tail).head?, isWordChar c = false := by
    rintro tail _ ⟨⟩
    rfl
  have huserSize : byteSize "user".toList = 4 := rfl
  have hcontainsSize : byteSize "contains".toList = 8 := rfl
  rw [byteSize_spelling]
  simp only [spelling, List.append_assoc, List.cons_append, List.nil_append]
  rw [membership, word_append huser hdot, if_neg (by decide), if_neg (by decide), drop_append huser hdot, expect_mark,
    Outcome.ok_bind, word_append hcontains hopen, if_neg (by decide), if_neg (by decide), drop_append hcontains hopen,
    expect_drop_blank hfirst, Outcome.ok_bind, expect_drop_blank hsecond, Outcome.ok_bind, groupName_append h,
    Outcome.ok_bind]
  simp only
  rw [expect_drop_blank hthird, Outcome.ok_bind, huserSize, hcontainsSize]
  simp only [Nat.add_assoc]

end Cursor

theorem tokensFrom_member {group : String} (h : Named group) (offset : Nat) (rest : List Char) :
    tokensFrom ⟨offset, memberText group ++ rest⟩ =
      (⟨.member group, offset⟩ :: ·) <$> tokensFrom ⟨offset + byteSize (memberText group), rest⟩ := by
  have htext : memberText group = '#' :: Cursor.spelling group [] [] [] := by
    unfold memberText Cursor.spelling
    rw [List.append_assoc]
    rfl
  have hhash : offset + byteSize (memberText group) = offset + 1 + byteSize (Cursor.spelling group [] [] []) := by
    rw [htext, Text.byteSize_cons, ← Nat.add_assoc]
    rfl
  rw [hhash, htext, List.cons_append]
  apply tokensFrom_token rfl
  rw [Cursor.token_hash]
  exact Cursor.membership_append h (by simp) (by simp) (by simp) offset (offset + 1) rest

def Symbol.Named (symbol : Symbol) : Prop := ∀ group, symbol = .member group → Expr.Named group

namespace Cursor

theorem named_of_groupName {c d : Cursor} {group : String} (h : c.groupName = .ok (group, d)) : Named group := by
  rw [groupName] at h
  split at h
  · contradiction
  · split at h
    · contradiction
    · next hne =>
      simp only [Except.ok.injEq, Prod.mk.injEq] at h
      obtain ⟨rfl, -⟩ := h
      constructor
      · simpa using hne
      · intro hquote
        rw [String.toList_ofList, unquoted] at hquote
        simpa using List.all_eq_true.1 List.all_takeWhile _ hquote

end Cursor

end Groupwise.Expr
