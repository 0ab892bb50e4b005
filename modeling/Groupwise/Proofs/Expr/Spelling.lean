import Groupwise.Proofs.Expr.Lexer
import Groupwise.Proofs.Text.Slice

namespace Groupwise.Expr

open Text (isBlank byteSize)

namespace Cursor

structure Between (front : List Char) (c d : Cursor) : Prop where
  rest : c.rest = front ++ d.rest
  offset : d.offset = c.offset + byteSize front

namespace Between

variable {front back : List Char} {c d e : Cursor}

theorem refl (c : Cursor) : Between [] c c := ⟨rfl, rfl⟩

theorem trans (h : Between front c d) (h' : Between back d e) : Between (front ++ back) c e where
  rest := by rw [h.rest, h'.rest, List.append_assoc]
  offset := by rw [h'.offset, h.offset, Text.byteSize_append, Nat.add_assoc]

theorem next_eq (h : Between front c d) : d = ⟨c.offset + byteSize front, d.rest⟩ := by
  rw [← h.offset]

end Between

theorem between_mk (front rest : List Char) (offset : Nat) :
    Between front ⟨offset, front ++ rest⟩ ⟨offset + byteSize front, rest⟩ := ⟨rfl, rfl⟩

theorem between_of_takeWhile {p : Char → Bool} {c : Cursor} {front : List Char} (h : c.rest.takeWhile p = front) :
    Between front c (c.drop p) := by
  subst h
  exact ⟨List.takeWhile_append_dropWhile.symm, rfl⟩

theorem between_of_word {c : Cursor} {letters : String} (h : c.word = letters) :
    Between letters.toList c (c.drop isWordChar) := by
  apply between_of_takeWhile
  rw [← h, word, String.toList_ofList]

theorem exists_between_drop (p : Char → Bool) (c : Cursor) :
    ∃ front, (∀ x ∈ front, p x = true) ∧ Between front c (c.drop p) :=
  ⟨_, List.all_eq_true.1 List.all_takeWhile, between_of_takeWhile rfl⟩

theorem head?_drop (p : Char → Bool) (c : Cursor) : ∀ x ∈ (c.drop p).rest.head?, p x = false :=
  Text.head?_dropWhile p c.rest

theorem between_of_expect {mark : Mark} {c d : Cursor} (h : c.expect mark = .ok d) : Between [mark.char] c d := by
  rw [expect] at h
  split at h
  · next x rest hrest =>
    split at h
    · next hx =>
      obtain rfl := Except.ok.inj h
      exact ⟨by rw [hrest, hx]; rfl, by rw [hx]; rfl⟩
    · contradiction
  · contradiction

theorem between_of_groupName {c d : Cursor} {group : String} (h : c.groupName = .ok (group, d)) :
    Between (group.toList ++ ['\'']) c d := by
  rw [groupName] at h
  split at h
  · contradiction
  · next quote rest hrest =>
    split at h
    · contradiction
    · simp only [Except.ok.injEq, Prod.mk.injEq] at h
      obtain ⟨rfl, rfl⟩ := h
      have hquote : quote = '\'' := by
        have hhead := List.head?_dropWhile_not (· ≠ '\'') c.rest
        rw [hrest] at hhead
        simpa using hhead
      subst hquote
      constructor
      · rw [String.toList_ofList, List.append_assoc, List.singleton_append, ← hrest, unquoted,
          List.takeWhile_append_dropWhile]
      · rw [String.toList_ofList, Text.byteSize_append, ← Nat.add_assoc]
        rfl

theorem exists_spelling {start : Nat} {c next : Cursor} {symbol : Symbol}
    (h : membership start c = .ok (symbol, next)) :
    ∃ group first second third, Named group ∧ symbol = .member group ∧ (∀ x ∈ first, isBlank x = true) ∧
      (∀ x ∈ second, isBlank x = true) ∧ (∀ x ∈ third, isBlank x = true) ∧
      Between (spelling group first second third) c next := by
  rw [membership] at h
  split at h
  · contradiction
  split at h
  · contradiction
  next hreceiver =>
  obtain ⟨method, hmethod, h⟩ := Outcome.bind_eq_ok.1 h
  split at h
  · contradiction
  split at h
  · contradiction
  next hname =>
  obtain ⟨opened, hopened, h⟩ := Outcome.bind_eq_ok.1 h
  obtain ⟨quoted, hquoted, h⟩ := Outcome.bind_eq_ok.1 h
  obtain ⟨⟨group, named⟩, hgroup, h⟩ := Outcome.bind_eq_ok.1 h
  obtain ⟨closed, hclosed, h⟩ := Outcome.bind_eq_ok.1 h
  simp only [Except.ok.injEq, Prod.mk.injEq] at h
  obtain ⟨rfl, rfl⟩ := h
  have huser := between_of_word (Decidable.not_not.1 hreceiver)
  have hcontains := between_of_word (Decidable.not_not.1 hname)
  obtain ⟨first, hfirst, hopen⟩ := exists_between_drop isBlank (method.drop isWordChar)
  obtain ⟨second, hsecond, hquote⟩ := exists_between_drop isBlank opened
  obtain ⟨third, hthird, hclose⟩ := exists_between_drop isBlank named
  refine ⟨group, first, second, third, named_of_groupName hgroup, rfl, hfirst, hsecond, hthird, ?_⟩
  have hall := huser.trans <| (between_of_expect hmethod).trans <| hcontains.trans <| hopen.trans <|
    (between_of_expect hopened).trans <| hquote.trans <| (between_of_expect hquoted).trans <|
    (between_of_groupName hgroup).trans <| hclose.trans <| between_of_expect hclosed
  simpa only [spelling, List.append_assoc, List.singleton_append] using hall

theorem keyword_eq_ok {c next : Cursor} {symbol : Symbol} :
    c.keyword = .ok (symbol, next) ↔
      ((c.word = "and" ∧ symbol = .and) ∨ (c.word = "or" ∧ symbol = .or) ∨ (c.word = "not" ∧ symbol = .not)) ∧
        next = c.drop isWordChar := by
  rw [keyword]
  split
  case h_1 hword | h_2 hword | h_3 hword =>
    simp only [Except.ok.injEq, Prod.mk.injEq]
    rw [hword]
    simp [@eq_comm _ symbol, @eq_comm _ next]
  case h_4 hand hor hnot =>
    simp only [reduceCtorEq, false_iff, not_and]
    rintro (⟨hword, -⟩ | ⟨hword, -⟩ | ⟨hword, -⟩)
    · exact absurd hword hand
    · exact absurd hword hor
    · exact absurd hword hnot

theorem keyword_eq_error {c : Cursor} {fault : Error} :
    c.keyword = .error fault ↔
      (c.word ≠ "and" ∧ c.word ≠ "or" ∧ c.word ≠ "not") ∧ fault = ⟨.unknownWord c.word, c.offset⟩ := by
  rw [keyword]
  split
  case h_1 hword | h_2 hword | h_3 hword => simp [hword]
  case h_4 hand hor hnot =>
    rw [Except.error.injEq]
    constructor
    · rintro rfl
      exact ⟨⟨hand, hor, hnot⟩, rfl⟩
    · rintro ⟨-, rfl⟩
      rfl

end Cursor

namespace Symbol

def isKeyword : Symbol → Bool
  | .and | .or | .not => true
  | _ => false

inductive Spelt : Symbol → List Char → Prop
  | open : Spelt .open ['(']
  | close : Spelt .close [')']
  | and : Spelt .and "and".toList
  | or : Spelt .or "or".toList
  | not : Spelt .not "not".toList
  | member {group : String} {first second third : List Char} (h : Expr.Named group)
      (hfirst : ∀ x ∈ first, isBlank x = true) (hsecond : ∀ x ∈ second, isBlank x = true)
      (hthird : ∀ x ∈ third, isBlank x = true) :
      Spelt (.member group) ('#' :: Cursor.spelling group first second third)

def EndsBefore (symbol : Symbol) (rest : List Char) : Prop :=
  symbol.isKeyword = true → ∀ x ∈ rest.head?, isWordChar x = false

variable {symbol : Symbol} {letters : List Char}

theorem endsBefore_of_not_isKeyword (h : symbol.isKeyword = false) (rest : List Char) : symbol.EndsBefore rest := by
  intro hkeyword
  rw [h] at hkeyword
  contradiction

theorem Spelt.isWordChar (h : symbol.Spelt letters) (hkeyword : symbol.isKeyword = true) :
    ∀ x ∈ letters, isWordChar x = true := by
  cases h with
  | and | or | not => exact List.all_eq_true.1 rfl
  | «open» | close | member => contradiction

theorem Spelt.named (h : symbol.Spelt letters) : symbol.Named := by
  cases h with
  | «open» | close | and | or | not => rintro _ ⟨⟩
  | member hnamed => rintro _ ⟨⟩; exact hnamed

end Symbol

namespace Cursor

def Reads (symbol : Symbol) (c next : Cursor) : Prop :=
  ∃ x rest, c.rest = x :: rest ∧ isBlank x = false ∧ token c.offset x rest = .ok (symbol, next)

variable {symbol : Symbol} {letters rest : List Char} {c next : Cursor}

theorem keyword_append (hletters : ∀ x ∈ letters, isWordChar x = true) (hrest : ∀ x ∈ rest.head?, isWordChar x = false)
    (hword : (String.ofList letters = "and" ∧ symbol = .and) ∨ (String.ofList letters = "or" ∧ symbol = .or) ∨
      (String.ofList letters = "not" ∧ symbol = .not)) (offset : Nat) :
    keyword ⟨offset, letters ++ rest⟩ = .ok (symbol, ⟨offset + byteSize letters, rest⟩) := by
  rw [keyword_eq_ok, word_append hletters hrest, drop_append hletters hrest]
  exact ⟨hword, rfl⟩

theorem reads_of_spelt (h : symbol.Spelt letters) (hends : symbol.EndsBefore rest) (offset : Nat) :
    Reads symbol ⟨offset, letters ++ rest⟩ ⟨offset + byteSize letters, rest⟩ := by
  have hletters := h.isWordChar
  cases h with
  | «open» | close => exact ⟨_, rest, rfl, rfl, rfl⟩
  | and | or | not =>
      refine ⟨_, _, rfl, rfl, ?_⟩
      exact keyword_append (hletters rfl) (hends rfl) (by simp) offset
  | member hnamed hfirst hsecond hthird =>
      have hread := membership_append hnamed hfirst hsecond hthird offset (offset + 1) rest
      rw [Nat.add_assoc] at hread
      exact ⟨'#', _, rfl, rfl, hread⟩

theorem exists_spelt_of_keyword (h : c.keyword = .ok (symbol, next)) :
    ∃ letters, symbol.Spelt letters ∧ symbol.EndsBefore next.rest ∧ Between letters c next := by
  obtain ⟨hword, rfl⟩ := keyword_eq_ok.1 h
  have hends : symbol.EndsBefore (c.drop isWordChar).rest := fun _ => head?_drop isWordChar c
  rcases hword with ⟨hword, rfl⟩ | ⟨hword, rfl⟩ | ⟨hword, rfl⟩
  · exact ⟨_, .and, hends, between_of_word hword⟩
  · exact ⟨_, .or, hends, between_of_word hword⟩
  · exact ⟨_, .not, hends, between_of_word hword⟩

theorem token_of_isWordStart {x : Char} (h : isWordStart x = true) (offset : Nat) (rest : List Char) :
    token offset x rest = keyword ⟨offset, x :: rest⟩ := by
  have hne : ∀ y : Char, isWordStart y = false → x ≠ y := by
    rintro y hy rfl
    simp [h] at hy
  rw [token, if_neg (hne '(' rfl), if_neg (hne ')' rfl), if_neg (hne '#' rfl), if_pos h]

/-- A symbol is read where one of its spellings stands, and the whole spelling is passed. -/
theorem reads_iff : Reads symbol c next ↔
    ∃ letters, symbol.Spelt letters ∧ symbol.EndsBefore next.rest ∧ Between letters c next := by
  constructor
  · rintro ⟨x, rest, hrest, -, h⟩
    obtain ⟨offset, _⟩ := c
    obtain rfl : _ = x :: rest := hrest
    change token offset x rest = .ok (symbol, next) at h
    -- Keywords are spelt with letters, and only they.
    by_cases hstart : isWordStart x = true
    · rw [token_of_isWordStart hstart] at h
      exact exists_spelt_of_keyword h
    rw [token, if_neg hstart] at h
    split at h
    · next hx =>
      cases h
      subst hx
      exact ⟨_, .open, Symbol.endsBefore_of_not_isKeyword rfl _, between_mk ['('] rest offset⟩
    split at h
    · next hx =>
      cases h
      subst hx
      exact ⟨_, .close, Symbol.endsBefore_of_not_isKeyword rfl _, between_mk [')'] rest offset⟩
    split at h
    · next hx =>
      subst hx
      obtain ⟨group, first, second, third, hnamed, rfl, hfirst, hsecond, hthird, hbetween⟩ := exists_spelling h
      exact ⟨_, .member hnamed hfirst hsecond hthird, Symbol.endsBefore_of_not_isKeyword rfl _,
        (between_mk ['#'] rest offset).trans hbetween⟩
    split at h <;> contradiction
  · rintro ⟨letters, hspelt, hends, hbetween⟩
    obtain ⟨offset, _⟩ := c
    obtain rfl : _ = letters ++ next.rest := hbetween.rest
    rw [hbetween.next_eq]
    exact reads_of_spelt hspelt hends offset

theorem Reads.unique {symbol' : Symbol} {next' : Cursor} (h : Reads symbol c next) (h' : Reads symbol' c next') :
    symbol = symbol' ∧ next = next' := by
  obtain ⟨x, rest, hrest, -, htoken⟩ := h
  obtain ⟨x', rest', hrest', -, htoken'⟩ := h'
  rw [hrest] at hrest'
  obtain ⟨rfl, rfl⟩ := List.cons.inj hrest'
  rw [htoken] at htoken'
  exact Prod.mk.inj (Except.ok.inj htoken')

theorem tokensFrom_of_reads (h : Reads symbol c next) :
    tokensFrom c = (⟨symbol, c.offset⟩ :: ·) <$> tokensFrom next := by
  obtain ⟨x, rest, hrest, hblank, htoken⟩ := h
  obtain ⟨offset, _⟩ := c
  obtain rfl : _ = x :: rest := hrest
  exact tokensFrom_token hblank htoken

end Cursor

end Groupwise.Expr
