import Groupwise.Expr.Error
import Groupwise.Outcome
import Groupwise.Text.Blank

namespace Groupwise.Expr

open Text (isBlank byteSize)

def isWordStart (c : Char) : Bool := c.isAlpha || c = '_'

def isWordChar (c : Char) : Bool := c.isAlphanum || c = '_'

/-- The characters that begin an operator in other languages. They are refused as unsupported. -/
def isOperatorChar (c : Char) : Bool :=
  ['&', '|', '!', '=', '<', '>', '+', '-', '*', '/', '%', '^', '~', '?', ':'].contains c

structure Cursor where
  offset : Nat
  rest : List Char
  deriving DecidableEq, Repr

namespace Cursor

def drop (p : Char → Bool) (c : Cursor) : Cursor :=
  ⟨c.offset + byteSize (c.rest.takeWhile p), c.rest.dropWhile p⟩

def word (c : Cursor) : String := String.ofList (c.rest.takeWhile isWordChar)

def expect (mark : Mark) (c : Cursor) : Except Error Cursor :=
  match c.rest with
  | x :: rest => if x = mark.char then .ok ⟨c.offset + x.utf8Size, rest⟩ else .error ⟨.missingMark mark, c.offset⟩
  | [] => .error ⟨.missingMark mark, c.offset⟩

def unquoted (c : Cursor) : List Char := c.rest.takeWhile (· ≠ '\'')

def groupName (c : Cursor) : Except Error (String × Cursor) :=
  match c.rest.dropWhile (· ≠ '\'') with
  | [] => .error ⟨.unterminatedGroup c.offset, c.offset + byteSize c.unquoted⟩
  | quote :: rest =>
    if c.unquoted = [] then .error ⟨.emptyGroup, c.offset⟩
    else .ok (String.ofList c.unquoted, ⟨c.offset + byteSize c.unquoted + quote.utf8Size, rest⟩)

def membership (start : Nat) (c : Cursor) : Except Error (Symbol × Cursor) :=
  if c.word = "" then .error ⟨.missingReceiver, c.offset⟩
  else if c.word ≠ "user" then .error ⟨.unknownReceiver c.word, start⟩
  else do
    let method ← (c.drop isWordChar).expect .dot
    if method.word = "" then .error ⟨.missingMethod, method.offset⟩
    else if method.word ≠ "contains" then .error ⟨.unsupportedMethod method.word, method.offset⟩
    else do
      let opened ← ((method.drop isWordChar).drop isBlank).expect .open
      let quoted ← (opened.drop isBlank).expect .quote
      let (group, named) ← quoted.groupName
      let closed ← (named.drop isBlank).expect .close
      .ok (.member group, closed)

def keyword (c : Cursor) : Except Error (Symbol × Cursor) :=
  match c.word with
  | "and" => .ok (.and, c.drop isWordChar)
  | "or" => .ok (.or, c.drop isWordChar)
  | "not" => .ok (.not, c.drop isWordChar)
  | other => .error ⟨.unknownWord other, c.offset⟩

def token (offset : Nat) (x : Char) (rest : List Char) : Except Error (Symbol × Cursor) :=
  if x = '(' then .ok (.open, ⟨offset + x.utf8Size, rest⟩)
  else if x = ')' then .ok (.close, ⟨offset + x.utf8Size, rest⟩)
  else if x = '#' then membership offset ⟨offset + x.utf8Size, rest⟩
  else if isWordStart x then keyword ⟨offset, x :: rest⟩
  else if isOperatorChar x then
    .error ⟨.unsupportedOperator (String.ofList ((x :: rest).takeWhile isOperatorChar)), offset⟩
  else .error ⟨.unexpectedChar x, offset⟩

theorem length_drop_le (p : Char → Bool) (c : Cursor) : (c.drop p).rest.length ≤ c.rest.length :=
  (List.dropWhile_suffix p).length_le

theorem length_of_expect {mark : Mark} {c d : Cursor} (h : c.expect mark = .ok d) :
    d.rest.length < c.rest.length := by
  rw [expect] at h
  split at h
  · next x rest hrest =>
    split at h
    · simp only [Except.ok.injEq] at h
      subst h
      simp [hrest]
    · simp at h
  · simp at h

theorem length_of_groupName {c d : Cursor} {group : String} (h : c.groupName = .ok (group, d)) :
    d.rest.length < c.rest.length := by
  have hsuffix := (List.dropWhile_suffix (· ≠ '\'') (l := c.rest)).length_le
  rw [groupName] at h
  split at h
  · simp at h
  · next quote rest hrest =>
    rw [hrest] at hsuffix
    split at h
    · simp at h
    · simp only [Except.ok.injEq, Prod.mk.injEq] at h
      obtain ⟨-, rfl⟩ := h
      exact hsuffix

theorem length_of_membership {start : Nat} {c d : Cursor} {s : Symbol}
    (h : membership start c = .ok (s, d)) : d.rest.length < c.rest.length := by
  rw [membership] at h
  split at h
  · simp at h
  split at h
  · simp at h
  obtain ⟨method, hmethod, h⟩ := Outcome.bind_eq_ok.1 h
  split at h
  · simp at h
  split at h
  · simp at h
  obtain ⟨opened, hopened, h⟩ := Outcome.bind_eq_ok.1 h
  obtain ⟨quoted, hquoted, h⟩ := Outcome.bind_eq_ok.1 h
  obtain ⟨⟨group, named⟩, hnamed, h⟩ := Outcome.bind_eq_ok.1 h
  obtain ⟨closed, hclosed, h⟩ := Outcome.bind_eq_ok.1 h
  simp only [Except.ok.injEq, Prod.mk.injEq] at h
  obtain ⟨-, rfl⟩ := h
  have := length_drop_le isWordChar c
  have := length_of_expect hmethod
  have := length_drop_le isWordChar method
  have := length_drop_le isBlank (method.drop isWordChar)
  have := length_of_expect hopened
  have := length_drop_le isBlank opened
  have := length_of_expect hquoted
  have := length_of_groupName hnamed
  have := length_drop_le isBlank named
  have := length_of_expect hclosed
  omega

theorem length_of_keyword {c d : Cursor} {s : Symbol} (hw : c.word ≠ "")
    (h : c.keyword = .ok (s, d)) : d.rest.length < c.rest.length := by
  have hd : d = c.drop isWordChar := by
    rw [keyword] at h
    split at h <;> simp_all
  have hlen := congrArg List.length (List.takeWhile_append_dropWhile (p := isWordChar) (l := c.rest))
  have hne : c.rest.takeWhile isWordChar ≠ [] := fun hnil => hw (by simp [word, hnil])
  have hpos := List.length_pos_iff.2 hne
  rw [List.length_append] at hlen
  subst hd
  simp only [drop]
  omega

theorem length_of_token {offset : Nat} {x : Char} {rest : List Char} {d : Cursor} {s : Symbol}
    (h : token offset x rest = .ok (s, d)) : d.rest.length < (x :: rest).length := by
  rw [token] at h
  split at h
  · simp only [Except.ok.injEq, Prod.mk.injEq] at h
    obtain ⟨-, rfl⟩ := h
    simp
  split at h
  · simp only [Except.ok.injEq, Prod.mk.injEq] at h
    obtain ⟨-, rfl⟩ := h
    simp
  split at h
  · exact Nat.lt_succ_of_lt (length_of_membership h)
  split at h
  · next hstart =>
    refine length_of_keyword (c := ⟨offset, x :: rest⟩) ?_ h
    have : isWordChar x = true := by
      simp only [isWordStart, isWordChar, Char.isAlphanum] at *
      grind
    simp [word, this]
  split at h <;> simp at h

end Cursor

def tokensFrom (c : Cursor) : Except Error (List Token) :=
  match _hrest : c.rest with
  | [] => .ok []
  | x :: rest =>
    if isBlank x then tokensFrom ⟨c.offset + x.utf8Size, rest⟩
    else
      match _hscan : Cursor.token c.offset x rest with
      | .error e => .error e
      | .ok (symbol, next) => do
        let tokens ← tokensFrom next
        .ok (⟨symbol, c.offset⟩ :: tokens)
termination_by c.rest.length
decreasing_by
  · simp [_hrest]
  · exact _hrest ▸ Cursor.length_of_token _hscan

def tokens (text : String) : Except Error (List Token) := tokensFrom ⟨0, text.toList⟩

end Groupwise.Expr
