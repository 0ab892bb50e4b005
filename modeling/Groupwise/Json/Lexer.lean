import Groupwise.Json.Token
import Groupwise.Outcome
import Groupwise.Text.Blank
import Groupwise.Text.Digits

namespace Groupwise.Json

def isSpace (c : Char) : Bool := c = ' ' || c = '\t' || c = '\n' || c = '\r'

inductive Piece where
  | char (c : Char)
  | unit (code : Nat)
  deriving DecidableEq, Repr

inductive Stop where
  | closed
  | ended
  | control
  | badLetter
  | badHex
  deriving DecidableEq, Repr

structure Body where
  pieces : List Piece
  stop : Stop
  rest : List Char
  deriving DecidableEq, Repr

def Body.cons (piece : Piece) (body : Body) : Body := { body with pieces := piece :: body.pieces }

def escaped? : Char → Option Char
  | '"' => some '"'
  | '\\' => some '\\'
  | '/' => some '/'
  | 'b' => some '\x08'
  | 'f' => some '\x0c'
  | 'n' => some '\n'
  | 'r' => some '\r'
  | 't' => some '\t'
  | _ => none

def body : List Char → Body
  | [] => ⟨[], .ended, []⟩
  | '"' :: rest => ⟨[], .closed, rest⟩
  | '\\' :: 'u' :: a :: b :: c :: d :: rest =>
    match Text.hexNumber? [a, b, c, d] with
    | some code => (body rest).cons (.unit code)
    | none => ⟨[], .badHex, []⟩
  | '\\' :: 'u' :: rest => if Text.byteSize rest < 4 then ⟨[], .ended, []⟩ else ⟨[], .badHex, []⟩
  | '\\' :: c :: rest =>
    match escaped? c with
    | some plain => (body rest).cons (.char plain)
    | none => ⟨[], .badLetter, []⟩
  | '\\' :: [] => ⟨[], .ended, []⟩
  | c :: rest => if c.toNat < 0x20 then ⟨[], .control, []⟩ else (body rest).cons (.char c)

theorem length_body_le (s : List Char) : (body s).rest.length ≤ s.length := by
  fun_induction body s <;> simp_all [Body.cons] <;> omega

def isLeading (code : Nat) : Bool := 0xd800 ≤ code && code < 0xdc00

def isTrailing (code : Nat) : Bool := 0xdc00 ≤ code && code < 0xe000

/-- A leading surrogate needs a trailing one right behind it; `atEnd` is the fault of one that comes last. -/
def join (atEnd : Fault) : List Piece → Except Fault (List Char)
  | [] => .ok []
  | .char c :: rest => (c :: ·) <$> join atEnd rest
  | .unit code :: rest =>
    if isTrailing code then .error .loneSurrogate
    else if isLeading code then
      match rest with
      | .unit next :: rest =>
        if isTrailing next then
          (Char.ofNat ((code - 0xd800) * 0x400 + (next - 0xdc00) + 0x10000) :: ·) <$> join atEnd rest
        else .error .loneSurrogate
      | .char _ :: _ => .error .unpairedSurrogate
      | [] => .error atEnd
    else (Char.ofNat code :: ·) <$> join atEnd rest

def Stop.fault : Stop → Fault
  | .control => .controlCharacter
  | .badLetter | .badHex => .invalidEscape
  | .closed | .ended => .ended .string

def Stop.faultOfLeading : Stop → Fault
  | .ended => .ended .string
  | .badHex => .invalidEscape
  | .closed | .control | .badLetter => .unpairedSurrogate

def Body.token (b : Body) : Token :=
  match b.stop, join b.stop.faultOfLeading b.pieces with
  | .closed, .ok text => .string (String.ofList text)
  | .closed, .error fault => .unreadable fault
  | stop, .ok _ => .brokenString stop.fault stop.fault
  | stop, .error fault => .brokenString fault stop.fault

inductive Cut where
  | short
  | wrong
  deriving DecidableEq, Repr

def Cut.token : Cut → Token
  | .short => .broken (.ended .value) .invalidNumber
  | .wrong => .broken .invalidNumber .invalidNumber

def digits (s : List Char) : Except Cut (List Char × List Char) :=
  match s.takeWhile Char.isDigit, s.dropWhile Char.isDigit with
  | [], [] => .error .short
  | [], _ :: _ => .error .wrong
  | first, rest => .ok (first, rest)

def whole (s : List Char) : Except Cut (List Char × List Char) :=
  match s with
  | '0' :: c :: rest => if c.isDigit then .error .wrong else .ok (['0'], c :: rest)
  | s => digits s

def fraction (s : List Char) : Except Cut (List Char × List Char) :=
  match s with
  | '.' :: rest => digits rest
  | s => .ok ([], s)

def exponent (s : List Char) : Except Cut (Option (Bool × List Char) × List Char) :=
  match s with
  | c :: rest =>
    if c = 'e' ∨ c = 'E' then do
      let (power, after) ← digits (Text.splitSign rest).2
      .ok (some ((Text.splitSign rest).1, power), after)
    else .ok (none, c :: rest)
  | [] => .ok (none, [])

def literal (negative : Bool) (s : List Char) : Except Cut (Literal × List Char) := do
  let (wholePart, s) ← whole s
  let (fractionPart, s) ← fraction s
  let (exponentPart, s) ← exponent s
  .ok (⟨negative, wholePart, fractionPart, exponentPart⟩, s)

def word : List Char → List Char → Except Fault (List Char)
  | [], s => .ok s
  | _ :: _, [] => .error (.ended .value)
  | letter :: letters, c :: s => if c = letter then word letters s else .error .expectedWord

def wordToken (letters : List Char) (token : Token) (s : List Char) : Except Token (Token × List Char) :=
  match word letters s with
  | .ok rest => .ok (token, rest)
  | .error fault => .error (.broken fault fault)

def numberToken (negative : Bool) (s : List Char) : Except Token (Token × List Char) :=
  match literal negative s with
  | .ok (number, rest) => .ok (.number number, rest)
  | .error cut => .error cut.token

def stringToken (s : List Char) : Except Token (Token × List Char) :=
  match (body s).stop with
  | .closed => .ok ((body s).token, (body s).rest)
  | _ => .error (body s).token

def token (c : Char) (rest : List Char) : Except Token (Token × List Char) :=
  match c with
  | '[' => .ok (.openArray, rest)
  | ']' => .ok (.closeArray, rest)
  | '\x7b' => .ok (.openObject, rest)
  | '\x7d' => .ok (.closeObject, rest)
  | ':' => .ok (.colon, rest)
  | ',' => .ok (.comma, rest)
  | '"' => stringToken rest
  | 'n' => wordToken ['u', 'l', 'l'] .null rest
  | 't' => wordToken ['r', 'u', 'e'] (.bool true) rest
  | 'f' => wordToken ['a', 'l', 's', 'e'] (.bool false) rest
  | '-' => numberToken true rest
  | c => if c.isDigit then numberToken false (c :: rest) else .error (.broken .expectedValue .expectedValue)

theorem length_digits {s rest first : List Char} (h : digits s = .ok (first, rest)) :
    rest.length < s.length := by
  have hlen := congrArg List.length (List.takeWhile_append_dropWhile (p := Char.isDigit) (l := s))
  rw [List.length_append] at hlen
  rw [digits] at h
  split at h
  · simp at h
  · simp at h
  · next hne _ =>
    simp only [Except.ok.injEq, Prod.mk.injEq] at h
    obtain ⟨rfl, rfl⟩ := h
    have : s.takeWhile Char.isDigit ≠ [] := fun hnil => by
      cases hd : s.dropWhile Char.isDigit with
      | nil => exact hne hnil hd
      | cons c r => simp_all
    have := List.length_pos_iff.2 this
    omega

theorem length_whole {s rest first : List Char} (h : whole s = .ok (first, rest)) :
    rest.length < s.length := by
  unfold whole at h
  split at h
  · split at h
    · simp at h
    · simp only [Except.ok.injEq, Prod.mk.injEq] at h
      obtain ⟨-, rfl⟩ := h
      simp
  · exact length_digits h

theorem length_fraction {s rest first : List Char} (h : fraction s = .ok (first, rest)) :
    rest.length ≤ s.length := by
  unfold fraction at h
  split at h
  · exact Nat.le_succ_of_le (Nat.le_of_lt (length_digits h))
  · simp only [Except.ok.injEq, Prod.mk.injEq] at h
    simp [h.2]

theorem length_exponent {s rest : List Char} {power : Option (Bool × List Char)}
    (h : exponent s = .ok (power, rest)) : rest.length ≤ s.length := by
  cases s with
  | nil =>
      simp only [exponent, Except.ok.injEq, Prod.mk.injEq] at h
      simp [← h.2]
  | cons c t =>
      simp only [exponent] at h
      split at h
      · obtain ⟨⟨first, after⟩, hdigits, h⟩ := Outcome.bind_eq_ok.1 h
        simp only [Except.ok.injEq, Prod.mk.injEq] at h
        obtain ⟨-, rfl⟩ := h
        have := length_digits hdigits
        have := Text.length_splitSign_le t
        simp only [List.length_cons]
        omega
      · simp only [Except.ok.injEq, Prod.mk.injEq] at h
        simp [← h.2]

theorem length_literal {negative : Bool} {s rest : List Char} {number : Literal}
    (h : literal negative s = .ok (number, rest)) : rest.length < s.length := by
  obtain ⟨⟨_, t⟩, hwhole, h⟩ := Outcome.bind_eq_ok.1 h
  obtain ⟨⟨_, u⟩, hfraction, h⟩ := Outcome.bind_eq_ok.1 h
  obtain ⟨⟨_, v⟩, hexponent, h⟩ := Outcome.bind_eq_ok.1 h
  simp only [Except.ok.injEq, Prod.mk.injEq] at h
  obtain ⟨-, rfl⟩ := h
  have := length_whole hwhole
  have := length_fraction hfraction
  have := length_exponent hexponent
  omega

theorem length_word {letters s rest : List Char} (h : word letters s = .ok rest) :
    rest.length ≤ s.length := by
  induction letters generalizing s with
  | nil =>
      simp only [word, Except.ok.injEq] at h
      simp [h]
  | cons letter letters ih =>
      cases s with
      | nil => simp [word] at h
      | cons c s =>
          simp only [word] at h
          split at h
          · exact Nat.le_succ_of_le (ih h)
          · simp at h

theorem length_wordToken {letters s rest : List Char} {t u : Token}
    (h : wordToken letters t s = .ok (u, rest)) : rest.length ≤ s.length := by
  rw [wordToken] at h
  split at h
  · next hword =>
    simp only [Except.ok.injEq, Prod.mk.injEq] at h
    exact h.2 ▸ length_word hword
  · simp at h

theorem length_numberToken {negative : Bool} {s rest : List Char} {t : Token}
    (h : numberToken negative s = .ok (t, rest)) : rest.length < s.length := by
  rw [numberToken] at h
  split at h
  · next hliteral =>
    simp only [Except.ok.injEq, Prod.mk.injEq] at h
    exact h.2 ▸ length_literal hliteral
  · simp at h

theorem length_stringToken {s rest : List Char} {t : Token} (h : stringToken s = .ok (t, rest)) :
    rest.length ≤ s.length := by
  rw [stringToken] at h
  split at h
  · simp only [Except.ok.injEq, Prod.mk.injEq] at h
    exact h.2 ▸ length_body_le s
  · simp at h

theorem length_token {c : Char} {s rest : List Char} {t : Token} (h : token c s = .ok (t, rest)) :
    rest.length ≤ s.length := by
  unfold token at h
  split at h
  case h_7 => exact length_stringToken h
  case h_8 | h_9 | h_10 => exact length_wordToken h
  case h_11 => exact Nat.le_of_lt (length_numberToken h)
  case h_12 =>
    split at h
    · exact Nat.lt_succ_iff.1 (length_numberToken h)
    · simp at h
  all_goals
    simp only [Except.ok.injEq, Prod.mk.injEq] at h
    simp [h.2]

/-- Nothing is read after a broken token. -/
def tokens (s : List Char) : List Token :=
  match s with
  | [] => []
  | c :: rest =>
    if isSpace c then tokens rest
    else
      match _htoken : token c rest with
      | .ok (t, rest') => t :: tokens rest'
      | .error t => [t]
termination_by s.length
decreasing_by
  · simp
  · exact Nat.lt_succ_of_le (length_token _htoken)

end Groupwise.Json
