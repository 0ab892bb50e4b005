import Groupwise.Json.Lexer
import Groupwise.Json.Printer

namespace Groupwise.Json

theorem tokens_cons {c : Char} {rest rest' : List Char} {t : Token} (hspace : isSpace c = false)
    (h : token c rest = .ok (t, rest')) : tokens (c :: rest) = t :: tokens rest' := by
  rw [tokens]
  simp only [hspace, Bool.false_eq_true, if_false]
  split
  · next h' => 
    rw [h] at h'
    obtain ⟨rfl, rfl⟩ := Prod.mk.inj (Except.ok.inj h')
    rfl
  · next h' =>
    rw [h] at h'
    contradiction

theorem hexText_eq : ∀ code < 0x20, (if code < 0x10 then ['0', '0', '0'] else ['0', '0']) ++ Nat.toDigits 16 code =
    ['0', '0', Nat.digitChar (code / 16), Nat.digitChar (code % 16)] := by
  decide +kernel

theorem hexNumber?_digits : ∀ code < 0x20,
    Text.hexNumber? ['0', '0', Nat.digitChar (code / 16), Nat.digitChar (code % 16)] = some code := by
  decide +kernel

theorem body_hex {code : Nat} (h : code < 0x20) (s : List Char) :
    body ('\\' :: 'u' :: '0' :: '0' :: Nat.digitChar (code / 16) :: Nat.digitChar (code % 16) :: s) =
      (body s).cons (.unit code) := by
  rw [body, hexNumber?_digits code h]

theorem body_char {c : Char} (hquote : c ≠ '"') (hslash : c ≠ '\\') (hplain : ¬ c.toNat < 0x20) (s : List Char) :
    body (c :: s) = (body s).cons (.char c) := by
  rw [body]
  · exact if_neg hplain
  · exact hquote
  · intro a b c d rest h
    exact absurd h hslash
  all_goals simp_all

theorem body_escaped {c letter : Char} (h : escaped? letter = some c) (s : List Char) :
    body ('\\' :: letter :: s) = (body s).cons (.char c) := by
  have hu : letter ≠ 'u' := by
    rintro rfl
    contradiction
  rw [body]
  · rw [h]
  · exact fun _ _ _ _ _ hletter => absurd hletter hu
  · exact hu

theorem cases_of_escape (c : Char) :
    (∃ letter, escape c = ['\\', letter] ∧ escaped? letter = some c) ∨
      (escape c = ['\\', 'u', '0', '0', Nat.digitChar (c.toNat / 16), Nat.digitChar (c.toNat % 16)] ∧ c.toNat < 0x20) ∨
      (escape c = [c] ∧ c ≠ '"' ∧ c ≠ '\\' ∧ ¬ c.toNat < 0x20) := by
  unfold escape
  iterate 7
    split
    · next h => exact .inl ⟨_, rfl, by rw [h]; rfl⟩
  next hquote hslash _ _ _ _ _ =>
    split
    · next h =>
      have hhex := hexText_eq c.toNat (by omega)
      rw [if_pos h] at hhex
      exact .inr (.inl ⟨congrArg (['\\', 'u'] ++ ·) hhex, by omega⟩)
    · next h =>
      split
      · next h' =>
        have hhex := hexText_eq c.toNat h'
        rw [if_neg h] at hhex
        exact .inr (.inl ⟨congrArg (['\\', 'u'] ++ ·) hhex, h'⟩)
      · next h' => exact .inr (.inr ⟨rfl, hquote, hslash, h'⟩)

theorem join_unit {code : Nat} (h : code < 0x20) (atEnd : Fault) (pieces : List Piece) :
    join atEnd (.unit code :: pieces) = (Char.ofNat code :: ·) <$> join atEnd pieces := by
  have htrailing : ¬ isTrailing code = true := by
    simp [isTrailing]
    omega
  have hleading : ¬ isLeading code = true := by
    simp [isLeading]
    omega
  conv =>
    lhs
    unfold join
  rw [if_neg htrailing, if_neg hleading]

theorem exists_piece (c : Char) :
    ∃ piece, (∀ s, body (escape c ++ s) = (body s).cons piece) ∧
      ∀ atEnd pieces, join atEnd (piece :: pieces) = (c :: ·) <$> join atEnd pieces := by
  rcases cases_of_escape c with ⟨letter, hescape, hletter⟩ | ⟨hescape, hcode⟩ | ⟨hescape, hquote, hslash, hplain⟩
  · exact ⟨.char c, fun s => hescape ▸ body_escaped hletter s, fun _ _ => rfl⟩
  · refine ⟨.unit c.toNat, fun s => hescape ▸ body_hex hcode s, fun atEnd pieces => ?_⟩
    rw [join_unit hcode, Char.ofNat_toNat]
  · exact ⟨.char c, fun s => hescape ▸ body_char hquote hslash hplain s, fun _ _ => rfl⟩

theorem exists_pieces (cs : List Char) :
    ∃ pieces, (∀ rest, body (cs.flatMap escape ++ '"' :: rest) = ⟨pieces, .closed, rest⟩) ∧
      ∀ atEnd, join atEnd pieces = .ok cs := by
  induction cs with
  | nil => exact ⟨[], fun rest => by rw [List.flatMap_nil, List.nil_append, body], fun _ => rfl⟩
  | cons c cs ih =>
      obtain ⟨pieces, hbody, hjoin⟩ := ih
      obtain ⟨piece, hpiece, hfirst⟩ := exists_piece c
      refine ⟨piece :: pieces, fun rest => ?_, fun atEnd => ?_⟩
      · rw [List.flatMap_cons, List.append_assoc, hpiece, hbody, Body.cons]
      · rw [hfirst, hjoin, Outcome.map_ok]

theorem stringToken_escaped (s : String) (rest : List Char) :
    stringToken (s.toList.flatMap escape ++ '"' :: rest) = .ok (.string s, rest) := by
  obtain ⟨pieces, hbody, hjoin⟩ := exists_pieces s.toList
  simp only [stringToken, hbody, Body.token, hjoin, String.ofList_toList]

theorem tokens_stringText (s : String) (rest : List Char) :
    tokens (stringText s ++ rest) = .string s :: tokens rest := by
  rw [stringText, List.append_assoc, List.cons_append]
  exact tokens_cons (by decide) (stringToken_escaped s rest)

def Ends (rest : List Char) : Prop := ∀ c ∈ rest.head?, c.isDigit = false ∧ c ≠ '.' ∧ c ≠ 'e' ∧ c ≠ 'E'

structure IsWhole (ds : List Char) : Prop where
  digits : ∀ c ∈ ds, c.isDigit = true
  nonempty : ds ≠ []
  leading : ds.head? = some '0' → ds = ['0']

namespace Literal

def fractionText (ds : List Char) : List Char := if ds = [] then [] else '.' :: ds

def exponentText : Option (Bool × List Char) → List Char
  | none => []
  | some (negative, ds) => 'e' :: (if negative then '-' else '+') :: ds

def text (literal : Literal) : List Char :=
  literal.whole ++ (fractionText literal.fraction ++ exponentText literal.exponent)

structure WellFormed (literal : Literal) : Prop where
  whole : IsWhole literal.whole
  fraction : ∀ c ∈ literal.fraction, c.isDigit = true
  exponent : ∀ power ∈ literal.exponent, (∀ c ∈ power.2, c.isDigit = true) ∧ power.2 ≠ []

end Literal

variable {rest : List Char}

theorem digits_append {ds : List Char} (hds : ∀ c ∈ ds, c.isDigit = true) (hne : ds ≠ [])
    (hrest : ∀ c ∈ rest.head?, c.isDigit = false) : digits (ds ++ rest) = .ok (ds, rest) := by
  have hnil : rest.takeWhile Char.isDigit = [] ∧ rest.dropWhile Char.isDigit = rest := by
    cases rest with
    | nil => exact ⟨rfl, rfl⟩
    | cons c rest =>
        have hc : ¬ c.isDigit = true := by simp [hrest c rfl]
        exact ⟨List.takeWhile_cons_of_neg hc, List.dropWhile_cons_of_neg hc⟩
  rw [digits, List.takeWhile_append_of_pos hds, List.dropWhile_append_of_pos hds, hnil.1, hnil.2, List.append_nil]
  cases ds with
  | nil => exact absurd rfl hne
  | cons d ds => rfl

theorem whole_append {ds : List Char} (h : IsWhole ds) (hrest : ∀ c ∈ rest.head?, c.isDigit = false) :
    whole (ds ++ rest) = .ok (ds, rest) := by
  have hdigits := digits_append h.digits h.nonempty hrest
  by_cases hzero : ds.head? = some '0'
  · rw [h.leading hzero] at hdigits ⊢
    cases rest with
    | nil => exact hdigits
    | cons c rest => simp [whole, hrest c rfl]
  · rw [whole]
    · exact hdigits
    · intro c rest' heq
      cases ds with
      | nil => exact h.nonempty rfl
      | cons first ds =>
          obtain ⟨rfl, -⟩ := List.cons.inj heq
          exact hzero rfl

open Literal (fractionText exponentText)

theorem fraction_append {ds : List Char} (hds : ∀ c ∈ ds, c.isDigit = true)
    (hrest : ∀ c ∈ rest.head?, c.isDigit = false ∧ c ≠ '.') :
    fraction (fractionText ds ++ rest) = .ok (ds, rest) := by
  by_cases hnil : ds = []
  · rw [fractionText, if_pos hnil, List.nil_append, hnil, fraction]
    rintro rest' rfl
    exact (hrest '.' rfl).2 rfl
  · rw [fractionText, if_neg hnil]
    exact digits_append hds hnil fun c hc => (hrest c hc).1

theorem exponent_append {power : Option (Bool × List Char)}
    (hpower : ∀ p ∈ power, (∀ c ∈ p.2, c.isDigit = true) ∧ p.2 ≠ []) (h : Ends rest) :
    exponent (exponentText power ++ rest) = .ok (power, rest) := by
  cases power with
  | none =>
      cases rest with
      | nil => rfl
      | cons c rest =>
          obtain ⟨-, -, he, hE⟩ := h c rfl
          rw [exponentText, List.nil_append, exponent, if_neg (not_or.2 ⟨he, hE⟩)]
  | some power =>
      obtain ⟨negative, ds⟩ := power
      obtain ⟨hds, hne⟩ := hpower _ rfl
      have hdigits := digits_append hds hne fun c hc => (h c hc).1
      have hsign : Text.splitSign ((if negative then '-' else '+') :: (ds ++ rest)) = (negative, ds ++ rest) := by
        cases negative <;> rfl
      simp only [exponentText, List.cons_append, exponent, true_or, if_true, hsign, hdigits]
      rfl

/-- A literal is read from its text, if a number ends there. -/
theorem literal_text {number : Literal} (hnumber : number.WellFormed) (h : Ends rest) :
    literal number.negative (number.text ++ rest) = .ok (number, rest) := by
  obtain ⟨hwhole, hfraction, hexponent⟩ := hnumber
  -- Each part ends where the next one begins, or where what follows the number does.
  have hpower : ∀ c ∈ (exponentText number.exponent ++ rest).head?, c.isDigit = false ∧ c ≠ '.' := by
    intro c hc
    cases hnumber : number.exponent with
    | none =>
        rw [hnumber] at hc
        exact ⟨(h c hc).1, (h c hc).2.1⟩
    | some power =>
        rw [hnumber] at hc
        obtain rfl : 'e' = c := Option.some.inj hc
        decide
  have hplaces : ∀ c ∈ (fractionText number.fraction ++ (exponentText number.exponent ++ rest)).head?,
      c.isDigit = false := by
    intro c hc
    by_cases hnil : number.fraction = []
    · rw [fractionText, if_pos hnil] at hc
      exact (hpower c hc).1
    · rw [fractionText, if_neg hnil] at hc
      obtain rfl : '.' = c := Option.some.inj hc
      decide
  rw [Literal.text, List.append_assoc, List.append_assoc, literal, whole_append hwhole hplaces, Outcome.ok_bind]
  dsimp only
  rw [fraction_append hfraction hpower, Outcome.ok_bind]
  dsimp only
  rw [exponent_append hexponent h]
  rfl

theorem token_of_isDigit {c : Char} (hc : c.isDigit = true) (s : List Char) :
    token c s = numberToken false (c :: s) := by
  unfold token
  split
  case h_12 => rw [if_pos hc]
  all_goals contradiction

theorem isSpace_of_isDigit {c : Char} (hc : c.isDigit = true) : isSpace c = false := by
  cases hspace : isSpace c with
  | false => rfl
  | true =>
      simp only [isSpace, Bool.or_eq_true, decide_eq_true_eq] at hspace
      rcases hspace with ((rfl | rfl) | rfl) | rfl <;> contradiction

theorem tokens_literal {number : Literal} (hnumber : number.WellFormed) (h : Ends rest) :
    tokens ((if number.negative then '-' :: number.text else number.text) ++ rest) = .number number :: tokens rest := by
  have hliteral := literal_text hnumber h
  by_cases hnegative : number.negative = true
  · rw [hnegative] at hliteral
    rw [if_pos hnegative, List.cons_append]
    refine tokens_cons (by decide) ?_
    rw [token, numberToken, hliteral]
  · rw [eq_false_of_ne_true hnegative] at hliteral
    obtain ⟨c, ds, hds⟩ := List.exists_cons_of_ne_nil hnumber.whole.nonempty
    have hc : c.isDigit = true := hnumber.whole.digits c (by simp [hds])
    rw [if_neg hnegative]
    rw [Literal.text, hds, List.cons_append, List.cons_append] at hliteral ⊢
    refine tokens_cons (isSpace_of_isDigit hc) ?_
    rw [token_of_isDigit hc, numberToken, hliteral]

end Groupwise.Json
