import Groupwise.Proofs.Binary64.Shortest
import Groupwise.Proofs.Json.Lexer
import Groupwise.Proofs.Tree.Within

namespace Groupwise

open Json (Literal IsWhole)

theorem Text.decimalNumber_toDigits (n : Nat) : Text.decimalNumber (Nat.toDigits 10 n) = n :=
  Nat.ofDigitChars_ten_toDigits

theorem Text.decimalNumber_zeros_append (k : Nat) (ds : List Char) :
    Text.decimalNumber (Number.zeros k ++ ds) = Text.decimalNumber ds := by
  rw [Text.decimalNumber, Nat.ofDigitChars_append, Number.zeros, Nat.ofDigitChars_replicate_zero, Nat.mul_zero]
  rfl

theorem Text.decimalNumber_append_zeros (k : Nat) (ds : List Char) :
    Text.decimalNumber (ds ++ Number.zeros k) = 10 ^ k * Text.decimalNumber ds := by
  rw [Text.decimalNumber, Nat.ofDigitChars_append, Number.zeros, Nat.ofDigitChars_replicate_zero]
  rfl

namespace Number

theorem isDigit_of_mem_zeros {k : Nat} : ∀ c ∈ zeros k, c.isDigit = true := by
  intro c hc
  obtain ⟨-, rfl⟩ := List.mem_replicate.1 hc
  rfl

theorem isDigit_of_mem_toDigits {n : Nat} : ∀ c ∈ Nat.toDigits 10 n, c.isDigit = true := fun _ hc =>
  Nat.isDigit_of_mem_toDigits (by decide) (by decide) hc

theorem head?_toDigits {n : Nat} (h : (Nat.toDigits 10 n).head? = some '0') : n = 0 := by
  induction n using Nat.strong_induction_on with
  | h n ih =>
      rcases Nat.lt_or_ge n 10 with hlt | hge
      · rw [Nat.toDigits_of_lt_base hlt] at h
        have hdigit : ∀ m < 10, Nat.digitChar m = '0' → m = 0 := by decide
        exact hdigit n hlt (Option.some.inj h)
      · rw [Nat.toDigits_of_base_le (by decide) hge, List.head?_append_of_ne_nil _ Nat.toDigits_ne_nil] at h
        have := ih (n / 10) (by omega) h
        omega

theorem isWhole_toDigits (n : Nat) : IsWhole (Nat.toDigits 10 n) := by
  refine ⟨isDigit_of_mem_toDigits, Nat.toDigits_ne_nil, fun h => ?_⟩
  rw [head?_toDigits h]
  rfl

theorem isWhole_take_one {ds : List Char} (h : IsWhole ds) : IsWhole (ds.take 1) := by
  cases ds with
  | nil => exact absurd rfl h.nonempty
  | cons c ds =>
      refine ⟨fun d hd => h.digits d (List.mem_of_mem_take hd), by simp, fun hhead => ?_⟩
      obtain rfl : c = '0' := Option.some.inj hhead
      rfl

def plainParts (digits : List Char) (power : Int) : List Char × List Char :=
  if 0 ≤ power then (digits ++ zeros power.toNat, ['0'])
  else if (-power).toNat < digits.length then
    (digits.take (digits.length - (-power).toNat), digits.drop (digits.length - (-power).toNat))
  else (['0'], zeros ((-power).toNat - digits.length) ++ digits)

def floatDigits (x : Binary64) : List Char := Nat.toDigits 10 x.shortest.1

def firstPlace (x : Binary64) : Int := (floatDigits x).length + x.shortest.2 - 1

def floatLiteral (x : Binary64) : Literal :=
  if -5 ≤ firstPlace x ∧ firstPlace x < 16 then
    ⟨x.negative, (plainParts (floatDigits x) x.shortest.2).1, (plainParts (floatDigits x) x.shortest.2).2, none⟩
  else
    ⟨x.negative, (floatDigits x).take 1, (floatDigits x).drop 1,
      some (firstPlace x < 0, Nat.toDigits 10 (firstPlace x).natAbs)⟩

def literal : Number → Literal
  | .integer n => ⟨n < 0, Nat.toDigits 10 n.natAbs, [], none⟩
  | .float x => floatLiteral x

theorem plain_eq (digits : List Char) (power : Int) :
    plain digits power = (plainParts digits power).1 ++ '.' :: (plainParts digits power).2 := by
  unfold plain plainParts
  split
  · simp
  · dsimp only
    split <;> rfl

theorem plainParts_snd_ne_nil (digits : List Char) (power : Int) : (plainParts digits power).2 ≠ [] := by
  unfold plainParts
  split
  · simp
  · split
    · simp only [ne_eq, List.drop_eq_nil_iff]
      omega
    · next h _ =>
      intro hnil
      have hlength := congrArg List.length hnil
      simp only [zeros, List.length_append, List.length_replicate, List.length_nil] at hlength
      omega

theorem isDigit_of_mem_plainParts_snd {digits : List Char} (h : ∀ c ∈ digits, c.isDigit = true) (power : Int) :
    ∀ c ∈ (plainParts digits power).2, c.isDigit = true := by
  unfold plainParts
  split
  · simp
  · split
    · exact fun c hc => h c (List.mem_of_mem_drop hc)
    · exact List.forall_mem_append.2 ⟨isDigit_of_mem_zeros, h⟩

/-- Digits that begin with a zero only if there is nothing else can be cut, and zeros can follow if they are not zero. -/
theorem isWhole_plainParts_fst {count : Nat} {power : Int} (h : count = 0 → power = 0) :
    IsWhole (plainParts (Nat.toDigits 10 count) power).1 := by
  have hwhole := isWhole_toDigits count
  unfold plainParts
  split
  · refine ⟨List.forall_mem_append.2 ⟨hwhole.digits, isDigit_of_mem_zeros⟩,
      List.append_ne_nil_of_left_ne_nil hwhole.nonempty _, fun hhead => ?_⟩
    rw [List.head?_append_of_ne_nil _ hwhole.nonempty] at hhead
    have hcount := head?_toDigits hhead
    rw [h hcount, hcount]
    rfl
  · split
    · next hpower hplaces =>
      refine ⟨fun c hc => hwhole.digits c (List.mem_of_mem_take hc), ?_, fun hhead => ?_⟩
      · rw [ne_eq, List.take_eq_nil_iff]
        rintro (hzero | hnil)
        · omega
        · exact hwhole.nonempty hnil
      · rw [List.head?_take, if_neg (by omega)] at hhead
        have := h (head?_toDigits hhead)
        omega
    · exact ⟨by simp, by simp, fun _ => rfl⟩

theorem scientific_eq_text (negative : Bool) (digits : List Char) (exponent : Int) :
    scientific digits exponent =
      Literal.text ⟨negative, digits.take 1, digits.drop 1, some (exponent < 0, Nat.toDigits 10 exponent.natAbs)⟩ := by
  rcases digits with _ | ⟨first, _ | ⟨second, rest⟩⟩ <;>
    simp [scientific, Literal.text, Literal.fractionText, Literal.exponentText]

theorem floatText_eq (x : Binary64) :
    floatText x = if x.negative then '-' :: (floatLiteral x).text else (floatLiteral x).text := by
  have hmagnitude : (if -5 ≤ firstPlace x ∧ firstPlace x < 16 then plain (floatDigits x) x.shortest.2
      else scientific (floatDigits x) (firstPlace x)) = (floatLiteral x).text := by
    unfold floatLiteral
    split
    · rw [plain_eq, Literal.text, Literal.fractionText, if_neg (plainParts_snd_ne_nil _ _), Literal.exponentText,
        List.append_nil]
    · exact scientific_eq_text _ _ _
  rw [← hmagnitude]
  rfl

theorem negative_floatLiteral (x : Binary64) : (floatLiteral x).negative = x.negative := by
  unfold floatLiteral
  split <;> rfl

theorem text_eq (n : Number) :
    n.text = if n.literal.negative then '-' :: n.literal.text else n.literal.text := by
  cases n with
  | integer n => simp [text, integerText, literal, Literal.text, Literal.fractionText, Literal.exponentText]
  | float x => rw [text, floatText_eq, literal, negative_floatLiteral]

theorem shortest_snd_eq_zero (x : Binary64) (h : x.shortest.1 = 0) : x.shortest.2 = 0 := by
  by_cases hrank : x.rank = 0
  · rw [Binary64.shortest, if_pos hrank]
  · exact absurd h (Binary64.shortest_fst_pos hrank).ne'

theorem wellFormed_floatLiteral (x : Binary64) : (floatLiteral x).WellFormed := by
  have hwhole : IsWhole (floatDigits x) := isWhole_toDigits _
  unfold floatLiteral
  split
  · exact ⟨isWhole_plainParts_fst (shortest_snd_eq_zero x), isDigit_of_mem_plainParts_snd hwhole.digits _, by simp⟩
  · refine ⟨isWhole_take_one hwhole, fun c hc => hwhole.digits c (List.mem_of_mem_drop hc), ?_⟩
    · rintro power hpower
      obtain rfl := Option.some.inj hpower
      exact ⟨isDigit_of_mem_toDigits, Nat.toDigits_ne_nil⟩

theorem wellFormed_literal (n : Number) : n.literal.WellFormed := by
  cases n with
  | integer n => exact ⟨isWhole_toDigits _, by simp [literal], by simp [literal]⟩
  | float x => exact wellFormed_floatLiteral x

theorem number?_integer {n : Int} (h : Valid (.integer n)) : (literal (.integer n)).number? = some (.integer n) := by
  obtain ⟨hlow, hhigh⟩ := h
  simp only [literal, Literal.number?, Text.decimalNumber_toDigits]
  by_cases hnegative : n < 0
  · have habs : (n.natAbs : Int) = -n := by omega
    rw [if_neg (by simp [hnegative]), if_pos ⟨trivial, trivial, by simpa using hnegative, by omega, by omega⟩, habs]
    simp
  · have habs : (n.natAbs : Int) = n := by omega
    rw [if_pos ⟨trivial, trivial, by simpa using hnegative, by omega⟩, habs]

theorem plainParts_value (digits : List Char) (power : Int) :
    (Text.decimalNumber ((plainParts digits power).1 ++ (plainParts digits power).2) : ℚ) *
      10 ^ (-((plainParts digits power).2.length : Int)) = Text.decimalNumber digits * 10 ^ power := by
  unfold plainParts
  split
  · next h =>
    obtain ⟨k, rfl⟩ : ∃ k : Nat, power = k := ⟨power.toNat, by omega⟩
    have hzeros : digits ++ zeros k ++ ['0'] = digits ++ zeros (k + 1) := by
      rw [List.append_assoc, zeros, zeros, List.replicate_succ']
    simp only [Int.toNat_natCast, hzeros, Text.decimalNumber_append_zeros, List.length_singleton]
    push_cast
    rw [zpow_neg, zpow_one, zpow_natCast, pow_succ]
    field_simp
  · next h =>
    -- The point stands among the digits, or else before zeros that come before them.
    obtain ⟨k, rfl⟩ : ∃ k : Nat, power = -(k : Int) := ⟨(-power).toNat, by omega⟩
    simp only [neg_neg, Int.toNat_natCast]
    split
    · next hplaces =>
      simp only [List.take_append_drop, List.length_drop]
      rw [Nat.sub_sub_self (Nat.le_of_lt hplaces)]
    · next hplaces =>
      have hzeros : ['0'] ++ (zeros (k - digits.length) ++ digits) = zeros (k - digits.length + 1) ++ digits := by
        rw [zeros, zeros, List.replicate_succ]
        rfl
      have hlength : (zeros (k - digits.length) ++ digits).length = k := by
        rw [List.length_append, zeros, List.length_replicate]
        omega
      simp only [hzeros, hlength, Text.decimalNumber_zeros_append]

theorem number?_of_ofDecimal? {number : Json.Literal} {x : Binary64}
    (hpoint : number.fraction ≠ [] ∨ number.exponent ≠ none)
    (h : Binary64.ofDecimal? number.negative (Text.decimalNumber (number.whole ++ number.fraction))
      (number.power - number.fraction.length) = some x) : number.number? = some (.float x) := by
  have hnot : ¬ (number.fraction = [] ∧ number.exponent = none) := by
    rintro ⟨hfraction, hexponent⟩
    rcases hpoint with hne | hne
    · exact hne hfraction
    · exact hne hexponent
  unfold Literal.number?
  dsimp only
  rw [if_neg fun h => hnot ⟨h.1, h.2.1⟩, if_neg fun h => hnot ⟨h.1, h.2.1⟩, h]
  rfl

theorem power_eq (negative : Bool) (whole fraction : List Char) (e : Int) :
    Literal.power ⟨negative, whole, fraction, some (e < 0, Nat.toDigits 10 e.natAbs)⟩ = e := by
  by_cases h : e < 0
  · simp only [h, decide_true, Literal.power, Text.decimalNumber_toDigits]
    omega
  · simp only [h, decide_false, Literal.power, Text.decimalNumber_toDigits]
    omega

theorem floatLiteral_value (x : Binary64) :
    (Text.decimalNumber ((floatLiteral x).whole ++ (floatLiteral x).fraction) : ℚ) *
      10 ^ ((floatLiteral x).power - (floatLiteral x).fraction.length) = x.shortest.1 * 10 ^ x.shortest.2 := by
  have hdigits : Text.decimalNumber (floatDigits x) = x.shortest.1 := Text.decimalNumber_toDigits _
  have hlength : 0 < (floatDigits x).length := List.length_pos_iff.2 Nat.toDigits_ne_nil
  unfold floatLiteral
  split
  · simp only [Literal.power, zero_sub]
    rw [plainParts_value, hdigits]
  · have hplace : firstPlace x - ((floatDigits x).length - 1 : Nat) = x.shortest.2 := by
      unfold firstPlace
      omega
    simp only [power_eq, List.take_append_drop, List.length_drop, hdigits, hplace]

theorem number?_floatLiteral (x : Binary64) : (floatLiteral x).number? = some (.float x) := by
  have hpoint : (floatLiteral x).fraction ≠ [] ∨ (floatLiteral x).exponent ≠ none := by
    unfold floatLiteral
    split
    · exact .inl (plainParts_snd_ne_nil _ _)
    · exact .inr (by simp)
  apply number?_of_ofDecimal? hpoint
  rw [negative_floatLiteral]
  have hvalue := floatLiteral_value x
  by_cases hrank : x.rank = 0
  · have hzero : Text.decimalNumber ((floatLiteral x).whole ++ (floatLiteral x).fraction) = 0 := by
      have hten := Binary64.ten_zpow_pos ((floatLiteral x).power - (floatLiteral x).fraction.length)
      rw [Binary64.shortest, if_pos hrank, Nat.cast_zero, zero_mul] at hvalue
      exact_mod_cast (mul_eq_zero.1 hvalue).resolve_right hten.ne'
    rw [hzero, Binary64.ofDecimal?_zero]
    obtain ⟨negative, rank, hlt⟩ := x
    obtain rfl : rank = 0 := hrank
    rfl
  · exact Binary64.ofDecimal?_of_rounds hrank (hvalue ▸ Binary64.rounds_shortest hrank)

theorem number?_literal {n : Number} (h : n.Valid) : n.literal.number? = some n := by
  cases n with
  | integer n => exact number?_integer h
  | float x => exact number?_floatLiteral x

end Number

end Groupwise
