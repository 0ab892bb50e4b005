import Mathlib.Algebra.Order.Field.Power
import Mathlib.Algebra.Order.Floor.Semifield
import Mathlib.Data.Nat.Cast.Order.Field
import Mathlib.Data.Rat.Floor
import Mathlib.Tactic.FieldSimp
import Mathlib.Tactic.Linarith
import Mathlib.Tactic.Positivity
import Groupwise.Binary64.Shortest

namespace Groupwise.Binary64

variable {n d : Nat} {e : Int} {q : ℚ}

theorem two_zpow_pos (e : Int) : (0 : ℚ) < 2 ^ e := by positivity

theorem ten_zpow_pos (e : Int) : (0 : ℚ) < 10 ^ e := by positivity

theorem scale_snd_pos (hd : 0 < d) (n : Nat) (e : Int) : 0 < (scale n d e).2 := by
  unfold scale
  split
  · exact hd
  · exact Nat.mul_pos hd (Nat.pow_pos (by decide))

theorem cast_scale (n d : Nat) (e : Int) : ((scale n d e).1 : ℚ) / (scale n d e).2 = n / d / 2 ^ e := by
  unfold scale
  split
  · next h =>
    obtain ⟨k, rfl⟩ : ∃ k : Nat, e = -(k : Int) := ⟨(-e).toNat, by omega⟩
    simp only [Int.neg_neg, Int.toNat_natCast, Nat.pow_eq, Nat.cast_mul, Nat.cast_pow, Nat.cast_ofNat, zpow_neg,
      zpow_natCast, div_inv_eq_mul, mul_div_right_comm]
  · next h =>
    obtain ⟨k, rfl⟩ : ∃ k : Nat, e = k := ⟨e.toNat, by omega⟩
    simp only [Int.toNat_natCast, Nat.pow_eq, Nat.cast_mul, Nat.cast_pow, Nat.cast_ofNat, zpow_natCast, div_div]

theorem fraction_snd_pos (m : Nat) (e : Int) : 0 < (fraction m e).2 := by
  unfold fraction
  split
  · exact Nat.pow_pos (by decide)
  · exact Nat.one_pos

theorem cast_fraction (m : Nat) (e : Int) : ((fraction m e).1 : ℚ) / (fraction m e).2 = m * 10 ^ e := by
  unfold fraction
  split
  · next h =>
    obtain ⟨k, rfl⟩ : ∃ k : Nat, e = -(k : Int) := ⟨(-e).toNat, by omega⟩
    simp only [Int.neg_neg, Int.toNat_natCast, Nat.pow_eq, Nat.cast_pow, Nat.cast_ofNat, zpow_neg, zpow_natCast,
      div_eq_mul_inv]
  · next h =>
    obtain ⟨k, rfl⟩ : ∃ k : Nat, e = k := ⟨e.toNat, by omega⟩
    simp only [Int.toNat_natCast, Nat.pow_eq, Nat.cast_mul, Nat.cast_pow, Nat.cast_ofNat, zpow_natCast, Nat.cast_one,
      div_one]

theorem div_lt_iff_cast {a b k : Nat} (hb : 0 < b) : a / b < k ↔ (a : ℚ) / b < k := by
  rw [Nat.div_lt_iff_lt_mul hb, div_lt_iff₀ (by exact_mod_cast hb)]
  exact_mod_cast Iff.rfl

/-- The quotient of a fraction by its power of two has 53 bits before the point, or less at the least exponent. -/
structure HasExponent (q : ℚ) (e : Int) : Prop where
  least : -1074 ≤ e
  lt : q < 2 * leading * 2 ^ e
  le : e = -1074 ∨ leading * 2 ^ e ≤ q

theorem HasExponent.unique {e' : Int} (h : HasExponent q e) (h' : HasExponent q e') : e = e' := by
  have hstep : ∀ {i j : Int}, HasExponent q i → HasExponent q j → ¬ i < j := by
    intro i j hi hj hlt
    have hpow : (2 : ℚ) ^ (i + 1) ≤ 2 ^ j := zpow_le_zpow_right₀ (by norm_num) (by omega)
    rw [zpow_add_one₀ (by norm_num)] at hpow
    have hj' : (leading : ℚ) * 2 ^ j ≤ q := hj.le.resolve_left (by have := hi.least; omega)
    have hlead : (0 : ℚ) < leading := by norm_num [leading]
    have := hi.lt
    nlinarith
  rcases Int.lt_trichotomy e e' with hlt | heq | hgt
  · exact absurd hlt (hstep h h')
  · exact heq
  · exact absurd hgt (hstep h' h)

theorem lt_two_zpow_log2 (n : Nat) : (n : ℚ) < 2 ^ ((Nat.log2 n : Int) + 1) := by
  have h := @Nat.lt_log2_self n
  exact_mod_cast h

theorem two_zpow_log2_le (hn : 0 < n) : (2 : ℚ) ^ (Nat.log2 n : Int) ≤ n := by
  have h := Nat.log2_self_le hn.ne'
  exact_mod_cast h

theorem between_of_log2 (hn : 0 < n) (hd : 0 < d) :
    (2 : ℚ) ^ ((Nat.log2 n : Int) - Nat.log2 d - 1) ≤ n / d ∧ (n / d : ℚ) < 2 ^ ((Nat.log2 n : Int) - Nat.log2 d + 1) := by
  have hdq : (0 : ℚ) < d := by exact_mod_cast hd
  constructor
  · rw [le_div_iff₀ hdq, show (Nat.log2 n : Int) - Nat.log2 d - 1 = Nat.log2 n - (Nat.log2 d + 1) by omega,
      zpow_sub₀ (by norm_num), div_mul_eq_mul_div, div_le_iff₀ (two_zpow_pos _)]
    exact mul_le_mul (two_zpow_log2_le hn) (lt_two_zpow_log2 d).le hdq.le (by positivity)
  · rw [div_lt_iff₀ hdq, show (Nat.log2 n : Int) - Nat.log2 d + 1 = Nat.log2 n + 1 - Nat.log2 d by omega,
      zpow_sub₀ (by norm_num), div_mul_eq_mul_div, lt_div_iff₀ (two_zpow_pos _)]
    exact mul_lt_mul (lt_two_zpow_log2 n) (two_zpow_log2_le hd) (two_zpow_pos _) (two_zpow_pos _).le

theorem leading_mul_zpow (e : Int) : (leading : ℚ) * 2 ^ e = 2 ^ (e + 52) := by
  rw [zpow_add₀ (by norm_num), mul_comm]
  norm_num [leading]

theorem hasExponent_exponentOf (hn : 0 < n) (hd : 0 < d) : HasExponent (n / d) (exponentOf n d) := by
  obtain ⟨hlow, hhigh⟩ := between_of_log2 hn hd
  have hscale : ∀ low : Int, (scale n d low).1 / (scale n d low).2 < 2 * leading ↔
      (n / d : ℚ) < 2 * leading * 2 ^ low := by
    intro low
    rw [div_lt_iff_cast (scale_snd_pos hd n low), cast_scale, div_lt_iff₀ (two_zpow_pos low)]
    norm_num
  unfold exponentOf
  simp only [hscale, mul_assoc, leading_mul_zpow]
  -- The orders of the terms leave two exponents to choose from.
  generalize horder : (Nat.log2 n : Int) - Nat.log2 d - 53 = order
  rw [show (Nat.log2 n : Int) - Nat.log2 d - 1 = order + 52 by omega] at hlow
  rw [show (Nat.log2 n : Int) - Nat.log2 d + 1 = order + 1 + 53 by omega] at hhigh
  have htwice : ∀ i : Int, (2 : ℚ) * 2 ^ (i + 52) = 2 ^ (i + 53) := by
    intro i
    rw [show i + 53 = (i + 52) + 1 by omega, zpow_add_one₀ (by norm_num), mul_comm]
  split
  · next hsmall =>
    have hpow : (2 : ℚ) ^ (order + 1 + 53) ≤ 2 ^ ((-1074 : Int) + 53) :=
      zpow_le_zpow_right₀ (by norm_num) (by omega)
    have hlt := hhigh.trans_le hpow
    rw [htwice, if_pos hlt]
    exact ⟨le_refl _, by rwa [mul_assoc, leading_mul_zpow, htwice], .inl rfl⟩
  · next hlarge =>
    split
    · next hlt => exact ⟨by omega, by rwa [mul_assoc, leading_mul_zpow], .inr (by rwa [leading_mul_zpow])⟩
    · next hge =>
      rw [htwice, not_lt] at hge
      refine ⟨by omega, by rwa [mul_assoc, leading_mul_zpow, htwice], .inr ?_⟩
      rwa [leading_mul_zpow, show order + 1 + 52 = order + 53 by omega]

theorem roundDiv_eq {a b m : Nat} (hlow : 2 * (b * m) ≤ 2 * a + b) (hhigh : 2 * a ≤ 2 * (b * m) + b)
    (htie : m % 2 = 1 → 2 * (b * m) < 2 * a + b ∧ 2 * a < 2 * (b * m) + b) (hb : 0 < b) : roundDiv a b = m := by
  have ha : b * (a / b) + a % b = a := Nat.div_add_mod a b
  have hr : a % b < b := Nat.mod_lt a hb
  unfold roundDiv
  generalize a / b = k at *
  generalize a % b = r at *
  have hkm : k ≤ m := by
    by_contra hlt
    have hmul : b * (m + 1) ≤ b * k := Nat.mul_le_mul_left b (Nat.lt_of_not_le hlt)
    rw [Nat.mul_succ] at hmul
    omega
  have hmk : m ≤ k + 1 := by
    by_contra hlt
    have hmul : b * (k + 2) ≤ b * m := Nat.mul_le_mul_left b (Nat.lt_of_not_le hlt)
    rw [Nat.mul_add] at hmul
    omega
  rcases Nat.lt_or_eq_of_le hkm with hlt | rfl
  · obtain rfl : m = k + 1 := by omega
    rw [Nat.mul_succ] at hlow htie
    dsimp only
    rw [if_neg (by omega)]
  · dsimp only
    rw [if_pos (by omega)]

/-- A fraction lies in the interval of a number, at an end only when the significand is even. -/
def Rounds (x : Binary64) (q : ℚ) : Prop :=
  (x.low * 2 ^ (x.exponent - 2) ≤ q ∧ q ≤ x.high * 2 ^ (x.exponent - 2)) ∧
    (x.significand % 2 = 1 → x.low * 2 ^ (x.exponent - 2) < q ∧ q < x.high * 2 ^ (x.exponent - 2))

variable {x : Binary64}

theorem rank_eq (x : Binary64) : x.rank = (x.exponent + 1074).toNat * leading + x.significand := by
  unfold exponent significand
  split
  · simp
  · next h =>
    have hdiv : 1 ≤ x.rank / leading := (Nat.one_le_div_iff (by decide)).2 (Nat.le_of_not_lt h)
    have hmod := Nat.div_add_mod' x.rank leading
    obtain ⟨k, hk⟩ : ∃ k, x.rank / leading = k + 1 := ⟨x.rank / leading - 1, by omega⟩
    rw [hk] at hmod ⊢
    rw [show (((k + 1 : Nat) : Int) - 1075 + 1074).toNat = k by omega]
    rw [Nat.succ_mul] at hmod
    omega

theorem significand_lt (x : Binary64) : x.significand < 2 * leading := by
  unfold significand
  have := Nat.mod_lt x.rank (show 0 < leading by decide)
  split <;> omega

theorem exponent_bounds (x : Binary64) :
    -1074 ≤ x.exponent ∧ x.exponent ≤ 971 ∧ (x.exponent = -1074 ∨ leading ≤ x.significand) := by
  unfold exponent significand
  split
  · simp
  · next h =>
    have hdiv : 1 ≤ x.rank / leading := (Nat.one_le_div_iff (by decide)).2 (Nat.le_of_not_lt h)
    have hlt : x.rank / leading < 0x7ff := Nat.div_lt_of_lt_mul (Nat.mul_comm _ _ ▸ x.rank_lt)
    refine ⟨by omega, by omega, .inr (Nat.le_add_right _ _)⟩

theorem roundDiv_scale (hd : 0 < d) {m : Nat} (hlow : 2 * m * (2 : ℚ) ^ e ≤ 2 * (n / d) + 2 ^ e)
    (hhigh : 2 * (n / d) ≤ 2 * m * (2 : ℚ) ^ e + 2 ^ e)
    (htie : m % 2 = 1 → 2 * m * (2 : ℚ) ^ e < 2 * (n / d) + 2 ^ e ∧ 2 * (n / d) < 2 * m * (2 : ℚ) ^ e + 2 ^ e) :
    roundDiv (scale n d e).1 (scale n d e).2 = m := by
  have hb : 0 < (scale n d e).2 := scale_snd_pos hd n e
  have hscale := cast_scale n d e
  have hpow := two_zpow_pos e
  generalize (scale n d e).1 = a at *
  generalize (scale n d e).2 = b at *
  have hbq : (0 : ℚ) < b := by exact_mod_cast hb
  have hunit : (0 : ℚ) < b / 2 ^ e := div_pos hbq hpow
  -- Every bound is multiplied by the denominator and divided by the power of two.
  have hvalue : (n / d : ℚ) * (b / 2 ^ e) = a := by
    rw [← mul_div_assoc, mul_div_right_comm, ← hscale, div_mul_cancel₀ _ hbq.ne']
  have hone : (2 : ℚ) ^ e * (b / 2 ^ e) = b := mul_div_cancel₀ _ hpow.ne'
  have hleft : 2 * m * (2 : ℚ) ^ e * (b / 2 ^ e) = (2 * (b * m) : Nat) := by
    rw [mul_assoc, hone]
    push_cast
    ring
  have hright : (2 * (n / d) + 2 ^ e : ℚ) * (b / 2 ^ e) = (2 * a + b : Nat) := by
    rw [add_mul, mul_assoc, hvalue, hone]
    push_cast
    ring
  have hleft' : (2 * m * 2 ^ e + 2 ^ e : ℚ) * (b / 2 ^ e) = (2 * (b * m) + b : Nat) := by
    rw [add_mul, hleft, hone]
    push_cast
    ring
  have hright' : 2 * (n / d : ℚ) * (b / 2 ^ e) = (2 * a : Nat) := by
    rw [mul_assoc, hvalue]
    push_cast
    ring
  rw [← mul_le_mul_iff_left₀ hunit, hleft, hright] at hlow
  rw [← mul_le_mul_iff_left₀ hunit, hright', hleft'] at hhigh
  refine roundDiv_eq (by exact_mod_cast hlow) (by exact_mod_cast hhigh) (fun hodd => ?_) hb
  obtain ⟨hlow, hhigh⟩ := htie hodd
  rw [← mul_lt_mul_iff_left₀ hunit, hleft, hright] at hlow
  rw [← mul_lt_mul_iff_left₀ hunit, hright', hleft'] at hhigh
  exact ⟨by exact_mod_cast hlow, by exact_mod_cast hhigh⟩

theorem le_low (x : Binary64) : 4 * x.significand ≤ x.low + 2 := by
  unfold low
  split <;> omega

theorem low_of_leading (hsignificand : x.significand = leading) (hexponent : -1074 < x.exponent) :
    x.low = 4 * leading - 1 := by
  rw [low, if_pos ⟨hsignificand, hexponent⟩, hsignificand]

theorem zpow_eq_four_mul (e : Int) : (2 : ℚ) ^ e = 4 * 2 ^ (e - 2) := by
  rw [zpow_sub₀ (by norm_num)]
  norm_num
  ring

theorem Rounds.within (h : x.Rounds q) :
    (2 * x.significand * (2 : ℚ) ^ x.exponent ≤ 2 * q + 2 ^ x.exponent ∧
        2 * q ≤ 2 * x.significand * (2 : ℚ) ^ x.exponent + 2 ^ x.exponent) ∧
      (x.significand % 2 = 1 → 2 * x.significand * (2 : ℚ) ^ x.exponent < 2 * q + 2 ^ x.exponent ∧
        2 * q < 2 * x.significand * (2 : ℚ) ^ x.exponent + 2 ^ x.exponent) := by
  obtain ⟨⟨hlow, hhigh⟩, htie⟩ := h
  have hquarters : (4 * x.significand : ℚ) ≤ x.low + 2 := by exact_mod_cast x.le_low
  have hquarters := mul_le_mul_of_nonneg_right hquarters (two_zpow_pos (x.exponent - 2)).le
  simp only [high] at hhigh htie
  push_cast at hhigh htie
  rw [zpow_eq_four_mul x.exponent]
  refine ⟨⟨by linarith, by linarith⟩, fun hodd => ?_⟩
  obtain ⟨hlow, hhigh⟩ := htie hodd
  exact ⟨by linarith, by linarith⟩

theorem nearestRank_of_exponent {m : Nat} (hexponent : exponentOf n d = e)
    (hround : roundDiv (scale n d e).1 (scale n d e).2 = m) : nearestRank n d = (e + 1074).toNat * leading + m := by
  subst hexponent hround
  rfl

theorem significand_of_below (h : x.Rounds q) (hne : x.exponent ≠ -1074) (hlt : q < leading * 2 ^ x.exponent) :
    x.significand = leading := by
  obtain ⟨-, -, hlead⟩ := x.exponent_bounds
  obtain ⟨⟨hlow, -⟩, -⟩ := h.within
  have hpos := two_zpow_pos x.exponent
  by_contra hother
  have hlead := Nat.lt_of_le_of_ne (hlead.resolve_left hne) (Ne.symm hother)
  have hsucc : (leading : ℚ) + 1 ≤ x.significand := by exact_mod_cast hlead
  have hsucc := mul_le_mul_of_nonneg_right hsucc hpos.le
  linarith

/--
A fraction in the interval of a number that is less than all numbers with the same exponent. So the number is the least
of these, to which the fraction is rounded up.
-/
theorem nearestRank_of_below (hn : 0 < n) (hd : 0 < d) (h : x.Rounds (n / d)) (hne : x.exponent ≠ -1074)
    (hlt : (n / d : ℚ) < leading * 2 ^ x.exponent) : nearestRank n d = x.rank := by
  have hsignificand := significand_of_below h hne hlt
  obtain ⟨hleast, -, -⟩ := x.exponent_bounds
  have hlow := h.1.1
  rw [x.low_of_leading hsignificand (by omega), Nat.cast_sub (by decide)] at hlow
  push_cast at hlow
  have hquarter : (2 : ℚ) ^ (x.exponent - 1) = 2 * 2 ^ (x.exponent - 2) := by
    rw [show x.exponent - 1 = x.exponent - 2 + 1 by omega, zpow_add_one₀ (by norm_num), mul_comm]
  have hlead : (2 : ℚ) ^ (x.exponent - 2) ≤ leading * 2 ^ (x.exponent - 2) :=
    le_mul_of_one_le_left (two_zpow_pos _).le (by norm_num [leading])
  rw [zpow_eq_four_mul] at hlt
  -- The exponent of the fraction is one less, where it is rounded up to the end of the range.
  have hround : roundDiv (scale n d (x.exponent - 1)).1 (scale n d (x.exponent - 1)).2 = 2 * leading := by
    apply roundDiv_scale hd
    · rw [hquarter]
      push_cast
      linarith
    · rw [hquarter]
      push_cast
      linarith
    · intro hodd
      omega
  have hexponent : exponentOf n d = x.exponent - 1 := by
    refine (hasExponent_exponentOf hn hd).unique ⟨by omega, ?_, .inr ?_⟩
    · rw [hquarter]
      linarith
    · rw [hquarter]
      linarith
  have hstep : (x.exponent + 1074).toNat = (x.exponent - 1 + 1074).toNat + 1 := by omega
  rw [nearestRank_of_exponent hexponent hround, x.rank_eq, hsignificand, hstep]
  ring

/-- A fraction in the interval of a number is rounded to it. -/
theorem nearestRank_eq (hn : 0 < n) (hd : 0 < d) (h : x.Rounds (n / d)) : nearestRank n d = x.rank := by
  by_cases hbelow : x.exponent = -1074 ∨ leading * (2 : ℚ) ^ x.exponent ≤ n / d
  · obtain ⟨⟨hlow, hhigh⟩, htie⟩ := h.within
    have hsignificand : (x.significand : ℚ) + 1 ≤ 2 * leading := by exact_mod_cast x.significand_lt
    have hpos := two_zpow_pos x.exponent
    have hsignificand := mul_le_mul_of_nonneg_right hsignificand hpos.le
    have hexponent : exponentOf n d = x.exponent :=
      (hasExponent_exponentOf hn hd).unique ⟨x.exponent_bounds.1, by linarith, hbelow⟩
    rw [x.rank_eq]
    exact nearestRank_of_exponent hexponent (roundDiv_scale hd hlow hhigh htie)
  · rw [not_or, not_le] at hbelow
    exact nearestRank_of_below hn hd h hbelow.1 hbelow.2

end Groupwise.Binary64
