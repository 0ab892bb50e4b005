import Groupwise.Proofs.Binary64.Nearest

namespace Groupwise.Binary64

variable {x : Binary64} {grid : Int} {count quarters : Nat}

theorem exists_aligned (x : Binary64) (grid : Int) (count : Nat) :
    ∃ c unit : Nat, 0 < unit ∧ (∀ quarters, x.aligned grid count quarters = (c, quarters * unit)) ∧
      (c : ℚ) = count * 10 ^ grid / 2 ^ (x.exponent - 2) * unit := by
  have hscale := cast_scale (fraction count grid).1 (fraction count grid).2 (x.exponent - 2)
  have hpos := scale_snd_pos (fraction_snd_pos count grid) (fraction count grid).1 (x.exponent - 2)
  have hunit : (0 : ℚ) < (scale (fraction count grid).1 (fraction count grid).2 (x.exponent - 2)).2 := by
    exact_mod_cast hpos
  rw [cast_fraction, div_eq_iff hunit.ne'] at hscale
  exact ⟨(scale (fraction count grid).1 (fraction count grid).2 (x.exponent - 2)).1, _, hpos, fun _ => rfl, hscale⟩

theorem covers_iff : x.covers grid count = true ↔ x.Rounds (count * 10 ^ grid) := by
  obtain ⟨c, unit, hunit, haligned, hc⟩ := exists_aligned x grid count
  have hunitq : (0 : ℚ) < unit := by exact_mod_cast hunit
  have hpow := two_zpow_pos (x.exponent - 2)
  have hle : ∀ quarters : Nat, (quarters * 2 ^ (x.exponent - 2) : ℚ) ≤ count * 10 ^ grid ↔ quarters * unit ≤ c := by
    intro quarters
    rw [← le_div_iff₀ hpow, ← mul_le_mul_iff_left₀ hunitq, ← hc]
    norm_cast
  have hge : ∀ quarters : Nat, (count * 10 ^ grid : ℚ) ≤ quarters * 2 ^ (x.exponent - 2) ↔ c ≤ quarters * unit := by
    intro quarters
    rw [← div_le_iff₀ hpow, ← mul_le_mul_iff_left₀ hunitq, ← hc]
    norm_cast
  unfold covers Rounds
  simp only [haligned, endsIncluded, ← not_le, hle, hge]
  by_cases heven : x.significand % 2 = 0
  · simp [heven]
  · have hodd : x.significand % 2 = 1 := by omega
    simp only [hodd]
    simp
    omega

def magnitude (x : Binary64) : ℚ := x.significand * 2 ^ x.exponent

theorem steps_bounds (x : Binary64) (grid : Int) :
    (x.steps grid * 10 ^ grid : ℚ) ≤ x.magnitude ∧ x.magnitude < (x.steps grid + 1) * 10 ^ grid := by
  obtain ⟨c, unit, hunit, haligned, hc⟩ := exists_aligned x grid 1
  have hunitq : (0 : ℚ) < unit := by exact_mod_cast hunit
  have hpow := two_zpow_pos (x.exponent - 2)
  have hten := ten_zpow_pos grid
  rw [Nat.cast_one, one_mul] at hc
  have hcq : (0 : ℚ) < c := by
    rw [hc]
    positivity
  have hquarters : x.magnitude = 10 ^ grid * ((4 * x.significand * unit : Nat) / c : ℚ) := by
    rw [hc, magnitude, zpow_eq_four_mul]
    push_cast
    field_simp
  have hsteps : x.steps grid = 4 * x.significand * unit / c := by
    simp only [steps, haligned]
  rw [hsteps, hquarters, mul_comm, mul_comm _ ((10 : ℚ) ^ grid), mul_le_mul_iff_right₀ hten, mul_lt_mul_iff_right₀ hten]
  refine ⟨Nat.cast_div_le, ?_⟩
  have hlt := Nat.lt_floor_add_one ((4 * x.significand * unit : Nat) / c : ℚ)
  rwa [Nat.floor_div_eq_div] at hlt

theorem covers_of_onGrid? (h : x.onGrid? grid = some count) : x.covers grid count = true := by
  cases hbelow : x.covers grid (x.steps grid) <;> cases habove : x.covers grid (x.steps grid + 1)
  all_goals
    simp only [onGrid?, hbelow, habove] at h
  · contradiction
  · exact Option.some.inj h ▸ habove
  · exact Option.some.inj h ▸ hbelow
  · obtain rfl := Option.some.inj h
    split
    · exact habove
    · exact hbelow

theorem exists_onGrid? (h : x.covers grid (x.steps grid) = true) : ∃ count, x.onGrid? grid = some count := by
  cases habove : x.covers grid (x.steps grid + 1)
  all_goals
    simp only [onGrid?, h, habove]
    exact ⟨_, rfl⟩

theorem significand_pos (h : x.rank ≠ 0) : 0 < x.significand := by
  unfold significand
  split
  · exact Nat.pos_of_ne_zero h
  · exact Nat.add_pos_left (by decide) _

theorem low_lt (h : x.rank ≠ 0) : 0 < x.low ∧ x.low < 4 * x.significand := by
  have := significand_pos h
  unfold low
  split <;> omega

theorem two_zpow_lt_ten_zpow {a b : Nat} (h : Nat.pow 2 a < Nat.pow 10 b) : (2 : ℚ) ^ (a : Int) < 10 ^ (b : Int) := by
  rw [zpow_natCast, zpow_natCast]
  exact_mod_cast h

theorem ten_zpow_neg_lt_two_zpow_neg {a b : Nat} (h : Nat.pow 2 a < Nat.pow 10 b) :
    (10 : ℚ) ^ (-(b : Int)) < 2 ^ (-(a : Int)) := by
  rw [zpow_neg, zpow_neg]
  exact inv_strictAnti₀ (two_zpow_pos _) (two_zpow_lt_ten_zpow h)

/-- The steps of the finest grid are less than a quarter of the last place of any number. -/
theorem covers_finest (h : x.rank ≠ 0) : x.covers (-330) (x.steps (-330)) = true := by
  obtain ⟨hle, hlt⟩ := x.steps_bounds (-330)
  have hpow := two_zpow_pos (x.exponent - 2)
  have hlow : (x.low + 1 : ℚ) ≤ 4 * x.significand := by exact_mod_cast (low_lt h).2
  have hleast : (2 : ℚ) ^ (-1076 : Int) ≤ 2 ^ (x.exponent - 2) :=
    zpow_le_zpow_right₀ (by norm_num) (by have := x.exponent_bounds; omega)
  have hfine : (10 : ℚ) ^ (-330 : Int) < 2 ^ (x.exponent - 2) :=
    (ten_zpow_neg_lt_two_zpow_neg (a := 1076) (b := 330) (by decide +kernel)).trans_le hleast
  have hlow := mul_le_mul_of_nonneg_right hlow hpow.le
  rw [magnitude, zpow_eq_four_mul] at hle hlt
  rw [covers_iff]
  generalize (10 : ℚ) ^ (-330 : Int) = step at *
  have hlow' : (x.low * 2 ^ (x.exponent - 2) : ℚ) < x.steps (-330) * step := by linarith
  have hhigh' : (x.steps (-330) * step : ℚ) < x.high * 2 ^ (x.exponent - 2) := by
    rw [high]
    push_cast
    linarith
  exact ⟨⟨hlow'.le, hhigh'.le⟩, fun _ => ⟨hlow', hhigh'⟩⟩

theorem covers_coarsest (h : x.rank ≠ 0) (n : Nat) :
    x.covers (x.coarsest (n + 1)).2 (x.coarsest (n + 1)).1 = true := by
  induction n with
  | zero =>
      obtain ⟨count, hcount⟩ := exists_onGrid? (covers_finest h)
      have hstep : x.coarsest 1 = (count, -330) := by
        simp only [coarsest, Nat.cast_zero, zero_sub, hcount]
      rw [hstep]
      exact covers_of_onGrid? hcount
  | succ n ih =>
      rw [coarsest]
      split
      · next count hcount => exact covers_of_onGrid? hcount
      · exact ih

theorem rounds_shortest (h : x.rank ≠ 0) : x.Rounds (x.shortest.1 * 10 ^ x.shortest.2) := by
  rw [shortest, if_neg h]
  exact covers_iff.1 (covers_coarsest h 649)

theorem Rounds.pos {q : ℚ} (hx : x.rank ≠ 0) (h : x.Rounds q) : 2 ^ (-1076 : Int) ≤ q := by
  have hlow : (1 : ℚ) ≤ x.low := by exact_mod_cast (low_lt hx).1
  have hleast : (2 : ℚ) ^ (-1076 : Int) ≤ 2 ^ (x.exponent - 2) :=
    zpow_le_zpow_right₀ (by norm_num) (by have := x.exponent_bounds; omega)
  exact (hleast.trans (le_mul_of_one_le_left (two_zpow_pos _).le hlow)).trans h.1.1

theorem pos_of_rounds {m : Nat} {e : Int} (hx : x.rank ≠ 0) (h : x.Rounds (m * 10 ^ e)) : 0 < m := by
  apply Nat.pos_of_ne_zero
  rintro rfl
  have hpos := h.pos hx
  rw [Nat.cast_zero, zero_mul] at hpos
  exact absurd hpos (not_le.2 (two_zpow_pos _))

theorem shortest_fst_pos (h : x.rank ≠ 0) : 0 < x.shortest.1 := pos_of_rounds h (rounds_shortest h)

theorem Rounds.le {q : ℚ} (h : x.Rounds q) : q ≤ 2 ^ (1024 : Int) := by
  have hhigh : (x.high : ℚ) ≤ 2 ^ (55 : Int) := by
    have hlt := x.significand_lt
    have hnat : x.high ≤ 2 ^ 55 := by
      rw [high]
      norm_num [leading] at hlt ⊢
      omega
    exact_mod_cast hnat
  have hgreatest : (2 : ℚ) ^ (x.exponent - 2) ≤ 2 ^ (969 : Int) :=
    zpow_le_zpow_right₀ (by norm_num) (by have := x.exponent_bounds; omega)
  calc q ≤ x.high * 2 ^ (x.exponent - 2) := h.1.2
    _ ≤ 2 ^ (55 : Int) * 2 ^ (969 : Int) := mul_le_mul hhigh hgreatest (two_zpow_pos _).le (two_zpow_pos _).le
    _ = 2 ^ (1024 : Int) := by rw [← zpow_add₀ (by norm_num)]; norm_num

theorem toDigits_bounds {m : Nat} (hm : 0 < m) :
    (10 : ℚ) ^ (((Nat.toDigits 10 m).length : Int) - 1) ≤ m ∧ (m : ℚ) < 10 ^ ((Nat.toDigits 10 m).length : Int) := by
  have hlength : 0 < (Nat.toDigits 10 m).length := Nat.length_toDigits_pos
  have hlt : m < 10 ^ (Nat.toDigits 10 m).length := (Nat.length_toDigits_le_iff (by decide) hlength).1 (le_refl _)
  obtain ⟨k, hk⟩ : ∃ k, (Nat.toDigits 10 m).length = k + 1 := ⟨_, (Nat.succ_pred_eq_of_pos hlength).symm⟩
  have hle : 10 ^ k ≤ m := by
    rcases Nat.eq_zero_or_pos k with rfl | hpos
    · exact hm
    · by_contra hlt
      have := (Nat.length_toDigits_le_iff (by decide) hpos).2 (Nat.lt_of_not_le hlt)
      omega
  rw [hk] at hlt ⊢
  refine ⟨?_, by exact_mod_cast hlt⟩
  rw [Nat.cast_succ, add_sub_cancel_right]
  exact_mod_cast hle

theorem ofDecimal?_zero (negative : Bool) (exponent : Int) : ofDecimal? negative 0 exponent = some (zero negative) := by
  simp [ofDecimal?]

/-- Digits in the interval of a number are not so large or so small that they need not be looked at. -/
theorem place_of_rounds {m : Nat} {e : Int} (hx : x.rank ≠ 0) (h : x.Rounds (m * 10 ^ e)) :
    -400 ≤ ((Nat.toDigits 10 m).length : Int) + e ∧ ((Nat.toDigits 10 m).length : Int) + e ≤ 400 := by
  have hten := ten_zpow_pos e
  obtain ⟨hleast, hgreatest⟩ := toDigits_bounds (pos_of_rounds hx h)
  constructor
  · by_contra hlt
    have hsmall : (m * 10 ^ e : ℚ) < 2 ^ (-1076 : Int) :=
      calc (m * 10 ^ e : ℚ) ≤ 10 ^ (((Nat.toDigits 10 m).length : Int) + e) := by
            rw [zpow_add₀ (by norm_num)]
            exact mul_le_mul_of_nonneg_right hgreatest.le hten.le
        _ ≤ 10 ^ (-401 : Int) := zpow_le_zpow_right₀ (by norm_num) (by omega)
        _ < 2 ^ (-1076 : Int) := ten_zpow_neg_lt_two_zpow_neg (a := 1076) (b := 401) (by decide +kernel)
    exact absurd (h.pos hx) (not_le.2 hsmall)
  · by_contra hgt
    have hlarge : (2 : ℚ) ^ (1024 : Int) < m * 10 ^ e :=
      calc (2 : ℚ) ^ (1024 : Int) < 10 ^ (400 : Int) :=
            two_zpow_lt_ten_zpow (a := 1024) (b := 400) (by decide +kernel)
        _ ≤ 10 ^ (((Nat.toDigits 10 m).length : Int) - 1 + e) := zpow_le_zpow_right₀ (by norm_num) (by omega)
        _ ≤ m * 10 ^ e := by
            rw [zpow_add₀ (by norm_num)]
            exact mul_le_mul_of_nonneg_right hleast hten.le
    exact absurd h.le (not_le.2 hlarge)

theorem ofDecimal?_of_rounds {m : Nat} {e : Int} (hx : x.rank ≠ 0) (h : x.Rounds (m * 10 ^ e)) :
    ofDecimal? x.negative m e = some x := by
  have hm : 0 < m := pos_of_rounds hx h
  obtain ⟨hlow, hhigh⟩ := place_of_rounds hx h
  have hfraction := cast_fraction m e
  have hn : 0 < (fraction m e).1 := by
    apply Nat.pos_of_ne_zero
    intro hzero
    rw [hzero, Nat.cast_zero, zero_div] at hfraction
    exact absurd (hfraction ▸ h.pos hx) (not_le.2 (two_zpow_pos _))
  have hrank : nearestRank (fraction m e).1 (fraction m e).2 = x.rank :=
    nearestRank_eq hn (fraction_snd_pos m e) (hfraction ▸ h)
  simp only [ofDecimal?, hm.ne', not_lt.2 hlow, not_lt.2 hhigh, hrank, x.rank_lt, false_or, if_false, dif_pos]

end Groupwise.Binary64
