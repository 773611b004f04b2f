import Paddock.Proofs.Rounding

/-!
# Shortest decimals read back

The digits that a number is written with lie near it. The search for them ends after seventeen
digits at the latest: on a grid that fine the nearest point to the number is nearer than the
midpoints to its neighbours.
-/

namespace Paddock.Binary64

set_option autoImplicit false

variable {m : ℕ} {e : ℤ} {i : Interval} {n : ℕ} {power : ℤ}

/-- The denominator and the ends of an interval, for a number whose fourth part of a last place is
`unit / den`. -/
theorem interval_eq (m : ℕ) (e : ℤ) :
    interval m e =
      ⟨(4 * m - if m = Nat.pow 2 (mantissaBits - 1) ∧ leastExponent < e then 1 else 2) *
          (scale 1 1 (e - 2)).1,
        4 * m * (scale 1 1 (e - 2)).1, (4 * m + 2) * (scale 1 1 (e - 2)).1,
        (scale 1 1 (e - 2)).2, m % 2 == 0⟩ := rfl

theorem den_pos (m : ℕ) (e : ℤ) : 0 < (interval m e).den := scale_pos one_pos 1 (e - 2)

theorem quarter_eq (e : ℤ) :
    ((scale 1 1 (e - 2)).1 : ℚ) / (scale 1 1 (e - 2)).2 = 2 ^ e / 4 := by
  rw [scale_eq, zpow_sub₀ two_ne_zero]
  norm_num

theorem value_eq (m : ℕ) (e : ℤ) :
    ((interval m e).value : ℚ) / (interval m e).den = m * 2 ^ e := by
  rw [interval_eq]
  push_cast
  rw [mul_div_assoc, quarter_eq]
  ring

theorem high_eq (m : ℕ) (e : ℤ) :
    ((interval m e).high : ℚ) / (interval m e).den = (m + 1 / 2) * 2 ^ e := by
  rw [interval_eq]
  push_cast
  rw [mul_div_assoc, quarter_eq]
  ring

theorem low_eq (hm : 0 < m) (e : ℤ) :
    ((interval m e).low : ℚ) / (interval m e).den = (m - lowGap m e) * 2 ^ e := by
  have hhalf : Nat.pow 2 (mantissaBits - 1) = 2 ^ 52 := by norm_num [mantissaBits]
  rw [interval_eq, hhalf]
  unfold lowGap
  by_cases hgap : m = 2 ^ 52 ∧ leastExponent < e
  · simp only [if_pos hgap]
    rw [Nat.cast_mul, Nat.cast_sub (by omega), mul_div_assoc, quarter_eq]
    push_cast
    ring
  · simp only [if_neg hgap]
    rw [Nat.cast_mul, Nat.cast_sub (by omega), mul_div_assoc, quarter_eq]
    push_cast
    ring

theorem near_iff {q : ℚ} : Near m e q ↔
    ((m : ℚ) - lowGap m e) * 2 ^ e ≤ q ∧ q ≤ (m + 1 / 2) * 2 ^ e ∧
      (m % 2 = 0 ∨ ((m : ℚ) - lowGap m e) * 2 ^ e < q ∧ q < (m + 1 / 2) * 2 ^ e) := by
  have hlow {a : ℚ} : a < q * 2 ^ (-e) ↔ a * 2 ^ e < q := by
    rw [zpow_neg, ← div_eq_mul_inv, lt_div_iff₀ (two_zpow_pos e)]
  have hhigh {a : ℚ} : q * 2 ^ (-e) ≤ a ↔ q ≤ a * 2 ^ e := by
    rw [zpow_neg, ← div_eq_mul_inv, div_le_iff₀ (two_zpow_pos e)]
  constructor
  · intro h
    refine ⟨le_mul_zpow_neg_iff.mp h.low, hhigh.mp h.high, h.even.imp_right fun hstrict => ?_⟩
    exact ⟨hlow.mp hstrict.1, mul_zpow_neg_lt_iff.mp hstrict.2⟩
  · rintro ⟨h₁, h₂, h₃⟩
    refine ⟨le_mul_zpow_neg_iff.mpr h₁, hhigh.mpr h₂, h₃.imp_right fun hstrict => ?_⟩
    exact ⟨hlow.mpr hstrict.1, mul_zpow_neg_lt_iff.mpr hstrict.2⟩

def fraction (n : ℕ) (power : ℤ) : ℕ × ℕ :=
  if 0 ≤ power then (n * Nat.pow 10 power.toNat, 1) else (n, Nat.pow 10 (-power).toNat)

theorem fraction_den_pos (n : ℕ) (power : ℤ) : 0 < (fraction n power).2 := by
  unfold fraction
  split
  · exact one_pos
  · exact Nat.pow_pos (by norm_num)

theorem fraction_eq (n : ℕ) (power : ℤ) :
    ((fraction n power).1 : ℚ) / (fraction n power).2 = n * 10 ^ power := by
  unfold fraction
  split
  · next hpower =>
    obtain ⟨k, rfl⟩ := Int.eq_ofNat_of_zero_le hpower
    simp
  · next hpower =>
    obtain ⟨k, hk⟩ := Int.eq_ofNat_of_zero_le (a := -power) (by omega)
    obtain rfl : power = -k := by omega
    simp [div_eq_mul_inv]

theorem holds_eq (i : Interval) (n : ℕ) (power : ℤ) :
    i.holds n power =
      if i.closed then
        decide (i.low * (fraction n power).2 ≤ (fraction n power).1 * i.den) &&
          decide ((fraction n power).1 * i.den ≤ i.high * (fraction n power).2)
      else
        decide (i.low * (fraction n power).2 < (fraction n power).1 * i.den) &&
          decide ((fraction n power).1 * i.den < i.high * (fraction n power).2) := rfl

theorem holds_iff (hm : 0 < m) (e : ℤ) (n : ℕ) (power : ℤ) :
    (interval m e).holds n power = true ↔ Near m e (n * 10 ^ power) := by
  have hden : (0 : ℚ) < (interval m e).den := by exact_mod_cast den_pos m e
  have hd : (0 : ℚ) < (fraction n power).2 := by exact_mod_cast fraction_den_pos n power
  have hclosed : (interval m e).closed = decide (m % 2 = 0) := rfl
  rw [near_iff, ← fraction_eq, ← low_eq hm, ← high_eq, div_le_div_iff₀ hden hd,
    div_le_div_iff₀ hd hden, div_lt_div_iff₀ hden hd, div_lt_div_iff₀ hd hden, holds_eq, hclosed]
  norm_cast
  by_cases heven : m % 2 = 0
  · simp [heven]
  · simp only [heven, decide_false, Bool.false_eq_true, if_false, Bool.and_eq_true,
      decide_eq_true_eq, false_or]
    exact ⟨fun h => ⟨h.1.le, h.2.le, h⟩, fun h => h.2.2⟩

def onGrid (i : Interval) (power : ℤ) : ℕ × ℕ :=
  if 0 ≤ power then (i.value, i.den * Nat.pow 10 power.toNat)
  else (i.value * Nat.pow 10 (-power).toNat, i.den)

theorem onGrid_den_pos (hden : 0 < i.den) (power : ℤ) : 0 < (onGrid i power).2 := by
  unfold onGrid
  split
  · exact Nat.mul_pos hden (Nat.pow_pos (by norm_num))
  · exact hden

theorem onGrid_eq (i : Interval) (power : ℤ) :
    ((onGrid i power).1 : ℚ) / (onGrid i power).2 = i.value / i.den / 10 ^ power := by
  unfold onGrid
  split
  · next hpower =>
    obtain ⟨k, rfl⟩ := Int.eq_ofNat_of_zero_le hpower
    simp [div_div]
  · next hpower =>
    obtain ⟨k, hk⟩ := Int.eq_ofNat_of_zero_le (a := -power) (by omega)
    obtain rfl : power = -k := by omega
    simp [mul_div_right_comm]

def nearest (i : Interval) (power : ℤ) : ℕ := roundDiv (onGrid i power).1 (onGrid i power).2

theorem onGrid?_eq (i : Interval) (power : ℤ) : ∃ far, i.onGrid? power =
    if i.holds (nearest i power) power then some (nearest i power)
    else if i.holds far power then some far
    else none :=
  ⟨_, rfl⟩

theorem holds_of_onGrid? (h : i.onGrid? power = some n) : i.holds n power = true := by
  obtain ⟨far, heq⟩ := onGrid?_eq i power
  rw [heq] at h
  split at h
  · next hnear => exact Option.some.inj h ▸ hnear
  · split at h
    · next hfar => exact Option.some.inj h ▸ hfar
    · exact absurd h (by simp)

theorem onGrid?_of_holds_nearest (h : i.holds (nearest i power) power = true) :
    i.onGrid? power = some (nearest i power) := by
  obtain ⟨far, heq⟩ := onGrid?_eq i power
  rw [heq, if_pos h]

/-- What the search finds is in the interval, if the finest grid has a point there. -/
theorem holds_search {point : ℤ} {fuel count : ℕ}
    (h : (i.onGrid? (point - (count + fuel : ℕ))).isSome = true) :
    i.holds (i.search point fuel count).1 (i.search point fuel count).2 = true := by
  induction fuel generalizing count with
  | zero =>
    obtain ⟨n, hn⟩ := Option.isSome_iff_exists.mp h
    rw [Nat.add_zero] at hn
    rw [Interval.search, hn]
    exact holds_of_onGrid? hn
  | succ fuel ih =>
    rw [Interval.search]
    cases hfound : i.onGrid? (point - count) with
    | some n => exact holds_of_onGrid? hfound
    | none =>
      apply ih
      rwa [Nat.add_assoc, Nat.add_comm 1 fuel]

theorem nearest_bounds (hden : 0 < i.den) (power : ℤ) :
    Rounds ((i.value : ℚ) / i.den / 10 ^ power) (nearest i power) := by
  rw [← onGrid_eq]
  exact rounds_roundDiv (onGrid_den_pos hden power) _

theorem pow_pointOf_le {num den : ℕ} (hnum : 0 < num) (hden : 0 < den) :
    (10 : ℚ) ^ (pointOf num den - 1) ≤ num / den := by
  have hden' : (0 : ℚ) < den := by exact_mod_cast hden
  have hnum' : (0 : ℚ) < num := by exact_mod_cast hnum
  unfold pointOf
  split
  · next hle =>
    have hquotient : 0 < num / den := Nat.div_pos hle hden
    have hlow := (decimal_bounds hquotient 0).1
    rw [add_zero, zpow_zero, mul_one] at hlow
    refine hlow.trans ?_
    rw [le_div_iff₀ hden']
    exact_mod_cast Nat.div_mul_le_self num den
  · next hlt =>
    have hdigits := lt_pow_decimalDigits ((den - 1) / num)
    rw [Nat.div_lt_iff_lt_mul hnum] at hdigits
    have hle : (den : ℚ) ≤ 10 ^ decimalDigits ((den - 1) / num) * num := by
      exact_mod_cast (by omega : den ≤ 10 ^ decimalDigits ((den - 1) / num) * num)
    rw [show (1 : ℤ) - decimalDigits ((den - 1) / num) - 1 = -(decimalDigits ((den - 1) / num) : ℤ)
      by ring, zpow_neg, zpow_natCast, inv_le_iff_one_le_mul₀ (by positivity), div_mul_eq_mul_div,
      le_div_iff₀ hden', one_mul, mul_comm]
    exact hle

/-- Where seventeen digits are allowed, half a step of the grid is less than the way to the
midpoints. -/
theorem near_of_seventeen_digits (hcanonical : Canonical m e) (hm : 0 < m) {n : ℕ} {power : ℤ}
    (hgrid : (10 : ℚ) ^ (power + 16) ≤ m * 2 ^ e) (h : Rounds (m * 2 ^ e / 10 ^ power) n) :
    Near m e (n * 10 ^ power) := by
  have hm' : (0 : ℚ) < m := by exact_mod_cast hm
  have hpow := two_zpow_pos e
  have hten := ten_zpow_pos power
  have hstep : (10 : ℚ) ^ power * 10 ^ 16 ≤ m * 2 ^ e := by
    rw [zpow_add₀ (by norm_num)] at hgrid
    exact_mod_cast hgrid
  have hlow : ((n : ℚ) - 1 / 2) * 10 ^ power ≤ m * 2 ^ e := (le_div_iff₀ hten).mp h.low
  have hhigh : (m : ℚ) * 2 ^ e ≤ (n + 1 / 2) * 10 ^ power := (div_le_iff₀ hten).mp h.high
  -- the lower midpoint is the nearer one, and off by a part in `2 ^ 54` at least
  have hgap : (m : ℚ) / 2 ^ 54 ≤ lowGap m e := by
    unfold lowGap
    split
    · next hpow => rw [hpow.1]; norm_num
    · have hlt : (m : ℚ) < 2 ^ 53 := by exact_mod_cast hcanonical.lt_two_pow
      rw [div_le_iff₀ (by positivity)]
      norm_num at hlt ⊢
      linarith
  have hhalf : (10 : ℚ) ^ power / 2 < lowGap m e * 2 ^ e := by
    have hless : (10 : ℚ) ^ power / 2 < m / 2 ^ 54 * 2 ^ e := by
      rw [div_mul_eq_mul_div, lt_div_iff₀ (by positivity)]
      norm_num at hstep ⊢
      nlinarith
    exact hless.trans_le (mul_le_mul_of_nonneg_right hgap hpow.le)
  have hgap' := mul_le_mul_of_nonneg_right (lowGap_le m e) hpow.le
  rw [near_iff]
  refine ⟨?_, ?_, .inr ⟨?_, ?_⟩⟩ <;> linarith

theorem stripTens_eq (fuel n : ℕ) (power : ℤ) :
    ((stripTens fuel n power).1 : ℚ) * 10 ^ (stripTens fuel n power).2 = n * 10 ^ power := by
  induction fuel generalizing n power with
  | zero => rfl
  | succ fuel ih =>
    unfold stripTens
    split
    · next h =>
      rw [ih, zpow_add₀ (by norm_num), zpow_one]
      have hn : (n : ℚ) = (n / 10 : ℕ) * 10 := by
        exact_mod_cast (Nat.div_mul_cancel (Nat.dvd_of_mod_eq_zero h.2)).symm
      rw [hn]
      ring
    · rfl

/-- The shortest digits of a number lie near it. -/
theorem near_shortest (hcanonical : Canonical m e) (hm : 0 < m) :
    Near m e ((shortest m e).1 * 10 ^ (shortest m e).2) := by
  have hvalue := value_eq m e
  have hden := den_pos m e
  have hpos : 0 < (interval m e).value := by
    rw [interval_eq]
    refine Nat.mul_pos (by omega) ?_
    by_contra hzero
    have hquarter := quarter_eq e
    rw [Nat.eq_zero_of_not_pos hzero] at hquarter
    have := two_zpow_pos e
    norm_num at hquarter
    linarith
  generalize hpoint : pointOf (interval m e).value (interval m e).den = point
  have hgrid : (10 : ℚ) ^ (point - 17 + 16) ≤ m * 2 ^ e := by
    rw [← hvalue, ← hpoint, show pointOf (interval m e).value (interval m e).den - 17 + 16 =
      pointOf (interval m e).value (interval m e).den - 1 by ring]
    exact pow_pointOf_le hpos hden
  have hnearest := nearest_bounds hden (point - 17)
  rw [hvalue] at hnearest
  have hnear := near_of_seventeen_digits hcanonical hm hgrid hnearest
  rw [← holds_iff hm] at hnear
  have hsome : ((interval m e).onGrid? (point - (1 + 16 : ℕ))).isSome = true := by
    show ((interval m e).onGrid? (point - 17)).isSome = true
    rw [onGrid?_of_holds_nearest hnear]
    rfl
  have hsearch := holds_search hsome
  rw [holds_iff hm] at hsearch
  have hshortest : shortest m e = stripTens 20 ((interval m e).search point 16 1).1
      ((interval m e).search point 16 1).2 := by
    rw [← hpoint]
    rfl
  rwa [hshortest, stripTens_eq]

theorem shortest_pos (hcanonical : Canonical m e) (hm : 0 < m) : 0 < (shortest m e).1 := by
  by_contra hzero
  have hlow := ((near_shortest hcanonical hm).bounds hcanonical hm).1
  rw [Nat.eq_zero_of_not_pos hzero, Nat.cast_zero, zero_mul] at hlow
  exact (two_zpow_pos _).not_ge hlow

end Paddock.Binary64
