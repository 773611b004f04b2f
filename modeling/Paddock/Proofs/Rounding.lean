import Mathlib
import Paddock.Binary64.Shortest

/-!
# Reading decimals as numbers

A decimal is read as a number if it lies near it: no further off than the midpoints to the number's
neighbours, and not on one of these if the mantissa is odd. Whatever is read has one of the
mantissas and exponents that numbers have.
-/

namespace Paddock.Binary64

set_option autoImplicit false

/-- The natural number is a nearest one, and the even one of two. -/
structure Rounds (q : ℚ) (n : ℕ) : Prop where
  low : (n : ℚ) - 1 / 2 ≤ q
  high : q ≤ n + 1 / 2
  even : n % 2 = 0 ∨ ((n : ℚ) - 1 / 2 < q ∧ q < n + 1 / 2)

theorem Rounds.le {q : ℚ} {m n : ℕ} (hm : Rounds q m) (hn : Rounds q n) : n ≤ m := by
  by_contra hlt
  have hsucc : (m : ℚ) + 1 ≤ n := by exact_mod_cast Nat.not_le.mp hlt
  have hq : q = m + 1 / 2 := le_antisymm hm.high (by linarith [hn.low])
  have hnm : (n : ℚ) = m + 1 := le_antisymm (by linarith [hn.low]) hsucc
  have hnat : n = m + 1 := by exact_mod_cast hnm
  rcases hm.even with hmeven | ⟨-, hstrict⟩
  · rcases hn.even with hneven | ⟨hstrict, -⟩
    · omega
    · linarith
  · linarith

theorem Rounds.unique {q : ℚ} {m n : ℕ} (hm : Rounds q m) (hn : Rounds q n) : m = n :=
  Nat.le_antisymm (hn.le hm) (hm.le hn)

theorem rounds_roundDiv {den : ℕ} (hden : 0 < den) (num : ℕ) :
    Rounds ((num : ℚ) / den) (roundDiv num den) := by
  have hden' : (0 : ℚ) < den := by exact_mod_cast hden
  have hsplit : (num : ℚ) / den = (num / den : ℕ) + (num % den : ℕ) / (den : ℚ) := by
    rw [div_eq_iff hden'.ne', add_mul, div_mul_cancel₀ _ hden'.ne']
    exact_mod_cast (Nat.div_add_mod' num den).symm
  have hr : 0 ≤ ((num % den : ℕ) : ℚ) / den := by positivity
  have hlt : ((num % den : ℕ) : ℚ) / den < 1 := by
    rw [div_lt_one hden']
    exact_mod_cast Nat.mod_lt num hden
  rw [hsplit]
  unfold roundDiv
  simp only []
  generalize num / den = q at *
  generalize num % den = r at *
  split
  · next hdown =>
    rcases hdown with hless | ⟨htie, heven⟩
    · have hhalf : (r : ℚ) / den < 1 / 2 := by
        rw [div_lt_div_iff₀ hden' two_pos]
        have : (2 * r : ℚ) < den := by exact_mod_cast hless
        linarith
      exact ⟨by linarith, by linarith, .inr ⟨by linarith, by linarith⟩⟩
    · have hhalf : (r : ℚ) / den = 1 / 2 := by
        rw [div_eq_div_iff hden'.ne' two_ne_zero]
        have : (2 * r : ℚ) = den := by exact_mod_cast htie
        linarith
      exact ⟨by linarith, by linarith, .inl heven⟩
  · next hup =>
    rw [not_or] at hup
    have hhalf : 1 / 2 ≤ (r : ℚ) / den := by
      rw [div_le_div_iff₀ two_pos hden']
      have : (den : ℚ) ≤ 2 * r := by exact_mod_cast Nat.not_lt.mp hup.1
      linarith
    rcases hhalf.lt_or_eq with hmore | htie
    · refine ⟨?_, ?_, .inr ⟨?_, ?_⟩⟩ <;> push_cast <;> linarith
    · have hr2 : 2 * r = den := by
        rw [div_eq_div_iff two_ne_zero hden'.ne'] at htie
        have : (2 * r : ℚ) = den := by linarith
        exact_mod_cast this
      have hodd : ¬ q % 2 = 0 := fun heven => hup.2 ⟨hr2, heven⟩
      refine ⟨?_, ?_, .inl (by omega)⟩ <;> push_cast <;> linarith

theorem scale_pos {den : ℕ} (hden : 0 < den) (num : ℕ) (e : ℤ) : 0 < (scale num den e).2 := by
  unfold scale
  split
  · exact hden
  · exact Nat.mul_pos hden (Nat.pow_pos two_pos)

theorem scale_eq (num den : ℕ) (e : ℤ) :
    ((scale num den e).1 : ℚ) / (scale num den e).2 = num / den * 2 ^ e := by
  unfold scale
  split
  · next he =>
    obtain ⟨k, rfl⟩ := Int.eq_ofNat_of_zero_le he
    simp only [Nat.pow_eq, Int.toNat_natCast, Nat.cast_mul, Nat.cast_pow, Nat.cast_ofNat]
    rw [mul_div_right_comm]
    rfl
  · next he =>
    obtain ⟨k, hk⟩ := Int.eq_ofNat_of_zero_le (a := -e) (by omega)
    obtain rfl : e = -k := by omega
    simp only [Nat.pow_eq, neg_neg, Int.toNat_natCast, Nat.cast_mul, Nat.cast_pow, Nat.cast_ofNat,
      zpow_neg, zpow_natCast]
    rw [div_mul_eq_div_div, div_eq_mul_inv]

/-- The exponent at which a positive value has all bits of a mantissa before the point. -/
structure Fits (q : ℚ) (e : ℤ) : Prop where
  low : (2 : ℚ) ^ (52 : ℤ) ≤ q * 2 ^ (-e)
  high : q * 2 ^ (-e) < (2 : ℚ) ^ (53 : ℤ)

theorem two_zpow_pos (e : ℤ) : (0 : ℚ) < 2 ^ e := zpow_pos two_pos e

theorem le_mul_zpow_neg_iff {a q : ℚ} {e : ℤ} : a ≤ q * 2 ^ (-e) ↔ a * 2 ^ e ≤ q := by
  rw [zpow_neg, ← div_eq_mul_inv, le_div_iff₀ (two_zpow_pos e)]

theorem mul_zpow_neg_lt_iff {a q : ℚ} {e : ℤ} : q * 2 ^ (-e) < a ↔ q < a * 2 ^ e := by
  rw [zpow_neg, ← div_eq_mul_inv, div_lt_iff₀ (two_zpow_pos e)]

theorem Fits.le_of_lt {q : ℚ} {d e : ℤ} (h : Fits q d) (hq : q * 2 ^ (-e) < (2 : ℚ) ^ (53 : ℤ)) :
    d ≤ e := by
  have hlow := le_mul_zpow_neg_iff.mp h.low
  have hhigh := mul_zpow_neg_lt_iff.mp hq
  rw [← zpow_add₀ two_ne_zero] at hlow hhigh
  have hlt := (zpow_lt_zpow_iff_right₀ (one_lt_two (α := ℚ))).mp (hlow.trans_lt hhigh)
  omega

theorem Fits.unique {q : ℚ} {d e : ℤ} (hd : Fits q d) (he : Fits q e) : d = e :=
  le_antisymm (hd.le_of_lt he.high) (he.le_of_lt hd.high)

theorem log2_bounds {n : ℕ} (h : 0 < n) :
    (2 : ℚ) ^ (Nat.log2 n : ℤ) ≤ n ∧ (n : ℚ) < 2 ^ ((Nat.log2 n : ℤ) + 1) := by
  constructor
  · rw [zpow_natCast]
    exact_mod_cast Nat.log2_self_le h.ne'
  · have hlt : n < 2 ^ (Nat.log2 n + 1) := Nat.lt_log2_self
    have hcast : ((Nat.log2 n : ℤ) + 1) = ((Nat.log2 n + 1 : ℕ) : ℤ) := by push_cast; rfl
    rw [hcast, zpow_natCast]
    exact_mod_cast hlt

/-- The fraction scaled by the difference of the bit counts has fifty-two or fifty-three bits. -/
theorem guess_bounds {num den : ℕ} (hnum : 0 < num) (hden : 0 < den) :
    (2 : ℚ) ^ (51 : ℤ) < (num : ℚ) / den *
        2 ^ (-((Nat.log2 num : ℤ) - Nat.log2 den - 52)) ∧
      (num : ℚ) / den * 2 ^ (-((Nat.log2 num : ℤ) - Nat.log2 den - 52)) < 2 ^ (53 : ℤ) := by
  obtain ⟨hnlow, hnhigh⟩ := log2_bounds hnum
  obtain ⟨hdlow, hdhigh⟩ := log2_bounds hden
  have hden' : (0 : ℚ) < den := by exact_mod_cast hden
  rw [zpow_neg, ← div_eq_mul_inv, lt_div_iff₀ (two_zpow_pos _), div_lt_iff₀ (two_zpow_pos _),
    lt_div_iff₀ hden', div_lt_iff₀ hden', ← zpow_add₀ two_ne_zero, ← zpow_add₀ two_ne_zero]
  constructor
  · calc (2 : ℚ) ^ (51 + ((Nat.log2 num : ℤ) - Nat.log2 den - 52)) * den
        < 2 ^ (51 + ((Nat.log2 num : ℤ) - Nat.log2 den - 52)) * 2 ^ ((Nat.log2 den : ℤ) + 1) :=
          mul_lt_mul_of_pos_left hdhigh (two_zpow_pos _)
      _ = 2 ^ (Nat.log2 num : ℤ) := by
          rw [← zpow_add₀ two_ne_zero]
          congr 1
          ring
      _ ≤ num := hnlow
  · calc (num : ℚ) < 2 ^ ((Nat.log2 num : ℤ) + 1) := hnhigh
      _ = 2 ^ (53 + ((Nat.log2 num : ℤ) - Nat.log2 den - 52)) * 2 ^ (Nat.log2 den : ℤ) := by
          rw [← zpow_add₀ two_ne_zero]
          congr 1
          ring
      _ ≤ 2 ^ (53 + ((Nat.log2 num : ℤ) - Nat.log2 den - 52)) * den :=
          mul_le_mul_of_nonneg_left hdlow (two_zpow_pos _).le

theorem exponentOf_of_guess {num den : ℕ} {guess : ℤ}
    (h : guess = (Nat.log2 num : ℤ) - Nat.log2 den - 52) :
    exponentOf num den =
      max (if (scale num den (-guess)).1 < (scale num den (-guess)).2 * 2 ^ 52 then guess - 1
        else guess) leastExponent := by
  subst h
  rfl

theorem exists_fits {num den : ℕ} (hnum : 0 < num) (hden : 0 < den) :
    ∃ e, Fits ((num : ℚ) / den) e ∧ exponentOf num den = max e leastExponent := by
  obtain ⟨hlow, hhigh⟩ := guess_bounds hnum hden
  obtain ⟨guess, hguess⟩ : ∃ guess, guess = (Nat.log2 num : ℤ) - Nat.log2 den - 52 := ⟨_, rfl⟩
  rw [← hguess] at hlow hhigh
  rw [exponentOf_of_guess hguess]
  have hd : (0 : ℚ) < (scale num den (-guess)).2 := by exact_mod_cast scale_pos hden num (-guess)
  have hless : (scale num den (-guess)).1 < (scale num den (-guess)).2 * 2 ^ 52 ↔
      (num : ℚ) / den * 2 ^ (-guess) < 2 ^ (52 : ℤ) := by
    rw [← scale_eq num den (-guess), div_lt_iff₀ hd, mul_comm]
    norm_cast
  by_cases h : (scale num den (-guess)).1 < (scale num den (-guess)).2 * 2 ^ 52
  · rw [if_pos h]
    have hlt := hless.mp h
    have hshift : (num : ℚ) / den * 2 ^ (-(guess - 1)) = num / den * 2 ^ (-guess) * 2 := by
      rw [show -(guess - 1) = -guess + 1 by ring, zpow_add₀ two_ne_zero, zpow_one, mul_assoc]
    refine ⟨guess - 1, ⟨?_, ?_⟩, rfl⟩
    · rw [hshift]
      norm_num at hlow ⊢
      linarith
    · rw [hshift]
      norm_num at hlt ⊢
      linarith
  · rw [if_neg h]
    exact ⟨guess, ⟨not_lt.mp fun hlt => h (hless.mpr hlt), hhigh⟩, rfl⟩

theorem exponentOf_eq {num den : ℕ} (hnum : 0 < num) (hden : 0 < den) {e : ℤ}
    (h : Fits ((num : ℚ) / den) e) : exponentOf num den = max e leastExponent := by
  obtain ⟨d, hd, heq⟩ := exists_fits hnum hden
  rw [heq, hd.unique h]

/-- The mantissas and exponents of finite numbers: all bits are in use, or the exponent is the
least. -/
inductive Canonical : ℕ → ℤ → Prop where
  | normal {m : ℕ} {e : ℤ} (hlow : 2 ^ 52 ≤ m) (hhigh : m < 2 ^ 53) (hleast : leastExponent ≤ e)
      (hgreatest : e ≤ greatestExponent) : Canonical m e
  | subnormal {m : ℕ} (h : m < 2 ^ 52) : Canonical m leastExponent

def lowGap (m : ℕ) (e : ℤ) : ℚ := if m = 2 ^ 52 ∧ leastExponent < e then 1 / 4 else 1 / 2

theorem lowGap_le (m : ℕ) (e : ℤ) : lowGap m e ≤ 1 / 2 := by
  unfold lowGap
  split <;> norm_num

/-- The values that read as a number. -/
structure Near (m : ℕ) (e : ℤ) (q : ℚ) : Prop where
  low : (m : ℚ) - lowGap m e ≤ q * 2 ^ (-e)
  high : q * 2 ^ (-e) ≤ m + 1 / 2
  even : m % 2 = 0 ∨ ((m : ℚ) - lowGap m e < q * 2 ^ (-e) ∧ q * 2 ^ (-e) < m + 1 / 2)

variable {negative : Bool} {num den m : ℕ} {e : ℤ}

theorem rounds_mantissaAt (hden : 0 < den) (num : ℕ) (e : ℤ) :
    Rounds ((num : ℚ) / den * 2 ^ (-e)) (mantissaAt num den e) := by
  rw [← scale_eq]
  exact rounds_roundDiv (scale_pos hden num (-e)) _

theorem ofFraction_eq_carried (hnum : 0 < num) (hden : 0 < den)
    (hexponent : exponentOf num den = e) (h : Rounds ((num : ℚ) / den * 2 ^ (-e)) m) :
    ofFraction negative num den = carried negative m e := by
  rw [ofFraction, if_neg hnum.ne', hexponent]
  exact congrArg (carried negative · e) ((rounds_mantissaAt hden num e).unique h)

theorem two_pow_mantissaBits : Nat.pow 2 mantissaBits = 2 ^ 53 := by
  norm_num [mantissaBits]

theorem carried_of_lt (hm : m < 2 ^ 53) (he : e ≤ greatestExponent) :
    carried negative m e = finite negative m e := by
  rw [carried, if_neg (two_pow_mantissaBits ▸ hm.ne), bounded, if_neg (not_lt.mpr he)]

theorem carried_two_pow (he : e + 1 ≤ greatestExponent) :
    carried negative (2 ^ 53) e = finite negative (2 ^ 52) (e + 1) := by
  have hhalf : Nat.pow 2 (mantissaBits - 1) = 2 ^ 52 := by norm_num [mantissaBits]
  rw [carried, if_pos two_pow_mantissaBits.symm, bounded, if_neg (not_lt.mpr he), hhalf]

theorem exponentOf_of_lt (hnum : 0 < num) (hden : 0 < den)
    (h : (num : ℚ) / den * 2 ^ (-leastExponent) < (2 : ℚ) ^ (53 : ℤ)) :
    exponentOf num den = leastExponent := by
  obtain ⟨d, hd, heq⟩ := exists_fits hnum hden
  rw [heq, max_eq_right (hd.le_of_lt h)]

theorem Canonical.le_greatest (h : Canonical m e) : e ≤ greatestExponent := by
  cases h with
  | normal _ _ _ hgreatest => exact hgreatest
  | subnormal _ => decide

theorem Canonical.lt_two_pow (h : Canonical m e) : m < 2 ^ 53 := by
  cases h with
  | normal _ hhigh _ _ => exact hhigh
  | subnormal h => exact h.trans (by norm_num)

theorem Near.lt_two_pow {q : ℚ} (hcanonical : Canonical m e) (h : Near m e q) :
    q * 2 ^ (-e) < (2 : ℚ) ^ (53 : ℤ) := by
  have hm : (m : ℚ) + 1 ≤ 2 ^ (53 : ℤ) := by exact_mod_cast hcanonical.lt_two_pow
  linarith [h.high]

theorem Near.rounds {q : ℚ} (h : Near m e q) : Rounds (q * 2 ^ (-e)) m := by
  have hgap := lowGap_le m e
  refine ⟨by linarith [h.low], h.high, h.even.imp_right fun hstrict => ⟨?_, hstrict.2⟩⟩
  linarith [hstrict.1]

/-- Near a power of two the exponent may come out one less, and the carry makes up for it. -/
theorem ofFraction_of_near (hnum : 0 < num) (hden : 0 < den) (hcanonical : Canonical m e)
    (h : Near m e ((num : ℚ) / den)) : ofFraction negative num den = finite negative m e := by
  have hlt := h.lt_two_pow hcanonical
  have hgreatest := hcanonical.le_greatest
  have hexact (hexponent : exponentOf num den = e) :
      ofFraction negative num den = finite negative m e := by
    rw [ofFraction_eq_carried hnum hden hexponent h.rounds,
      carried_of_lt hcanonical.lt_two_pow hcanonical.le_greatest]
  cases hcanonical with
  | subnormal hm => exact hexact (exponentOf_of_lt hnum hden hlt)
  | normal hm _ hleast _ =>
    rcases hleast.eq_or_lt with rfl | hleast
    · exact hexact (exponentOf_of_lt hnum hden hlt)
    by_cases hfits : (2 : ℚ) ^ (52 : ℤ) ≤ (num : ℚ) / den * 2 ^ (-e)
    · exact hexact (by rw [exponentOf_eq hnum hden ⟨hfits, hlt⟩, max_eq_left hleast.le])
    -- the value is below the power of two that is the mantissa
    have hmpow : m = 2 ^ 52 := by
      by_contra hne
      have hmore : (2 : ℚ) ^ (52 : ℤ) + 1 ≤ m := by
        exact_mod_cast Nat.succ_le_of_lt (lt_of_le_of_ne hm (Ne.symm hne))
      have hgap : lowGap m e = 1 / 2 := if_neg fun hpow => hne hpow.1
      linarith [h.low]
    have hlow : (2 : ℚ) ^ (52 : ℤ) - 1 / 4 ≤ (num : ℚ) / den * 2 ^ (-e) := by
      have hgap : lowGap m e = 1 / 4 := if_pos ⟨hmpow, hleast⟩
      have := h.low
      rw [hgap, hmpow] at this
      exact_mod_cast this
    have hshift : (num : ℚ) / den * 2 ^ (-(e - 1)) = num / den * 2 ^ (-e) * 2 := by
      rw [show -(e - 1) = -e + 1 by ring, zpow_add₀ two_ne_zero, zpow_one, mul_assoc]
    have hexponent : exponentOf num den = e - 1 := by
      have hfits' : Fits ((num : ℚ) / den) (e - 1) := by
        constructor <;> rw [hshift] <;> norm_num at hlow hfits ⊢ <;> linarith
      rw [exponentOf_eq hnum hden hfits', max_eq_left (by omega)]
    have hrounds : Rounds ((num : ℚ) / den * 2 ^ (-(e - 1))) (2 ^ 53) := by
      rw [hshift]
      refine ⟨?_, ?_, .inl (by norm_num)⟩ <;> norm_num at hlow hfits ⊢ <;> linarith
    rw [ofFraction_eq_carried hnum hden hexponent hrounds,
      carried_two_pow (by rwa [sub_add_cancel]), sub_add_cancel, hmpow]

theorem lt_pow_decimalDigits (n : ℕ) : n < 10 ^ decimalDigits n :=
  (Nat.length_toDigits_le_iff (by norm_num) Nat.length_toDigits_pos).mp le_rfl

theorem pow_le_of_decimalDigits {n k : ℕ} (hn : 0 < n) (h : decimalDigits n = k + 1) :
    10 ^ k ≤ n := by
  rcases Nat.eq_zero_or_pos k with rfl | hk
  · exact hn
  · by_contra hlt
    have hlength : decimalDigits n ≤ k :=
      (Nat.length_toDigits_le_iff (by norm_num) hk).mpr (not_le.mp hlt)
    omega

theorem ten_zpow_pos (e : ℤ) : (0 : ℚ) < 10 ^ e := zpow_pos (by norm_num) e

theorem ten_zpow_le {a b : ℤ} (h : a ≤ b) : (10 : ℚ) ^ a ≤ 10 ^ b :=
  zpow_le_zpow_right₀ (by norm_num) h

variable {digits : ℕ} {power : ℤ}

theorem decimal_bounds (hdigits : 0 < digits) (power : ℤ) :
    (10 : ℚ) ^ ((decimalDigits digits : ℤ) + power - 1) ≤ digits * 10 ^ power ∧
      (digits : ℚ) * 10 ^ power < 10 ^ ((decimalDigits digits : ℤ) + power) := by
  obtain ⟨k, hk⟩ : ∃ k, decimalDigits digits = k + 1 :=
    Nat.exists_eq_add_of_lt (Nat.length_toDigits_pos (b := 10) (n := digits)) |>.imp fun k hk => by
      rw [decimalDigits, hk]
      omega
  have hlow : ((10 : ℚ)) ^ (k : ℤ) ≤ digits := by
    rw [zpow_natCast]
    exact_mod_cast pow_le_of_decimalDigits hdigits hk
  have hhigh : (digits : ℚ) < 10 ^ ((k : ℤ) + 1) := by
    have hlt := lt_pow_decimalDigits digits
    rw [hk] at hlt
    have hcast : ((k : ℤ) + 1) = ((k + 1 : ℕ) : ℤ) := by push_cast; rfl
    rw [hcast, zpow_natCast]
    exact_mod_cast hlt
  rw [hk]
  push_cast
  constructor
  · rw [show (k : ℤ) + 1 + power - 1 = k + power by ring, zpow_add₀ (by norm_num)]
    exact mul_le_mul_of_nonneg_right hlow (ten_zpow_pos power).le
  · rw [zpow_add₀ (by norm_num)]
    exact mul_lt_mul_of_pos_right hhigh (ten_zpow_pos power)

theorem ofDecimal_eq_ofFraction (negative : Bool) (hdigits : 0 < digits)
    (hlow : -330 ≤ (decimalDigits digits : ℤ) + power)
    (hhigh : (decimalDigits digits : ℤ) + power ≤ 310) :
    ∃ num den : ℕ, 0 < num ∧ 0 < den ∧ (num : ℚ) / den = digits * 10 ^ power ∧
      ofDecimal negative digits power = ofFraction negative num den := by
  have hsmall : ¬ (digits = 0 ∨ (decimalDigits digits : ℤ) + power < -330) := by omega
  have hlarge : ¬ 310 < (decimalDigits digits : ℤ) + power := by omega
  by_cases hpower : 0 ≤ power
  · obtain ⟨k, rfl⟩ := Int.eq_ofNat_of_zero_le hpower
    refine ⟨digits * 10 ^ k, 1, by positivity, one_pos, ?_, ?_⟩
    · rw [zpow_natCast]
      push_cast
      rw [div_one]
    · simp only [ofDecimal, if_neg hsmall, if_neg hlarge, if_pos hpower]
      rfl
  · obtain ⟨k, hk⟩ := Int.eq_ofNat_of_zero_le (a := -power) (by omega)
    obtain rfl : power = -k := by omega
    refine ⟨digits, 10 ^ k, hdigits, by positivity, ?_, ?_⟩
    · rw [zpow_neg, zpow_natCast, ← div_eq_mul_inv]
      push_cast
      rfl
    · simp only [ofDecimal, if_neg hsmall, if_neg hlarge, if_neg hpower, neg_neg]
      rfl

theorem Canonical.least_le (h : Canonical m e) : leastExponent ≤ e := by
  cases h with
  | normal _ _ hleast _ => exact hleast
  | subnormal _ => exact le_rfl

theorem Near.bounds {q : ℚ} (hcanonical : Canonical m e) (hm : 0 < m) (h : Near m e q) :
    (2 : ℚ) ^ (-1075 : ℤ) ≤ q ∧ q < (2 : ℚ) ^ (1024 : ℤ) := by
  constructor
  · have hm' : (1 : ℚ) ≤ m := by exact_mod_cast hm
    have hlow : (2 : ℚ) ^ (-1 : ℤ) ≤ q * 2 ^ (-e) := by
      rw [show (2 : ℚ) ^ (-1 : ℤ) = 1 / 2 by norm_num]
      linarith [lowGap_le m e, h.low]
    rw [le_mul_zpow_neg_iff, ← zpow_add₀ two_ne_zero] at hlow
    have he : -1075 ≤ -1 + e := by
      have hleast : -1074 ≤ e := hcanonical.least_le
      omega
    exact (zpow_le_zpow_right₀ one_le_two he).trans hlow
  · have hlt := mul_zpow_neg_lt_iff.mp (h.lt_two_pow hcanonical)
    rw [← zpow_add₀ two_ne_zero] at hlt
    have he : 53 + e ≤ 1024 := by
      have hgreatest : e ≤ 971 := hcanonical.le_greatest
      omega
    exact hlt.trans_le (zpow_le_zpow_right₀ one_le_two he)

theorem ten_zpow_le_two_zpow : (10 : ℚ) ^ (-331 : ℤ) ≤ 2 ^ (-1075 : ℤ) := by
  have hpow : (2 : ℕ) ^ 1075 ≤ 10 ^ 331 := by decide +kernel
  rw [zpow_neg, zpow_neg, inv_le_inv₀ (ten_zpow_pos 331) (two_zpow_pos 1075)]
  exact_mod_cast hpow

theorem two_zpow_le_ten_zpow : (2 : ℚ) ^ (1024 : ℤ) ≤ 10 ^ (310 : ℤ) := by
  have hpow : (2 : ℕ) ^ 1024 ≤ 10 ^ 310 := by decide +kernel
  exact_mod_cast hpow

/-- Any decimal near a number is read as the number, however many zeros it is written with. -/
theorem ofDecimal_of_near (hdigits : 0 < digits) (hcanonical : Canonical m e) (hm : 0 < m)
    (h : Near m e (digits * 10 ^ power)) :
    ofDecimal negative digits power = finite negative m e := by
  obtain ⟨hqlow, hqhigh⟩ := h.bounds hcanonical hm
  obtain ⟨hlow, hhigh⟩ := decimal_bounds hdigits power
  have hsmall : -330 ≤ (decimalDigits digits : ℤ) + power := by
    by_contra hlt
    have hle : (10 : ℚ) ^ ((decimalDigits digits : ℤ) + power) ≤ 10 ^ (-331 : ℤ) :=
      ten_zpow_le (by omega)
    exact (hhigh.trans_le hle).not_ge (ten_zpow_le_two_zpow.trans hqlow)
  have hlarge : (decimalDigits digits : ℤ) + power ≤ 310 := by
    by_contra hlt
    have hle : (10 : ℚ) ^ (310 : ℤ) ≤ 10 ^ ((decimalDigits digits : ℤ) + power - 1) :=
      ten_zpow_le (by omega)
    exact (hlow.trans_lt hqhigh).not_ge (two_zpow_le_ten_zpow.trans hle)
  obtain ⟨num, den, hnum, hden, hq, hread⟩ :=
    ofDecimal_eq_ofFraction negative hdigits hsmall hlarge
  rw [hread]
  exact ofFraction_of_near hnum hden hcanonical (hq ▸ h)

def IsCanonical : Binary64 → Prop
  | finite _ mantissa exponent => Canonical mantissa exponent
  | _ => True

theorem isCanonical_bounded (hm : m < 2 ^ 53) (hleast : leastExponent ≤ e)
    (hfull : m < 2 ^ 52 → e = leastExponent) : (bounded negative m e).IsCanonical := by
  unfold bounded
  split
  · trivial
  · next hgreatest =>
    by_cases hfew : m < 2 ^ 52
    · rw [hfull hfew]
      exact .subnormal hfew
    · exact .normal (not_lt.mp hfew) hm hleast (not_lt.mp hgreatest)

theorem isCanonical_carried (hm : m ≤ 2 ^ 53) (hleast : leastExponent ≤ e)
    (hfull : m < 2 ^ 52 → e = leastExponent) : (carried negative m e).IsCanonical := by
  unfold carried
  split
  · have hhalf : Nat.pow 2 (mantissaBits - 1) = 2 ^ 52 := by norm_num [mantissaBits]
    rw [hhalf]
    exact isCanonical_bounded (by norm_num) (by omega) fun h => absurd h (lt_irrefl _)
  · next hpow =>
    rw [two_pow_mantissaBits] at hpow
    exact isCanonical_bounded (lt_of_le_of_ne hm hpow) hleast hfull

theorem isCanonical_ofFraction (negative : Bool) (num : ℕ) (hden : 0 < den) :
    (ofFraction negative num den).IsCanonical := by
  rcases Nat.eq_zero_or_pos num with rfl | hnum
  · exact .subnormal (by norm_num)
  obtain ⟨d, hfits, hexponent⟩ := exists_fits hnum hden
  have hrounds := rounds_mantissaAt hden num (max d leastExponent)
  rw [ofFraction_eq_carried hnum hden hexponent hrounds]
  have hlt : (num : ℚ) / den * 2 ^ (-max d leastExponent) < (2 : ℚ) ^ (53 : ℤ) := by
    have hhigh := mul_zpow_neg_lt_iff.mp hfits.high
    rw [mul_zpow_neg_lt_iff]
    refine hhigh.trans_le (mul_le_mul_of_nonneg_left ?_ (two_zpow_pos 53).le)
    exact zpow_le_zpow_right₀ one_le_two (le_max_left d leastExponent)
  have hm : mantissaAt num den (max d leastExponent) ≤ 2 ^ 53 := by
    by_contra hmore
    have hcast : (2 : ℚ) ^ (53 : ℤ) + 1 ≤ mantissaAt num den (max d leastExponent) := by
      exact_mod_cast Nat.succ_le_of_lt (not_le.mp hmore)
    linarith [hrounds.low]
  refine isCanonical_carried hm (le_max_right d leastExponent) fun hfew => ?_
  by_contra hne
  have hd : max d leastExponent = d := by omega
  have hcast : (mantissaAt num den (max d leastExponent) : ℚ) + 1 ≤ 2 ^ (52 : ℤ) := by
    exact_mod_cast hfew
  have hlow := hfits.low
  rw [hd] at hrounds hcast
  linarith [hrounds.high]

theorem isCanonical_ofDecimal (negative : Bool) (digits : ℕ) (power : ℤ) :
    (ofDecimal negative digits power).IsCanonical := by
  unfold ofDecimal
  simp only []
  split
  · exact .subnormal (by norm_num)
  split
  · trivial
  split
  · exact isCanonical_ofFraction _ _ one_pos
  · exact isCanonical_ofFraction _ _ (Nat.pow_pos (by norm_num))

end Paddock.Binary64
