import DocStore.Number.Double
import Mathlib.Data.Int.Log
import Mathlib.Data.Rat.Floor
import Mathlib.Tactic.FieldSimp
import Mathlib.Tactic.Linarith
import Mathlib.Tactic.Positivity
import Mathlib.Tactic.Ring
/-!
Rounding to a double: the double nearest to a ratio depends on the ratio alone.
-/

namespace DocStore.Double

/-! ## The nearest whole number -/

/-- A whole number less than half away is the nearest; one just half away is when it is even. -/
theorem roundDiv_eq {num den m : Nat} (hd : 0 < den) (low : 2 * m * den ≤ 2 * num + den)
    (high : 2 * num ≤ (2 * m + 1) * den)
    (tie : 2 * m * den = 2 * num + den ∨ 2 * num = (2 * m + 1) * den → m % 2 = 0) :
    roundDiv num den = m := by
  have split : num = den * (num / den) + num % den := (Nat.div_add_mod num den).symm
  have small := Nat.mod_lt num hd
  unfold roundDiv
  generalize num / den = q at split ⊢
  generalize num % den = r at split small ⊢
  subst split
  have le : q ≤ m := by
    by_contra lt
    have step : (m + 1) * den ≤ q * den := Nat.mul_le_mul_right den (by omega)
    nlinarith
  have ge : m ≤ q + 1 := by
    by_contra lt
    have step : (q + 2) * den ≤ m * den := Nat.mul_le_mul_right den (by omega)
    nlinarith
  rcases Nat.lt_or_ge q m with above | below
  · obtain rfl : m = q + 1 := by omega
    have half : den ≤ 2 * r := by nlinarith
    rcases Nat.lt_or_ge den (2 * r) with more | just
    · simp only [if_neg (Nat.not_lt.mpr half), if_pos more]
    · have even := tie (.inl (by nlinarith))
      simp only [if_neg (Nat.not_lt.mpr half), if_neg (Nat.not_lt.mpr just)]
      rw [if_neg (by omega)]
  · obtain rfl : m = q := by omega
    have half : 2 * r ≤ den := by nlinarith
    rcases Nat.lt_or_ge (2 * r) den with less | just
    · simp only [if_pos less]
    · have even := tie (.inr (by nlinarith))
      simp only [if_neg (Nat.not_lt.mpr just), if_neg (Nat.not_lt.mpr half)]
      rw [if_pos even]

theorem roundDiv_scale (num den c : Nat) (hc : 0 < c) :
    roundDiv (num * c) (den * c) = roundDiv num den := by
  have left : 2 * (num % den * c) = 2 * (num % den) * c := (Nat.mul_assoc ..).symm
  simp only [roundDiv, Nat.mul_div_mul_right _ _ hc, Nat.mul_mod_mul_right, left,
    Nat.mul_lt_mul_right hc]

/-! ## The exponent -/

section Exponent

variable {num den : Nat}

theorem two_zpow_pos (k : ℤ) : (0 : ℚ) < 2 ^ k := zpow_pos (by norm_num) k

theorem log2_bounds {n : Nat} (hn : 0 < n) :
    (2 : ℚ) ^ (Nat.log2 n : ℤ) ≤ n ∧ (n : ℚ) < 2 ^ ((Nat.log2 n : ℤ) + 1) := by
  constructor
  · rw [zpow_natCast]
    exact_mod_cast Nat.log2_self_le (by omega)
  · rw [show (Nat.log2 n : ℤ) + 1 = ((Nat.log2 n + 1 : Nat) : ℤ) by push_cast; ring, zpow_natCast]
    exact_mod_cast Nat.lt_log2_self

theorem reached_iff (hd : 0 < den) (k : Int) :
    (if 0 ≤ k then den * Nat.pow 2 k.toNat ≤ num else den ≤ num * Nat.pow 2 (-k).toNat) ↔
      (2 : ℚ) ^ k ≤ (num : ℚ) / den := by
  have hd' : (0 : ℚ) < den := by exact_mod_cast hd
  rw [le_div_iff₀ hd']
  split
  · next nonneg =>
    obtain ⟨n, rfl⟩ := Int.eq_ofNat_of_zero_le nonneg
    rw [zpow_natCast, Int.toNat_natCast, mul_comm]
    exact_mod_cast Iff.rfl
  · next neg =>
    obtain ⟨n, hk⟩ := Int.eq_ofNat_of_zero_le (show 0 ≤ -k by omega)
    obtain rfl : k = -(n : ℤ) := by omega
    rw [Int.neg_neg, Int.toNat_natCast, zpow_neg, zpow_natCast, inv_mul_le_iff₀ (by positivity),
      mul_comm]
    exact_mod_cast Iff.rfl

theorem log_eq {q : ℚ} {k : ℤ} (low : (2 : ℚ) ^ k ≤ q) (high : q < 2 ^ (k + 1)) :
    Int.log 2 q = k := by
  have hq : 0 < q := lt_of_lt_of_le (two_zpow_pos k) low
  have le := (Int.zpow_le_iff_le_log (b := 2) (by norm_num) hq).mp (by rwa [Nat.cast_ofNat])
  have lt := (Int.lt_zpow_iff_log_lt (b := 2) (by norm_num) hq).mp (by rwa [Nat.cast_ofNat])
  omega

/-- The exponent comes from the place of the first binary digit of the ratio. -/
theorem exponentOf_eq (hn : 0 < num) (hd : 0 < den) :
    exponentOf num den = max (Int.log 2 ((num : ℚ) / den) - 52) minExponent := by
  have hd' : (0 : ℚ) < den := by exact_mod_cast hd
  have two : (2 : ℚ) ≠ 0 := by norm_num
  obtain ⟨nlow, nhigh⟩ := log2_bounds hn
  obtain ⟨dlow, dhigh⟩ := log2_bounds hd
  have reach := @reached_iff num den hd ((Nat.log2 num : ℤ) - Nat.log2 den)
  simp only [exponentOf]
  generalize (Nat.log2 num : ℤ) = a at nlow nhigh reach ⊢
  generalize (Nat.log2 den : ℤ) = b at dlow dhigh reach ⊢
  have upper : (num : ℚ) / den < 2 ^ (a - b + 1) := by
    rw [div_lt_iff₀ hd']
    calc (num : ℚ) < 2 ^ (a + 1) := nhigh
      _ = 2 ^ (a - b + 1) * 2 ^ b := by rw [← zpow_add₀ two]; congr 1; ring
      _ ≤ 2 ^ (a - b + 1) * den := mul_le_mul_of_nonneg_left dlow (two_zpow_pos _).le
  have lower : (2 : ℚ) ^ (a - b - 1) ≤ num / den := by
    rw [le_div_iff₀ hd']
    calc (2 : ℚ) ^ (a - b - 1) * den ≤ 2 ^ (a - b - 1) * 2 ^ (b + 1) :=
          mul_le_mul_of_nonneg_left dhigh.le (two_zpow_pos _).le
      _ = 2 ^ a := by rw [← zpow_add₀ two]; congr 1; ring
      _ ≤ num := nlow
  by_cases here : (2 : ℚ) ^ (a - b) ≤ num / den
  · rw [log_eq here upper, if_pos (by simpa using reach.mpr here)]
  · have high : (num : ℚ) / den < 2 ^ (a - b - 1 + 1) := by
      rw [Int.sub_add_cancel]
      exact not_le.mp here
    rw [log_eq lower high, if_neg (by simpa using fun h => here (reach.mp h))]
    congr 1
    omega

end Exponent

/-! ## The nearest double -/

theorem exponentOf_scale {num den c : Nat} (hn : 0 < num) (hd : 0 < den) (hc : 0 < c) :
    exponentOf (num * c) (den * c) = exponentOf num den := by
  have hc' : (c : ℚ) ≠ 0 := by exact_mod_cast hc.ne'
  rw [exponentOf_eq (Nat.mul_pos hn hc) (Nat.mul_pos hd hc), exponentOf_eq hn hd, Nat.cast_mul,
    Nat.cast_mul, mul_div_mul_right _ _ hc']

/-- The nearest double depends on the ratio alone. -/
theorem ofRatio_scale (negative : Bool) {num den c : Nat} (hd : 0 < den) (hc : 0 < c) :
    ofRatio negative (num * c) (den * c) = ofRatio negative num den := by
  rcases Nat.eq_zero_or_pos num with rfl | hn
  · simp [ofRatio]
  · have hnc : num * c ≠ 0 := (Nat.mul_pos hn hc).ne'
    simp only [ofRatio, hnc, hn.ne', if_false, exponentOf_scale hn hd hc, Nat.mul_right_comm _ c,
      roundDiv_scale _ _ c hc]

end DocStore.Double
