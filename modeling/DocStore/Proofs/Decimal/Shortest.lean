import DocStore.Decimal.Shortest
import DocStore.Proofs.Number.Double
/-!
The shortest decimal of a double rounds to the double: among the decimals with 17 digits there is
always one between the double and the ends of the interval that rounds to it.
-/

namespace DocStore

/-! ## Numbers that round to a double -/

namespace Double

/-- How far below `m · 2 ^ e` the numbers that round to it begin, in units of `2 ^ e`: below a power
of two the neighbours are twice as dense. -/
def slack (m : Nat) (e : Int) : ℚ :=
  if m = Nat.pow 2 (precision - 1) ∧ minExponent < e then 1 / 4 else 1 / 2

/-- The numbers that round to `m · 2 ^ e`; the ends do when the mantissa is even. -/
structure Near (m : Nat) (e : Int) (q : ℚ) : Prop where
  low : (m - slack m e) * 2 ^ e ≤ q
  high : q ≤ (m + 1 / 2) * 2 ^ e
  ends : q = (m - slack m e) * 2 ^ e ∨ q = (m + 1 / 2) * 2 ^ e → m % 2 = 0

theorem near_between {m : Nat} {e : Int} {q : ℚ} (low : (m - slack m e) * 2 ^ e < q)
    (high : q < (m + 1 / 2) * 2 ^ e) : Near m e q :=
  ⟨low.le, high.le, fun h => h.elim (fun same => absurd same low.ne') fun same =>
    absurd same high.ne⟩

theorem slack_pos (m : Nat) (e : Int) : 0 < slack m e := by
  unfold slack
  split <;> norm_num

theorem slack_le (m : Nat) (e : Int) : slack m e ≤ 1 / 2 := by
  unfold slack
  split <;> norm_num

theorem near_pos {m : Nat} {e : Int} {q : ℚ} (hm : 0 < m) (h : Near m e q) : 0 < q := by
  have half := slack_le m e
  have one : (1 : ℚ) ≤ m := by exact_mod_cast hm
  exact lt_of_lt_of_le (mul_pos (by linarith) (two_zpow_pos e)) h.low

theorem roundDiv_near {num den m : Nat} (hd : 0 < den) (low : (m : ℚ) - 1 / 2 ≤ num / den)
    (high : (num : ℚ) / den ≤ m + 1 / 2)
    (tie : (num : ℚ) / den = m - 1 / 2 ∨ (num : ℚ) / den = m + 1 / 2 → m % 2 = 0) :
    roundDiv num den = m := by
  have hd' : (0 : ℚ) < den := by exact_mod_cast hd
  rw [le_div_iff₀ hd'] at low
  rw [div_le_iff₀ hd'] at high
  rw [div_eq_iff hd'.ne', div_eq_iff hd'.ne'] at tie
  apply roundDiv_eq hd
  · have : (2 * m * den : ℚ) ≤ 2 * num + den := by linarith
    exact_mod_cast this
  · have : (2 * num : ℚ) ≤ (2 * m + 1) * den := by linarith
    exact_mod_cast this
  · rintro (h | h)
    · have h' : (2 * m * den : ℚ) = 2 * num + den := by exact_mod_cast h
      exact tie (.inl (by linarith))
    · have h' : (2 * num : ℚ) = (2 * m + 1) * den := by exact_mod_cast h
      exact tie (.inr (by linarith))

/-- The mantissa to which a ratio is rounded at an exponent. -/
def mantissaAt (num den : Nat) (e : Int) : Nat :=
  if 0 ≤ e then roundDiv num (den * Nat.pow 2 e.toNat)
  else roundDiv (num * Nat.pow 2 (-e).toNat) den

/-- What is made of a ratio at an exponent is made of the ratio in units of the power of the base. -/
theorem ratio_scaled {α : Type} {b : Nat} (hb : 0 < b) (f : Nat → Nat → α) (num : Nat) {den : Nat}
    (hd : 0 < den) (e : Int) :
    ∃ n d : Nat, 0 < d ∧ (n : ℚ) / d = (num : ℚ) / den / (b : ℚ) ^ e ∧
      (if 0 ≤ e then f num (den * Nat.pow b e.toNat) else f (num * Nat.pow b (-e).toNat) den) =
        f n d := by
  split
  · next nonneg =>
    obtain ⟨k, rfl⟩ := Int.eq_ofNat_of_zero_le nonneg
    refine ⟨num, den * b ^ k, Nat.mul_pos hd (Nat.pow_pos hb), ?_, rfl⟩
    push_cast
    rw [zpow_natCast, div_div]
  · next neg =>
    obtain ⟨k, hk⟩ := Int.eq_ofNat_of_zero_le (show 0 ≤ -e by omega)
    obtain rfl : e = -(k : ℤ) := by omega
    refine ⟨num * b ^ k, den, hd, ?_, by rw [Int.neg_neg]; rfl⟩
    push_cast
    rw [zpow_neg, zpow_natCast, div_inv_eq_mul]
    ring

theorem mantissaAt_ratio (num : Nat) {den : Nat} (hd : 0 < den) (e : Int) :
    ∃ n d : Nat, 0 < d ∧ (n : ℚ) / d = (num : ℚ) / den / 2 ^ e ∧
      mantissaAt num den e = roundDiv n d :=
  ratio_scaled Nat.two_pos roundDiv num hd e

theorem mantissaAt_near {num den m : Nat} {e : Int} (hd : 0 < den)
    (low : ((m : ℚ) - 1 / 2) * 2 ^ e ≤ num / den) (high : (num : ℚ) / den ≤ (m + 1 / 2) * 2 ^ e)
    (tie : (num : ℚ) / den = (m - 1 / 2) * 2 ^ e ∨ (num : ℚ) / den = (m + 1 / 2) * 2 ^ e →
      m % 2 = 0) :
    mantissaAt num den e = m := by
  obtain ⟨n, d, hd', ratio, rounds⟩ := mantissaAt_ratio num hd e
  have unit := two_zpow_pos e
  rw [rounds]
  apply roundDiv_near hd' <;> rw [ratio]
  · rwa [le_div_iff₀ unit]
  · rwa [div_le_iff₀ unit]
  · rwa [div_eq_iff unit.ne', div_eq_iff unit.ne']

theorem ofRatio_eq {num den : Nat} (negative : Bool) (hn : 0 < num) :
    ofRatio negative num den =
      let e := exponentOf num den
      let (m, e) := if mantissaAt num den e = Nat.pow 2 precision then
          (Nat.pow 2 (precision - 1), e + 1)
        else (mantissaAt num den e, e)
      if maxExponent < e then .infinity negative else .finite negative m e := by
  rw [ofRatio, if_neg hn.ne']
  rfl

variable {m : Nat} {e : Int}

/-- A number near a double has the exponent of the double, but for those just below a power of
two. -/
theorem exponentOf_near {num den : Nat} (hn : 0 < num) (hd : 0 < den)
    (canonical : Canonical (.finite false m e)) (near : Near m e ((num : ℚ) / den)) :
    exponentOf num den = e ∨
      exponentOf num den = e - 1 ∧ m = Nat.pow 2 (precision - 1) ∧ minExponent < e ∧
        (num : ℚ) / den < 2 ^ (e + 52) := by
  obtain ⟨narrow, least, -, normal⟩ := canonical
  have unit := two_zpow_pos e
  have scale (k : ℤ) : (2 : ℚ) ^ (e + k) = 2 ^ k * 2 ^ e := by
    rw [zpow_add₀ (by norm_num), mul_comm]
  have small : (m : ℚ) + 1 ≤ 2 ^ (53 : ℤ) := by exact_mod_cast narrow
  have upper : (num : ℚ) / den < 2 ^ (e + 52 + 1) := by
    rw [add_assoc, scale]
    refine near.high.trans_lt (mul_lt_mul_of_pos_right ?_ unit)
    norm_num at small ⊢
    linarith
  rw [exponentOf_eq hn hd]
  by_cases reached : (2 : ℚ) ^ (e + 52) ≤ num / den
  · left
    rw [log_eq reached upper]
    omega
  · have below := not_le.mp reached
    rcases eq_or_lt_of_le least with rfl | more
    · left
      have positive : (0 : ℚ) < num / den := by positivity
      have log := (Int.lt_zpow_iff_log_lt (b := 2) (by norm_num) positive).mp
        (by rwa [Nat.cast_ofNat])
      omega
    · right
      have large : 2 ^ 52 ≤ m := normal.resolve_right more.ne'
      have low := near.low
      rw [scale] at below
      have least : (m : ℚ) - slack m e < 2 ^ (52 : ℤ) :=
        lt_of_mul_lt_mul_right (low.trans_lt below) unit.le
      have power : m = 2 ^ 52 := by
        have half := slack_le m e
        have close : (m : ℚ) < (2 ^ 52 + 1 : ℕ) := by
          norm_num only at least
          push_cast
          linarith
        have : m < 2 ^ 52 + 1 := by exact_mod_cast close
        omega
      have dense : slack m e = 1 / 4 := if_pos ⟨power, more⟩
      have lower : (2 : ℚ) ^ (e + 51) ≤ num / den := by
        rw [scale]
        refine le_trans (mul_le_mul_of_nonneg_right ?_ unit.le) low
        rw [dense, power]
        norm_num
      have log := log_eq lower (by rw [add_assoc, scale]; exact below)
      rw [log, scale]
      exact ⟨by omega, power, more, below⟩

/-- A number near a double is rounded to it. -/
theorem ofRatio_near {num den : Nat} (negative : Bool) (hn : 0 < num) (hd : 0 < den)
    (canonical : Canonical (.finite negative m e)) (near : Near m e ((num : ℚ) / den)) :
    ofRatio negative num den = .finite negative m e := by
  have unit := two_zpow_pos e
  rw [ofRatio_eq negative hn]
  rcases exponentOf_near hn hd canonical near with same | ⟨below, power, more, under⟩
  · have half := slack_le m e
    have rounds : mantissaAt num den e = m := by
      apply mantissaAt_near hd _ near.high
      · rintro (low | high)
        · refine near.ends (.inl (le_antisymm ?_ near.low))
          rw [low]
          exact mul_le_mul_of_nonneg_right (by linarith) unit.le
        · exact near.ends (.inr high)
      · exact (mul_le_mul_of_nonneg_right (by linarith) unit.le).trans near.low
    obtain ⟨narrow, -, most, -⟩ := canonical
    simp only [same, rounds, if_neg narrow.ne, if_neg (not_lt.mpr most)]
  · have dense : slack m e = 1 / 4 := if_pos ⟨power, more⟩
    have halved : (2 : ℚ) ^ e = 2 * 2 ^ (e - 1) := by
      rw [zpow_sub_one₀ (by norm_num)]
      ring
    have rounds : mantissaAt num den (e - 1) = Nat.pow 2 precision := by
      have low := near.low
      rw [dense, power, halved] at low
      rw [zpow_add₀ (by norm_num), halved] at under
      have unit := two_zpow_pos (e - 1)
      refine mantissaAt_near hd (le_trans (le_of_eq ?_) low) (under.le.trans ?_) fun _ => by decide
      · norm_num [precision]
        ring
      · norm_num [precision]
        linarith
    obtain ⟨-, -, most, -⟩ := canonical
    simp only [below, rounds, if_true, Int.sub_add_cancel, if_neg (not_lt.mpr most), power]

/-! ## What rounding gives -/

theorem le_roundDiv {num den k : Nat} (hd : 0 < den) (h : k * den ≤ num) : k ≤ roundDiv num den := by
  have le : k ≤ num / den := (Nat.le_div_iff_mul_le hd).mpr h
  simp only [roundDiv]
  split
  · exact le
  · split
    · omega
    · split <;> omega

theorem roundDiv_le {num den k : Nat} (hd : 0 < den) (h : num ≤ k * den) : roundDiv num den ≤ k := by
  have split : den * (num / den) + num % den = num := Nat.div_add_mod num den
  have le : num / den ≤ k := Nat.div_le_of_le_mul (by rwa [Nat.mul_comm])
  rcases Nat.lt_or_ge (num / den) k with less | same
  · simp only [roundDiv]
    split
    · omega
    · split
      · omega
      · split <;> omega
  · obtain rfl : num / den = k := by omega
    have exact : num % den = 0 := by
      rw [Nat.mul_comm] at h
      omega
    simp [roundDiv, exact, hd]

theorem canonical_zero (negative : Bool) : Canonical (zero negative) := by
  simp [zero, Canonical, precision, minExponent, maxExponent]

/-- A mantissa that fills its digits makes a double, or an infinity. -/
theorem canonical_within (negative : Bool) {m : Nat} {e : Int} (narrow : m < Nat.pow 2 precision)
    (least : minExponent ≤ e) (full : Nat.pow 2 (precision - 1) ≤ m ∨ e = minExponent) :
    Canonical (if maxExponent < e then .infinity negative else .finite negative m e) := by
  split
  · trivial
  · next most => exact ⟨narrow, least, not_lt.mp most, full⟩

/-- Ratios are rounded to doubles as they are stored. -/
theorem canonical_ofRatio (negative : Bool) (num : Nat) {den : Nat} (hd : 0 < den) :
    Canonical (ofRatio negative num den) := by
  rcases Nat.eq_zero_or_pos num with rfl | hn
  · exact canonical_zero negative
  rw [ofRatio_eq negative hn]
  have exponent := exponentOf_eq hn hd
  have positive : (0 : ℚ) < num / den := by positivity
  obtain ⟨n, d, hd', ratio, rounds⟩ := mantissaAt_ratio num hd (exponentOf num den)
  generalize exponentOf num den = e at exponent ratio rounds ⊢
  have unit := two_zpow_pos e
  have scaled (k : ℤ) : (2 : ℚ) ^ k * 2 ^ e = 2 ^ (e + k) := by
    rw [zpow_add₀ (by norm_num), mul_comm]
  have hd'' : (0 : ℚ) < d := by exact_mod_cast hd'
  have most : mantissaAt num den e ≤ 2 ^ 53 := by
    have bound : (num : ℚ) / den ≤ 2 ^ (53 : ℤ) * 2 ^ e := by
      rw [scaled]
      exact ((Int.lt_zpow_iff_log_lt (b := 2) (by norm_num) positive).mpr (by omega)).le
    rw [← div_le_iff₀ unit, ← ratio, div_le_iff₀ hd''] at bound
    rw [rounds]
    exact roundDiv_le hd' (by exact_mod_cast bound)
  have full : 2 ^ 52 ≤ mantissaAt num den e ∨ e = minExponent := by
    by_cases least : e = minExponent
    · exact .inr least
    · have bound : (2 : ℚ) ^ (52 : ℤ) * 2 ^ e ≤ num / den := by
        rw [scaled]
        exact (Int.zpow_le_iff_le_log (b := 2) (by norm_num) positive).mpr (by omega)
      rw [← le_div_iff₀ unit, ← ratio, le_div_iff₀ hd''] at bound
      rw [rounds]
      exact .inl (le_roundDiv hd' (by exact_mod_cast bound))
  have least : minExponent ≤ e := by omega
  dsimp only
  split
  · have narrow : Nat.pow 2 (precision - 1) < Nat.pow 2 precision := by decide
    exact canonical_within negative narrow (by omega) (.inl (le_refl _))
  · next carry => exact canonical_within negative (lt_of_le_of_ne most carry) least full

theorem canonical_ofDecimal (negative : Bool) (digits : Nat) (exponent : Int) :
    Canonical (ofDecimal negative digits exponent) := by
  simp only [ofDecimal]
  split
  · exact canonical_zero negative
  · split
    · trivial
    · split
      · exact canonical_ofRatio negative _ Nat.one_pos
      · split
        · exact canonical_zero negative
        · exact canonical_ofRatio negative _ (Nat.pow_pos (by decide))

end Double

namespace Decimal

/-! ## Ratios -/

def Ratio.value (x : Ratio) : ℚ := x.num / x.den

theorem scaled_value {b : Nat} (hb : 0 < b) (n : Nat) (e : Int) :
    let x : Ratio := if 0 ≤ e then ⟨n * Nat.pow b e.toNat, 1⟩ else ⟨n, Nat.pow b (-e).toNat⟩
    0 < x.den ∧ x.value = n * (b : ℚ) ^ e := by
  dsimp only
  split
  · next nonneg =>
    obtain ⟨k, rfl⟩ := Int.eq_ofNat_of_zero_le nonneg
    refine ⟨Nat.one_pos, ?_⟩
    simp [Ratio.value]
  · next neg =>
    obtain ⟨k, hk⟩ := Int.eq_ofNat_of_zero_le (show 0 ≤ -e by omega)
    obtain rfl : e = -(k : ℤ) := by omega
    refine ⟨Nat.pow_pos hb, ?_⟩
    simp [Ratio.value, div_eq_mul_inv]

theorem ofDyadic_den (m : Nat) (e : Int) : 0 < (Ratio.ofDyadic m e).den :=
  (scaled_value Nat.two_pos m e).1

theorem value_ofDyadic (m : Nat) (e : Int) : (Ratio.ofDyadic m e).value = m * 2 ^ e :=
  (scaled_value Nat.two_pos m e).2

theorem toRatio_den (d : Decimal) : 0 < d.toRatio.den :=
  (scaled_value (b := 10) (by decide) d.digits d.exponent).1

theorem value_toRatio (d : Decimal) : d.toRatio.value = d.digits * 10 ^ d.exponent :=
  (scaled_value (b := 10) (by decide) d.digits d.exponent).2

section Order

variable {a b : Ratio} (ha : 0 < a.den) (hb : 0 < b.den)

include ha hb

theorem le_iff : a.le b = true ↔ a.value ≤ b.value := by
  have ha' : (0 : ℚ) < a.den := by exact_mod_cast ha
  have hb' : (0 : ℚ) < b.den := by exact_mod_cast hb
  rw [Ratio.le, decide_eq_true_eq, Ratio.value, Ratio.value, div_le_div_iff₀ ha' hb']
  exact_mod_cast Iff.rfl

theorem lt_iff : a.lt b = true ↔ a.value < b.value := by
  have ha' : (0 : ℚ) < a.den := by exact_mod_cast ha
  have hb' : (0 : ℚ) < b.den := by exact_mod_cast hb
  rw [Ratio.lt, decide_eq_true_eq, Ratio.value, Ratio.value, div_lt_div_iff₀ ha' hb']
  exact_mod_cast Iff.rfl

end Order

variable {m : Nat} {e : Int}

/-- The ends of the interval of a double. -/
theorem value_ends (hm : 0 < m) :
    (Interval.ofDouble m e).low.value = (m - Double.slack m e) * 2 ^ e ∧
      (Interval.ofDouble m e).high.value = (m + 1 / 2) * 2 ^ e := by
  have quarter : (2 : ℚ) ^ (e - 2) = 2 ^ e / 4 := by
    rw [zpow_sub₀ (by norm_num)]
    norm_num
  simp only [Interval.ofDouble, value_ofDyadic, quarter, Double.slack]
  constructor
  · split
    · rw [Nat.cast_sub (by omega)]
      push_cast
      ring
    · rw [Nat.cast_sub (by omega)]
      push_cast
      ring
  · push_cast
    ring

/-- The interval of a double has the numbers that round to it. -/
theorem has_iff (hm : 0 < m) {x : Ratio} (hx : 0 < x.den) :
    (Interval.ofDouble m e).has x = true ↔ Double.Near m e x.value := by
  obtain ⟨low, high⟩ := value_ends (e := e) hm
  have ldens : 0 < (Interval.ofDouble m e).low.den := ofDyadic_den _ _
  have hdens : 0 < (Interval.ofDouble m e).high.den := ofDyadic_den _ _
  rw [Interval.has]
  split
  · next even =>
    rw [Bool.and_eq_true, le_iff ldens hx, le_iff hx hdens, low, high]
    have even : m % 2 = 0 := by simpa [Interval.ofDouble] using even
    exact ⟨fun h => ⟨h.1, h.2, fun _ => even⟩, fun h => ⟨h.low, h.high⟩⟩
  · next odd =>
    rw [Bool.and_eq_true, lt_iff ldens hx, lt_iff hx hdens, low, high]
    have odd : m % 2 ≠ 0 := by simpa [Interval.ofDouble] using odd
    refine ⟨fun h => ⟨h.1.le, h.2.le, ?_⟩, fun h => ⟨?_, ?_⟩⟩
    · rintro (end_ | end_)
      · exact absurd end_ h.1.ne'
      · exact absurd end_ h.2.ne
    · exact lt_of_le_of_ne h.low fun same => odd (h.ends (.inl same.symm))
    · exact lt_of_le_of_ne h.high fun same => odd (h.ends (.inr same))

/-! ## A decimal with 17 digits -/

theorem floorAt_spec {x : Ratio} (hx : 0 < x.den) (k : Int) :
    (floorAt x k : ℚ) * 10 ^ k ≤ x.value ∧ x.value < (floorAt x k + 1) * 10 ^ k := by
  have unit : (0 : ℚ) < 10 ^ k := zpow_pos (by norm_num) k
  obtain ⟨n, d, hd, ratio, floor⟩ := Double.ratio_scaled (b := 10) (by decide) (· / ·) x.num hx k
  have hd' : (0 : ℚ) < d := by exact_mod_cast hd
  have floor : floorAt x k = n / d := floor
  have below : n / d * d ≤ n := Nat.div_mul_le_self n d
  have above : n < (n / d + 1) * d := by
    rw [Nat.add_mul, Nat.one_mul]
    exact Nat.lt_div_mul_add hd
  rw [floor, ← le_div_iff₀ unit, ← div_lt_iff₀ unit, Ratio.value]
  push_cast at ratio
  rw [← ratio, le_div_iff₀ hd', div_lt_iff₀ hd']
  exact ⟨by exact_mod_cast below, by exact_mod_cast above⟩

/-- On a grid that is finer than the interval one of the two points around the double is in it. -/
theorem nearestAt_hits (hm : 0 < m) {k : Int}
    (fine : (10 : ℚ) ^ k < (Double.slack m e + 1 / 2) * 2 ^ e) :
    nearestAt (.ofDouble m e) (.ofDyadic m e) k ≠ none := by
  obtain ⟨below, above⟩ := floorAt_spec (ofDyadic_den m e) k
  have lower := has_iff (e := e) hm (toRatio_den ⟨floorAt (Ratio.ofDyadic m e) k, k⟩)
  have upper := has_iff (e := e) hm (toRatio_den ⟨floorAt (Ratio.ofDyadic m e) k + 1, k⟩)
  have unit := Double.two_zpow_pos e
  have slack := Double.slack_pos m e
  have some := mul_pos slack unit
  simp only [value_toRatio, value_ofDyadic] at below above lower upper
  push_cast at upper
  have near : (Interval.ofDouble m e).has (toRatio ⟨floorAt (Ratio.ofDyadic m e) k, k⟩) = true ∨
      (Interval.ofDouble m e).has (toRatio ⟨floorAt (Ratio.ofDyadic m e) k + 1, k⟩) = true := by
    rw [lower, upper]
    rcases lt_or_ge ((m - Double.slack m e) * 2 ^ e) (floorAt (Ratio.ofDyadic m e) k * 10 ^ k)
      with inside | outside
    · exact .inl (Double.near_between inside (by linarith))
    · exact .inr (Double.near_between (by linarith) (by linarith))
  simp only [nearestAt]
  split
  · next neither other => simp [neither, other] at near
  · exact fun h => by cases h
  · exact fun h => by cases h
  · split
    · exact fun h => by cases h
    · split
      · exact fun h => by cases h
      · split <;> exact fun h => by cases h

theorem firstHit_hits {i : Interval} {x : Ratio} {p : Int} (last : nearestAt i x (p - 17) ≠ none)
    {fuel : Nat} (some : 0 < fuel) : firstHit i x p fuel ≠ none := by
  induction fuel with
  | zero => cases some
  | succ fuel ih =>
    simp only [firstHit]
    split
    · exact fun h => by cases h
    · next missed =>
      cases fuel with
      | zero => exact absurd missed last
      | succ fuel => exact ih (Nat.succ_pos fuel)

/-! ## The magnitude of a double -/

theorem raise_below {x : Ratio} (hx : 0 < x.den) {fuel : Nat} {p : Int}
    (low : (10 : ℚ) ^ (p - 1) ≤ x.value) : (10 : ℚ) ^ (raise x fuel p - 1) ≤ x.value := by
  induction fuel generalizing p with
  | zero => exact low
  | succ fuel ih =>
    rw [raise]
    split
    · exact low
    · next high =>
      have le := not_lt.mp fun lt => high ((lt_iff hx (toRatio_den (mk 1 p))).mpr lt)
      refine ih ?_
      rw [value_toRatio] at le
      simpa using le

/-- Powers of ten below powers of two: `10 ^ 3 ≤ 2 ^ 10` above one and `2 ^ 93 ≤ 10 ^ 28` below. -/
theorem ten_zpow_le {n k : Int} (h : 0 ≤ k ∧ 10 * n ≤ 3 * k ∨ k ≤ 0 ∧ 93 * n ≤ 28 * k) :
    (10 : ℚ) ^ n ≤ 2 ^ k := by
  have ten : (0 : ℚ) < 10 ^ n := zpow_pos (by norm_num) n
  have two := Double.two_zpow_pos k
  rcases h with ⟨nonneg, le⟩ | ⟨nonpos, le⟩
  · refine (pow_le_pow_iff_left₀ ten.le two.le (by norm_num : (10 : ℕ) ≠ 0)).mp ?_
    calc ((10 : ℚ) ^ n) ^ 10 = 10 ^ (10 * n) := by rw [mul_comm, zpow_mul]; rfl
      _ ≤ 10 ^ (3 * k) := zpow_le_zpow_right₀ (by norm_num) le
      _ = (10 ^ 3) ^ k := by rw [zpow_mul]; rfl
      _ ≤ (2 ^ 10) ^ k := zpow_le_zpow_left₀ nonneg (by norm_num) (by norm_num)
      _ = (2 ^ k) ^ 10 := by rw [← zpow_natCast, ← zpow_natCast, ← zpow_mul, ← zpow_mul, mul_comm]
  · refine (pow_le_pow_iff_left₀ ten.le two.le (by norm_num : (93 : ℕ) ≠ 0)).mp ?_
    have inverse : ((10 : ℚ) ^ 28) ^ k ≤ (2 ^ 93) ^ k := by
      obtain ⟨j, hj⟩ := Int.eq_ofNat_of_zero_le (show 0 ≤ -k by omega)
      obtain rfl : k = -(j : ℤ) := by omega
      rw [zpow_neg, zpow_neg, zpow_natCast, zpow_natCast]
      exact inv_anti₀ (by positivity) (pow_le_pow_left₀ (by norm_num) (by norm_num) j)
    calc ((10 : ℚ) ^ n) ^ 93 = 10 ^ (93 * n) := by rw [mul_comm, zpow_mul]; rfl
      _ ≤ 10 ^ (28 * k) := zpow_le_zpow_right₀ (by norm_num) le
      _ = (10 ^ 28) ^ k := by rw [zpow_mul]; rfl
      _ ≤ (2 ^ 93) ^ k := inverse
      _ = (2 ^ k) ^ 93 := by rw [← zpow_natCast, ← zpow_natCast, ← zpow_mul, ← zpow_mul, mul_comm]

theorem magnitude_below (hm : 0 < m) (canonical : Double.Canonical (.finite false m e)) :
    (10 : ℚ) ^ (magnitude m e - 1) ≤ m * 2 ^ e := by
  obtain ⟨narrow, least, most, -⟩ := canonical
  have short : Nat.log2 m < 53 := (Nat.log2_lt hm.ne').mpr narrow
  simp only [Double.minExponent, Double.maxExponent] at least most
  rw [← value_ofDyadic]
  refine raise_below (ofDyadic_den m e) ?_
  rw [value_ofDyadic]
  calc (10 : ℚ) ^ (((Nat.log2 m : Int) + e) * 30103 / 100000 - 1 - 1)
      ≤ 2 ^ ((Nat.log2 m : Int) + e) := ten_zpow_le (by omega)
    _ = 2 ^ (Nat.log2 m : Int) * 2 ^ e := zpow_add₀ (by norm_num) _ _
    _ ≤ m * 2 ^ e :=
      mul_le_mul_of_nonneg_right (Double.log2_bounds hm).1 (Double.two_zpow_pos e).le

/-- With 17 digits the grid is finer than the interval of a double. -/
theorem grid_fine (hm : 0 < m) (canonical : Double.Canonical (.finite false m e)) :
    (10 : ℚ) ^ (magnitude m e - 17) < (Double.slack m e + 1 / 2) * 2 ^ e := by
  have unit := Double.two_zpow_pos e
  have below := magnitude_below hm canonical
  have step : (10 : ℚ) ^ (magnitude m e - 17) = 10 ^ (magnitude m e - 1) / 10 ^ 16 := by
    rw [show magnitude m e - 17 = magnitude m e - 1 - (16 : ℕ) by ring, zpow_sub₀ (by norm_num),
      zpow_natCast]
  have narrow : (m : ℚ) + 1 ≤ 2 ^ 53 := by exact_mod_cast canonical.1
  have wide : (m : ℚ) / 10 ^ 16 < Double.slack m e + 1 / 2 := by
    unfold Double.slack
    split
    · next dense =>
      rw [dense.1]
      norm_num [Double.precision]
    · norm_num at narrow ⊢
      linarith
  calc (10 : ℚ) ^ (magnitude m e - 17) ≤ m * 2 ^ e / 10 ^ 16 := by
        rw [step]
        exact div_le_div_of_nonneg_right below (by norm_num)
    _ = m / 10 ^ 16 * 2 ^ e := by ring
    _ < (Double.slack m e + 1 / 2) * 2 ^ e := mul_lt_mul_of_pos_right wide unit

/-! ## The shortest decimal -/

theorem dropZeros_value (d : Decimal) (fuel : Nat) :
    ((dropZeros fuel d).digits : ℚ) * 10 ^ (dropZeros fuel d).exponent = d.digits * 10 ^ d.exponent := by
  induction fuel generalizing d with
  | zero => rfl
  | succ fuel ih =>
    rw [dropZeros]
    split
    · next even =>
      have split : (d.digits : ℚ) = (d.digits / 10 : ℕ) * 10 := by
        exact_mod_cast (show d.digits = d.digits / 10 * 10 by omega)
      rw [ih, split, zpow_add_one₀ (by norm_num)]
      ring
    · rfl

/-- Nothing is no number that rounds to a positive double. -/
theorem has_pos (hm : 0 < m) {d : Decimal} (h : (Interval.ofDouble m e).has d.toRatio = true) :
    0 < d.digits := by
  have positive := Double.near_pos hm ((has_iff hm (toRatio_den d)).mp h)
  rw [value_toRatio] at positive
  have unit : (0 : ℚ) < 10 ^ d.exponent := zpow_pos (by norm_num) _
  exact_mod_cast (pos_iff_pos_of_mul_pos positive).mpr unit

theorem nearestAt_has {i : Interval} {x : Ratio} {k : Int} {d : Decimal}
    (h : nearestAt i x k = some d) : i.has d.toRatio = true := by
  simp only [nearestAt] at h
  split at h
  · cases h
  · next lower _ => exact Option.some.inj h ▸ lower
  · next _ upper => exact Option.some.inj h ▸ upper
  · next lower upper =>
    split at h
    · exact Option.some.inj h ▸ lower
    · split at h
      · exact Option.some.inj h ▸ upper
      · split at h
        · exact Option.some.inj h ▸ lower
        · exact Option.some.inj h ▸ upper

theorem firstHit_has {i : Interval} {x : Ratio} {p : Int} {fuel : Nat} {d : Decimal}
    (h : firstHit i x p fuel = some d) : i.has d.toRatio = true := by
  induction fuel with
  | zero => cases h
  | succ fuel ih =>
    simp only [firstHit] at h
    split at h
    · next hit => exact Option.some.inj h ▸ nearestAt_has hit
    · exact ih h

theorem dropZeros_pos {d : Decimal} (hd : 0 < d.digits) (fuel : Nat) :
    0 < (dropZeros fuel d).digits := by
  induction fuel generalizing d with
  | zero => exact hd
  | succ fuel ih =>
    rw [dropZeros]
    split
    · next even => exact ih (d := ⟨d.digits / 10, d.exponent + 1⟩) (by dsimp only; omega)
    · exact hd

theorem shortest_digits (hm : 0 < m) (e : Int) :
    0 < (shortest m e).digits ∨ shortest m e = ⟨0, 0⟩ := by
  simp only [shortest]
  cases hit : firstHit (.ofDouble m e) (.ofDyadic m e) (magnitude m e) 17 with
  | none => exact .inr rfl
  | some d => exact .inl (dropZeros_pos (has_pos hm (firstHit_has hit)) 17)

/-- The shortest decimal of a double rounds to it. -/
theorem shortest_near (hm : 0 < m) (canonical : Double.Canonical (.finite false m e)) :
    Double.Near m e ((shortest m e).digits * 10 ^ (shortest m e).exponent) := by
  have hits := firstHit_hits (nearestAt_hits hm (grid_fine hm canonical)) (show 0 < 17 by decide)
  cases hit : firstHit (.ofDouble m e) (.ofDyadic m e) (magnitude m e) 17 with
  | none => exact absurd hit hits
  | some d =>
    have near := (has_iff hm (toRatio_den d)).mp (firstHit_has hit)
    rw [value_toRatio] at near
    simp only [shortest, hit, Option.getD_some, dropZeros_value]
    exact near

end Decimal

namespace Double

/-- A decimal that is not far outside the range of doubles is rounded as the ratio it is. -/
theorem ofDecimal_ratio (negative : Bool) {d : Decimal} (hd : 0 < d.digits)
    (low : (10 : ℚ) ^ (-400 : ℤ) < d.digits * 10 ^ d.exponent)
    (high : (d.digits : ℚ) * 10 ^ d.exponent < 10 ^ (400 : ℤ)) :
    ofDecimal negative d.digits d.exponent = ofRatio negative d.toRatio.num d.toRatio.den := by
  have unit : (0 : ℚ) < 10 ^ d.exponent := zpow_pos (by norm_num) _
  have one : (1 : ℚ) ≤ d.digits := by exact_mod_cast hd
  have small : d.exponent ≤ 400 := by
    by_contra large
    have le : (10 : ℚ) ^ (400 : ℤ) ≤ 10 ^ d.exponent := zpow_le_zpow_right₀ (by norm_num) (by omega)
    exact absurd high (not_lt.mpr (le.trans (le_mul_of_one_le_left unit.le one)))
  have large : -(400 + Nat.log2 d.digits : Int) ≤ d.exponent := by
    by_contra small
    have digits : (d.digits : ℚ) ≤ 10 ^ ((Nat.log2 d.digits : ℤ) + 1) :=
      (log2_bounds hd).2.le.trans (zpow_le_zpow_left₀ (by omega) (by norm_num) (by norm_num))
    have le : (d.digits : ℚ) * 10 ^ d.exponent ≤ 10 ^ (-400 : ℤ) := by
      calc (d.digits : ℚ) * 10 ^ d.exponent
          ≤ 10 ^ ((Nat.log2 d.digits : ℤ) + 1) * 10 ^ d.exponent :=
            mul_le_mul_of_nonneg_right digits unit.le
        _ = 10 ^ ((Nat.log2 d.digits : ℤ) + 1 + d.exponent) := (zpow_add₀ (by norm_num) _ _).symm
        _ ≤ 10 ^ (-400 : ℤ) := zpow_le_zpow_right₀ (by norm_num) (by omega)
    exact absurd low (not_lt.mpr le)
  rw [ofDecimal, if_neg hd.ne', if_neg (not_lt.mpr small), Decimal.toRatio]
  split
  · rfl
  · rw [if_neg (not_lt.mpr large)]

/-- All doubles lie well within four hundred powers of ten. -/
theorem range_within : (2 : ℚ) ^ (1200 : ℤ) < 10 ^ (400 : ℤ) := by
  rw [show (1200 : ℤ) = 3 * 400 by norm_num, zpow_mul]
  exact zpow_lt_zpow_left₀ (by norm_num) (by norm_num) (by norm_num)

/-- Reading the shortest decimal of a double gives the double. -/
theorem ofDecimal_shortest (negative : Bool) {m : Nat} {e : Int} (hm : 0 < m)
    (canonical : Canonical (.finite negative m e)) :
    ofDecimal negative (Decimal.shortest m e).digits (Decimal.shortest m e).exponent =
      .finite negative m e := by
  have near := Decimal.shortest_near hm canonical
  have den := Decimal.toRatio_den (Decimal.shortest m e)
  have value := Decimal.value_toRatio (Decimal.shortest m e)
  generalize Decimal.shortest m e = d at near den value ⊢
  have positive := near_pos hm near
  have unit : (0 : ℚ) < 10 ^ d.exponent := zpow_pos (by norm_num) _
  have digits : 0 < d.digits := by exact_mod_cast (pos_iff_pos_of_mul_pos positive).mpr unit
  obtain ⟨narrow, least, most, -⟩ := id canonical
  have high : (d.digits : ℚ) * 10 ^ d.exponent < 10 ^ (400 : ℤ) := by
    have top : (m : ℚ) + 1 ≤ 2 ^ (53 : ℤ) := by exact_mod_cast narrow
    calc (d.digits : ℚ) * 10 ^ d.exponent ≤ (m + 1 / 2) * 2 ^ e := near.high
      _ ≤ 2 ^ (53 : ℤ) * 2 ^ (971 : ℤ) :=
        mul_le_mul (by linarith) (zpow_le_zpow_right₀ (by norm_num) most) (two_zpow_pos e).le
          (two_zpow_pos 53).le
      _ = 2 ^ (1024 : ℤ) := (zpow_add₀ (by norm_num) _ _).symm
      _ ≤ 2 ^ (1200 : ℤ) := zpow_le_zpow_right₀ (by norm_num) (by norm_num)
      _ < 10 ^ (400 : ℤ) := range_within
  have low : (10 : ℚ) ^ (-400 : ℤ) < d.digits * 10 ^ d.exponent := by
    have half := slack_le m e
    have one : (1 : ℚ) ≤ m := by exact_mod_cast hm
    calc (10 : ℚ) ^ (-400 : ℤ) < 2 ^ (-1200 : ℤ) := by
          rw [zpow_neg, zpow_neg]
          exact inv_strictAnti₀ (two_zpow_pos 1200) range_within
      _ ≤ 2 ^ (-1 + -1074 : ℤ) := zpow_le_zpow_right₀ (by norm_num) (by norm_num)
      _ = 1 / 2 * 2 ^ (-1074 : ℤ) := by
          rw [zpow_add₀ (by norm_num)]
          norm_num
      _ ≤ (m - slack m e) * 2 ^ e :=
        mul_le_mul (by linarith) (zpow_le_zpow_right₀ (by norm_num) least)
          (two_zpow_pos _).le (by linarith)
      _ ≤ d.digits * 10 ^ d.exponent := near.low
  rw [ofDecimal_ratio negative digits low high]
  rw [← value] at near positive
  have num : 0 < d.toRatio.num := by
    by_contra none
    simp [Decimal.Ratio.value, show d.toRatio.num = 0 by omega] at positive
  exact ofRatio_near negative num den canonical near

end Double

end DocStore
