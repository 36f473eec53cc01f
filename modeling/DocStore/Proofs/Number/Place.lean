import DocStore.Proofs.Number.Double
import DocStore.Value.Equality
import Mathlib.Order.Monotone.Basic
import Mathlib.Order.WithBot
/-!
The line as an ordered set: rational numbers between two ends. Places compare as the points at which they
lie, so those that are defined are linearly ordered, whether they come from integers or from doubles.
-/

namespace DocStore

/-- The rational numbers with an end on either side. -/
abbrev Line := WithBot (WithTop ℚ)

namespace Extended

/-- The point at which a place lies. An undefined one lies nowhere, and compares with nothing. -/
def point : Extended → Line
  | .undefined | .bottom => ⊥
  | .top => ((⊤ : WithTop ℚ) : Line)
  | .dyadic m e => (((m : ℚ) * 2 ^ e : ℚ) : WithTop ℚ)

/-! ## Comparing -/

theorem compare_strictMono {α β : Type} [LinearOrder α] [LinearOrder β] {f : α → β} (h : StrictMono f)
    (a b : α) : compare (f a) (f b) = compare a b := by
  rw [← cmp_eq_compare, ← cmp_eq_compare, h.cmp_map_eq]

/-- Bringing a mantissa to a smaller exponent keeps its point. -/
theorem scaled_point (m : Int) {e least : Int} (le : least ≤ e) :
    ((m * Int.ofNat (Nat.pow 2 (e - least).toNat) : Int) : ℚ) * 2 ^ least = m * 2 ^ e := by
  obtain ⟨k, rfl⟩ := Int.le.dest le
  have two : (2 : ℚ) ≠ 0 := by norm_num
  have shift : (least + (k : Int) - least).toNat = k := by omega
  have power : ((Int.ofNat (Nat.pow 2 k) : Int) : ℚ) = 2 ^ k := by
    rw [Int.ofNat_eq_natCast, Int.cast_natCast]
    exact_mod_cast rfl
  rw [shift, Int.cast_mul, power, zpow_add₀ two, zpow_natCast]
  ring

theorem compareDyadic_eq_compare (m e n f : Int) :
    compareDyadic m e n f = compare ((m : ℚ) * 2 ^ e) ((n : ℚ) * 2 ^ f) := by
  have mono : StrictMono fun a : Int => (a : ℚ) * 2 ^ min e f := by
    intro a b less
    have less : (a : ℚ) < b := by exact_mod_cast less
    exact mul_lt_mul_of_pos_right less (Double.two_zpow_pos _)
  rw [← scaled_point m (min_le_left e f), ← scaled_point n (min_le_right e f)]
  exact (compare_strictMono mono _ _).symm

variable {x y : Extended}

/-- Places that are defined compare as their points. -/
theorem compare?_eq_compare (hx : x ≠ .undefined) (hy : y ≠ .undefined) :
    x.compare? y = some (compare x.point y.point) := by
  have low (q : ℚ) : (⊥ : Line) < ((q : WithTop ℚ) : Line) := WithBot.bot_lt_coe _
  have high (q : ℚ) : ((q : WithTop ℚ) : Line) < ((⊤ : WithTop ℚ) : Line) :=
    WithBot.coe_lt_coe.mpr (WithTop.coe_lt_top q)
  have ends : (⊥ : Line) < ((⊤ : WithTop ℚ) : Line) := WithBot.bot_lt_coe _
  cases x with
  | undefined => exact absurd rfl hx
  | bottom =>
    cases y with
    | undefined => exact absurd rfl hy
    | bottom => exact congrArg some (compare_eq_iff_eq.mpr rfl).symm
    | top => exact congrArg some (compare_lt_iff_lt.mpr ends).symm
    | dyadic n f => exact congrArg some (compare_lt_iff_lt.mpr (low _)).symm
  | top =>
    cases y with
    | undefined => exact absurd rfl hy
    | bottom => exact congrArg some (compare_gt_iff_gt.mpr ends).symm
    | top => exact congrArg some (compare_eq_iff_eq.mpr rfl).symm
    | dyadic n f => exact congrArg some (compare_gt_iff_gt.mpr (high _)).symm
  | dyadic m e =>
    cases y with
    | undefined => exact absurd rfl hy
    | bottom => exact congrArg some (compare_gt_iff_gt.mpr (low _)).symm
    | top => exact congrArg some (compare_lt_iff_lt.mpr (high _)).symm
    | dyadic n f =>
      have mono : StrictMono fun q : ℚ => ((q : WithTop ℚ) : Line) :=
        fun _ _ less => WithBot.coe_lt_coe.mpr (WithTop.coe_lt_coe.mpr less)
      apply congrArg some
      rw [compareDyadic_eq_compare]
      exact (compare_strictMono mono _ _).symm

theorem compare?_undefined (h : x = .undefined ∨ y = .undefined) : x.compare? y = none := by
  rcases h with rfl | rfl
  · rfl
  · cases x <;> rfl

/-- Places are the same when both are defined and lie at one point. -/
theorem same_iff : x.same y = true ↔ x ≠ .undefined ∧ y ≠ .undefined ∧ x.point = y.point := by
  by_cases defined : x = .undefined ∨ y = .undefined
  · rw [same, compare?_undefined defined]
    rcases defined with rfl | rfl <;> simp
  · obtain ⟨hx, hy⟩ := not_or.mp defined
    rw [same, compare?_eq_compare hx hy, beq_iff_eq, Option.some.injEq, compare_eq_iff_eq]
    exact ⟨fun one => ⟨hx, hy, one⟩, fun h => h.2.2⟩

theorem compare?_congr {x' y' : Extended} (left : x.same y = true) (right : x'.same y' = true) :
    x.compare? x' = y.compare? y' := by
  obtain ⟨hx, hy, one⟩ := same_iff.mp left
  obtain ⟨hx', hy', one'⟩ := same_iff.mp right
  rw [compare?_eq_compare hx hx', compare?_eq_compare hy hy', one, one']

/-! ## Where integers and doubles lie -/

theorem ofDouble_defined {x : Double} (number : ∀ mark, x ≠ .nan mark) : ofDouble x ≠ .undefined := by
  cases x with
  | nan mark => exact absurd rfl (number mark)
  | infinity negative => cases negative <;> exact nofun
  | finite negative m e => exact nofun

theorem point_ofInt (n : Int) : (ofInt n).point = (((n : ℚ) : WithTop ℚ) : Line) := by
  rw [ofInt, point, zpow_zero, mul_one]

theorem ofInt_inj {n m : Int} (one : (ofInt n).point = (ofInt m).point) : n = m := by
  rw [point_ofInt, point_ofInt, WithBot.coe_inj, WithTop.coe_inj] at one
  exact_mod_cast one

/-- A mantissa and an exponent with bounds give a number with a bound. -/
theorem dyadic_le {m c k : Nat} {e : Int} (digits : m ≤ c) (high : e ≤ k) :
    (m : ℚ) * 2 ^ e ≤ (c * 2 ^ k : Nat) := by
  have digits : (m : ℚ) ≤ c := by exact_mod_cast digits
  have power : (2 : ℚ) ^ e ≤ 2 ^ (k : ℤ) := zpow_le_zpow_right₀ (by norm_num) high
  rw [Nat.cast_mul, Nat.cast_pow, Nat.cast_ofNat, ← zpow_natCast]
  exact mul_le_mul digits power (Double.two_zpow_pos e).le (Nat.cast_nonneg _)

/-- The greatest mantissa lies below the point half way to the next power. -/
theorem greatest_lt (k : Nat) :
    (Nat.pow 2 Double.precision - 1) * 2 ^ (k + 1) < Nat.pow 2 (k + 54) - Nat.pow 2 k := by
  have positive : 0 < 2 ^ k := Nat.two_pow_pos k
  have mantissa : Nat.pow 2 Double.precision - 1 = 9007199254740991 := rfl
  have above : Nat.pow 2 (k + 54) = 2 ^ k * 2 ^ 54 := Nat.pow_add 2 k 54
  rw [mantissa, above, Nat.pow_succ, show Nat.pow 2 k = 2 ^ k from rfl]
  omega

/-- An integer that lies where a double of the stored form does is within the range of doubles. -/
theorem fits_of_point {n : Int} {x : Double} (stored : x.Canonical)
    (number : ∀ mark, x ≠ .nan mark) (one : (ofInt n).point = (ofDouble x).point) :
    fitsDouble n = true := by
  rw [point_ofInt] at one
  cases x with
  | nan mark => exact absurd rfl (number mark)
  | infinity negative =>
    cases negative with
    | false => exact absurd (WithBot.coe_inj.mp one) (WithTop.coe_ne_top)
    | true => exact absurd one (WithBot.coe_ne_bot)
  | finite negative m e =>
    obtain ⟨digits, -, high, -⟩ := stored
    have equal : (n : ℚ) = ((if negative then -(m : Int) else m : Int) : ℚ) * 2 ^ e :=
      WithTop.coe_inj.mp (WithBot.coe_inj.mp one)
    have size : ((n.natAbs : Nat) : ℚ) = m * 2 ^ e := by
      rw [Nat.cast_natAbs, Int.cast_abs, equal, abs_mul, abs_of_pos (Double.two_zpow_pos e)]
      cases negative <;> simp
    -- The exponent stays a name, so that no power of this size is worked out.
    obtain ⟨k, hk⟩ : ∃ k : Nat, k = 970 := ⟨_, rfl⟩
    have high : e ≤ (k + 1 : Nat) := by
      rw [hk]
      exact high
    have within := dyadic_le (Nat.le_sub_one_of_lt digits) high
    rw [← size, Nat.cast_le] at within
    have next : 1024 = k + 54 := by omega
    rw [fitsDouble, decide_eq_true_iff, next, ← hk]
    exact Nat.lt_of_le_of_lt within (greatest_lt k)

end Extended

end DocStore
