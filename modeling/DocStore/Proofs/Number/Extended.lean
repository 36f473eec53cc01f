import DocStore.Value.Equality
import Mathlib.Algebra.Group.Int.Defs
import Mathlib.Algebra.Group.Nat.Defs
/-!
Places on the line: two have one normal spelling exactly when they compare as equal.
-/

namespace DocStore.Extended

/-- An odd factor and a power of two are determined by their product. -/
theorem odd_mul_pow_inj {a b : Int} {i j : Nat} (ha : a % 2 = 1) (hb : b % 2 = 1)
    (h : a * 2 ^ i = b * 2 ^ j) : i = j ∧ a = b := by
  induction i generalizing j with
  | zero =>
    cases j with
    | zero => simpa using h
    | succ j => rw [Int.pow_succ, ← Int.mul_assoc] at h; omega
  | succ i ih =>
    cases j with
    | zero => rw [Int.pow_succ, ← Int.mul_assoc] at h; omega
    | succ j =>
      have halved : a * 2 ^ i = b * 2 ^ j := by
        rw [Int.pow_succ, Int.pow_succ, ← Int.mul_assoc, ← Int.mul_assoc] at h
        omega
      obtain ⟨hij, hab⟩ := ih halved
      exact ⟨by rw [hij], hab⟩

/-- Stripping keeps the place, and with enough fuel leaves an odd mantissa. -/
theorem stripTwos_spec (fuel : Nat) (m e : Int) (hm : m ≠ 0) (hf : m.natAbs < 2 ^ (fuel + 1)) :
    ∃ k : Nat, (stripTwos fuel m e).2 = e + k ∧ m = (stripTwos fuel m e).1 * 2 ^ k ∧
      (stripTwos fuel m e).1 % 2 = 1 := by
  induction fuel generalizing m e with
  | zero => exact ⟨0, by simp [stripTwos], by simp [stripTwos], by simp only [stripTwos]; omega⟩
  | succ fuel ih =>
    by_cases even : m % 2 = 0
    · have step : stripTwos (fuel + 1) m e = stripTwos fuel (m / 2) (e + 1) := by
        simp [stripTwos, even]
      obtain ⟨k, he, hk, hodd⟩ := ih (m / 2) (e + 1) (by omega) (by rw [Nat.pow_succ] at hf; omega)
      refine ⟨k + 1, ?_, ?_, ?_⟩
      · rw [step, he]; push_cast; omega
      · rw [step, Int.pow_succ, ← Int.mul_assoc, ← hk]; omega
      · rw [step]; exact hodd
    · have step : stripTwos (fuel + 1) m e = (m, e) := by simp [stripTwos, even]
      exact ⟨0, by simp [step], by simp [step], by simp only [step]; omega⟩

/-- The spelling of a place other than zero. -/
theorem normal_spec (m e : Int) (hm : m ≠ 0) :
    ∃ (a : Int) (k : Nat), normal (.dyadic m e) = .dyadic a (e + k) ∧ m = a * 2 ^ k ∧
      a % 2 = 1 := by
  have enough : m.natAbs < 2 ^ (Nat.log2 m.natAbs + 1) := Nat.lt_log2_self
  obtain ⟨k, he, hk, hodd⟩ := stripTwos_spec _ m e hm enough
  refine ⟨_, k, ?_, hk, hodd⟩
  simp only [normal, hm, if_false, ← he]

theorem compareDyadic_eq_iff (m e n f : Int) :
    compareDyadic m e n f = .eq ↔
      m * 2 ^ (e - min e f).toNat = n * 2 ^ (f - min e f).toNat := by
  simp only [compareDyadic, Int.compare_eq_eq]
  simp

theorem normal_dyadic_eq_iff (m e n f : Int) :
    normal (.dyadic m e) = normal (.dyadic n f) ↔ compareDyadic m e n f = .eq := by
  rw [compareDyadic_eq_iff]
  have zero (e : Int) : normal (.dyadic 0 e) = .dyadic 0 0 := rfl
  by_cases hm : m = 0 <;> by_cases hn : n = 0
  · subst hm hn; simp [zero]
  · subst hm
    obtain ⟨b, l, hb, -, hodd⟩ := normal_spec n f hn
    have hb0 : b ≠ 0 := by rintro rfl; omega
    have hn0 : n * 2 ^ (f - min e f).toNat ≠ 0 :=
      Int.mul_ne_zero hn (Int.pow_ne_zero (by decide))
    simp [zero, hb, Ne.symm hb0, Ne.symm hn0]
  · subst hn
    obtain ⟨a, k, ha, -, hodd⟩ := normal_spec m e hm
    have ha0 : a ≠ 0 := by rintro rfl; omega
    have hm0 : m * 2 ^ (e - min e f).toNat ≠ 0 :=
      Int.mul_ne_zero hm (Int.pow_ne_zero (by decide))
    simp only [zero, ha, dyadic.injEq, ha0, false_and, Int.zero_mul, hm0]
  · obtain ⟨a, k, ha, hk, hodd⟩ := normal_spec m e hm
    obtain ⟨b, l, hb, hl, hodd'⟩ := normal_spec n f hn
    rw [ha, hb, hk, hl, Int.mul_assoc, Int.mul_assoc, ← Int.pow_add, ← Int.pow_add]
    constructor
    · intro h
      obtain ⟨rfl, he⟩ := Extended.dyadic.inj h
      rw [show k + (e - min e f).toNat = l + (f - min e f).toNat by omega]
    · intro h
      obtain ⟨he, rfl⟩ := odd_mul_pow_inj hodd hodd' h
      rw [show e + (k : Int) = f + l by omega]

/-- Equal places have one spelling, and only those. -/
theorem normal_eq_iff {x y : Extended} (hx : x ≠ .undefined) (hy : y ≠ .undefined) :
    x.normal = y.normal ↔ x.same y = true := by
  have spelled (m e : Int) : ∃ a f, normal (.dyadic m e) = .dyadic a f := by
    by_cases hm : m = 0
    · exact ⟨0, 0, by simp [normal, hm]⟩
    · obtain ⟨a, k, h, -⟩ := normal_spec m e hm
      exact ⟨a, _, h⟩
  cases x with
  | undefined => exact absurd rfl hx
  | bottom | top =>
    cases y with
    | undefined => exact absurd rfl hy
    | bottom | top => simp [normal, same, compare?]
    | dyadic n f =>
      obtain ⟨a, g, h⟩ := spelled n f
      simp only [h, same, compare?]
      simp [normal]
  | dyadic m e =>
    cases y with
    | undefined => exact absurd rfl hy
    | bottom | top =>
      obtain ⟨a, g, h⟩ := spelled m e
      simp only [h, same, compare?]
      simp [normal]
    | dyadic n f => simp [normal_dyadic_eq_iff, same, compare?]

end DocStore.Extended
