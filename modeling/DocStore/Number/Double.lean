/-!
Floating-point numbers of double width as exact data: a number is a whole multiple of a power of
two, so that reading, printing and comparing are arithmetic on integers.
-/

namespace DocStore

/-- A double: not a number, an infinity, or exactly `± mantissa · 2 ^ exponent`. What is not a
number carries a mark, by which occurrences of one such double are told from another. -/
inductive Double where
  | nan (mark : Nat)
  | infinity (negative : Bool)
  | finite (negative : Bool) (mantissa : Nat) (exponent : Int)
deriving DecidableEq, Repr, Inhabited

namespace Double

/-- Number of binary digits of a mantissa. -/
def precision : Nat := 53

/-- The exponent of the smallest positive double. -/
def minExponent : Int := -1074

/-- The exponent of the largest finite double. -/
def maxExponent : Int := 971

def zero (negative : Bool) : Double := .finite negative 0 minExponent

/-- The doubles as they are stored: the mantissa fills its digits unless the exponent is least. -/
def Canonical : Double → Prop
  | .nan _ | .infinity _ => True
  | .finite _ m e =>
    m < Nat.pow 2 precision ∧ minExponent ≤ e ∧ e ≤ maxExponent
      ∧ (Nat.pow 2 (precision - 1) ≤ m ∨ e = minExponent)

/-- The whole number nearest to `num / den`, of two the even one. -/
def roundDiv (num den : Nat) : Nat :=
  let q := num / den
  let r := num % den
  if 2 * r < den then q else if den < 2 * r then q + 1 else if q % 2 = 0 then q else q + 1

/-- The exponent at which `num / den` has a mantissa of full precision, or the least exponent. -/
def exponentOf (num den : Nat) : Int :=
  let k : Int := (Nat.log2 num : Int) - Nat.log2 den
  let reached :=
    if 0 ≤ k then den * Nat.pow 2 k.toNat ≤ num else den ≤ num * Nat.pow 2 (-k).toNat
  max (if reached then k - 52 else k - 53) minExponent

/-- The double nearest to `± num / den`, ties to the even mantissa. -/
def ofRatio (negative : Bool) (num den : Nat) : Double :=
  if num = 0 then zero negative else
    let e := exponentOf num den
    let m :=
      if 0 ≤ e then roundDiv num (den * Nat.pow 2 e.toNat)
      else roundDiv (num * Nat.pow 2 (-e).toNat) den
    let (m, e) := if m = Nat.pow 2 precision then (Nat.pow 2 (precision - 1), e + 1) else (m, e)
    if maxExponent < e then .infinity negative else .finite negative m e

/-- The double nearest to `± digits · 10 ^ exponent`; what lies far outside the range is not
computed. -/
def ofDecimal (negative : Bool) (digits : Nat) (exponent : Int) : Double :=
  if digits = 0 then zero negative
  else if 400 < exponent then .infinity negative
  else if 0 ≤ exponent then ofRatio negative (digits * Nat.pow 10 exponent.toNat) 1
  else if exponent < -(400 + Nat.log2 digits : Int) then zero negative
  else ofRatio negative digits (Nat.pow 10 (-exponent).toNat)

end Double

/-- The integers of which a double can be made: below the point half way to the next power. -/
def fitsDouble (n : Int) : Bool := n.natAbs < Nat.pow 2 1024 - Nat.pow 2 970

end DocStore
