import DocStore.Number.Double
/-!
Numbers by their place on the line: integers and doubles side by side, compared exactly.
-/

namespace DocStore

/-- A place on the line: none, one of the two ends, or exactly `mantissa · 2 ^ exponent`. -/
inductive Extended where
  | undefined
  | bottom
  | top
  | dyadic (mantissa : Int) (exponent : Int)
deriving DecidableEq, Repr, Inhabited

namespace Extended

def ofInt (n : Int) : Extended := .dyadic n 0

def ofDouble : Double → Extended
  | .nan _ => .undefined
  | .infinity true => .bottom
  | .infinity false => .top
  | .finite negative m e => .dyadic (if negative then -(m : Int) else m) e

/-- Compares `m · 2 ^ e` with `n · 2 ^ f` after bringing both to the smaller exponent. -/
def compareDyadic (m e n f : Int) : Ordering :=
  let least := min e f
  let scaled (m e : Int) := m * Int.ofNat (Nat.pow 2 (e - least).toNat)
  compare (scaled m e) (scaled n f)

/-- The order of two places; there is none when one of them is undefined. -/
def compare? : Extended → Extended → Option Ordering
  | .undefined, _ | _, .undefined => none
  | .bottom, .bottom | .top, .top => some .eq
  | .bottom, _ | _, .top => some .lt
  | .top, _ | _, .bottom => some .gt
  | .dyadic m e, .dyadic n f => some (compareDyadic m e n f)

/-- Halves an even mantissa and raises the exponent, at most `fuel` times. -/
def stripTwos : Nat → Int → Int → Int × Int
  | 0, m, e => (m, e)
  | fuel + 1, m, e => if m % 2 = 0 then stripTwos fuel (m / 2) (e + 1) else (m, e)

/-- The one spelling of a place: an odd mantissa, or zero with exponent zero. -/
def normal : Extended → Extended
  | .dyadic m e =>
    if m = 0 then .dyadic 0 0
    else let (m, e) := stripTwos (Nat.log2 m.natAbs) m e; .dyadic m e
  | x => x

end Extended

end DocStore
