import DocStore.Number.Double
/-!
The shortest decimal that reads back as a double: of the grids with one, two, … significant
digits the first that has a point in the interval of numbers rounding to the double, and on it the
point nearest to the double.
-/

namespace DocStore

/-- A positive decimal `digits · 10 ^ exponent`. -/
structure Decimal where
  digits : Nat
  exponent : Int
deriving DecidableEq, Repr, Inhabited

namespace Decimal

/-- A positive ratio; both parts are whole. -/
structure Ratio where
  num : Nat
  den : Nat

/-- `m · 2 ^ e` as a ratio. -/
def Ratio.ofDyadic (m : Nat) (e : Int) : Ratio :=
  if 0 ≤ e then ⟨m * Nat.pow 2 e.toNat, 1⟩ else ⟨m, Nat.pow 2 (-e).toNat⟩

/-- `digits · 10 ^ exponent` as a ratio. -/
def toRatio (d : Decimal) : Ratio :=
  if 0 ≤ d.exponent then ⟨d.digits * Nat.pow 10 d.exponent.toNat, 1⟩
  else ⟨d.digits, Nat.pow 10 (-d.exponent).toNat⟩

def Ratio.le (a b : Ratio) : Bool := a.num * b.den ≤ b.num * a.den

def Ratio.lt (a b : Ratio) : Bool := a.num * b.den < b.num * a.den

/-- The reals that round to `mantissa · 2 ^ exponent`; the ends belong to an even mantissa. -/
structure Interval where
  low : Ratio
  high : Ratio
  closed : Bool

/-- Half way to either neighbour; below a power of two the neighbours are twice as dense. -/
def Interval.ofDouble (m : Nat) (e : Int) : Interval :=
  let dense := m = Nat.pow 2 (Double.precision - 1) ∧ Double.minExponent < e
  { low := Ratio.ofDyadic (4 * m - if dense then 1 else 2) (e - 2)
    high := Ratio.ofDyadic (4 * m + 2) (e - 2)
    closed := m % 2 = 0 }

def Interval.has (i : Interval) (x : Ratio) : Bool :=
  if i.closed then i.low.le x && x.le i.high else i.low.lt x && x.lt i.high

/-- Raises `p` until `x < 10 ^ p`, at most `fuel` times. -/
def raise (x : Ratio) : Nat → Int → Int
  | 0, p => p
  | fuel + 1, p => if x.lt (mk 1 p).toRatio then p else raise x fuel (p + 1)

/-- The `p` with `10 ^ (p - 1) ≤ m · 2 ^ e < 10 ^ p`. -/
def magnitude (m : Nat) (e : Int) : Int :=
  raise (Ratio.ofDyadic m e) 4 (((Nat.log2 m : Int) + e) * 30103 / 100000 - 1)

/-- The multiple of `10 ^ k` just below `x`. -/
def floorAt (x : Ratio) (k : Int) : Nat :=
  if 0 ≤ k then x.num / (x.den * Nat.pow 10 k.toNat)
  else x.num * Nat.pow 10 (-k).toNat / x.den

/-- Of the two points around `x` on the grid of `10 ^ k` the one in the interval; of two the
nearer, of two as near the even one. -/
def nearestAt (i : Interval) (x : Ratio) (k : Int) : Option Decimal :=
  let below := floorAt x k
  let lower : Decimal := ⟨below, k⟩
  let upper : Decimal := ⟨below + 1, k⟩
  match i.has lower.toRatio, i.has upper.toRatio with
  | false, false => none
  | true, false => some lower
  | false, true => some upper
  | true, true =>
    let middle := (mk (2 * below + 1) k).toRatio
    let twice : Ratio := ⟨2 * x.num, x.den⟩
    if twice.lt middle then some lower
    else if middle.lt twice then some upper
    else if below % 2 = 0 then some lower else some upper

/-- Tries the grids of `17 - fuel`, … significant digits in turn. -/
def firstHit (i : Interval) (x : Ratio) (p : Int) : Nat → Option Decimal
  | 0 => none
  | fuel + 1 =>
    match nearestAt i x (p - (17 - fuel : Nat)) with
    | some d => some d
    | none => firstHit i x p fuel

/-- Drops zeros at the end of the digits, at most `fuel` of them. -/
def dropZeros : Nat → Decimal → Decimal
  | 0, d => d
  | fuel + 1, d =>
    if d.digits ≠ 0 ∧ d.digits % 10 = 0 then dropZeros fuel ⟨d.digits / 10, d.exponent + 1⟩ else d

def shortest (m : Nat) (e : Int) : Decimal :=
  let found := firstHit (.ofDouble m e) (.ofDyadic m e) (magnitude m e) 17
  dropZeros 17 (found.getD ⟨0, 0⟩)

def digitChars (n : Nat) : List Char := Nat.toDigits 10 n

/-- How a decimal is laid out: positional from `10 ^ positionalFrom` up to below
`10 ^ positionalTo`, else with an exponent of at least two digits. -/
structure Layout where
  positionalFrom : Int
  positionalTo : Int

/-- Decimals keep the point from one ten-thousandth to below ten to the sixteenth. -/
def layout : Layout := ⟨-4, 16⟩

/-- `digits · 10 ^ exponent` written out with a point and at least one digit on each side. -/
def positional (ds : List Char) (point : Int) : List Char :=
  if point ≤ 0 then '0' :: '.' :: (List.replicate (-point).toNat '0' ++ ds)
  else if (ds.length : Int) ≤ point then
    ds ++ List.replicate (point.toNat - ds.length) '0' ++ ['.', '0']
  else ds.take point.toNat ++ '.' :: ds.drop point.toNat

/-- One digit before the point, and the power of ten after `e`. -/
def scientific (ds : List Char) (power : Int) : List Char :=
  let mark := if power < 0 then '-' else '+'
  let places := digitChars power.natAbs
  let places := if places.length < 2 then '0' :: places else places
  match ds with
  | [] => []
  | [d] => d :: 'e' :: mark :: places
  | d :: rest => d :: '.' :: (rest ++ 'e' :: mark :: places)

def text (d : Decimal) : List Char :=
  let ds := digitChars d.digits
  let power := d.exponent + ds.length - 1
  if layout.positionalFrom ≤ power ∧ power < layout.positionalTo then positional ds (power + 1)
  else scientific ds power

/-- Spellings of the doubles that have no digits. -/
structure Special where
  nan : String
  infinity : String
  minusInfinity : String

/-- The text of a double: the shortest decimal, with its sign. -/
def ofDouble (special : Special) : Double → List Char
  | .nan _ => special.nan.toList
  | .infinity false => special.infinity.toList
  | .infinity true => special.minusInfinity.toList
  | .finite negative m e =>
    let body := if m = 0 then ['0', '.', '0'] else (shortest m e).text
    if negative then '-' :: body else body

end Decimal

end DocStore
