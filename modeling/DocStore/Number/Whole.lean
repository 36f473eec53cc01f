import DocStore.Number.Double
/-!
Whole numbers in text and in doubles. A text may have blanks around the number, a sign, zeros in
front, underscores between digits, and zeros after a point.
-/

namespace DocStore.Whole

/-- Why a text or a double is not taken for a whole number. -/
inductive Refusal where
  | malformed
  | tooLong
  | fraction
  | unbounded
deriving DecidableEq, Repr

/-- Whether a character is a blank of any script. -/
def isBlank (c : Char) : Bool :=
  let n := c.toNat
  (0x9 ≤ n && n ≤ 0xd) || (0x2000 ≤ n && n ≤ 0x200a)
    || [0x20, 0x85, 0xa0, 0x1680, 0x2028, 0x2029, 0x202f, 0x205f, 0x3000].contains n

def trim (cs : List Char) : List Char :=
  ((cs.dropWhile isBlank).reverse.dropWhile isBlank).reverse

def maxLength : Nat := 4300

/-- JSON integers of more digits than this are neither read nor written. -/
def maxDigits : Nat := 4300

def digitsValue (ds : List Char) : Nat := ds.foldl (fun n c => n * 10 + (c.toNat - '0'.toNat)) 0

/-- The number of digits after a sign. -/
def signed (negative : Bool) (ds : List Char) : Except Refusal Int :=
  if ds.isEmpty || !ds.all Char.isDigit then .error .malformed
  else .ok (if negative then -(digitsValue ds : Int) else digitsValue ds)

/-- The number that a text spells without blanks and underscores. -/
def plain (cs : List Char) : Except Refusal Int :=
  let n := match cs with
    | '-' :: ds => signed true ds
    | ds => signed false ds
  match n with
  | .ok n => if maxLength < cs.length then .error .tooLong else .ok n
  | .error e => .error e

/-- What is left when zeros in front are dropped, and underscores between them; `last` is the
character before. -/
def dropZeros (last : Char) : List Char → Option (List Char)
  | [] => some [last]
  | '.' :: rest => some (last :: '.' :: rest)
  | c :: rest =>
    if c == '0' || c == '_' then dropZeros c rest
    else if c.isDigit then some (c :: rest) else none

/-- A text without a plus sign and without zeros in front. -/
def withoutLead (cs : List Char) : Option (List Char) :=
  let cs := match cs with
    | '+' :: rest => if rest.head? == some '-' then [] else rest
    | cs => cs
  match cs with
  | '0' :: rest => dropZeros '0' rest
  | c :: rest => if c.isDigit || c == '-' then some (c :: rest) else none
  | [] => none

/-- A text without a point that only zeros follow. -/
def withoutPlaces (cs : List Char) : List Char :=
  let whole := cs.takeWhile (· ≠ '.')
  let places := cs.drop (whole.length + 1)
  if !places.isEmpty && places.all (· == '0') then whole else cs

/-- Whether each underscore of a text stands between two other characters; `bound` says that the
character before does not allow one. -/
def areBetween (bound : Bool) : List Char → Bool
  | [] => true
  | '_' :: rest => !bound && !rest.isEmpty && areBetween true rest
  | _ :: rest => areBetween false rest

def withoutUnderscores (cs : List Char) : List Char :=
  if areBetween true cs then cs.filter (· ≠ '_') else cs

def ofText (s : String) : Except Refusal Int :=
  let cs := trim s.toList
  let direct : Except Refusal Int := if cs.head? == some '0' then .error .malformed else plain cs
  match direct with
  | .error .malformed =>
    match withoutLead cs with
    | some cs => plain (withoutUnderscores (withoutPlaces cs))
    | none => .error .malformed
  | outcome => outcome

def valueOf? : Double → Option Int
  | .finite negative m e =>
    let magnitude : Option Nat :=
      if 0 ≤ e then some (m * Nat.pow 2 e.toNat)
      else if m % Nat.pow 2 (-e).toNat = 0 then some (m / Nat.pow 2 (-e).toNat) else none
    magnitude.map fun n => if negative then -(n : Int) else n
  | _ => none

def wordBound : Int := 9223372036854775808

/-- The whole number that a double is, which must lie within the bounds of a word. -/
def ofDouble (x : Double) : Except Refusal Int :=
  match x with
  | .nan _ | .infinity _ => .error .unbounded
  | .finite .. =>
    match valueOf? x with
    | some n => if -wordBound < n && n < wordBound then .ok n else .error .tooLong
    | none => .error .fraction

end DocStore.Whole
