import DocStore.Fault
import DocStore.Number.Whole
import DocStore.Value.Basic
/-!
Reading JSON text: RFC 8259 with `NaN`, `Infinity` and `-Infinity`. A key that occurs again keeps
its place and takes the later value. Every function returns what it read and what is left.
-/

namespace DocStore.Json

def isSpace (c : Char) : Bool := c == ' ' || c == '\t' || c == '\n' || c == '\r'

def skipSpace (cs : List Char) : List Char := cs.dropWhile isSpace

def hexDigit? (c : Char) : Option Nat :=
  if c.isDigit then some (c.toNat - '0'.toNat)
  else if 'a' ≤ c && c ≤ 'f' then some (c.toNat - 'a'.toNat + 10)
  else if 'A' ≤ c && c ≤ 'F' then some (c.toNat - 'A'.toNat + 10)
  else none

def hexUnit? (a b c d : Char) : Option Nat := do
  let a ← hexDigit? a
  let b ← hexDigit? b
  let c ← hexDigit? c
  let d ← hexDigit? d
  return ((a * 16 + b) * 16 + c) * 16 + d

def shortEscape? : Char → Option Char
  | '\x22' => some '\x22'
  | '\\' => some '\\'
  | '/' => some '/'
  | 'b' => some '\x08'
  | 'f' => some '\x0c'
  | 'n' => some '\n'
  | 'r' => some '\r'
  | 't' => some '\t'
  | _ => none

/-- Reads a string up to its closing quotation mark as code points and escaped units. -/
def readUnits : List Char → Except Fault (List Nat × List Char)
  | [] => .error .malformedJson
  | '\x22' :: rest => .ok ([], rest)
  | '\\' :: 'u' :: a :: b :: c :: d :: rest =>
    match hexUnit? a b c d with
    | none => .error .malformedJson
    | some unit => do
      let (units, rest) ← readUnits rest
      return (unit :: units, rest)
  | '\\' :: c :: rest =>
    match shortEscape? c with
    | none => .error .malformedJson
    | some c => do
      let (units, rest) ← readUnits rest
      return (c.toNat :: units, rest)
  | c :: rest =>
    if c.toNat < 0x20 || c == '\\' then .error .malformedJson
    else do
      let (units, rest) ← readUnits rest
      return (c.toNat :: units, rest)

/-- Joins a high and a low surrogate to one character; one alone is replaced. -/
def joinUnits : List Nat → List Char
  | [] => []
  | [n] => [if 0xd800 ≤ n && n < 0xe000 then '\ufffd' else Char.ofNat n]
  | n :: m :: rest =>
    if 0xd800 ≤ n && n < 0xdc00 && 0xdc00 ≤ m && m < 0xe000 then
      Char.ofNat (0x10000 + (n - 0xd800) * 0x400 + (m - 0xdc00)) :: joinUnits rest
    else (if 0xd800 ≤ n && n < 0xe000 then '\ufffd' else Char.ofNat n) :: joinUnits (m :: rest)

def readString (cs : List Char) : Except Fault (String × List Char) := do
  let (units, rest) ← readUnits cs
  return (String.ofList (joinUnits units), rest)

/-- The point and the digits after it, when there is at least one. -/
def fraction? : List Char → Option (List Char × List Char)
  | '.' :: rest =>
    let ds := rest.takeWhile Char.isDigit
    if ds.isEmpty then none else some (ds, rest.dropWhile Char.isDigit)
  | _ => none

/-- The power of ten after `e` or `E`, when it has at least one digit. -/
def power? : List Char → Option (Int × List Char)
  | c :: rest =>
    if c == 'e' || c == 'E' then
      let (negative, rest) := match rest with
        | '-' :: r => (true, r)
        | '+' :: r => (false, r)
        | r => (false, r)
      let ds := rest.takeWhile Char.isDigit
      if ds.isEmpty then none
      else
        let n : Int := Whole.digitsValue ds
        some (if negative then -n else n, rest.dropWhile Char.isDigit)
    else none
  | [] => none

def readUnsigned (negative : Bool) (cs : List Char) : Except Fault (Value × List Char) :=
  let (whole, rest) := match cs with
    | '0' :: rest => (['0'], rest)
    | cs => (cs.takeWhile Char.isDigit, cs.dropWhile Char.isDigit)
  if whole.isEmpty then .error .malformedJson
  else
    let (places, rest') := (fraction? rest).getD ([], rest)
    let digits := Whole.digitsValue (whole ++ places)
    match power? rest' with
    | some (power, rest') =>
      .ok (.float (.ofDecimal negative digits (power - places.length)), rest')
    | none =>
      if !places.isEmpty then
        .ok (.float (.ofDecimal negative digits (-places.length)), rest')
      else if Whole.maxDigits < whole.length then .error .badValue
      else
        let n : Int := Whole.digitsValue whole
        .ok (.int (if negative then -n else n), rest)

/-- What follows a word, when the text starts with it. -/
def after? (word : String) (cs : List Char) : Option (List Char) :=
  let w := word.toList
  if w.isPrefixOf cs then some (cs.drop w.length) else none

def readScalar (cs : List Char) : Except Fault (Value × List Char) :=
  let word (w : String) (v : Value) : Except Fault (Value × List Char) :=
    match after? w cs with
    | some rest => .ok (v, rest)
    | none => .error .malformedJson
  match cs with
  | [] => .error .malformedJson
  | 'n' :: _ => word "null" .null
  | 't' :: _ => word "true" (.bool true)
  | 'f' :: _ => word "false" (.bool false)
  | 'N' :: _ => word "NaN" (.float (.nan 0))
  | 'I' :: _ => word "Infinity" (.float (.infinity false))
  | '-' :: 'I' :: _ => word "-Infinity" (.float (.infinity true))
  | '-' :: rest => readUnsigned true rest
  | cs => readUnsigned false cs

mutual

/-- Reads a value; `fuel` bounds the calls that are still open or to come. -/
def readValue : Nat → List Char → Except Fault (Value × List Char)
  | 0, _ => .error .malformedJson
  | fuel + 1, cs =>
    match cs with
    | '\x22' :: rest => do
      let (s, rest) ← readString rest
      return (.string s, rest)
    | '[' :: rest =>
      match skipSpace rest with
      | ']' :: rest => .ok (.list [], rest)
      | rest => do
        let (items, rest) ← readItems fuel rest
        return (.list items, rest)
    | '\x7b' :: rest =>
      match skipSpace rest with
      | '\x7d' :: rest => .ok (.object [], rest)
      | rest => do
        let (entries, rest) ← readEntries fuel [] rest
        return (.object entries, rest)
    | cs => readScalar cs

def readItems : Nat → List Char → Except Fault (List Value × List Char)
  | 0, _ => .error .malformedJson
  | fuel + 1, cs => do
    let (v, rest) ← readValue fuel cs
    match skipSpace rest with
    | ']' :: rest => return ([v], rest)
    | ',' :: rest =>
      let (items, rest) ← readItems fuel (skipSpace rest)
      return (v :: items, rest)
    | _ => throw .malformedJson

/-- Reads the entries of an object up to its closing brace and adds them to `doc`. -/
def readEntries : Nat → Document → List Char → Except Fault (Document × List Char)
  | 0, _, _ => .error .malformedJson
  | fuel + 1, doc, cs =>
    match cs with
    | '\x22' :: rest => do
      let (key, rest) ← readString rest
      match skipSpace rest with
      | ':' :: rest =>
        let (v, rest) ← readValue fuel (skipSpace rest)
        let doc := doc.put key v
        match skipSpace rest with
        | '\x7d' :: rest => return (doc, rest)
        | ',' :: rest => readEntries fuel doc (skipSpace rest)
        | _ => throw .malformedJson
      | _ => throw .malformedJson
    | _ => .error .malformedJson

end

/-- Reads a text that holds one value and nothing else. -/
def parse (cs : List Char) : Except Fault Value := do
  let (v, rest) ← readValue (2 * cs.length + 2) (skipSpace cs)
  if (skipSpace rest).isEmpty then return v else throw .malformedJson

end DocStore.Json
