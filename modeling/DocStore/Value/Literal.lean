import DocStore.Calendar.Iso
import DocStore.Decimal.Shortest
import DocStore.Text.Printable
import DocStore.Value.Basic
/-!
Values as text: the literal, which quotes strings and names types, and the display text, which
differs from it for strings, types and dates only.
-/

namespace DocStore

namespace Literal

/-- Lower-case hexadecimal digits padded to `width`. -/
def hex (width n : Nat) : List Char :=
  let ds := Nat.toDigits 16 n
  List.replicate (width - ds.length) '0' ++ ds

/-- A string is quoted with apostrophes, unless it holds one and no quotation mark. -/
def quoteFor (cs : List Char) : Char :=
  if cs.contains '\x27' && !cs.contains '\x22' then '\x22' else '\x27'

def escaped (quote c : Char) : List Char :=
  if c == quote || c == '\\' then ['\\', c]
  else if c == '\n' then ['\\', 'n']
  else if c == '\r' then ['\\', 'r']
  else if c == '\t' then ['\\', 't']
  else if Text.isPrintable c then [c]
  else if c.toNat < 0x100 then '\\' :: 'x' :: hex 2 c.toNat
  else if c.toNat < 0x10000 then '\\' :: 'u' :: hex 4 c.toNat
  else '\\' :: 'U' :: hex 8 c.toNat

def quoted (s : String) : List Char :=
  let cs := s.toList
  let quote := quoteFor cs
  quote :: (cs.flatMap (escaped quote) ++ [quote])

def commas (parts : List (List Char)) : List Char := (", ".toList).intercalate parts

def special : Decimal.Special := ⟨"nan", "inf", "-inf"⟩

def call (name : String) (parts : List (List Char)) : List Char :=
  name.toList ++ '(' :: (commas parts ++ [')'])

def nat (n : Nat) : List Char := (toString n).toList

def int (n : Int) : List Char := (toString n).toList

def date (d : Date) : List Char := call "datetime.date" [nat d.year, nat d.month, nat d.day]

/-- A span of time as whole days, seconds and microseconds, of which only the days are negative. -/
def span (micros : Int) : List Char :=
  let days := micros / DateTime.microsPerDay
  let rest := (micros % DateTime.microsPerDay).toNat
  let part (label : String) (n : Int) : List (List Char) :=
    if n = 0 then [] else [label.toList ++ '=' :: int n]
  let parts := part "days" days ++ part "seconds" (rest / 1000000 : Nat)
    ++ part "microseconds" (rest % 1000000 : Nat)
  call "datetime.timedelta" (if parts.isEmpty then [['0']] else parts)

def offset (micros : Int) : List Char :=
  if micros = 0 then "datetime.timezone.utc".toList else call "datetime.timezone" [span micros]

/-- Seconds and microseconds are left out when zero. -/
def dateTime (t : DateTime) : List Char :=
  let micro := if t.micro = 0 then [] else [nat t.micro]
  let second := if t.micro = 0 ∧ t.second = 0 then [] else [nat t.second]
  let zone := match t.offset with
    | none => []
    | some o => ["tzinfo=".toList ++ offset o]
  call "datetime.datetime"
    ([nat t.date.year, nat t.date.month, nat t.date.day, nat t.hour, nat t.minute]
      ++ second ++ micro ++ zone)

mutual

def ofValue : Value → List Char
  | .null => "None".toList
  | .bool true => "True".toList
  | .bool false => "False".toList
  | .int n => int n
  | .float x => Decimal.ofDouble special x
  | .string s => quoted s
  | .fieldType t => '<' :: (t.display.toList ++ ':' :: ' ' :: (quoted t.name ++ ['>']))
  | .list xs => '[' :: (commas (ofValues xs) ++ [']'])
  | .tuple [x] => '(' :: (ofValue x ++ [',', ')'])
  | .tuple xs => '(' :: (commas (ofValues xs) ++ [')'])
  | .set [] => "set()".toList
  | .set xs => '\x7b' :: (commas (ofValues xs) ++ ['\x7d'])
  | .object es => '\x7b' :: (commas (ofEntries es) ++ ['\x7d'])
  | .mapping es => '\x7b' :: (commas (ofPairs es) ++ ['\x7d'])
  | .record kind [] => kind.toList
  | .record kind parts => call kind (ofParts parts)
  | .date d => date d
  | .dateTime t => dateTime t
  | .imaginary => "1j".toList
  | .maker m => m.literal.toList

def ofValues : List Value → List (List Char)
  | [] => []
  | x :: xs => ofValue x :: ofValues xs

def ofEntries : Document → List (List Char)
  | [] => []
  | (k, v) :: es => (quoted k ++ ':' :: ' ' :: ofValue v) :: ofEntries es

def ofPairs : List (Value × Value) → List (List Char)
  | [] => []
  | (k, v) :: es => (ofValue k ++ ':' :: ' ' :: ofValue v) :: ofPairs es

def ofParts : Document → List (List Char)
  | [] => []
  | (k, v) :: es => (k.toList ++ '=' :: ofValue v) :: ofParts es

end

end Literal

namespace Value

def literal (v : Value) : String := String.ofList (Literal.ofValue v)

/-- The display text of a value: strings as they are, types as members of their enumeration, dates
in ISO 8601. -/
def display : Value → String
  | .string s => s
  | .fieldType t => t.display
  | .date d => String.ofList (Iso.dateText d)
  | .dateTime t => String.ofList (Iso.dateTimeText ' ' t)
  | v => v.literal

end Value

end DocStore
