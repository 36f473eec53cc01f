import DocStore.Fault
import DocStore.Number.Whole
import DocStore.Value.Literal
/-!
JSON text of values. A style fixes the layout, whether letters beyond ASCII are escaped, and what
becomes of values that JSON has no form for.
-/

namespace DocStore.Json

/-- What is done with a set, a date or a value without a form in JSON. -/
inductive Foreign where
  /-- Nothing of the kind is written. -/
  | refused
  /-- Sets are written as lists, days and times as ISO 8601 text; nothing else. -/
  | stored
  /-- The display text is written as a string. -/
  | displayed
  /-- The literal is written as a string. -/
  | quoted
deriving DecidableEq, Repr

structure Style where
  /-- What stands before an item once for each level, each item on its own line; without it all is
  on one line. -/
  indent : Option (List Char)
  /-- Characters beyond ASCII are written as escapes. -/
  ascii : Bool
  /-- Entries are written in the order of their keys. -/
  sorted : Bool
  foreign : Foreign
deriving DecidableEq, Repr

def maxBlanks : Int := 9223372036854775807

/-- What a value asks for before the items of a level: nothing at all, a text, or a number of
blanks. -/
def indentOf : Value → Except Fault (Option (List Char))
  | .null => .ok none
  | .int n =>
    if maxBlanks < n then .error .outOfRange else .ok (some (List.replicate n.toNat ' '))
  | .bool b => .ok (some (if b then [' '] else []))
  | v =>
    match v.text? with
    | some s => .ok (some s.toList)
    | none => .error .wrongType

/-- One line, ASCII only, nothing foreign: the form values take in messages. -/
def compact : Style := ⟨none, true, false, .refused⟩

def unit (n : Nat) : List Char := '\\' :: 'u' :: Literal.hex 4 n

def escaped (ascii : Bool) (c : Char) : List Char :=
  if c == '\x22' then ['\\', '\x22']
  else if c == '\\' then ['\\', '\\']
  else if c == '\n' then ['\\', 'n']
  else if c == '\r' then ['\\', 'r']
  else if c == '\t' then ['\\', 't']
  else if c == '\x08' then ['\\', 'b']
  else if c == '\x0c' then ['\\', 'f']
  else if c.toNat < 0x20 then unit c.toNat
  else if !ascii || c.toNat < 0x7f then [c]
  else if c.toNat < 0x10000 then unit c.toNat
  else
    let n := c.toNat - 0x10000
    unit (0xd800 + n / 0x400) ++ unit (0xdc00 + n % 0x400)

def string (ascii : Bool) (s : String) : List Char :=
  '\x22' :: (s.toList.flatMap (escaped ascii) ++ ['\x22'])

def special : Decimal.Special := ⟨"NaN", "Infinity", "-Infinity"⟩

/-- A new line and what stands before the items of a level. -/
def lineBreak (indent : List Char) (level : Nat) : List Char :=
  '\n' :: (List.replicate level indent).flatten

/-- Items between brackets; `level` is the level of the items. -/
def bracketed (style : Style) (level : Nat) (first last : Char) (items : List (List Char)) :
    List Char :=
  if items.isEmpty then [first, last]
  else match style.indent with
  | none => first :: ((", ".toList).intercalate items ++ [last])
  | some indent =>
    first :: (lineBreak indent level ++ (',' :: lineBreak indent level).intercalate items
      ++ lineBreak indent (level - 1) ++ [last])

/-- Inserts an entry before the first one with a greater key. -/
def insertByKey {α : Type} (entry : String × α) : List (String × α) → List (String × α)
  | [] => [entry]
  | e :: rest => if entry.1 < e.1 then entry :: e :: rest else e :: insertByKey entry rest

def sortByKey {α : Type} (entries : List (String × α)) : List (String × α) :=
  entries.foldl (fun sorted e => insertByKey e sorted) []

def entryText (style : Style) (entry : String × List Char) : List Char :=
  string style.ascii entry.1 ++ ':' :: ' ' :: entry.2

/-- The text of a value without a form of its own. -/
def foreignText (style : Style) (v : Value) : Except Fault (List Char) :=
  match style.foreign with
  | .refused => .error .wrongType
  | .displayed => .ok (string style.ascii v.display)
  | .quoted => .ok (string style.ascii v.literal)
  | .stored =>
    match v with
    | .date d => .ok (string style.ascii (String.ofList (Iso.dateText d)))
    | .dateTime t =>
      match Iso.timestamp? t with
      | some text => .ok (string style.ascii (String.ofList text))
      | none => .error .outOfRange
    | _ => .error .wrongType

def intText (n : Int) : Except Fault (List Char) :=
  let ds := Nat.toDigits 10 n.natAbs
  if Whole.maxDigits < ds.length then .error .badValue
  else .ok (if n < 0 then '-' :: ds else ds)

/-- The text of a key: numbers, booleans and null are written as they are, text as itself; nothing
else is a key in JSON. -/
def keyText : Value → Except Fault String
  | .null => .ok "null"
  | .bool true => .ok "true"
  | .bool false => .ok "false"
  | .int n => (intText n).map String.ofList
  | .float x => .ok (String.ofList (Decimal.ofDouble special x))
  | v =>
    match v.text? with
    | some s => .ok s
    | none => .error .wrongType

mutual

/-- Writes a value whose items stand on `level`. -/
def write (style : Style) (level : Nat) : Value → Except Fault (List Char)
  | .null => .ok "null".toList
  | .bool true => .ok "true".toList
  | .bool false => .ok "false".toList
  | .int n => intText n
  | .float x => .ok (Decimal.ofDouble special x)
  | .string s => .ok (string style.ascii s)
  | .fieldType t => .ok (string style.ascii t.name)
  | .list xs | .tuple xs => do
    return bracketed style level '[' ']' (← writeItems style (level + 1) xs)
  | .set xs =>
    if style.foreign = .stored then do
      return bracketed style level '[' ']' (← writeItems style (level + 1) xs)
    else foreignText style (.set xs)
  | .object es => do
    let entries ← writeEntries style (level + 1) es
    let entries := if style.sorted then sortByKey entries else entries
    return bracketed style level '\x7b' '\x7d' (entries.map (entryText style))
  | .mapping es => do
    let entries ← writePairs style (level + 1) es
    return bracketed style level '\x7b' '\x7d' (entries.map (entryText style))
  | v => foreignText style v

def writeItems (style : Style) (level : Nat) : List Value → Except Fault (List (List Char))
  | [] => .ok []
  | x :: xs => do
    let text ← write style level x
    return text :: (← writeItems style level xs)

def writeEntries (style : Style) (level : Nat) :
    Document → Except Fault (List (String × List Char))
  | [] => .ok []
  | (k, v) :: es => do
    let text ← write style level v
    return (k, text) :: (← writeEntries style level es)

def writePairs (style : Style) (level : Nat) :
    List (Value × Value) → Except Fault (List (String × List Char))
  | [] => .ok []
  | (k, v) :: es => do
    let key ← keyText k
    let text ← write style level v
    return (key, text) :: (← writePairs style level es)

end

def text (style : Style) (v : Value) : Except Fault String :=
  (write style 1 v).map String.ofList

end DocStore.Json
