import DocStore.Json.Reader
import DocStore.Storage.Directory
import DocStore.Value.Catalog
/-!
The collections held in memory, those of them with unwritten changes, and their text in files.
-/

namespace DocStore

/-- The collections of a store in the order in which they came, and the names of those changed
since the last snapshot, as they were given. -/
structure Memory where
  collections : Table (List Value) := []
  dirty : List Value := []

namespace Memory

def holds (m : Memory) (name : Value) : Bool := name.text?.any (Table.has m.collections)

def documents (m : Memory) (name : Value) : List Value :=
  (name.text?.bind fun s => m.collections.lookup s).getD []

def markDirty (m : Memory) (name : Value) : Memory :=
  if m.dirty.any (isSame name) then m else { m with dirty := m.dirty ++ [name] }

def setDocuments (m : Memory) (name : String) (docs : List Value) : Memory :=
  { m with collections := Table.put m.collections name docs }

def create (m : Memory) (name : Value) : Result (Memory × String) := do
  if !name.isHashable then failWith .wrongType
  if let some s := name.text? then
    if Table.has m.collections s then return (m, s)
  let s ← CollectionName.check name
  return ((m.setDocuments s []).markDirty name, s)

/-- Takes a name from those with unwritten changes. -/
def settle (m : Memory) (name : Value) : Memory :=
  { m with dirty := m.dirty.filter (!isSame name ·) }

/-- Forgets a collection and its unwritten changes. -/
def drop (m : Memory) (name : Value) : Memory :=
  match name.text? with
  | some s => { m with collections := Table.drop m.collections s }.settle name
  | none => m.settle name

def textOf (name : Value) : String := name.text?.getD ""

/-- Inserts a name into a list of names sorted by their text. -/
def insertByText (name : Value) : List Value → List Value
  | [] => [name]
  | n :: rest =>
    if textOf name < textOf n then name :: n :: rest else n :: insertByText name rest

/-- The collections with unwritten changes that are held, in order of name. -/
def pending (m : Memory) : List Value :=
  (m.dirty.filter m.holds).foldl (fun sorted name => insertByText name sorted) []

end Memory

/-- How collections are written: as JSON, letters as they are, sets as lists and dates as text. -/
def fileStyle (indent : Option (List Char)) : Json.Style := ⟨indent, false, false, .stored⟩

/-- The text of a collection's file: its documents and a line break. -/
def fileText (indent : Value) (docs : List Value) : Except Fault String := do
  let style := fileStyle (← Json.indentOf indent)
  return (← Json.text style (.list docs)) ++ "\n"

/-- The documents a collection's file holds; `path` names the file in the error. -/
def readDocuments (path text : String) : Result (List Value) := do
  match ← Result.ofFault (Json.parse text.toList) with
  | .list docs => return docs
  | _ => throw (.notAnArray path)

def readLegacy (path text : String) : Result (Table (List Value)) := do
  match ← Result.ofFault (Json.parse text.toList) with
  | .object es =>
    es.mapM fun (name, v) =>
      match v with
      | .list docs => return (name, docs)
      | _ => throw (.notAMapping path)
  | _ => throw (.notAMapping path)

/-- The collections of a snapshot: each name with its text. -/
abbrev Snapshot := List (Value × String)

def snapshot (indent : Value) (m : Memory) : List Value → Except Fault Snapshot
  | [] => .ok []
  | name :: rest => do
    let text ← fileText indent (m.documents name)
    return (name, text) :: (← snapshot indent m rest)

namespace Snapshot

/-- Writes the files of a snapshot one after the other; those before a failure stay written. -/
def write (d : Directory) : Snapshot → Directory × Except Fault Unit
  | [] => (d, .ok ())
  | (name, text) :: rest =>
    match d.replace (CollectionName.fileOf name) text with
    | .ok d => write d rest
    | .error f => (d, .error f)

def names (files : Snapshot) : List Value := files.map (·.1)

def size (files : Snapshot) : Nat := files.foldl (fun n (_, text) => n + text.utf8ByteSize) 0

end Snapshot

end DocStore
