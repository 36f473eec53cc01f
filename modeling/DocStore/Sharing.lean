import DocStore.Value.Catalog
import DocStore.World
/-!
Lists in several places at once. A document that is stored, the one that is handed out for it, and
the default or the item it was made from hold the same lists, so an item that is added at one of
these places is added at all of them.
-/

namespace DocStore

/-- Adds an item to the list under a field of a document. -/
def Value.appendTo (doc field item : Value) : Value :=
  match doc.entry? field with
  | some (.list xs) => doc.putEntry field (.list (xs ++ [item]))
  | _ => doc

def Value.listFields (doc : Value) : List Value :=
  (doc.entries?.getD []).filterMap fun (field, v) =>
    match v with
    | .list _ => some field
    | _ => none

namespace Place

def same : Place → Place → Bool
  | .stored i c id field, .stored j d id' field' =>
    i == j && isSame c d && isSame id id' && isSame field field'
  | .default m field, .default n field' => m == n && field == field'
  | .kept m field, .kept n field' => m == n && isSame field field'
  | _, _ => false

def isKept (number : Nat) : Place → Bool
  | .kept n _ => n == number
  | _ => false

def isStored (i : Nat) (collection id : Value) : Place → Bool
  | .stored j c id' _ => i == j && isSame collection c && isSame id id'
  | _ => false

def isIn (i : Nat) (collection : Value) : Place → Bool
  | .stored j c _ _ => i == j && isSame collection c
  | _ => false

end Place

namespace Sharing

/-- The number of the list at a place, if it shares one. -/
def list? (s : Sharing) (place : Place) : Option Nat :=
  (s.holders.find? (·.1.same place)).map (·.2)

def placesOf (s : Sharing) (place : Place) : List Place :=
  match s.list? place with
  | some n => (s.holders.filter (·.2 == n)).map (·.1)
  | none => [place]

/-- Makes a place hold the list of another one. -/
def share (s : Sharing) (origin place : Place) : Sharing :=
  match s.list? origin with
  | some n => { s with holders := (place, n) :: s.holders }
  | none =>
    { s with holders := (place, s.next) :: (origin, s.next) :: s.holders, next := s.next + 1 }

/-- Gives some places lists of their own; so has the last of the others, if one is left alone. -/
def release (s : Sharing) (gone : Place → Bool) : Sharing :=
  let (left, rest) := s.holders.partition (gone ·.1)
  let alone := (left.map (·.2)).eraseDups.filter fun n => rest.countP (·.2 == n) ≤ 1
  { s with holders := rest.filter (!alone.contains ·.2) }

/-- Takes a document in hand and gives its number. -/
def keep (s : Sharing) (doc : Value) : Sharing × Nat :=
  ({ s with kept := (s.next, doc) :: s.kept, next := s.next + 1 }, s.next)

def look (s : Sharing) (number : Nat) : Value :=
  ((s.kept.find? (·.1 == number)).map (·.2)).getD .null

def drop (s : Sharing) (number : Nat) : Sharing :=
  let s := s.release (Place.isKept number)
  { s with kept := s.kept.filter (·.1 != number) }

end Sharing

/-- Adds an item to the list under a field of the first document with an id. -/
def appendToStored (id field item : Value) : List Value → List Value
  | [] => []
  | doc :: docs =>
    if (doc.entry? (.string "id")).any (looseEq · id) then doc.appendTo field item :: docs
    else doc :: appendToStored id field item docs

def Schema.appendDefault (name : String) (item : Value) (schema : Schema) : Schema :=
  schema.map fun (field, f) =>
    match f.default with
    | some (.list xs) =>
      (field, if field = name then { f with default := some (.list (xs ++ [item])) } else f)
    | _ => (field, f)

namespace World

def appendAt (item : Value) (w : World) : Place → World
  | .stored i collection id field =>
    let s := w.store i
    let docs := appendToStored id field item (s.memory.documents collection)
    w.setStore i { s with memory := s.memory.setDocuments (Memory.textOf collection) docs }
  | .default number field =>
    let m := w.model number
    w.setModel number { m with schema := m.schema.appendDefault field item }
  | .kept number field =>
    let kept := w.sharing.kept.map fun (n, doc) =>
      (n, if n = number then doc.appendTo field item else doc)
    { w with sharing := { w.sharing with kept } }

/-- Adds an item to the list at a place, and so at all places that hold it. -/
def append (item : Value) (place : Place) (w : World) : World :=
  (w.sharing.placesOf place).foldl (appendAt item) w

end World

namespace Op

def share (origin place : Place) : Op Unit :=
  Task.modify fun w => { w with sharing := w.sharing.share origin place }

def release (gone : Place → Bool) : Op Unit :=
  Task.modify fun w => { w with sharing := w.sharing.release gone }

/-- Takes a document in hand and gives its number. -/
def keep (doc : Value) : Op Nat := do
  let (sharing, number) := (← Task.get).sharing.keep doc
  Task.modify fun w => { w with sharing }
  return number

/-- Takes in hand what is handed out for a stored document: it holds the lists of that one. -/
def keepStored (i : Nat) (collection id doc : Value) : Op Nat := do
  let number ← keep doc
  let _ ← Task.each doc.listFields fun field =>
    share (.stored i collection id field) (.kept number field)
  return number

def look (number : Nat) : Op Value := do return (← Task.get).sharing.look number

def handOut (number : Nat) : Op Value := do
  let doc ← look number
  Task.modify fun w => { w with sharing := w.sharing.drop number }
  return doc

end Op

end DocStore
