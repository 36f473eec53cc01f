import DocStore.Filter.Basic
/-!
Field indexes: for each collection and indexed field, the ids of the documents under the key of
their value. Null and absent values are not indexed. A write is checked against every unique index
before any index changes; only an id that cannot be a member of a set is found out later.
-/

namespace DocStore

structure FieldIndex where
  field : Value
  unique : Value
  entries : List (Key × List Value) := []

namespace FieldIndex

def addId (ids : List Value) (id : Value) : List Value :=
  if ids.any (isSame id) then ids else ids ++ [id]

/-- Changes the set of ids under a key, which starts empty. -/
def change (key : Key) (f : List Value → List Value) :
    List (Key × List Value) → List (Key × List Value)
  | [] => [(key, f [])]
  | (k, ids) :: rest => if k = key then (k, f ids) :: rest else (k, ids) :: change key f rest

/-- Files an id under the key of a value; one that cannot be a member of a set is refused when the
set is there. -/
def add (index : FieldIndex) (v id : Value) : FieldIndex × Result Unit :=
  let key := Key.ofValue v
  if id.isHashable then
    ({ index with entries := change key (addId · id) index.entries }, .ok ())
  else ({ index with entries := change key (fun ids => ids) index.entries }, failWith .wrongType)

/-- The ids under the key of a value. -/
def holders (index : FieldIndex) (v : Value) : Option (List Value) :=
  index.entries.lookup (Key.ofValue v)

/-- Whether a set can be asked for a value; a set is asked for as a fixed one. -/
def isAskable : Value → Bool
  | .set _ => true
  | v => v.isHashable

/-- Takes an id from under the key of a value, and the key away with its last id. -/
def remove (index : FieldIndex) (v id : Value) : FieldIndex × Result Unit :=
  match index.holders v with
  | none => (index, .ok ())
  | some ids =>
    if !isAskable id then (index, failWith .wrongType)
    else
      let key := Key.ofValue v
      let left := ids.filter (!isSame id ·)
      ({ index with entries :=
          if left.isEmpty then index.entries.filter (·.1 ≠ key)
          else index.entries.map fun (k, ids) => if k = key then (k, left) else (k, ids) }, .ok ())

/-- Whether the index is unique and some document holds the value. -/
def conflicts (index : FieldIndex) (v : Value) : Bool :=
  index.unique.truthy && (index.holders v).any (!·.isEmpty)

/-- An index after a document's value in its field changed; null stands for no value. -/
def move (index : FieldIndex) (old new id : Value) : FieldIndex × Result Unit :=
  let (index, removed) := if old.isNull then (index, .ok ()) else index.remove old id
  match removed with
  | .error e => (index, .error e)
  | .ok () => if new.isNull then (index, .ok ()) else index.add new id

end FieldIndex

/-- The id of a document: only objects have entries, and the id must be one of them. -/
def idOf (doc : Value) : Result Value :=
  match doc with
  | .object _ | .mapping _ =>
    match doc.entry? (.string "id") with
    | some id => .ok id
    | none => failWith .missingKey
  | _ => failWith .wrongType

abbrev Indexes := Catalog (List FieldIndex)

namespace Indexes

def ofCollection (ix : Indexes) (collection : Value) : List FieldIndex :=
  (Catalog.get? ix collection).getD []

/-! ## Building -/

/-- Files every document that has a value in the index's field. -/
def fill (index : FieldIndex) : List Value → Result FieldIndex
  | [] => .ok index
  | doc :: docs => do
    let v ← Filter.fieldOf doc index.field
    if v.isNull then fill index docs
    else
      let (index, added) := index.add v (← idOf doc)
      added
      fill index docs

def build (field unique : Value) (docs : List Value) : Result FieldIndex :=
  fill { field, unique } docs

/-- Puts an index in the place of the one for the same field, or at the end. -/
def putIndex (index : FieldIndex) : List FieldIndex → List FieldIndex
  | [] => [index]
  | i :: rest =>
    if isSame i.field index.field then index :: rest else i :: putIndex index rest

/-- Puts an index among those of a collection; only what can be the key of a table names a
collection or a field. -/
def register (ix : Indexes) (collection : Value) (index : FieldIndex) : Indexes × Result Unit :=
  if !collection.isHashable then (ix, failWith .wrongType)
  else
    let indexes := ix.ofCollection collection
    if index.field.isHashable then (Catalog.put ix collection (putIndex index indexes), .ok ())
    else (Catalog.put ix collection indexes, failWith .wrongType)

/-! ## Writes -/

/-- Refuses the first value that a unique index already holds. -/
def checkUnique (collection : Value) : List (FieldIndex × Value) → Result Unit
  | [] => .ok ()
  | (index, v) :: rest =>
    if !v.isNull && index.conflicts v then .error (.uniqueConstraint collection index.field v)
    else checkUnique collection rest

/-- Changes indexes one after the other until one refuses; those before it stay changed. -/
def changeEach (f : FieldIndex → FieldIndex × Result Unit) :
    List FieldIndex → List FieldIndex × Result Unit
  | [] => ([], .ok ())
  | index :: rest =>
    match f index with
    | (index, .error e) => (index :: rest, .error e)
    | (index, .ok ()) =>
      let (rest, outcome) := changeEach f rest
      (index :: rest, outcome)

/-- Changes the indexes of a collection after a check, if it has any. -/
def changeAll (ix : Indexes) (collection : Value) (check : List FieldIndex → Result Unit)
    (f : FieldIndex → FieldIndex × Result Unit) : Indexes × Result Unit :=
  if !collection.isHashable then (ix, failWith .wrongType)
  else
    let indexes := ix.ofCollection collection
    if indexes.isEmpty then (ix, .ok ())
    else match check indexes with
    | .error e => (ix, .error e)
    | .ok () =>
      let (indexes, outcome) := changeEach f indexes
      (Catalog.put ix collection indexes, outcome)

/-- An index after a document changed, where its keys differ. -/
def moveDocument (old new : Value) (index : FieldIndex) : FieldIndex × Result Unit :=
  let outcome : Result (FieldIndex × Result Unit) := do
    let v ← Filter.fieldOf old index.field
    let w ← Filter.fieldOf new index.field
    if Key.ofValue v = Key.ofValue w then return (index, .ok ())
    else return index.move v w (← idOf old)
  match outcome with
  | .ok changed => changed
  | .error e => (index, .error e)

/-- The new values of the indexes whose key changes. -/
def changesOf (old new : Value) (indexes : List FieldIndex) :
    Result (List (FieldIndex × Value)) := do
  let changes ← indexes.mapM fun index => do
    let v ← Filter.fieldOf old index.field
    let w ← Filter.fieldOf new index.field
    return (index, w, Key.ofValue v != Key.ofValue w)
  return (changes.filter (·.2.2)).map fun (index, w, _) => (index, w)

/-- A document adds its values to an index. -/
def addDocument (doc : Value) (index : FieldIndex) : FieldIndex × Result Unit :=
  let outcome : Result (FieldIndex × Result Unit) := do
    let v ← Filter.fieldOf doc index.field
    if v.isNull then return (index, .ok ()) else return index.add v (← idOf doc)
  match outcome with
  | .ok changed => changed
  | .error e => (index, .error e)

/-- A document takes its values from an index. -/
def removeDocument (doc : Value) (index : FieldIndex) : FieldIndex × Result Unit :=
  let outcome : Result (FieldIndex × Result Unit) := do
    let v ← Filter.fieldOf doc index.field
    if v.isNull then return (index, .ok ()) else return index.remove v (← idOf doc)
  match outcome with
  | .ok changed => changed
  | .error e => (index, .error e)

def insert (ix : Indexes) (collection doc : Value) : Indexes × Result Unit :=
  ix.changeAll collection
    (fun indexes => do
      let _ ← idOf doc
      checkUnique collection (← indexes.mapM fun i => do return (i, ← Filter.fieldOf doc i.field)))
    (addDocument doc)

/-- Moves a document to its new values in the indexes whose key changes. -/
def update (ix : Indexes) (collection old new : Value) : Indexes × Result Unit :=
  ix.changeAll collection
    (fun indexes => do
      let _ ← idOf old
      checkUnique collection (← changesOf old new indexes))
    (moveDocument old new)

def delete (ix : Indexes) (collection doc : Value) : Indexes × Result Unit :=
  ix.changeAll collection (fun _ => .ok ()) (removeDocument doc)

def drop (ix : Indexes) (collection : Value) : Indexes := Catalog.drop ix collection

/-! ## Reads -/

/-- The ids of the documents that hold a value, none when no document does. -/
def find (ix : Indexes) (collection field v : Value) : Result (Option (List Value)) :=
  if !collection.isHashable || !field.isHashable then failWith .wrongType
  else .ok ((ix.ofCollection collection).find? (isSame field ·.field) |>.bind (·.holders v))

def fields (ix : Indexes) (collection : Value) : List Value :=
  (ix.ofCollection collection).map (·.field)

end Indexes

end DocStore
