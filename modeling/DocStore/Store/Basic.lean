import DocStore.Sharing
import DocStore.Storage.Collection
/-!
Opening and closing a store, its collections and their indexes. An operation changes memory and
indexes at once and then waits for its flush, so operations do not see one another half done.
-/

namespace DocStore.Store

def component : String := "json_adapter"

/-! ## Opening and closing -/

def connect (i : Nat) : Op Unit := do
  if (← Op.store i).connected then return ()
  Load.run i
  Op.modifyStore i fun s => { s with connected := true }
  Op.log .info component "adapter_connected" [("data_dir", .string (← Op.store i).path)]

/-- Writes what is pending, dismisses the writer and closes the store, if it is connected. -/
def disconnect (i : Nat) : Op Unit := do
  if !(← Op.store i).connected then return ()
  Op.flushIfDirty i
  Op.close i
  Op.modifyStore i fun s => { s with connected := false }
  Op.log .info component "adapter_disconnected" [("data_dir", .string (← Op.store i).path)]

def requireConnected (i : Nat) : Op Unit := do
  if !(← Op.store i).connected then Task.raise .adapterNotConnected

def documentsOf (i : Nat) (collection : Value) : Op (List Value) := do
  requireConnected i
  if ← Storage.holds i collection then return (← Op.store i).memory.documents collection
  else Task.raise (.collectionNotFound collection)

/-! ## Indexes -/

/-- Changes the indexes; a value that is taken is counted and reported. -/
def reindex (i : Nat) (change : Indexes → Indexes × Result Unit) : Op Unit := do
  let (indexes, outcome) := change (← Op.store i).indexes
  Op.modifyStore i fun s => { s with indexes }
  match outcome with
  | .ok () => return ()
  | .error (.uniqueConstraint collection field v) => do
    Op.count (.uniqueViolations collection.display field.display)
    Op.log .info "indexer" "unique_constraint_violated"
      [("collection", collection), ("field", field), ("value", v)]
    Task.raise (.uniqueConstraint collection field v)
  | .error e => Task.raise e

/-- Builds the index of a field over documents and gives the number of its keys. -/
def setupIndex (i : Nat) (collection field unique : Value) (docs : List Value) : Op Nat := do
  let index ← Task.ofResult (Indexes.build field unique docs)
  reindex i (·.register collection index)
  Op.log .debug "indexer" "index_built"
    [("collection", collection), ("field", field), ("unique", unique),
     ("distinct_values", .int index.entries.length)]
  return index.entries.length

def dropIndexes (i : Nat) (collection : Value) : Op Unit := do
  Storage.checkName collection
  Op.modifyStore i fun s => { s with indexes := s.indexes.drop collection }

def indexedFields (i : Nat) (collection : Value) : Op (List Value) := do
  Storage.checkName collection
  return (← Op.store i).indexes.fields collection

/-- The ids of the documents that hold a value, in their natural order; none when no document
does. -/
def lookup (i : Nat) (collection field v : Value) : Op Value := do
  match ← Task.ofResult ((← Op.store i).indexes.find collection field v) with
  | none => return .null
  | some ids => return .list (← Task.ofResult (FindOptions.sorted ids))

/-! ## Collections -/

def reportSize (collection : Value) (size : Nat) : Op Unit :=
  Task.modify (·.gauge (.documents collection.display) size)

/-- Makes a collection, or opens one that is held, and builds its indexes anew; `model` is the one
whose schema it gets, if any. -/
def createCollection (i : Nat) (collection : Value) (schema : Schema) (model : Option Nat) :
    Op Unit := do
  requireConnected i
  let docs ← Storage.create i collection
  Op.modifyStore i fun s =>
    { s with schemas := Table.put s.schemas (Memory.textOf collection) ⟨schema, model⟩ }
  dropIndexes i collection
  let _ ← setupIndex i collection (.string "id") (.bool true) docs
  let indexed := schema.filter fun (field, f) => f.indexed && field != "id"
  let _ ← Task.each indexed fun (field, f) => setupIndex i collection (.string field) f.unique docs
  reportSize collection docs.length
  Op.flush i
  let memory := (← Op.store i).memory
  let docs := if memory.holds collection then memory.documents collection else docs
  Op.log .info component "collection_created"
    [("collection", collection), ("documents", .int docs.length),
     ("indexes", .list (← indexedFields i collection))]

/-- Forgets a collection, its schema and its indexes, and removes its file. -/
def dropCollection (i : Nat) (collection : Value) : Op Unit := do
  requireConnected i
  dropIndexes i collection
  Op.modifyStore i fun s =>
    { s with schemas := Table.drop s.schemas (Memory.textOf collection) }
  Op.release (Place.isIn i collection)
  Storage.drop i collection
  reportSize collection 0
  Op.log .info component "collection_dropped" [("collection", collection)]

def listCollections (i : Nat) : Op (List String) := do
  requireConnected i
  return Table.names (← Op.store i).memory.collections

def schemaOf (i : Nat) (collection : Value) : Op (Option Schema) := do
  Storage.checkName collection
  let w ← Task.get
  let registered := collection.text?.bind (Table.get? (w.store i).schemas)
  return registered.map fun r => r.model.elim r.schema fun m => (w.model m).schema

end DocStore.Store
