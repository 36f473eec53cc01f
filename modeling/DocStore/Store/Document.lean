import DocStore.Store.Basic
/-!
The operations on the documents of a collection. Each is counted by operation and outcome, and a
document is handed out as its own entries.
-/

namespace DocStore.Store

/-- Reports how an operation on a collection ended: the outcome is counted and a failure told. An interrupt
is not taken for a failure. -/
def report {α : Type} (operation : String) (collection : Value) (outcome : Result α) : Op Unit := do
  if let some e := outcome.caught then
    Op.log .warning component "operation_failed"
      [("operation", .string operation), ("collection", collection),
       ("error_type", .string e.kind.name), ("error", .string e.message)]
  let status := match outcome.caught with
    | none => "success"
    | some _ => "error"
  Op.count (.operations operation collection.display status)
  Op.count (.operationLatency operation)

/-- Does an operation on a collection and reports how it ended. -/
def observed {α : Type} (operation : String) (collection : Value) (task : Op α) : Op α := do
  let outcome ← task.attempt
  report operation collection outcome
  Task.ofResult outcome

/-- Sets the documents of a collection and waits until they are written. -/
def commit (i : Nat) (collection : Value) (docs : List Value) : Op Unit := do
  Op.modifyStore i fun s =>
    { s with memory :=
        (s.memory.setDocuments (Memory.textOf collection) docs).markDirty collection }
  reportSize collection docs.length
  Op.flush i

/-- The place of the first document with an id. Only objects are looked at. -/
def position (id : Value) : List Value → Nat → Result (Option Nat)
  | [], _ => .ok none
  | doc :: docs, n => do
    if looseEq (← Filter.fieldOf doc (.string "id")) id then return some n
    else position id docs (n + 1)

/-- Whether a document has a text that is not empty for an id. -/
def hasId (doc : Value) : Result Bool := do
  return (← Filter.fieldOf doc (.string "id")).text?.any (· ≠ "")

/-- Adds a document, which must have an id of its own, and takes in hand what is handed out for it;
`origins` are the fields that hold a list of another place. -/
def insertKept (i : Nat) (collection doc : Value) (origins : List (String × Place)) : Op Nat :=
  observed "insert" collection do
    let docs ← documentsOf i collection
    if !(← Task.ofResult (hasId doc)) then Task.raise .missingId
    reindex i (·.insert collection doc)
    let id := (doc.entry? (.string "id")).getD .null
    let number ← match position id docs 0 with
      | .ok none => do
        Op.release (Place.isStored i collection id)
        let _ ← Task.each origins fun (field, origin) =>
          Op.share origin (.stored i collection id (.string field))
        Op.keepStored i collection id doc
      | _ => Op.keep doc
    commit i collection (docs ++ [doc])
    return number

def insert (i : Nat) (collection doc : Value) : Op Value := do
  Op.handOut (← insertKept i collection doc [])

/-- A document with changes put over it; its id stays. -/
def merged (old changes : Value) : Result Value :=
  match changes.entries? with
  | some cs => do return (old.mergeEntries cs).putEntry (.string "id") (← idOf old)
  | none => failWith .wrongType

/-- Puts changes over the document with an id, if there is one; null stands for none. -/
def update (i : Nat) (collection id changes : Value) : Op Value :=
  observed "update" collection do
    let docs ← documentsOf i collection
    match ← Task.ofResult (position id docs 0) with
    | none => return .null
    | some n => do
      let old := docs.getD n .null
      let new ← Task.ofResult (merged old changes)
      reindex i (·.update collection old new)
      let id := (new.entry? (.string "id")).getD .null
      Op.release fun place =>
        (changes.entries?.getD []).any fun (field, _) => place.same (.stored i collection id field)
      let number ← Op.keepStored i collection id new
      commit i collection (docs.set n new)
      Op.handOut number

def delete (i : Nat) (collection id : Value) : Op Bool :=
  observed "delete" collection do
    let docs ← documentsOf i collection
    match ← Task.ofResult (position id docs 0) with
    | none => return false
    | some n => do
      reindex i (·.delete collection (docs.getD n .null))
      commit i collection (docs.eraseIdx n)
      return true

/-- The different ids of documents; only what can be a member of a set is an id. -/
def idsOf : List Value → Result (List Value)
  | [] => .ok []
  | doc :: docs => do
    let id ← idOf doc
    if !id.isHashable then failWith .wrongType
    let ids ← idsOf docs
    return if ids.any (isSame id) then ids else id :: ids

def without (ids : List Value) : List Value → Result (List Value)
  | [] => .ok []
  | doc :: docs => do
    let id ← idOf doc
    if !FieldIndex.isAskable id then failWith .wrongType
    let rest ← without ids docs
    return if ids.any (isSame id) then rest else doc :: rest

def deleteMany (i : Nat) (collection filter : Value) : Op Nat :=
  observed "delete_many" collection do
    let docs ← documentsOf i collection
    let found ← Task.ofResult (Query.run { filter } docs)
    if found.isEmpty then return 0
    let _ ← Task.each found fun doc => reindex i (·.delete collection doc)
    let ids ← Task.ofResult (idsOf found)
    commit i collection (← Task.ofResult (without ids docs))
    return ids.length

def pairOf (v : Value) : Result (Value × Value) :=
  match v.members? with
  | some [k, x] => if k.isHashable then .ok (k, x) else failWith .wrongType
  | some _ => failWith .badValue
  | none => failWith .wrongType

/-- A document as it is handed out: an object itself, or the object that pairs make. -/
def entriesOf (doc : Value) : Result Value :=
  match doc.entries?, doc.members? with
  | some _, _ => .ok doc
  | none, some pairs => do return Value.mergeEntries (.object []) (← pairs.mapM pairOf)
  | none, none => failWith .wrongType

/-- The document with an id, if there is one; null stands for none. -/
def findById (i : Nat) (collection id : Value) : Op Value :=
  observed "find_by_id" collection do
    let docs ← documentsOf i collection
    match ← Task.ofResult (position id docs 0) with
    | none => return .null
    | some n => Task.ofResult (entriesOf (docs.getD n .null))

def find (i : Nat) (collection : Value) (options : Result FindOptions) : Op (List Value) :=
  observed "find" collection do
    let docs ← documentsOf i collection
    let options ← Task.ofResult options
    Task.ofResult (do (← Query.run options docs).mapM entriesOf)

def count (i : Nat) (collection filter : Value) : Op Nat :=
  observed "count" collection do
    let docs ← documentsOf i collection
    Task.ofResult (Filter.count filter docs)

end DocStore.Store
