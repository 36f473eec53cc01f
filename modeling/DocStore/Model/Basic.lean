import DocStore.Relation.Populate
/-!
The operations of a model: documents are checked against its schema before they are stored, get an
id and times of creation and change, and are read with the relations that the caller asks for.
-/

namespace DocStore.Model

def component : String := "model"

def registryOf (database : Nat) (w : World) : Option Registry :=
  some ((w.database database).models.map fun (name, m) => ⟨name, (w.model m).collection⟩)

def owner (m : Model) : Owner := ⟨m.name, m.relations⟩

def literal (m : Model) : String :=
  "Model(name=" ++ m.name.literal ++ ", collection=" ++ m.collection.literal ++ ")"

/-! ## Writing -/

/-- The fields that the store sets in every document. -/
def ownFields : List String := ["id", "createdAt", "updatedAt"]

/-- The fields of a new document that hold a list of another place: of the item it is made from, if
that one is kept, or of a default. -/
def origins (number : Nat) (m : Model) (data : Value) (item : Option Nat) :
    List (String × Place) :=
  m.schema.filterMap fun (field, f) =>
    if ownFields.contains field then none
    else match data.entry? (.string field), f.default with
      | some (.list _), _ => item.map fun n => (field, .kept n (.string field))
      | none, some (.list _) => some (field, .default number field)
      | _, _ => none

/-- Puts an id and two times over a document. -/
def marked (doc : Document) (id now : String) : Document :=
  Document.merge doc
    [("id", .string id), ("createdAt", .string now), ("updatedAt", .string now)]

/-- Checks a document and adds it with a new id; what is handed out for it is kept, as is the item
it is made from. -/
def createKept (number : Nat) (data : Value) (item : Option Nat) : Op Nat := do
  let m := (← Task.get).model number
  let doc ← Task.ofResult (m.schema.validate .create data)
  let now ← Op.now
  let id ← Op.newId m.idStart.display
  Store.insertKept m.store m.collection (.object (marked doc id now)) (origins number m data item)

/-- Checks a document and adds it with a new id. -/
def create (number : Nat) (data : Value) : Op Value := do
  Op.handOut (← createKept number data none)

/-- Creates documents one after the other; those before a failure stay. Items that are `period`
apart are one item, and the documents made of it hold its lists; no two are one if it is zero. -/
def createMany (number : Nat) (items : Value) (period : Nat) : Op (List Value) := do
  let some items := items.members? | Task.raise (.fault .wrongType)
  let kept ← Task.each (items.take period) Op.keep
  let created ← Task.each items.zipIdx fun (data, place) => do
    match kept[place % period]? with
    | some item => createKept number (← Op.look item) (some item)
    | none => createKept number data none
  let docs ← Task.each created Op.look
  let _ ← Task.each (created ++ kept) Op.handOut
  return docs

/-- Checks changes and puts them over the document with an id, if there is one; null stands for
none. -/
def update (number : Nat) (id data : Value) : Op Value := do
  let m := (← Task.get).model number
  let changes ← Task.ofResult (m.schema.validate .update data)
  let changes := Document.drop changes "id"
  let changes ←
    if m.timestamps.truthy then pure (Document.put changes "updatedAt" (.string (← Op.now)))
    else pure changes
  Store.update m.store m.collection id (.object changes)

def orThrow (number : Nat) (id doc : Value) : Op Value := do
  if doc.isNull then Task.raise (.documentNotFound ((← Task.get).model number).collection id)
  return doc

def updateOrThrow (number : Nat) (id data : Value) : Op Value := do
  orThrow number id (← update number id data)

def delete (number : Nat) (id : Value) : Op Bool := do
  let m := (← Task.get).model number
  Store.delete m.store m.collection id

def deleteMany (number : Nat) (filter : Value) : Op Nat := do
  let m := (← Task.get).model number
  Store.deleteMany m.store m.collection filter

/-! ## Reading -/

def populated (number : Nat) (docs : List Value) (included : Value) : Op (List Value) := do
  if !included.truthy then return docs
  let m := (← Task.get).model number
  Populate.run m.store m.owner (registryOf m.database) (.list docs) included

/-- The document with an id, if there is one; null stands for none. -/
def findById (number : Nat) (id included : Value) : Op Value := do
  let m := (← Task.get).model number
  let doc ← Store.findById m.store m.collection id
  if doc.isNull then return doc
  return (← populated number [doc] included).headD .null

def findByIdOrThrow (number : Nat) (id included : Value) : Op Value := do
  orThrow number id (← findById number id included)

/-- The first document in storage order that matches a filter, if there is one; null stands for
none. -/
def findOne (number : Nat) (filter included : Value) : Op Value := do
  let m := (← Task.get).model number
  let docs ← Store.find m.store m.collection (.ok { filter, limit := .int 1 })
  return (← populated number docs included).headD .null

/-- The documents that a query finds; its options are checked first. -/
def find (number : Nat) (options : FindOptions) (included : Value) : Op (List Value) := do
  let m := (← Task.get).model number
  let options ← Task.ofResult options.checked
  populated number (← Store.find m.store m.collection (.ok options)) included

def findAll (number : Nat) : Op (List Value) := do
  let m := (← Task.get).model number
  Store.find m.store m.collection (.ok {})

def count (number : Nat) (filter : Value) : Op Nat := do
  let m := (← Task.get).model number
  Store.count m.store m.collection filter

/-! ## Links -/

/-- A `manyToMany` relation of a model, with its join collection and related key. -/
def link (number : Nat) (relation : Value) (operation : String) :
    Op (Relation × Value × Value) := do
  let w ← Task.get
  let m := w.model number
  let (r, _) ← Task.ofResult (m.owner.resolve (registryOf m.database w) relation)
  if r.type ≠ .manyToMany then
    Task.raise (.relation (.notManyToMany operation r.type.name))
  let (joinCollection, relatedKey) ← Task.ofResult (r.join relation)
  return (r, joinCollection, relatedKey)

def checkFields (fields : List Value) : Op Unit :=
  if Value.areHashable fields then pure () else Task.raise (.fault .wrongType)

/-- Links a document to a related one by a new row in the join collection. -/
def associate (number : Nat) (id relation related : Value) : Op Value := do
  let (r, joinCollection, relatedKey) ← link number relation "associate"
  let m := (← Task.get).model number
  let now ← Op.now
  let row ← Op.newId (m.idStart.display ++ "rel")
  checkFields [r.foreignKey, relatedKey]
  let doc := Value.mergeEntries (.object [("id", .string row)])
    [(r.foreignKey, id), (relatedKey, related), (.string "createdAt", .string now),
     (.string "updatedAt", .string now)]
  Store.insert m.store joinCollection doc

/-- Removes every row that links a document to a related one, and gives their number. -/
def dissociate (number : Nat) (id relation related : Value) : Op Nat := do
  let (r, joinCollection, relatedKey) ← link number relation "dissociate"
  let m := (← Task.get).model number
  checkFields [r.foreignKey, relatedKey]
  let filter := Value.mergeEntries (.object []) [(r.foreignKey, id), (relatedKey, related)]
  Store.deleteMany m.store joinCollection filter

end DocStore.Model
