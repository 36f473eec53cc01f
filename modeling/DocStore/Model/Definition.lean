import DocStore.World
/-!
Definitions of models: the name, the collection and the declarations that a model is made from.
-/

namespace DocStore

structure Definition where
  name : Value
  collection : Value
  schema : Value := .object []
  relations : Value := .object []
  idStart : Value := .null
  timestamps : Value := .bool true

namespace Definition

/-- The parts a definition may have; the first two it must have. -/
def parts : List String :=
  ["name", "collection", "schema", "timestamps", "prefix", "relations"]

/-- The definition with parts by name. A part that definitions do not have is refused, and so is the
lack of one they must have. -/
def ofValue : Value → Result Definition
  | .object es =>
    let given := Document.keys es
    let own : Definition := { name := .null, collection := .null }
    let part (name : String) (v : Value) : Value := (es.lookup name).getD v
    if given.all parts.contains && (parts.take 2).all given.contains then
      .ok {
        name := part "name" .null, collection := part "collection" .null
        schema := part "schema" own.schema, relations := part "relations" own.relations
        idStart := part "prefix" own.idStart, timestamps := part "timestamps" own.timestamps }
    else failWith .wrongType
  | _ => failWith .wrongType

/-- Number of letters that a collection's name lends to ids. -/
def startLength : Nat := 3

/-- What ids start with when a definition does not say; only text and sequences have a
beginning. -/
def startOf (collection : Value) : Result Value :=
  match collection, collection.text? with
  | _, some s => .ok (.string (String.ofList (s.toList.take startLength)))
  | .list xs, _ => .ok (.list (xs.take startLength))
  | .tuple xs, _ => .ok (.tuple (xs.take startLength))
  | _, _ => failWith .wrongType

/-- The model of a definition, on a store and in a database. -/
def toModel (d : Definition) (store database : Nat) : Result Model := do
  let schema ← Schema.ofValue d.schema
  let relations ← Relation.tableOf d.relations
  let idStart ← if d.idStart.isNull then startOf d.collection else pure d.idStart
  return {
    name := d.name, collection := d.collection, schema, relations, idStart
    timestamps := d.timestamps, store, database }

end Definition

end DocStore
