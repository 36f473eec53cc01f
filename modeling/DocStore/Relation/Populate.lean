import DocStore.Store.Document
/-!
Loading relations into documents: one query for each relation serves all parents, and what it finds
is handed to them under the relation's name.
-/

namespace DocStore

/-- What a registry tells of a model. -/
structure Related where
  name : Value
  collection : Value

/-- The models that relations can refer to. -/
abbrev Registry := List Related

/-- The model that asks for relations. -/
structure Owner where
  name : Value
  relations : Table Relation

namespace Registry

/-- The model with a name; only what can be the key of a table is a name. -/
def find (registry : Registry) (name : Value) : Result (Option Related) :=
  if name.isHashable then .ok (List.find? (isSame name ·.name) registry) else failWith .wrongType

end Registry

namespace Owner

def relation? (owner : Owner) (name : Value) : Result (Option Relation) :=
  if name.isHashable then .ok (name.text?.bind (Table.get? owner.relations))
  else failWith .wrongType

def resolve (owner : Owner) (registry : Option Registry) (name : Value) :
    Result (Relation × Related) := do
  let some r ← owner.relation? name | throw (.relation (.unknown name owner.name))
  let some registry := registry | throw (.relation (.noRegistry name owner.name))
  let some related ← registry.find r.model | throw (.relation (.unknownModel r.model))
  return (r, related)

end Owner

namespace Populate

/-! ## Handing out what was found -/

def valuesOf (field : Value) (docs : List Value) : Result (List Value) :=
  docs.mapM (Filter.fieldOf · field)

/-- The documents with a key, in order. -/
def group (pairs : List (Value × Value)) (key : Value) : List Value :=
  (pairs.filter fun (k, _) => isSame k key).map (·.2)

/-- The last of the documents whose id has the same index key as a value, or null. -/
def targetOf (targets : List (Key × Value)) (v : Value) : Value :=
  let key := Key.ofValue v
  targets.foldl (fun found (k, doc) => if k = key then doc else found) .null

def byId (docs : List Value) : Result (List (Key × Value)) :=
  docs.mapM fun doc => do return (Key.ofValue (← idOf doc), doc)

def attach (name : Value) (parents values : List Value) : List Value :=
  (parents.zip values).map fun (doc, v) => doc.putEntry name v

def firstOf (docs : List Value) : Value := docs.headD .null

/-- Gives every parent what the group of its id makes. Documents can be grouped only by values that
can be keys of a table. -/
def attachGroups (name : Value) (pairs : List (Value × Value)) (value : List Value → Value)
    (parents : List Value) : Result (List Value) := do
  let ids ← parents.mapM idOf
  if Value.areHashable (pairs.map (·.1) ++ ids) then
    return attach name parents (ids.map fun id => value (group pairs id))
  else failWith .wrongType

/-! ## The kinds of relation -/

/-- The documents of a collection whose field holds one of some values. -/
def query (i : Nat) (r : Relation) (collection field : Value) (values : List Value) :
    Op (List Value) := do
  Op.count (.relationQueries r.type.name)
  Storage.checkName field
  let filter := Value.ofEntries [(field, .object [("$in", .list values)])]
  Store.find i collection (.ok { filter })

/-- The children of parents, each under the value of its foreign key. -/
def children (i : Nat) (r : Relation) (related : Related) (parents : List Value) :
    Op (List (Value × Value)) := do
  let ids ← Task.ofResult (parents.mapM idOf)
  let found ← query i r related.collection r.foreignKey ids
  return (← Task.ofResult (valuesOf r.foreignKey found)).zip found

def hasMany (i : Nat) (name : Value) (r : Relation) (related : Related) (parents : List Value) :
    Op (List Value) := do
  let pairs ← children i r related parents
  Task.ofResult (attachGroups name pairs .list parents)

def hasOne (i : Nat) (name : Value) (r : Relation) (related : Related) (parents : List Value) :
    Op (List Value) := do
  let pairs ← children i r related parents
  Task.ofResult (attachGroups name pairs firstOf parents)

/-- Every parent gets the document its foreign key names; a key that counts as false names none. -/
def belongsTo (i : Nat) (name : Value) (r : Relation) (related : Related) (parents : List Value) :
    Op (List Value) := do
  let held ← Task.ofResult (valuesOf r.foreignKey parents)
  let keys := distinctByKey (held.filter Value.truthy)
  if keys.isEmpty then return attach name parents (parents.map fun _ => .null)
  let targets ← Task.ofResult (byId (← query i r related.collection (.string "id") keys))
  return attach name parents (held.map (targetOf targets))

/-- Every parent gets the list of the documents that join rows lead to, in the order of the rows. -/
def manyToMany (i : Nat) (name : Value) (r : Relation) (related : Related)
    (parents : List Value) : Op (List Value) := do
  let (joinCollection, relatedKey) ← Task.ofResult (r.join name)
  let ids ← Task.ofResult (parents.mapM idOf)
  let rows ← query i r joinCollection r.foreignKey ids
  let held ← Task.ofResult (valuesOf relatedKey rows)
  let relatedIds := distinctByKey held
  let found ←
    if relatedIds.isEmpty then pure []
    else query i r related.collection (.string "id") relatedIds
  let targets ← Task.ofResult (byId found)
  let owners ← Task.ofResult (valuesOf r.foreignKey rows)
  let links := owners.zip (held.map (targetOf targets))
  Task.ofResult (attachGroups name (links.filter fun (_, doc) => !doc.isNull) .list parents)

def relation (i : Nat) (name : Value) (r : Relation) (related : Related) :
    List Value → Op (List Value) :=
  match r.type with
  | .hasMany => hasMany i name r related
  | .hasOne => hasOne i name r related
  | .belongsTo => belongsTo i name r related
  | .manyToMany => manyToMany i name r related

/-! ## The relations a read asks for -/

def component : String := "relation_resolver"

def relations (i : Nat) (owner : Owner) (registry : World → Option Registry) :
    List Value → List Value → Op (List Value)
  | [], parents => pure parents
  | name :: rest, parents => do
    let (r, related) ← Task.ofResult (owner.resolve (registry (← Task.get)) name)
    let fields : Document :=
      [("model", owner.name), ("relation", name), ("relation_type", .string r.type.name),
       ("parents", .int parents.length)]
    let parents ← Op.traced "protodb.populate" fields (relation i name r related parents)
    Op.log .debug component "relation_populated" fields
    relations i owner registry rest parents

/-- Documents with the relations that `included` names; without names or documents nothing is
done. -/
def run (i : Nat) (owner : Owner) (registry : World → Option Registry) (docs included : Value) :
    Op (List Value) := do
  let some parents := docs.members? | Task.raise (.fault .wrongType)
  if !included.truthy || parents.isEmpty then return parents
  let parents ← Task.ofResult (parents.mapM Store.entriesOf)
  let some names := included.members? | Task.raise (.fault .wrongType)
  relations i owner registry names parents

end Populate

end DocStore
