import DocStore.Error
import DocStore.Table
/-!
Relations between models, and the declarations they are made from.
-/

namespace DocStore

inductive RelationType where
  | hasMany | hasOne | belongsTo | manyToMany
deriving DecidableEq, Repr, Inhabited

namespace RelationType

def all : List RelationType := [.hasMany, .hasOne, .belongsTo, .manyToMany]

def name : RelationType → String
  | .hasMany => "hasMany"
  | .hasOne => "hasOne"
  | .belongsTo => "belongsTo"
  | .manyToMany => "manyToMany"

/-- The literal of a kind as a member of the enumeration of kinds. -/
def literal : RelationType → String
  | .hasMany => "<RelationType.HAS_MANY: 'hasMany'>"
  | .hasOne => "<RelationType.HAS_ONE: 'hasOne'>"
  | .belongsTo => "<RelationType.BELONGS_TO: 'belongsTo'>"
  | .manyToMany => "<RelationType.MANY_TO_MANY: 'manyToMany'>"

def ofName? (s : String) : Option RelationType := all.find? (·.name == s)

end RelationType

/-- A relation. The foreign key is a field of the related documents that holds the owner's id; for
`belongsTo` a field of the owner that holds the related id; for `manyToMany` a field of the join
rows that holds the owner's id. Names are values, as declarations give them; null is none. -/
structure Relation where
  type : RelationType
  model : Value
  foreignKey : Value
  joinCollection : Value := .null
  relatedKey : Value := .null

namespace Relation

def kind : String := "RelationDefinition"

/-- The value of a finished relation of a kind of which some parts are given. -/
def finished (type : RelationType) (given : Document) : Value :=
  let names := ["model", "foreign_key", "join_collection", "related_key"]
  .record kind
    (("type", .record type.literal []) :: names.map fun name => (name, Document.get given name))

def ofParts (parts : Document) : Relation :=
  let part (name : String) : Value := Document.get parts name
  let type : Option RelationType := match part "type" with
    | .record text [] => RelationType.all.find? fun t => t.literal == text
    | _ => none
  { type := type.getD .hasMany, model := part "model", foreignKey := part "foreign_key"
    joinCollection := part "join_collection", relatedKey := part "related_key" }

def toValue (r : Relation) : Value :=
  .object [
    ("type", .string r.type.name), ("model", r.model), ("foreign_key", r.foreignKey),
    ("join_collection", r.joinCollection), ("related_key", r.relatedKey),
    ("many_to_many", .bool (r.type = .manyToMany))]

end Relation

/-- What a model may say of a relation: a finished relation, or a declaration. -/
inductive RelationDeclaration where
  | relation (r : Relation)
  | value (v : Value)

namespace RelationDeclaration

/-- The entry under the first of two spellings that occurs. -/
def either (es : Document) (first second : String) : Value :=
  if Document.has es first then Document.get es first else Document.get es second

def typeOf (es : Document) : Result RelationType :=
  match es.lookup "type" with
  | none => .error (.relation (.missingEntry es "type"))
  | some v =>
    let found := match v with
      | .string s => RelationType.ofName? s
      | _ => none
    match found with
    | some t => .ok t
    | none => .error (.relation (.unknownType es v))

def ofEntries (es : Document) : Result Relation := do
  let type ← typeOf es
  let some model := es.lookup "model" | throw (.relation (.missingEntry es "model"))
  let foreignKey := either es "foreign_key" "foreignKey"
  if !foreignKey.truthy then throw (.relation (.missingForeignKey model))
  return {
    type, model, foreignKey
    joinCollection := either es "join_collection" "joinCollection"
    relatedKey := either es "related_key" "relatedKey" }

def ofValue : Value → RelationDeclaration
  | .record kind parts =>
    if kind = Relation.kind then .relation (Relation.ofParts parts) else .value (.record kind parts)
  | v => .value v

def toRelation : RelationDeclaration → Result Relation
  | .relation r => .ok r
  | .value (.object es) => ofEntries es
  | .value _ => failWith .wrongType

def toRelations : List (String × RelationDeclaration) → Result (List (String × Relation))
  | [] => .ok []
  | (name, declaration) :: rest => do
    let r ← toRelation declaration
    return (name, r) :: (← toRelations rest)

end RelationDeclaration

namespace Relation

/-- The relations that a value declares; one that counts as false declares none, and else only an
object declares any. -/
def tableOf (v : Value) : Result (Table Relation) :=
  if !v.truthy then .ok []
  else match v with
  | .object es => RelationDeclaration.toRelations (es.map fun (name, v) => (name, .ofValue v))
  | _ => failWith .noSuchMember

def tableValue (rs : Table Relation) : Value :=
  .list (rs.map fun (name, r) => .list [.string name, r.toValue])

def join (name : Value) (r : Relation) : Result (Value × Value) :=
  if r.joinCollection.truthy && r.relatedKey.truthy then .ok (r.joinCollection, r.relatedKey)
  else .error (.relation (.missingJoin name))

end Relation

end DocStore
