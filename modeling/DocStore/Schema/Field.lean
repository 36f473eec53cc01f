import DocStore.Error
import DocStore.Value.Equality
/-!
Fields of a schema, and the declarations they are made from.
-/

namespace DocStore

namespace FieldType

/-- Whether a value is the name of a field type; a set is asked by its members, and what else can be
changed in place is not asked. -/
def isName (v : Value) : Result Bool :=
  match v with
  | .set _ => .ok false
  | v => if v.isHashable then .ok (v.text?.bind ofName?).isSome else failWith .wrongType

end FieldType

/-- What an absent field gets from a default: what a maker makes, else the default itself. -/
def Value.made : Value → Value
  | .maker m => m.made
  | v => v

/-- A field. Flags are values as they are given, of which only truth counts; bounds are null when
there are none. -/
structure Field where
  type : FieldType
  required : Value := .bool false
  unique : Value := .bool false
  index : Value := .bool false
  default : Option Value := none
  minLength : Value := .null
  maxLength : Value := .null
  min : Value := .null
  max : Value := .null
  options : Option (List Value) := none

namespace Field

/-- The flag for an index, or that for uniqueness when there is none: a unique field always has an
index. -/
def indexFlag (f : Field) : Value := if f.index.truthy then f.index else f.unique

def indexed (f : Field) : Bool := f.indexFlag.truthy

/-- The same field with the index that uniqueness needs. -/
def settled (f : Field) : Field :=
  if f.unique.truthy && !f.index.truthy then { f with index := .bool true } else f

def kind : String := "NormalizedField"

def unset : Value := .record "UNSET" []

/-- The parts of a field as a value, each as it is when nothing is said of it. -/
def parts : Document :=
  [("type", .null), ("required", .bool false), ("unique", .bool false), ("index", .bool false),
   ("default", unset), ("min_length", .null), ("max_length", .null), ("min", .null), ("max", .null),
   ("enum", .null)]

/-- The value of a finished field of which some parts are given. -/
def finished (given : Document) : Value :=
  .record kind (parts.map fun (k, v) => (k, (given.lookup k).getD v))

def ofParts (parts : Document) : Field :=
  let part (name : String) : Value := Document.get parts name
  let type := match part "type" with
    | .fieldType t => t
    | _ => .json
  settled {
    type, required := part "required", unique := part "unique", index := part "index"
    default := (parts.lookup "default").bind fun v => if isSame v unset then none else some v
    minLength := part "min_length", maxLength := part "max_length", min := part "min"
    max := part "max", options := (part "enum").members? }

def toValue (f : Field) : Value :=
  .object [
    ("type", .string f.type.name), ("required", f.required), ("unique", f.unique),
    ("index", f.index), ("indexed", f.indexFlag), ("has_default", .bool f.default.isSome),
    ("default", f.default.getD .null), ("min_length", f.minLength), ("max_length", f.maxLength),
    ("min", f.min), ("max", f.max), ("enum", f.options.elim .null .list)]

end Field

abbrev Schema := List (String × Field)

def Schema.toValue (schema : Schema) : Value :=
  .list (schema.map fun (name, f) => .list [.string name, f.toValue])

/-- What a schema may say of a field: a finished field, or a value, which is a type, the name of
one, or a table of options. -/
inductive Declaration where
  | finished (f : Field)
  | value (v : Value)

namespace Declaration

def ofValue : Value → Declaration
  | .record kind parts =>
    if kind = Field.kind then .finished (Field.ofParts parts) else .value (.record kind parts)
  | v => .value v

/-- The option a key of a declaration sets; lengths have two spellings. -/
def optionOf? : String → Option String
  | "minLength" => some "min_length"
  | "maxLength" => some "max_length"
  | key =>
    if ["type", "required", "unique", "index", "default", "min_length", "max_length", "min", "max",
        "enum"].contains key then some key else none

/-- The settings by option; a later key wins over an earlier one for the same option. -/
def settingsOf (field : String) : Document → Result Document
  | [] => .ok []
  | (key, setting) :: rest =>
    match optionOf? key with
    | none => .error (.validation (.string field) (.unknownOption key))
    | some option => do
      let later ← settingsOf field rest
      return if (later.lookup option).isSome then later else (option, setting) :: later

def typeOf (field : String) (v : Value) : Result FieldType :=
  match v.text?.bind FieldType.ofName? with
  | some t => .ok t
  | none => .error (.validation (.string field) (.unknownType v))

/-- The values of an enumeration, which may be any value that can be walked. -/
def membersOf (v : Value) : Result (Option (List Value)) :=
  if v.isNull then .ok none
  else match v.members? with
  | some xs => .ok (some xs)
  | none => failWith .wrongType

def ofSettings (field : String) (settings : Document) : Result Field := do
  let some type := settings.lookup "type" | throw (.validation (.string field) .missingType)
  let setting (option : String) : Value := Document.get settings option
  let unique := (setting "unique").truthy
  let index := setting "index"
  let type ← typeOf field type
  let options ← membersOf (setting "enum")
  return Field.settled {
    type, options
    required := .bool (setting "required").truthy
    unique := .bool unique
    index := .bool (if index.isNull then unique else index.truthy)
    default := settings.lookup "default"
    minLength := setting "min_length"
    maxLength := setting "max_length"
    min := setting "min"
    max := setting "max" }

def toField (field : String) : Declaration → Result Field
  | .finished f => .ok f
  | .value (.object es) => do ofSettings field (← settingsOf field es)
  | .value v =>
    match v.text? with
    | some _ => do return { type := ← typeOf field v }
    | none => .error (.validation (.string field) (.invalidDefinition v))

def toSchema : List (String × Declaration) → Result Schema
  | [] => .ok []
  | (name, declaration) :: rest => do
    let field ← toField name declaration
    return (name, field) :: (← toSchema rest)

end Declaration

def Schema.ofValue : Value → Result Schema
  | .object es => Declaration.toSchema (es.map fun (name, v) => (name, .ofValue v))
  | _ => failWith .noSuchMember

end DocStore
