import DocStore.Json.Writer
/-!
Errors by cause, with their kinds and their texts. A failure that is not the store's own carries
its kind and no text. An interrupt leaves the work that it stops as an error does, but what handles errors
on the way does not handle it.
-/

namespace DocStore

/-- The kinds of error that callers tell apart. -/
inductive Kind where
  | store
  | validation
  | adapter
  | collectionNotFound
  | documentNotFound
  | uniqueConstraint
  | query
  | unknownOperator
  | relation
  | fault (fault : Fault)
  /-- An error of the caller's own, known by its name. -/
  | foreign (name : String)
  /-- An interrupt, a cancellation or an exit, known by its name. -/
  | interrupt (name : String)
deriving DecidableEq, Repr

namespace Kind

/-- The kinds a kind belongs to, from itself up to the most general. -/
def ancestors : Kind → List Kind
  | .store => [.store]
  | .unknownOperator => [.unknownOperator, .query, .store]
  | .fault f => [.fault f]
  | .foreign name => [.foreign name]
  | .interrupt name => [.interrupt name]
  | k => [k, .store]

def isOwn : Kind → Bool
  | .fault _ | .foreign _ | .interrupt _ => false
  | _ => true

def isInterrupt : Kind → Bool
  | .interrupt _ => true
  | _ => false

def faultName : Fault → String
  | .wrongType => "TypeError"
  | .noSuchMember => "AttributeError"
  | .missingKey => "KeyError"
  | .outOfRange => "OverflowError"
  | .badValue => "ValueError"
  | .malformedJson => "JSONDecodeError"
  | .malformedText => "UnicodeDecodeError"
  | .isDirectory => "IsADirectoryError"
  | .notADirectory => "NotADirectoryError"
  | .fileNotFound => "FileNotFoundError"
  | .system => "OSError"
  | .changedMeanwhile => "RuntimeError"
  | .assumption => "AssertionError"
  | .badSettings => "SettingsError"

def name : Kind → String
  | .store => "ProtoDBError"
  | .validation => "ValidationError"
  | .adapter => "AdapterError"
  | .collectionNotFound => "CollectionNotFoundError"
  | .documentNotFound => "DocumentNotFoundError"
  | .uniqueConstraint => "UniqueConstraintError"
  | .query => "QueryError"
  | .unknownOperator => "UnknownOperatorError"
  | .relation => "RelationError"
  | .fault f => faultName f
  | .foreign name | .interrupt name => name

def own : List Kind :=
  [.store, .validation, .adapter, .collectionNotFound, .documentNotFound, .uniqueConstraint, .query,
   .unknownOperator, .relation]

def faults : List Kind :=
  [.wrongType, .noSuchMember, .missingKey, .outOfRange, .badValue, .malformedJson, .malformedText,
   .isDirectory, .notADirectory, .fileNotFound, .system, .changedMeanwhile, .assumption,
   .badSettings].map .fault

def interrupts : List Kind :=
  ["BaseException", "BaseExceptionGroup", "CancelledError", "GeneratorExit", "KeyboardInterrupt",
   "SystemExit"].map .interrupt

def ofName? (s : String) : Option Kind := own.find? (·.name == s)

/-- The kind with a name; a name the store does not know is one of the caller's. -/
def ofName (s : String) : Kind :=
  ((own ++ faults ++ interrupts).find? (·.name == s)).getD (.foreign s)

/-- What the errors of a kind are made from, by name; those of other kinds take anything. -/
def parameters? : Kind → Option (List String)
  | .validation => some ["field", "reason"]
  | .adapter => some ["adapter", "message"]
  | .collectionNotFound => some ["collection"]
  | .documentNotFound => some ["collection", "document_id"]
  | .uniqueConstraint => some ["collection", "field", "value"]
  | .unknownOperator => some ["operator"]
  | _ => none

end Kind

/-- What is wrong with a field's declaration or with a value given for it. -/
inductive Violation where
  | invalidDefinition (definition : Value)
  | unknownOption (key : String)
  | missingType
  | unknownType (type : Value)
  | required
  | mismatch (expected : String) (value : Value)
  | notANumber
  | invalidDate
  | tooShort (bound : Value) (length : Nat)
  | tooLong (bound : Value) (length : Nat)
  | tooSmall (bound : Value)
  | tooLarge (bound : Value)
  | notAllowed (options : List Value)
  | stated (reason : Value)

def Violation.reason : Violation → String
  | .invalidDefinition d => s!"invalid field definition: {d.literal}"
  | .unknownOption k => s!"unknown field option: {(Value.string k).literal}"
  | .missingType => "field definition requires a type"
  | .unknownType t => s!"unknown type: {t.literal}"
  | .required => "field is required"
  | .mismatch expected v => s!"expected {expected}, got {v.typeName}"
  | .notANumber => "expected number, got NaN"
  | .invalidDate => "invalid date string"
  | .tooShort bound length => s!"minimum length is {bound.display}, got {length}"
  | .tooLong bound length => s!"maximum length is {bound.display}, got {length}"
  | .tooSmall bound => s!"minimum value is {bound.display}"
  | .tooLarge bound => s!"maximum value is {bound.display}"
  | .notAllowed options => "value must be one of: " ++ ", ".intercalate (options.map Value.display)
  | .stated reason => reason.display

inductive QueryProblem where
  | negativeLimit (limit : Value)
  | negativeOffset (offset : Value)
  | badDirection (field : String) (direction : Value)
  | unknownOptions (names : List Value)

def QueryProblem.text : QueryProblem → String
  | .negativeLimit n => s!"limit must be non-negative, got {n.display}"
  | .negativeOffset n => s!"offset must be non-negative, got {n.display}"
  | .badDirection field d =>
    s!"Sort direction for {(Value.string field).literal} must be 1 or -1, got {d.literal}"
  | .unknownOptions names => s!"Unknown find options: {(Value.list names).literal}"

/-- What is wrong with a relation or with the use of it. -/
inductive RelationProblem where
  | unknownType (declaration : Document) (type : Value)
  | missingEntry (declaration : Document) (key : String)
  | missingForeignKey (model : Value)
  | unknown (relation model : Value)
  | noRegistry (relation model : Value)
  | unknownModel (model : Value)
  | missingJoin (relation : Value)
  | notManyToMany (operation type : String)

def RelationProblem.text : RelationProblem → String
  | .unknownType declaration t =>
    s!"Invalid relation declaration {(Value.object declaration).literal}: "
      ++ s!"{t.literal} is not a valid RelationType"
  | .missingEntry declaration key =>
    s!"Invalid relation declaration {(Value.object declaration).literal}: "
      ++ (Value.string key).literal
  | .missingForeignKey model => s!"Relation to {model.literal} requires a foreign key"
  | .unknown r m => s!"Unknown relation \"{r.display}\" on model \"{m.display}\""
  | .noRegistry r m =>
    s!"Cannot resolve relation \"{r.display}\" on model \"{m.display}\" without a model registry"
  | .unknownModel m =>
    s!"Related model \"{m.display}\" not found. Make sure it is defined before querying."
  | .missingJoin r => s!"manyToMany relation \"{r.display}\" requires joinCollection and relatedKey"
  | .notManyToMany operation type =>
    s!"{operation}() is only supported for manyToMany relations, got \"{type}\""

inductive Error where
  | adapterNotConnected
  | notConnected
  | missingId
  | invalidName (name : Value)
  | reservedName (name : Value)
  | notAnArray (path : String)
  | notAMapping (path : String)
  | validation (field : Value) (violation : Violation)
  | adapter (name problem : Value)
  | collectionNotFound (collection : Value)
  | documentNotFound (collection id : Value)
  | uniqueConstraint (collection field value : Value)
  | query (problem : QueryProblem)
  | unknownOperator (tag : Value)
  | relation (problem : RelationProblem)
  | fault (fault : Fault)
  /-- An error that the caller of the store raises in words of its own. -/
  | stated (kind : Kind) (text : String)

namespace Error

def kind : Error → Kind
  | .adapterNotConnected | .notConnected | .missingId | .invalidName _ | .reservedName _
  | .notAnArray _ | .notAMapping _ => .store
  | .validation .. => .validation
  | .adapter .. => .adapter
  | .collectionNotFound _ => .collectionNotFound
  | .documentNotFound .. => .documentNotFound
  | .uniqueConstraint .. => .uniqueConstraint
  | .query _ => .query
  | .unknownOperator _ => .unknownOperator
  | .relation _ => .relation
  | .fault f => .fault f
  | .stated k _ => k

/-- Whether what handles errors gets it; an interrupt goes by. -/
def isCaught (e : Error) : Bool := !e.kind.isInterrupt

/-- A value as JSON, or as a literal when JSON has no form for it. -/
def rendered (v : Value) : String :=
  match Json.text Json.compact v with
  | .ok text => text
  | .error _ => v.literal

/-- The text of an error. A missing key is named by its literal. -/
def message : Error → String
  | .adapterNotConnected => "Adapter is not connected. Call connect() first."
  | .notConnected => "Not connected. Call connect() before defining models."
  | .missingId => "Documents must carry a non-empty string id"
  | .invalidName name => s!"Invalid collection name: {name.literal}"
  | .reservedName name => s!"Collection name {name.literal} is reserved"
  | .notAnArray path => s!"Collection file {path} does not hold a JSON array"
  | .notAMapping path => s!"Legacy store {path} is not a collection mapping"
  | .validation field violation => s!"Validation error on \"{field.display}\": {violation.reason}"
  | .adapter name problem => s!"[{name.display}] {problem.display}"
  | .collectionNotFound c => s!"Collection \"{c.display}\" not found"
  | .documentNotFound c id => s!"Document \"{id.display}\" not found in \"{c.display}\""
  | .uniqueConstraint c field v =>
    s!"Unique constraint violation on \"{c.display}.{field.display}\": "
      ++ s!"value {rendered v} already exists"
  | .query problem => problem.text
  | .unknownOperator tag => s!"Unknown operator: {tag.display}"
  | .relation problem => problem.text
  | .fault _ => ""
  | .stated (.fault .missingKey) text => (Value.string text).literal
  | .stated _ text => text

def fields : Error → Document
  | .validation field (.stated reason) => [("field", field), ("reason", reason)]
  | .validation field violation => [("field", field), ("reason", .string violation.reason)]
  | .adapter name _ => [("adapter", name)]
  | .collectionNotFound c => [("collection", c)]
  | .documentNotFound c id => [("collection", c), ("document_id", id)]
  | .uniqueConstraint c field v => [("collection", c), ("field", field), ("value", v)]
  | .unknownOperator tag => [("operator", tag)]
  | _ => []

/-- The text about a number of arguments that does not fit; only a lack is told in full. -/
def misfitText (kind : Kind) (given : Nat) (parameters : List String) : String :=
  let missing := (parameters.drop given).map fun name => "\x27" ++ name ++ "\x27"
  let plural := if missing.length = 1 then "" else "s"
  s!"{kind.name}.__init__() missing {missing.length} required positional argument{plural}: "
    ++ " and ".intercalate missing

def ofArguments (kind : Kind) (args : List Value) : Except Error Error :=
  match kind.parameters?, args with
  | none, [] => .ok (.stated kind "")
  | none, [v] => .ok (.stated kind v.display)
  | none, vs => .ok (.stated kind (Value.tuple vs).display)
  | some parameters, args =>
    match kind, args with
    | .validation, [field, reason] => .ok (.validation field (.stated reason))
    | .adapter, [name, problem] => .ok (.adapter name problem)
    | .collectionNotFound, [c] => .ok (.collectionNotFound c)
    | .documentNotFound, [c, id] => .ok (.documentNotFound c id)
    | .uniqueConstraint, [c, field, v] => .ok (.uniqueConstraint c field v)
    | .unknownOperator, [tag] => .ok (.unknownOperator tag)
    | kind, args => .error (.stated (.fault .wrongType) (misfitText kind args.length parameters))

end Error

abbrev Result (α : Type) := Except Error α

/-- The error that is handled when work ends with an outcome, if any. -/
def Result.caught {α : Type} : Result α → Option Error
  | .ok _ => none
  | .error e => if e.isCaught then some e else none

def failWith {α : Type} (f : Fault) : Result α := .error (.fault f)

def Result.ofFault {α : Type} : Except Fault α → Result α
  | .ok a => .ok a
  | .error f => .error (.fault f)

end DocStore
