import DocStore.Json.Reader
import DocStore.Storage.Directory
import DocStore.Telemetry.Log
/-!
Settings: where and how collections are stored, and how the store reports. They come from arguments
or from environment variables, and what does not fit is listed by place and kind.
-/

namespace DocStore

structure StorageSettings where
  adapter : Value := .string "json"
  dataDir : String := "data"
  fsync : Bool := true
  indent : Option Nat := some 2
deriving Inhabited

structure ObservabilitySettings where
  logLevel : String := "INFO"
  logFormat : LogFormat := .json
  otelEndpoint : Option String := none
  otelServiceName : String := "protodb"
  metricsPort : Nat := 8001
deriving Inhabited

structure Settings where
  storage : StorageSettings := {}
  observability : ObservabilitySettings := {}
deriving Inhabited

def StorageSettings.indentValue (s : StorageSettings) : Value := s.indent.elim .null fun n => .int n

namespace Settings

def storageValue (s : StorageSettings) : Value :=
  .object [("adapter", s.adapter), ("data_dir", .string s.dataDir), ("fsync", .bool s.fsync),
    ("indent", s.indentValue)]

def observabilityValue (o : ObservabilitySettings) : Value :=
  .object [("log_level", .string o.logLevel), ("log_format", .string o.logFormat.name),
    ("otel_endpoint", o.otelEndpoint.elim .null .string),
    ("otel_service_name", .string o.otelServiceName), ("metrics_port", .int o.metricsPort)]

def toValue (s : Settings) : Value :=
  .object [
    ("storage", storageValue s.storage),
    ("observability", observabilityValue s.observability)]

inductive Misfit where
  | literal
  | path
  | boolType | boolText
  | intType | intText | intFraction | intSize | notFinite
  | tooSmall | tooLarge
  | stringType
  | notASection
deriving DecidableEq, Repr

def Misfit.name : Misfit → String
  | .literal => "literal_error"
  | .path => "path_type"
  | .boolType => "bool_type"
  | .boolText => "bool_parsing"
  | .intType => "int_type"
  | .intText => "int_parsing"
  | .intFraction => "int_from_float"
  | .intSize => "int_parsing_size"
  | .notFinite => "finite_number"
  | .tooSmall => "greater_than_equal"
  | .tooLarge => "less_than_equal"
  | .stringType => "string_type"
  | .notASection => "model_type"

abbrev Misfits := List (String × Misfit)

/-- What did not fit as an answer: places with kinds, in the order of the places. -/
def misfitsValue (ms : Misfits) : Value :=
  let details := (Json.sortByKey ms).map fun (place, m) => .list [.string place, .string m.name]
  .object [("error", .string "ValidationError"), ("details", .list details)]

/-- A path with one separator between its parts and no part that is a single dot. -/
def normalPath (path : String) : String :=
  let slashes := (path.toList.takeWhile (· == '/')).length
  let root := if slashes = 2 then "//" else if slashes = 0 then "" else "/"
  let body := "/".intercalate (Directory.parts path)
  if root = "" ∧ body = "" then "." else root ++ body

def oneOf (allowed : List String) : Value → Except Misfit String
  | .string s => if allowed.contains s then .ok s else .error .literal
  | _ => .error .literal

def pathOf (v : Value) : Except Misfit String :=
  match v.text? with
  | some s => .ok (normalPath s)
  | none => .error .path

def textOf (v : Value) : Except Misfit String :=
  match v.text? with
  | some s => .ok s
  | none => .error .stringType

def boolOfInt (n : Int) : Except Misfit Bool :=
  if n = 0 then .ok false else if n = 1 then .ok true else .error .boolText

def boolOfText (s : String) : Except Misfit Bool :=
  let s := s.toLower
  if ["0", "off", "f", "false", "n", "no"].contains s then .ok false
  else if ["1", "on", "t", "true", "y", "yes"].contains s then .ok true
  else .error .boolText

/-- Numbers that are machine words, words and booleans can be read as a boolean. -/
def boolOf (v : Value) : Except Misfit Bool :=
  match v, v.text? with
  | _, some s => boolOfText s
  | .bool b, _ => .ok b
  | .int n, _ =>
    if -Whole.wordBound ≤ n && n < Whole.wordBound then boolOfInt n else .error .boolType
  | .float x, _ =>
    match Whole.ofDouble x with
    | .ok n => boolOfInt n
    | .error _ => .error .boolType
  | _, _ => .error .boolType

def misfitOf : Whole.Refusal → Misfit
  | .malformed => .intText
  | .tooLong => .intSize
  | .fraction => .intFraction
  | .unbounded => .notFinite

def ofWhole : Except Whole.Refusal Int → Except Misfit Int
  | .ok n => .ok n
  | .error e => .error (misfitOf e)

def intOf (v : Value) : Except Misfit Int :=
  match v, v.text? with
  | _, some s => ofWhole (Whole.ofText s)
  | .int n, _ => .ok n
  | .bool b, _ => .ok (if b then 1 else 0)
  | .float x, _ => ofWhole (Whole.ofDouble x)
  | _, _ => .error .intType

def bounded (low high : Int) (v : Value) : Except Misfit Nat := do
  let n ← intOf v
  if n < low then throw .tooSmall
  if high < n then throw .tooLarge
  return n.toNat

def orNone {α : Type} (read : Value → Except Misfit α) : Value → Except Misfit (Option α)
  | .null => .ok none
  | v => (read v).map some

/-- Reads one setting, or takes what it is by itself; a misfit is noted. -/
def setting {α : Type} (args : Document) (name : String) (own : α)
    (read : Value → Except Misfit α) (misfits : Misfits) : α × Misfits :=
  match args.lookup name with
  | none => (own, misfits)
  | some v =>
    match read v with
    | .ok a => (a, misfits)
    | .error m => (own, misfits ++ [(name, m)])

def storageOf (args : Document) : StorageSettings × Misfits :=
  let own : StorageSettings := {}
  let (adapter, ms) :=
    setting args "adapter" own.adapter (fun v => Value.string <$> oneOf ["json"] v) []
  let (dataDir, ms) := setting args "data_dir" own.dataDir pathOf ms
  let (fsync, ms) := setting args "fsync" own.fsync boolOf ms
  let (indent, ms) := setting args "indent" own.indent (orNone (bounded 0 8)) ms
  ({ adapter, dataDir, fsync, indent }, ms)

def levels : List String := ["DEBUG", "INFO", "WARNING", "ERROR", "CRITICAL"]

def formatOf (v : Value) : Except Misfit LogFormat := do
  let name ← oneOf ["json", "console"] v
  return if name = "console" then .console else .json

def observabilityOf (args : Document) : ObservabilitySettings × Misfits :=
  let own : ObservabilitySettings := {}
  let (logLevel, ms) := setting args "log_level" own.logLevel (oneOf levels) []
  let (logFormat, ms) := setting args "log_format" own.logFormat formatOf ms
  let (otelEndpoint, ms) := setting args "otel_endpoint" own.otelEndpoint (orNone textOf) ms
  let (otelServiceName, ms) := setting args "otel_service_name" own.otelServiceName textOf ms
  let (metricsPort, ms) := setting args "metrics_port" own.metricsPort (bounded 1 65535) ms
  ({ logLevel, logFormat, otelEndpoint, otelServiceName, metricsPort }, ms)

def names : List String :=
  ["adapter", "data_dir", "fsync", "indent", "log_level", "log_format", "otel_endpoint",
   "otel_service_name", "metrics_port"]

def variableStart : String := "protodb_"

def splitNested : List Char → List (List Char)
  | [] => [[]]
  | '_' :: '_' :: rest => [] :: splitNested rest
  | c :: rest =>
    match splitNested rest with
    | [] => [[c]]
    | part :: parts => (c :: part) :: parts

/-- The rest of a text after a beginning. -/
def after? (start s : String) : Option String :=
  if start.toList.isPrefixOf s.toList then
    some (String.ofList (s.toList.drop start.length))
  else none

/-- Sets a value under a path of names, making the objects on the way; a value that is no object
ends the path. -/
def putNested (doc : Document) (v : Value) : List String → Document
  | [] => doc
  | [name] => Document.put doc name v
  | name :: rest =>
    match doc.lookup name with
    | none => Document.put doc name (.object (putNested [] v rest))
    | some (.object inner) => Document.put doc name (.object (putNested inner v rest))
    | some _ => doc

/-- The settings of a section that have variables of their own: the names follow two underscores
each. -/
def singleSettings (environment : List (String × String)) (name : String) : Document :=
  environment.foldl (fun doc (key, text) =>
    match after? (variableStart ++ name ++ "__") key with
    | some rest => putNested doc (.string text) ((splitNested rest.toList).map String.ofList)
    | none => doc) []

/-- Entries under names that do not depend on case. -/
def lowered {α : Type} (entries : List (String × α)) : List (String × α) :=
  entries.foldl (fun t (k, a) => Table.put t k.toLower a) []

/-- Entries with the names of settings spelled as they are; a later entry for the same setting
wins. -/
def spelled (es : Document) : Document :=
  es.foldl (fun doc (k, v) =>
    let name := k.toLower
    Document.put doc (if names.contains name then name else k) v) []

/-- The arguments that variables give to one section: an object in JSON under the name of the
section, and over it the settings with variables of their own. -/
def sectionArguments (environment : List (String × String)) (name : String) :
    Result (Option Value) := do
  let single := singleSettings environment name
  match environment.lookup (variableStart ++ name) with
  | none => return if single.isEmpty then none else some (.object (spelled single))
  | some text =>
    match Json.parse text.toList with
    | .ok (.object es) => return some (.object (spelled (Document.merge es single)))
    | .ok v => return if v.isNull then none else some v
    | .error _ => failWith .badSettings

def placed (name : String) (ms : Misfits) : Misfits := ms.map fun (k, m) => (name ++ "." ++ k, m)

/-- A section from the environment, unless it is given. -/
def sectionOf {α : Type} [Inhabited α] (environment : List (String × String)) (name : String)
    (given : Option α) (read : Document → α × Misfits) : Result (α × Misfits) := do
  match given, ← sectionArguments environment name with
  | some a, _ => return (a, [])
  | none, none => return ((read []).1, [])
  | none, some (.object es) =>
    let (a, ms) := read es
    return (a, placed name ms)
  | none, some _ => return (default, [(name, .notASection)])

/-- The settings that given sections and the environment make together; names of variables do not
depend on case. -/
def ofEnvironment (environment : List (String × String)) (storage : Option StorageSettings)
    (observability : Option ObservabilitySettings) : Result (Settings × Misfits) := do
  let environment := lowered environment
  let (storage, ms) ← sectionOf environment "storage" storage storageOf
  let (observability, ns) ← sectionOf environment "observability" observability observabilityOf
  return ({ storage, observability }, ms ++ ns)

end Settings

end DocStore
