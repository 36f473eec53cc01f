import DocStore.Error
import DocStore.Text.Lines
/-!
Log records, and the two forms in which they are printed: one JSON object a line, or columns for a
reader at a console.
-/

namespace DocStore

inductive Level where
  | debug | info | warning | error | critical
deriving DecidableEq, Repr, Inhabited

namespace Level

def all : List Level := [.debug, .info, .warning, .error, .critical]

def name : Level → String
  | .debug => "debug"
  | .info => "info"
  | .warning => "warning"
  | .error => "error"
  | .critical => "critical"

def severity : Level → Nat
  | .debug => 10
  | .info => 20
  | .warning => 30
  | .error => 40
  | .critical => 50

/-- A letter in upper case, among the letters that names of levels can come from. -/
def upper (c : Char) : Char :=
  if c == '\u0131' then 'I' else if c == '\u017f' then 'S' else c.toUpper

/-- The least severity that a configured level lets pass; case does not matter. Two names stand for
things that are no level. -/
def threshold (level : Value) : Result Nat :=
  match level.text? with
  | none => failWith .noSuchMember
  | some s =>
    match s.map upper with
    | "NOTSET" => .ok 0
    | "DEBUG" => .ok 10
    | "INFO" => .ok 20
    | "WARNING" | "WARN" => .ok 30
    | "ERROR" => .ok 40
    | "CRITICAL" | "FATAL" => .ok 50
    | "BASIC_FORMAT" => failWith .badValue
    | "_STYLES" => failWith .wrongType
    | _ => failWith .noSuchMember

end Level

/-- What a component of the store reports. -/
structure LogRecord where
  level : Level
  component : String
  event : String
  fields : Document

namespace LogRecord

/-- Fields that differ from one run to the next. -/
def passing : List String := ["seconds", "error", "data_dir", "path"]

/-- A record as a value: its level, and its parts but for those that pass. -/
def toValue (r : LogRecord) : Value :=
  let parts : Document := [("event", .string r.event), ("component", .string r.component)]
  .list [.string r.level.name,
    .object (Document.merge parts (r.fields.filter fun (k, _) => !passing.contains k))]

end LogRecord

inductive LogFormat where
  | json
  | console
deriving DecidableEq, Repr, Inhabited

namespace LogFormat

/-- Stands for the time at which a record was made, and for every other time in what is printed. -/
def timeMark : String := "<time>"

def jsonStyle : Json.Style := { Json.compact with sorted := true, foreign := .quoted }

/-- One line of JSON with all parts of a record, in the order of their keys. -/
def jsonText (parts : Document) : Result String :=
  Result.ofFault (Json.text jsonStyle (.object parts))

def padTo (width : Nat) (s : String) : String :=
  s ++ String.ofList (List.replicate (width - s.length) ' ')

def needsQuotes (s : String) : Bool :=
  s.toList.any fun c => [' ', '\t', '=', '\r', '\n', '\x22', '\x27'].contains c

/-- A field's value at a console: plain texts as they are, all else as a literal. -/
def plainValue (v : Value) : String :=
  match v.text? with
  | some s => if needsQuotes s then v.literal else s
  | none => v.literal

def dropBlanks (s : String) : String :=
  String.ofList (s.toList.reverse.dropWhile (· == ' ')).reverse

/-- The parts with a column of their own, in the order of the columns, and how each is written. -/
def columns : List (String × (String → String)) :=
  [("timestamp", id), ("level", fun s => "[" ++ padTo 9 s ++ "]"), ("event", padTo 30),
   ("logger", fun s => "[" ++ s ++ "]"), ("logger_name", fun s => "[" ++ s ++ "]")]

/-- The parts that stand below the columns. -/
def below : List String := ["stack", "exception"]

/-- The columns and the other fields of a record; blanks at the end are dropped. -/
def row (parts : Document) : String :=
  let named := columns.filterMap fun (name, written) =>
    (parts.lookup name).map fun v => written v.display
  let others := parts.filter fun (k, _) => !(below ++ columns.map (·.1)).contains k
  let fields := (Json.sortByKey others).map fun (k, v) => k ++ "=" ++ plainValue v
  dropBlanks (" ".intercalate ((named ++ fields).filter (· ≠ "")))

def belowOf (parts : Document) (name : String) : Result (Option String) :=
  let v := Document.get parts name
  if v.isNull then .ok none
  else match v.text? with
  | some s => .ok (some s)
  | none => failWith .wrongType

/-- The line between a stack and the failure below it. -/
def rule : String := String.ofList (List.replicate 79 '=')

/-- A row, and below it the stack and the failure that a record tells of. -/
def consoleText (parts : Document) : Result String := do
  let stack ← belowOf parts "stack"
  let failure ← belowOf parts "exception"
  let stackText := match stack with
    | some s => "\n" ++ s ++ (if failure.isSome then "\n\n" ++ rule ++ "\n" else "")
    | none => ""
  return row parts ++ stackText ++ failure.elim "" ("\n" ++ ·)

def text : LogFormat → Document → Result String
  | .json => jsonText
  | .console => consoleText

def name : LogFormat → String
  | .json => "json"
  | .console => "console"

/-- The form with a name; every name but one is that of the console. -/
def ofValue (v : Value) : LogFormat := if v.text? = some "json" then .json else .console

end LogFormat

inductive LogMethod where
  /-- A record of a level. -/
  | of (level : Level)
  /-- A record of the level that has a number. -/
  | numbered
  /-- A record below all levels, which nothing can print. -/
  | unset
  /-- Nothing until it is awaited. -/
  | awaited (numbered : Bool)
deriving DecidableEq, Repr

namespace LogMethod

/-- The level of a method that reports at once; four levels have other names. -/
def levelNamed? : String → Option Level
  | "debug" => some .debug
  | "info" | "msg" => some .info
  | "warning" | "warn" => some .warning
  | "error" | "exception" => some .error
  | "critical" | "fatal" => some .critical
  | _ => none

/-- The method with a name; names of methods to be awaited begin with an `a`. -/
def ofName? (s : String) : Option LogMethod :=
  match levelNamed? s, s.toList with
  | some level, _ => some (.of level)
  | none, 'a' :: rest =>
    let name := String.ofList rest
    if name = "log" then some (.awaited true)
    else if (levelNamed? name).isSome || name = "notset" then some (.awaited false)
    else none
  | none, _ => if s = "log" then some .numbered else if s = "notset" then some .unset else none

def isNumbered (m : LogMethod) : Bool := m == .numbered || m == .awaited true

/-- The fields a method cannot be given, since its own arguments have their names. -/
def refused (m : LogMethod) : List String :=
  if m.isNumbered then ["self", "level"] else ["self", "event"]

end LogMethod

/-- What prints the records of one component: those of a least severity, each over the fields that
are bound to all. -/
structure Logger where
  format : LogFormat
  threshold : Nat
  bound : Document

namespace Logger

/-- The names that fields bound to all records cannot have. -/
def refused : List String := ["name", "self"]

def ofLevel (level : Value) (format : LogFormat) (bound : Document) : Result Logger := do
  let threshold ← Level.threshold level
  if refused.any (Document.has bound) then failWith .wrongType
  return ⟨format, threshold, bound⟩

/-- The parts of a record: its fields over those bound to all, its event unless it is null, its
level and time. Requests for the place of a failure or of a call are not answered. -/
def partsOf (logger : Logger) (level : Level) (event : Value) (fields : Document) : Document :=
  let parts := Document.merge logger.bound fields
  let parts := if event.isNull then parts else Document.put parts "event" event
  let parts := Document.put parts "level" (.string level.name)
  let parts := Document.put parts "timestamp" (.string LogFormat.timeMark)
  Document.drop (Document.drop parts "exc_info") "stack_info"

/-- The text of a record of a level that matters enough. -/
def report (logger : Logger) (level : Level) (event : Value) (fields : Document) :
    Result (Option String) := do
  if level.severity < logger.threshold then return none
  if Document.has fields "method_name" then failWith .wrongType
  return some (← logger.format.text (logger.partsOf level event fields))

/-- The text of a record of the level with a number; it has its event among its fields. -/
def reportNumbered (logger : Logger) (number : Value) (fields : Document) :
    Result (Option String) := do
  let some x := number.looseNumber? | failWith .wrongType
  let some event := fields.lookup "event" | failWith .wrongType
  if x.compare? (.ofInt logger.threshold) == some .lt then return none
  match Level.all.find? fun level => x.compare? (.ofInt level.severity) == some .eq with
  | some level => logger.report level event (Document.drop fields "event")
  | none =>
    failWith (if x.compare? (.ofInt 0) == some .eq then .noSuchMember else .missingKey)

/-- The text of what a method is given, if it is to be printed. -/
def call (logger : Logger) (method : LogMethod) (event : Value) (fields : Document) :
    Result (Option String) := do
  if method.refused.any (Document.has fields) then failWith .wrongType
  match method with
  | .of level => logger.report level event fields
  | .numbered => logger.reportNumbered event fields
  | .unset => if logger.threshold = 0 then failWith .noSuchMember else return none
  | .awaited numbered =>
    if numbered && !Document.has fields "event" then failWith .wrongType
    return none

/-- One call of a method by name. -/
abbrev Call := Value × Value × Document

/-- The lines that calls print, one after the other; a failure leaves none. -/
def lines (logger : Logger) (calls : List Call) : Result (List String) := do
  let texts ← calls.mapM fun (name, event, fields) => do
    let some s := name.text? | failWith .wrongType
    let some method := LogMethod.ofName? s | failWith .noSuchMember
    logger.call method event fields
  let printed := (texts.filterMap id).flatMap fun text => (text ++ "\n").toList
  let mark := LogFormat.timeMark.toList
  return (Text.linesOf printed).map fun line => String.ofList (Text.markTimes mark 0 line)

end Logger

end DocStore
