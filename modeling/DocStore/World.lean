import DocStore.Calendar.Clock
import DocStore.Index
import DocStore.Query.Options
import DocStore.Schema.Relation
import DocStore.Schema.Validate
import DocStore.Settings
import DocStore.Storage.Memory
import DocStore.Task
import DocStore.Telemetry.Log
import DocStore.Telemetry.Metrics
import DocStore.Telemetry.Span
/-!
What the operations of the library act on: stores over one data directory, databases with their
models, and what is reported of their work.
-/

namespace DocStore

/-- A place that holds a list. Places may hold one list, and then see the same changes of it. -/
inductive Place where
  /-- A field of a document in a collection of a store. -/
  | stored (store : Nat) (collection id field : Value)
  /-- The default of a field of a model. -/
  | default (model : Nat) (field : String)
  /-- A field of a document in the hands of an operation. -/
  | kept (document : Nat) (field : Value)

/-- What operations under way have in their hands, by number, and the places that hold one list with
others, each with the number of its list. -/
structure Sharing where
  kept : List (Nat × Value) := []
  holders : List (Place × Nat) := []
  /-- The number that the next document or list gets. -/
  next : Nat := 0

/-- A schema as a collection has it: of itself, or that of a model, which may change. -/
structure Registered where
  schema : Schema
  model : Option Nat := none

/-- A store: collections in memory with their indexes, over a directory of files, and the line of
requests to its writer, if it has one. The indent is as it was given. -/
structure Store where
  path : String
  indent : Value
  fsync : Bool := false
  memory : Memory := {}
  indexes : Indexes := []
  schemas : Table Registered := []
  connected : Bool := false
  line : Option Nat := none

instance : Inhabited Store := ⟨{ path := "", indent := .null }⟩

/-- A model: a collection with a schema and relations. Stores, models and databases are known by
number. What ids start with and whether updates are timed are as they were given. -/
structure Model where
  name : Value
  collection : Value
  schema : Schema
  relations : Table Relation
  idStart : Value
  timestamps : Value
  store : Nat
  database : Nat

instance : Inhabited Model :=
  ⟨{ name := .null, collection := .null, schema := [], relations := [], idStart := .null,
     timestamps := .null, store := 0, database := 0 }⟩

/-- A database: settings, the store it is connected to, and its models by name. -/
structure Database where
  settings : StorageSettings
  store : Option Nat := none
  connected : Bool := false
  models : Catalog Nat := []

instance : Inhabited Database := ⟨{ settings := {} }⟩

/-- What is reported: counts, records and spans, each in order. -/
structure Journal where
  metrics : Metrics := Metrics.initial
  logs : List LogRecord := []
  spans : List Span := []

/-- All that operations read and change. -/
structure World where
  directory : Directory := none
  journal : Journal := {}
  source : Source
  stores : List Store := []
  models : List Model := []
  databases : List Database := []
  sharing : Sharing := {}
  /-- The number of lines of requests that writers were given so far. -/
  lines : Nat := 0

inductive WriteKind where
  | flush
  | remove (collection : Value)
deriving Repr

/-- What an operation can wait for. -/
inductive Request where
  /-- Its turn, after all that is ready. -/
  | turn
  /-- Work on files. -/
  | work
  /-- A request on a line, served by the writer of a store. -/
  | serve (line store : Nat) (kind : WriteKind)
  /-- That all requests on a line are served. -/
  | drained (line : Nat)
deriving Repr

abbrev Op := Task World Request Unit

namespace World

def store (w : World) (i : Nat) : Store := w.stores.getD i default

def model (w : World) (i : Nat) : Model := w.models.getD i default

def database (w : World) (i : Nat) : Database := w.databases.getD i default

def setStore (w : World) (i : Nat) (s : Store) : World := { w with stores := w.stores.set i s }

def setModel (w : World) (i : Nat) (m : Model) : World := { w with models := w.models.set i m }

def setDatabase (w : World) (i : Nat) (d : Database) : World :=
  { w with databases := w.databases.set i d }

def addStore (w : World) (s : Store) : World × Nat :=
  ({ w with stores := w.stores ++ [s] }, w.stores.length)

def addModel (w : World) (m : Model) : World × Nat :=
  ({ w with models := w.models ++ [m] }, w.models.length)

def addDatabase (w : World) (d : Database) : World × Nat :=
  ({ w with databases := w.databases ++ [d] }, w.databases.length)

def log (w : World) (level : Level) (component event : String) (fields : Document) : World :=
  let logs := w.journal.logs ++ [⟨level, component, event, fields⟩]
  { w with journal := { w.journal with logs } }

def count (w : World) (s : Series) (n : Int) : World :=
  { w with journal := { w.journal with metrics := w.journal.metrics.add s n } }

def gauge (w : World) (s : Series) (n : Int) : World :=
  { w with journal := { w.journal with metrics := w.journal.metrics.set s n } }

def addSpan (w : World) (name : String) (attributes : Document) (failure : Option Error) : World :=
  let span : Span := { name := .string name, attributes := Span.attributesOf attributes }
  { w with journal := { w.journal with spans := w.journal.spans ++ [span.close failure] } }

end World

namespace Op

def store (i : Nat) : Op Store := do return (← Task.get).store i

def modifyStore (i : Nat) (f : Store → Store) : Op Unit :=
  Task.modify fun w => w.setStore i (f (w.store i))

def log (level : Level) (component event : String) (fields : Document) : Op Unit :=
  Task.modify (·.log level component event fields)

def count (s : Series) : Op Unit := Task.modify (·.count s 1)

def now : Op String := do
  let (time, source) := (← Task.get).source.now
  Task.modify fun w => { w with source }
  return time

def newId (start : String) : Op String := do
  let (id, source) := (← Task.get).source.newId start
  Task.modify fun w => { w with source }
  return id

/-- Asks the writer of a store, which gets a line when it has none, and waits until it has
served. -/
def ask (i : Nat) (kind : WriteKind) : Op Unit := do
  match (← store i).line with
  | some line => Task.await (.serve line i kind)
  | none =>
    let line := (← Task.get).lines
    Task.modify fun w => { w with lines := line + 1 }
    modifyStore i fun s => { s with line := some line }
    Task.await (.serve line i kind)

def flush (i : Nat) : Op Unit := ask i .flush

def flushIfDirty (i : Nat) : Op Unit := do
  if (← store i).memory.dirty.isEmpty then return () else flush i

/-- Waits until the writer of a store has served all requests, and dismisses it. -/
def close (i : Nat) : Op Unit := do
  let some line := (← store i).line | return ()
  modifyStore i fun s => { s with line := none }
  Task.await (.drained line)
  Task.await .turn
  Task.await .turn

def traced {α : Type} (name : String) (attributes : Document) (task : Op α) : Op α := do
  let outcome ← task.attempt
  let failure := match outcome with
    | .ok _ => none
    | .error e => some e
  Task.modify (·.addSpan name attributes failure)
  Task.ofResult outcome

end Op

end DocStore
