import DocStore.Model.Basic
import DocStore.Model.Definition
/-!
A database: its connection to a store, and the registry of its models. Models stay registered when
the connection ends, and are opened again on the store of the next one.
-/

namespace DocStore.Database

def component : String := "protodb"

def get (number : Nat) : Op Database := return (← Task.get).database number

def modify (number : Nat) (f : Database → Database) : Op Unit :=
  Task.modify fun w => w.setDatabase number (f (w.database number))

def storeOf (number : Nat) : Op Nat := do
  match (← get number).store with
  | some i => return i
  | none => Task.raise .notConnected

def logModel (component event : String) (m : Model) : Op Unit :=
  Op.log .debug component event [("model", m.name), ("collection", m.collection)]

def openModel (number : Nat) : Op Unit := do
  let m := (← Task.get).model number
  Store.createCollection m.store m.collection m.schema (some number)
  logModel Model.component "model_initialized" m

/-- Points models at a store one after the other and opens their collections there, while `size`
models are registered. -/
def attach (number store size : Nat) : List Value → Op Unit
  | [] => pure ()
  | name :: rest => do
    let some m := Catalog.get? (← get number).models name | attach number store size rest
    Task.modify fun w => w.setModel m { w.model m with store }
    openModel m
    if (← get number).models.length ≠ size then Task.raise (.fault .changedMeanwhile)
    attach number store size rest

def makeStore (settings : StorageSettings) : Result Store :=
  if settings.adapter.text? = some "json" then
    .ok { path := settings.dataDir, indent := settings.indentValue, fsync := settings.fsync }
  else
    .error (.adapter settings.adapter (.string ("Unknown adapter: " ++ settings.adapter.display)))

def connect (number : Nat) : Op Unit := do
  let d ← get number
  if d.connected then return ()
  let store ← Task.ofResult (makeStore d.settings)
  let (w, i) := (← Task.get).addStore store
  Task.set w
  Store.connect i
  modify number fun d => { d with store := some i, connected := true }
  let models := (← get number).models
  attach number i models.length models.names
  Op.log .info component "protodb_connected"
    [("adapter", d.settings.adapter), ("data_dir", .string d.settings.dataDir),
     ("models", .int (← get number).models.length)]

/-- Writes what is pending and ends the connection, if there is one. -/
def disconnect (number : Nat) : Op Unit := do
  let d ← get number
  match d.connected, d.store with
  | true, some i => do
    Store.disconnect i
    modify number fun d => { d with store := none, connected := false }
    Op.log .info component "protodb_disconnected" []
  | _, _ => return ()

def getModel (number : Nat) (name : Value) : Op (Option Nat) := do
  Storage.checkName name
  return Catalog.get? (← get number).models name

/-- Makes the model of a definition and registers it when its collection is open; a name that is
taken gives the model that has it. -/
def model (number : Nat) (definition : Definition) : Op Nat := do
  if let some m ← getModel number definition.name then return m
  let store ← storeOf number
  let (w, m) := (← Task.get).addModel (← Task.ofResult (definition.toModel store number))
  Task.set w
  openModel m
  modify number fun d => { d with models := d.models.put definition.name m }
  logModel component "model_registered" ((← Task.get).model m)
  return m

end DocStore.Database
