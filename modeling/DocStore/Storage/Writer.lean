import DocStore.Loop
import DocStore.World
/-!
The writer of a store: it serves the requests of all operations one after the other. A flush takes a
snapshot of every changed collection, writes the files, and takes the names back when it fails.
-/

namespace DocStore.Writer

def component : String := "file_engine"

def fail (kind : String) (collection : Value) (f : Fault) (w : World) : World × Result Unit :=
  (w.log .error component "write_failed"
    [("kind", .string kind), ("collection", collection)], failWith f)

/-! ## A flush from its snapshot to its end -/

/-- Takes a snapshot of the changed collections that are held, after which nothing counts as
changed. -/
def startFlush (i : Nat) (w : World) : Except Fault (Snapshot × World) := do
  let s := w.store i
  let files ← snapshot s.indent s.memory s.memory.pending
  return (files, w.setStore i { s with memory := { s.memory with dirty := [] } })

def attributes (names : List Value) : Document := [("collections", .int names.length)]

def completeFlush (files : Snapshot) (w : World) : World :=
  let w := w.addSpan "protodb.flush" (attributes files.names) none
  let w := w.count (.flushes "success") 1
  let w := w.count .flushLatency 1
  let w := w.count .bytesWritten files.size
  w.log .debug component "flush_completed"
    [("collections", .list files.names), ("bytes", .int files.size)]

def failFlush (names : List Value) (f : Fault) (w : World) : World × Result Unit :=
  fail "flush" .null f (w.addSpan "protodb.flush" (attributes names) (some (.fault f)))

/-- Marks the names of a failed snapshot as changed again; what was dropped stays dropped. -/
def takeBack (m : Memory) (names : List Value) : Memory :=
  (names.filter m.holds).foldl Memory.markDirty m

/-- Ends a flush that failed at one of its files; those before it stay written. -/
def abandonFlush (i : Nat) (names : List Value) (f : Fault) (w : World) : World × Result Unit :=
  let s := w.store i
  let w := w.setStore i { s with memory := takeBack s.memory names }
  failFlush names f (w.count (.flushes "error") 1)

def writeFiles (i : Nat) (files : Snapshot) (w : World) : World × Result Unit :=
  let (directory, outcome) := files.write w.directory
  let w := { w with directory }
  match outcome with
  | .ok () => (completeFlush files w, .ok ())
  | .error f => abandonFlush i files.names f w

def flush (i : Nat) : Op Unit := do
  let memory := (← Op.store i).memory
  if memory.dirty.isEmpty then return ()
  match startFlush i (← Task.get) with
  | .error f => Task.change (failFlush memory.pending f)
  | .ok (files, w) => do
    Task.set w
    Task.await .work
    Task.change (writeFiles i files)

/-! ## Serving requests -/

/-- Removes the file of a collection; in a store whose writes are made durable the directory must be
there. -/
def removeFile (i : Nat) (collection : Value) (w : World) : World × Result Unit :=
  match w.directory.remove (CollectionName.fileOf collection) with
  | .error f => fail "remove" collection f w
  | .ok directory =>
    if (w.store i).fsync && directory.isNone then fail "remove" collection .fileNotFound w
    else
      (({ w with directory }).log .debug component "collection_file_removed"
        [("collection", collection)], .ok ())

def service (i : Nat) : WriteKind → Op Unit
  | .flush => flush i
  | .remove .null => Task.change (fail "remove" .null .assumption)
  | .remove collection => do
    Task.await .work
    Task.change (removeFile i collection)

/-- Grants every request at once. -/
def grant : Task.Server World Request Unit := fun _ w => (w, .ok ())

/-- Answers the requests of an operation that is done alone. -/
def serve : Task.Server World Request Unit
  | .serve _ i kind, w => (service i kind).run grant w
  | _, w => (w, .ok ())

/-- What the requests of operations side by side come to. -/
def interpret : Request → Call World Request Unit
  | .turn => .turn
  | .work => .work
  | .serve line i kind => .service line (service i kind)
  | .drained line => .drained line

end DocStore.Writer
