import DocStore.Storage.Writer
/-!
Loading a data directory into memory. A store in one file is split into files first. A file that
leads nowhere counts as an empty collection and is written at once. Every look at the directory is
work that is waited for.
-/

namespace DocStore.Load

def pathOf (s : Store) (file : String) : String := s.path ++ "/" ++ file

def lookAt {α : Type} (look : Directory → α) : Op α := do
  Task.await .work
  return look (← Task.get).directory

def setDocuments (i : Nat) (name : String) (docs : List Value) : Op Unit :=
  Op.modifyStore i fun s => { s with memory := s.memory.setDocuments name docs }

def markDirty (i : Nat) (name : String) : Op Unit :=
  Op.modifyStore i fun s => { s with memory := s.memory.markDirty (.string name) }

/-- Reads one collection; the answer says whether its file led nowhere. -/
def readCollection (i : Nat) (name : String) : Op Bool := do
  let file := CollectionName.fileName name
  match ← lookAt (·.read file) with
  | .ok text =>
    setDocuments i name (← Task.ofResult (readDocuments (pathOf (← Op.store i) file) text))
    return false
  | .error .fileNotFound =>
    setDocuments i name []
    return true
  | .error f => Task.raise (.fault f)

/-- Reads the collections that memory does not hold yet, and gives the names of those whose file
led nowhere. -/
def readCollections (i : Nat) : List String → Op (List String)
  | [] => pure []
  | name :: rest => do
    if (← Op.store i).memory.holds (.string name) then readCollections i rest
    else
      let missing ← readCollection i name
      let later ← readCollections i rest
      return if missing then name :: later else later

/-- Takes over the collections of the legacy file that have no entry of their own, and gives their
names. -/
def takeOver (i : Nat) (existing : List String) : Table (List Value) → Op (List String)
  | [] => pure []
  | (name, docs) :: rest => do
    let _ ← Task.ofResult (CollectionName.check (.string name))
    if existing.contains name then
      Op.log .warning Writer.component "legacy_collection_skipped" [("collection", .string name)]
      takeOver i existing rest
    else
      setDocuments i name docs
      markDirty i name
      return name :: (← takeOver i existing rest)

def removeLegacy : Op Unit := do
  Task.await .work
  let directory ← Task.ofResult
    (Result.ofFault ((← Task.get).directory.takeFile Directory.legacyFile))
  Task.modify fun w => { w with directory }

/-- Splits the legacy file into one file for each collection, and removes it when all are
written. -/
def migrate (i : Nat) : Op Unit := do
  let path := pathOf (← Op.store i) Directory.legacyFile
  let text ← Task.ofResult (Result.ofFault (← lookAt (·.read Directory.legacyFile)))
  let collections ← Task.ofResult (readLegacy path text)
  let migrated ← takeOver i (← lookAt Directory.listed) collections
  Op.flush i
  removeLegacy
  Op.log .info Writer.component "legacy_store_migrated"
    [("path", .string path), ("collections", .list (migrated.map .string))]

def reportLoaded (i : Nat) : Op Unit := do
  let s ← Op.store i
  let documents := s.memory.collections.foldl (fun n (_, docs) => n + docs.length) 0
  Op.log .info Writer.component "store_loaded"
    [("data_dir", .string s.path), ("collections", .int s.memory.collections.length),
     ("documents", .int documents)]

def run (i : Nat) : Op Unit := do
  Task.modify fun w => { w with directory := w.directory.ensure }
  Task.await .work
  if ← lookAt (·.isFile Directory.legacyFile) then migrate i
  let missing ← readCollections i (← lookAt Directory.listed)
  if !missing.isEmpty then
    Op.log .warning Writer.component "collection_files_missing"
      [("collections", .list (missing.map .string))]
    let _ ← Task.each missing (markDirty i)
    Op.flush i
  reportLoaded i

end DocStore.Load
