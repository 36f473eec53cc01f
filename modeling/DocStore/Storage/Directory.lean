import DocStore.Fault
import DocStore.Storage.Name
import DocStore.Table
/-!
The data directory: a table of entries, read and changed one entry at a time.
-/

namespace DocStore

/-- What stands under a name. -/
inductive Entry where
  /-- A file of UTF-8 text. -/
  | text (s : String)
  /-- A file whose bytes are not UTF-8. -/
  | bytes (data : List UInt8)
  /-- A directory. -/
  | folder
  /-- An entry that is listed and leads nowhere. -/
  | dangling
deriving DecidableEq, Repr, Inhabited

/-- A directory, or none while it has not been made. -/
abbrev Directory := Option (Table Entry)

namespace Directory

def ensure (d : Directory) : Directory := some (d.getD [])

def entry? (d : Directory) (name : String) : Option Entry := d.bind (·.lookup name)

/-- Whether a name is that of a file that can be opened. -/
def isFile (d : Directory) (name : String) : Bool :=
  match d.entry? name with
  | some (.text _) | some (.bytes _) => true
  | _ => false

/-! ## Paths -/

/-- The longest name of an entry, and the longest path, in bytes. -/
def maxName : Nat := 255

def maxPath : Nat := 4095

def split : List Char → List (List Char)
  | [] => [[]]
  | c :: cs =>
    if c == '/' then [] :: split cs
    else match split cs with
      | [] => [[c]]
      | part :: parts => (c :: part) :: parts

/-- The parts of a path that lead somewhere else: neither empty nor a single dot. -/
def parts (path : String) : List String :=
  ((split path.toList).filter fun p => p ≠ [] ∧ p ≠ ['.']).map String.ofList

def isAbsolute (path : String) : Bool := path.toList.head? == some '/'

/-- The name of the entry to which the parts of a path lead, if the directories on the way are
there. The directories inside are empty, and what lies outside is not known. -/
def walk (d : Directory) : Bool → List String → Except Fault (Option String)
  | _, [] => .ok none
  | inside, part :: rest =>
    if maxName < part.utf8ByteSize then .error .system
    else if inside then if part = ".." then walk d false rest else .ok none
    else if rest.isEmpty then .ok (some part)
    else match d.entry? part with
    | some .folder => walk d true rest
    | some (.text _) | some (.bytes _) => .error .notADirectory
    | some .dangling | none => .ok none

/-- The name of the entry to which a path leads, if it leads to one. -/
def locate (d : Directory) (path : String) : Except Fault (Option String) :=
  if path.toList.contains '\x00' then .error .badValue
  else if maxPath < path.utf8ByteSize then .error .system
  else if isAbsolute path then .ok none
  else walk d false (parts path)

/-- The directories inside an empty one that come to be when all on the way to a path are made;
`here` is the place that is reached, and what lies outside is not known. -/
def made (here : List String) : List String → List String
  | [] => []
  | part :: rest =>
    if part = ".." then
      match here.reverse with
      | [] => []
      | _ :: outer => made outer.reverse rest
    else
      let here := here ++ [part]
      "/".intercalate here :: made here rest

/-- The directories that come to be in an empty one when the way to a path is made, by name. -/
def madeOnTheWay (path : String) : Except Fault (List String) :=
  let parts := parts path
  if path.toList.contains '\x00' then .error .badValue
  else if parts.any (maxName < ·.utf8ByteSize) || maxPath < path.utf8ByteSize then .error .system
  else if isAbsolute path then .ok []
  else .ok (sortNames (made [] parts).eraseDups)

/-- A path below the directory, with one separator between its parts. -/
def below (path : String) : Except Fault String :=
  if isAbsolute path then .error .badValue else .ok ("/".intercalate (parts path))

/-! ## Reading and writing -/

def read (d : Directory) (name : String) : Except Fault String :=
  match d.entry? name with
  | some (.text s) => .ok s
  | some (.bytes _) => .error .malformedText
  | some .folder => .error .isDirectory
  | some .dangling | none => .error .fileNotFound

/-- How many bytes the name of an unfinished file is longer than that of the finished one. -/
def unfinished : Nat := 14

/-- Puts a finished file in the place of a name at once; a directory is not replaced. -/
def replace (d : Directory) (name text : String) : Except Fault Directory :=
  match d with
  | none => .error .fileNotFound
  | some entries =>
    if maxName < name.utf8ByteSize + unfinished then .error .system
    else match entries.lookup name with
    | some .folder => .error .isDirectory
    | _ => .ok (some (Table.put entries name (.text text)))

/-- Removes the file at a path; a missing one is no error. -/
def remove (d : Directory) (path : String) : Except Fault Directory :=
  match d.locate path with
  | .error f => .error f
  | .ok none => .ok d
  | .ok (some name) =>
    match d.entry? name with
    | some .folder => .error .isDirectory
    | _ => .ok (d.map (Table.drop · name))

def takeFile (d : Directory) (name : String) : Except Fault Directory :=
  match d.entry? name with
  | none => .error .fileNotFound
  | some .folder => .error .isDirectory
  | some _ => .ok (d.map (Table.drop · name))

/-- Puts an entry under a name, whatever stood there. -/
def put (d : Directory) (name : String) (e : Entry) : Directory :=
  some (Table.put (d.getD []) name e)

def takeAway (d : Directory) (name : String) : Except Fault Directory :=
  match d.entry? name with
  | none => .error .fileNotFound
  | some _ => .ok (some (Table.drop (d.getD []) name))

/-- What a file name is without `.json`, if it ends so. -/
def stem? (file : String) : Option String :=
  let tail := ".json".toList
  let cs := file.toList
  if tail.isSuffixOf cs then some (String.ofList (cs.take (cs.length - tail.length))) else none

/-- The file of the layout with all collections in one file. -/
def legacyFile : String := CollectionName.fileName CollectionName.reserved

/-- The collections that have an entry, in the order of their file names; hidden names and the
legacy file are left out. -/
def listed (d : Directory) : List String :=
  (sortNames (Table.names (d.getD []))).filterMap fun file =>
    if file.toList.head? == some '.' || file = legacyFile then none else stem? file

end Directory

end DocStore
