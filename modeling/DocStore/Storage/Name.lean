import DocStore.Error
/-!
Names of collections, which are also the names of their files.
-/

namespace DocStore.CollectionName

def isFirst (c : Char) : Bool := c.isAlphanum || c == '_'

def isLater (c : Char) : Bool := isFirst c || c == '.' || c == '-'

/-- A letter, digit or underscore, then also dots and hyphens, and at most one line break at the
end. -/
def isWellFormed : List Char → Bool
  | [] => false
  | c :: cs => isFirst c && (cs.dropWhile isLater == [] || cs.dropWhile isLater == ['\n'])

/-- The one name whose file belongs to the store itself. -/
def reserved : String := "protodb"

def fileName (name : String) : String := name ++ ".json"

/-- What the file of a collection is called that goes by a value. -/
def fileOf (name : Value) : String := fileName name.display

/-- Accepts the names that can be given to a collection. -/
def check (name : Value) : Result String :=
  match name.text? with
  | some s =>
    if !isWellFormed s.toList then .error (.invalidName name)
    else if s = reserved then .error (.reservedName name)
    else .ok s
  | none => .error (.invalidName name)

end DocStore.CollectionName
