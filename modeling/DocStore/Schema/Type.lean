/-!
The types a field can have, and what makes a default anew for each document. Both can also stand as
values in documents and declarations. Makers that fail, or that make another value each time, are left out.
-/

namespace DocStore

inductive FieldType where
  | string | number | boolean | date | json | array
deriving DecidableEq, Repr, Inhabited

namespace FieldType

def all : List FieldType := [.string, .number, .boolean, .date, .json, .array]

def name : FieldType → String
  | .string => "string"
  | .number => "number"
  | .boolean => "boolean"
  | .date => "date"
  | .json => "json"
  | .array => "array"

/-- The name of a type as a member of the enumeration of types. -/
def display : FieldType → String
  | .string => "FieldType.STRING"
  | .number => "FieldType.NUMBER"
  | .boolean => "FieldType.BOOLEAN"
  | .date => "FieldType.DATE"
  | .json => "FieldType.JSON"
  | .array => "FieldType.ARRAY"

def ofName? (s : String) : Option FieldType := all.find? (·.name == s)

end FieldType

/-- What makes a value anew each time it is asked: a class or a function, known by its name. -/
structure Maker (α : Type) where
  name : String
  isClass : Bool
  made : α
deriving Repr, Inhabited

namespace Maker

variable {α : Type}

def literal (m : Maker α) : String :=
  if m.isClass then "<class \x27" ++ m.name ++ "\x27>" else "<function>"

def typeName (m : Maker α) : String := if m.isClass then "type" else "function"

end Maker

end DocStore
