import DocStore.Calendar.Date
import DocStore.Number.Extended
import DocStore.Schema.Type
/-!
The values that documents hold and callers pass: what JSON has, and beside it the tuples, sets,
dates, types and makers that callers may hand over before they are stored. How deep they nest has no
bound: walks over them do not run out of depth here.
-/

namespace DocStore

/-- A value of a document, a filter or a schema. The entries of an object keep their order, and no
key occurs twice. A type is text, but one type is told from its name where strictness is asked. -/
inductive Value where
  | null
  | bool (b : Bool)
  | int (n : Int)
  | float (x : Double)
  | string (s : String)
  | fieldType (type : FieldType)
  | list (items : List Value)
  | tuple (items : List Value)
  | set (items : List Value)
  | object (entries : List (String × Value))
  /-- An object of which some key is not a string. -/
  | mapping (entries : List (Value × Value))
  /-- Named parts that belong together under the name of their kind. -/
  | record (kind : String) (parts : List (String × Value))
  | date (day : Date)
  | dateTime (time : DateTime)
  /-- The imaginary unit: a value no field type and no file format knows. -/
  | imaginary
  | maker (m : Maker Value)
deriving Repr, Inhabited

/-- The empty list, the empty object and null, made anew. -/
def Maker.list : Maker Value := ⟨"list", true, .list []⟩

def Maker.object : Maker Value := ⟨"dict", true, .object []⟩

def Maker.null : Maker Value := ⟨"null", false, .null⟩

/-- The entries of an object, in order. -/
abbrev Document := List (String × Value)

namespace Document

/-- The value under a key; an absent key holds null. -/
def get (doc : Document) (key : String) : Value := (doc.lookup key).getD .null

def has (doc : Document) (key : String) : Bool := (doc.lookup key).isSome

/-- Sets a key in place, or adds it at the end. -/
def put (doc : Document) (key : String) (value : Value) : Document :=
  match doc with
  | [] => [(key, value)]
  | (k, v) :: rest => if k = key then (k, value) :: rest else (k, v) :: put rest key value

/-- Sets the entries of `changes` one after the other. -/
def merge (doc changes : Document) : Document :=
  changes.foldl (fun d (k, v) => d.put k v) doc

def drop (doc : Document) (key : String) : Document := doc.filter (·.1 ≠ key)

def keys (doc : Document) : List String := doc.map (·.1)

abbrev pairs (doc : Document) : List (Value × Value) := doc.map fun (k, v) => (.string k, v)

end Document

namespace Value

/-- The number a value stands for; booleans are not numbers. -/
def number? : Value → Option Extended
  | .int n => some (.ofInt n)
  | .float x => some (.ofDouble x)
  | _ => none

/-- The number a value stands for, booleans counting as zero and one. -/
def looseNumber? : Value → Option Extended
  | .bool b => some (.ofInt (if b then 1 else 0))
  | v => v.number?

/-- The text of a value that is text: a string, or a type by its name. -/
def text? : Value → Option String
  | .string s => some s
  | .fieldType t => some t.name
  | _ => none

/-- The items of a list or tuple. -/
def sequence? : Value → Option (List Value)
  | .list xs | .tuple xs => some xs
  | _ => none

def characters (s : String) : List Value := s.toList.map fun c => .string (String.ofList [c])

/-- What a value goes through when it is walked: the members of a collection, the keys of an object,
the characters of a text. -/
def members? : Value → Option (List Value)
  | .list xs | .tuple xs | .set xs => some xs
  | .object es => some (es.map fun (k, _) => .string k)
  | .mapping es => some (es.map (·.1))
  | .string s => some (characters s)
  | .fieldType t => some (characters t.name)
  | _ => none

def isNull : Value → Bool
  | .null => true
  | _ => false

/-- Zero, empty and null count as false. -/
def truthy : Value → Bool
  | .null => false
  | .bool b => b
  | .int n => n != 0
  | .float (.finite _ m _) => m != 0
  | .string s => s != ""
  | .list xs | .tuple xs | .set xs => !xs.isEmpty
  | .object es => !es.isEmpty
  | .mapping es => !es.isEmpty
  | .float _ | .fieldType _ | .record .. | .date _ | .dateTime _ | .imaginary | .maker _ => true

def typeName : Value → String
  | .null => "null"
  | .bool _ => "boolean"
  | .int _ | .float _ => "number"
  | .string _ | .fieldType _ => "string"
  | .list _ | .tuple _ => "array"
  | .set _ => "set"
  | .object _ | .mapping _ => "object"
  | .record kind _ => kind
  | .date _ => "date"
  | .dateTime _ => "datetime"
  | .imaginary => "complex"
  | .maker m => m.typeName

/-- Whether a value is no number though it is of the type of numbers. -/
def isUndefined : Value → Bool
  | .float (.nan _) => true
  | _ => false

mutual

/-- Values that can serve as the key of a table: those that cannot be changed in place. -/
def isHashable : Value → Bool
  | .list _ | .set _ | .object _ | .mapping _ => false
  | .tuple xs => areHashable xs
  | .record _ parts => partsHashable parts
  | _ => true

def areHashable : List Value → Bool
  | [] => true
  | x :: xs => isHashable x && areHashable xs

def partsHashable : List (String × Value) → Bool
  | [] => true
  | (_, x) :: parts => isHashable x && partsHashable parts

end

end Value

end DocStore
