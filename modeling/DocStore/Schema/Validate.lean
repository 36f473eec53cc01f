import DocStore.Schema.Field
import DocStore.Value.Catalog
/-!
Checking a document against a schema. Fields are taken in the order of the schema, and for each the
default, presence, type, bounds and enumeration in this order; the first violation ends the check.
-/

namespace DocStore.Schema

/-- Why a value does not fit a type; null fits every type. -/
def mismatch (type : FieldType) (v : Value) : Option Violation :=
  match type, v with
  | _, .null => none
  | .string, .string _ | .string, .fieldType _ => none
  | .string, v => some (.mismatch "string" v)
  | .number, .float (.nan _) => some .notANumber
  | .number, .int _ | .number, .float _ => none
  | .number, v => some (.mismatch "number" v)
  | .boolean, .bool _ => none
  | .boolean, v => some (.mismatch "boolean" v)
  | .date, .string s => if (Iso.parse? s).isSome then none else some .invalidDate
  | .date, .fieldType _ => some .invalidDate
  | .date, .date _ | .date, .dateTime _ => none
  | .date, v => some (.mismatch "date string or datetime" v)
  | .array, .list _ | .array, .tuple _ => none
  | .array, v => some (.mismatch "array" v)
  | .json, _ => none

/-- The form in which an accepted value is stored. -/
def coerce (type : FieldType) (v : Value) : Result Value :=
  match type, v with
  | .date, .dateTime t =>
    match Iso.timestamp? t with
    | some text => .ok (.string (String.ofList text))
    | none => failWith .outOfRange
  | .date, .date d => .ok (.string (String.ofList (Iso.dateText d)))
  | .array, .tuple xs => .ok (.list xs)
  | _, v => .ok v

/-- The order of a number and a bound; there is none for a bound of null. -/
def compareBound (x : Extended) (bound : Value) : Result (Option Ordering) :=
  if bound.isNull then .ok none
  else match bound.looseNumber? with
  | some b => .ok (x.compare? b)
  | none => failWith .wrongType

def checkLength (field : String) (f : Field) (s : String) : Result Unit := do
  let length := Extended.ofInt s.length
  if (← compareBound length f.minLength) == some .lt then
    throw (.validation (.string field) (.tooShort f.minLength s.length))
  if (← compareBound length f.maxLength) == some .gt then
    throw (.validation (.string field) (.tooLong f.maxLength s.length))

def checkRange (field : String) (f : Field) (x : Extended) : Result Unit := do
  if (← compareBound x f.min) == some .lt then throw (.validation (.string field) (.tooSmall f.min))
  if (← compareBound x f.max) == some .gt then throw (.validation (.string field) (.tooLarge f.max))

def checkOptions (field : String) (f : Field) (v : Value) : Result Unit :=
  match f.options with
  | none => .ok ()
  | some options =>
    if options.any (strictEq v) then .ok ()
    else .error (.validation (.string field) (.notAllowed options))

/-- Bounds hold for text in string fields and numbers in number fields; the enumeration holds
for every value, null included. -/
def checkConstraints (field : String) (f : Field) (v : Value) : Result Unit := do
  match f.type, v.text?, v.number? with
  | .string, some s, _ => checkLength field f s
  | .number, _, some x => checkRange field f x
  | _, _, _ => pure ()
  checkOptions field f v

/-- How a document is checked: whole when it is created, or as a change to a stored one, where
absent fields stay absent and fields outside the schema are kept. -/
inductive Mode where
  | create
  | update
deriving DecidableEq, Repr

/-- The value given for a field, if any; only objects give values. -/
def given (data : Value) (field : String) : Result (Option Value) :=
  match data with
  | .object _ | .mapping _ => .ok (data.entry? (.string field))
  | .string _ | .fieldType _ | .list _ | .tuple _ | .set _ => failWith .noSuchMember
  | _ => failWith .wrongType

/-- The stored form of one field, or nothing when the field stays absent. -/
def fieldValue (mode : Mode) (field : String) (f : Field) (given : Option Value) :
    Result (Option Value) := do
  let value := match given, mode with
    | none, .create => f.default.map Value.made
    | g, _ => g
  if mode = .create && f.required.truthy && (value.getD .null).isNull then
    throw (.validation (.string field) .required)
  match value with
  | none => return none
  | some v =>
    if let some violation := mismatch f.type v then throw (.validation (.string field) violation)
    checkConstraints field f v
    return some (← coerce f.type v)

def fieldValues (mode : Mode) (data : Value) : Schema → Result Document
  | [] => .ok []
  | (field, f) :: rest => do
    let v ← fieldValue mode field f (← given data field)
    let values ← fieldValues mode data rest
    return match v with
      | some v => (field, v) :: values
      | none => values

/-- The entries of a change that the schema does not name. A change has strings for keys: what becomes of
one with a key that is not a string is left out, and it is refused here. -/
def others (schema : Schema) (data : Value) : Result Document :=
  match data with
  | .object es => .ok (es.filter fun (k, _) => (schema.lookup k).isNone)
  | _ => failWith .noSuchMember

def validate (schema : Schema) (mode : Mode) (data : Value) : Result Document := do
  let values ← fieldValues mode data schema
  match mode with
  | .create => return values
  | .update => return values ++ (← others schema data)

end DocStore.Schema
