import DocStore.Query.Order
import DocStore.Value.Order
/-!
Options of a query, and the query itself: filter, sort, offset and limit, in this order.
-/

namespace DocStore

/-- Options as they are given; null stands for an option left out. -/
structure FindOptions where
  filter : Value := .null
  sort : Value := .null
  limit : Value := .null
  offset : Value := .null
deriving Inhabited

namespace FindOptions

/-- Refuses a negative number, and a bound that is no number at all. -/
def checkBound (problem : Value → QueryProblem) (bound : Value) : Result Unit :=
  if bound.isNull then .ok ()
  else match bound.looseNumber? with
  | none => failWith .wrongType
  | some x =>
    if x.compare? (.ofInt 0) == some .lt then .error (.query (problem bound)) else .ok ()

def isUnit (v : Value) : Bool := isSame v (.int 1) || isSame v (.int (-1))

def isBool : Value → Bool
  | .bool _ => true
  | _ => false

def checkDirections : Document → Result Unit
  | [] => .ok ()
  | (field, direction) :: rest =>
    if !isUnit direction || isBool direction then
      .error (.query (.badDirection field direction))
    else checkDirections rest

/-- The sort keys of the options; a specification that counts as false has none. -/
def sortKeys (sort : Value) : Result Document :=
  if sort.truthy then
    match sort with
    | .object keys => .ok keys
    | _ => failWith .noSuchMember
  else .ok []

def checked (options : FindOptions) : Result FindOptions := do
  checkBound .negativeLimit options.limit
  checkBound .negativeOffset options.offset
  checkDirections (← sortKeys options.sort)
  return options

def names : List String := ["filter", "sort", "limit", "offset"]

def isKnown (v : Value) : Bool := v.text?.any names.contains

def namesOf (v : Value) : Result (List Value) :=
  match v.members? with
  | some xs => if Value.areHashable xs then .ok xs else failWith .wrongType
  | none => failWith .wrongType

/-- Drops later members that are the same as an earlier one. -/
def distinct (xs : List Value) : List Value :=
  xs.foldl (fun kept x => if kept.any (isSame x) then kept else kept ++ [x]) []

def sorted (xs : List Value) : Result (List Value) :=
  Result.ofFault (Sort.stableSort Value.less xs)

/-- Options from a value: null for none, else an object of known options. -/
def ofValue (v : Value) : Result FindOptions := do
  if v.isNull then return {}
  let unknown := distinct ((← namesOf v).filter (!isKnown ·))
  if !unknown.isEmpty then
    throw (.query (.unknownOptions (← sorted unknown)))
  let some given := v.entries? | failWith .wrongType
  let option (name : String) : Value := (Catalog.get? given (.string name)).getD .null
  checked {
    filter := option "filter", sort := option "sort", limit := option "limit"
    offset := option "offset" }

end FindOptions

namespace Query

/-- A bound as a number of documents; only whole numbers and booleans count documents. -/
def boundOf : Value → Result Nat
  | .int n => .ok n.toNat
  | .bool b => .ok (if b then 1 else 0)
  | _ => failWith .wrongType

def skip (offset : Value) (docs : List Value) : Result (List Value) := do
  if offset.truthy then return docs.drop (← boundOf offset) else return docs

def limitTo (limit : Value) (docs : List Value) : Result (List Value) := do
  if limit.isNull then return docs else return docs.take (← boundOf limit)

def arrange (sort : Value) (docs : List Value) : Result (List Value) :=
  if sort.truthy then sortDocuments docs sort else .ok docs

def run (options : FindOptions) (docs : List Value) : Result (List Value) := do
  let found ← Filter.run options.filter docs
  let sorted ← arrange options.sort found
  limitTo options.limit (← skip options.offset sorted)

end Query

end DocStore
