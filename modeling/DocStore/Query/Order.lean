import DocStore.Filter.Basic
import DocStore.Sort.Basic
/-!
The order of documents under a sort specification: an object of fields with directions, earlier
fields first. Absent and null values come last when ascending and first when descending; of present
values booleans come before numbers, numbers before strings, and all else last by its literal.
-/

namespace DocStore.Query

/-- The family that decides between values of different types. -/
def rank : Value → Nat
  | .bool _ => 0
  | .int _ | .float _ => 1
  | .string _ | .fieldType _ => 2
  | _ => 3

/-- The order of two values that are not null. -/
def compareValues (v w : Value) : Ordering :=
  if rank v ≠ rank w then compare (rank v) (rank w)
  else match v.looseNumber?, w.looseNumber? with
  | some x, some y => (x.compare? y).getD .eq
  | _, _ =>
    match v.text?, w.text? with
    | some a, some b => Operator.textOrder a b
    | _, _ => Operator.textOrder v.literal w.literal

/-- A direction as the order it gives to an ascending pair: `lt` keeps, `gt` reverses, `eq` leaves
every pair undecided. -/
def directionOf (direction : Value) : Result Ordering :=
  match direction.looseNumber? with
  | none => failWith .wrongType
  | some x =>
    match (Extended.ofInt 0).compare? x with
    | some o => .ok o
    | none => .ok .eq

/-- Applies a direction to the order of an ascending pair. -/
def directed (direction : Value) (o : Ordering) : Result Ordering := do
  match ← directionOf direction with
  | .lt => return o
  | .gt => return o.swap
  | .eq => return .eq

/-- The order of two documents by the first field that tells them apart. -/
def compareDocuments (a b : Value) : Document → Result Ordering
  | [] => .ok .eq
  | (field, direction) :: rest => do
    let v ← Filter.fieldOf a (.string field)
    let w ← Filter.fieldOf b (.string field)
    if v.isNull && w.isNull then compareDocuments a b rest
    else if v.isNull then directed direction .gt
    else if w.isNull then directed direction .lt
    else match compareValues v w with
      | .eq => compareDocuments a b rest
      | o => directed direction o

def isBefore (keys : Document) (a b : Value) : Result Bool := do
  return (← compareDocuments a b keys) == .lt

/-- Whether a direction keeps or reverses the order. -/
def isDirected (direction : Value) : Bool :=
  match directionOf direction with
  | .ok .lt | .ok .gt => true
  | _ => false

/-- Whether a document has a place in the order that some fields give: it is an object, and no such
field is of the type of numbers without being one. -/
def isPlaced (keys : Document) (doc : Value) : Bool :=
  keys.all fun (field, _) =>
    match Filter.fieldOf doc (.string field) with
    | .ok v => !v.isUndefined
    | .error _ => false

def mayPrecede (keys : Document) (a b : Value) : Bool :=
  match compareDocuments a b keys with
  | .ok .gt => false
  | _ => true

/-- Sorts documents by a specification; equal documents keep their order. Where the specification
gives an order all stable sorts agree, so the plainest is taken. -/
def sortDocuments (docs : List Value) (sort : Value) : Result (List Value) :=
  match sort with
  | .object keys =>
    if keys.all (isDirected ·.2) && docs.all (isPlaced keys) then
      .ok (docs.mergeSort (mayPrecede keys))
    else Sort.stableSort (isBefore keys) docs
  | _ => failWith .noSuchMember

end DocStore.Query
