import DocStore.Error
import DocStore.Filter.Like
import DocStore.Value.Equality
/-!
The ten operators that a filter may apply to the value of a field.
-/

namespace DocStore

inductive Operator where
  | eq | ne | gt | gte | lt | lte
  | isIn | notIn
  | like
  | hasValue
deriving DecidableEq, Repr

namespace Operator

def all : List Operator := [.eq, .ne, .gt, .gte, .lt, .lte, .isIn, .notIn, .like, .hasValue]

/-- The key that stands for an operator in a filter. -/
def tag : Operator → String
  | .eq => "$eq"
  | .ne => "$ne"
  | .gt => "$gt"
  | .gte => "$gte"
  | .lt => "$lt"
  | .lte => "$lte"
  | .isIn => "$in"
  | .notIn => "$nin"
  | .like => "$like"
  | .hasValue => "$exists"

def name : Operator → String
  | .eq => "EQ"
  | .ne => "NE"
  | .gt => "GT"
  | .gte => "GTE"
  | .lt => "LT"
  | .lte => "LTE"
  | .isIn => "IN"
  | .notIn => "NIN"
  | .like => "LIKE"
  | .hasValue => "EXISTS"

def ofTag? (s : String) : Option Operator := all.find? (·.tag == s)

/-- The operator a key stands for; a tag of any type that cannot be a key of a table is refused. -/
def ofValue (v : Value) : Result Operator :=
  if !v.isHashable then failWith .wrongType
  else match v.text?.bind ofTag? with
  | some op => .ok op
  | none => .error (.unknownOperator v)

/-- Whether a number is no number at all. An integer is asked as a double, so one beyond the range
of doubles fails. -/
def isUndefined : Value → Result Bool
  | .int n => if fitsDouble n then .ok false else failWith .outOfRange
  | .float (.nan _) => .ok true
  | _ => .ok false

def textOrder (a b : String) : Ordering := if a < b then .lt else if a = b then .eq else .gt

/-- The order of two numbers or two texts; other values have none. -/
def order? (v w : Value) : Result (Option Ordering) :=
  match v.number?, w.number? with
  | some x, some y => do
    if ← isUndefined v then return none
    if ← isUndefined w then return none
    return x.compare? y
  | _, _ =>
    match v.text?, w.text? with
    | some a, some b => .ok (some (textOrder a b))
    | _, _ => .ok none

def isAmong (v : Value) (candidates : List Value) : Bool := candidates.any (strictEq v)

/-- Applies an operator to a field's value, null when the field is absent. -/
def apply (op : Operator) (v operand : Value) : Result Bool :=
  match op with
  | .eq => .ok (strictEq v operand)
  | .ne => .ok (!strictEq v operand)
  | .gt => do return (← order? v operand) == some .gt
  | .gte => do return (← order? v operand).any (· != .lt)
  | .lt => do return (← order? v operand) == some .lt
  | .lte => do return (← order? v operand).any (· != .gt)
  | .isIn =>
    match operand.sequence? with
    | some candidates => .ok (isAmong v candidates)
    | none => .ok false
  | .notIn =>
    match operand.sequence? with
    | some candidates => .ok (!isAmong v candidates)
    | none => .ok true
  | .like =>
    match v.text?, operand.text? with
    | some text, some pattern => .ok (Like.isMatch pattern text)
    | _, _ => .ok false
  | .hasValue => .ok (if operand.truthy then !v.isNull else v.isNull)

end Operator

end DocStore
