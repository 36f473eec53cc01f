import DocStore.Filter.Operator
import DocStore.Value.Catalog
/-!
Filters: an object whose entries are conditions on fields, all of which a document must meet. A
condition is an object of operators, or a value that the field must be strictly equal to.
-/

namespace DocStore.Filter

def isOperatorKey (key : String) : Bool := key.toList.head? == some '$'

/-- An object with at least one key that starts with `$`. -/
def isOperatorObject (v : Value) : Bool :=
  (v.entries?.getD []).any fun (key, _) => key.text?.any isOperatorKey

/-- Applies the operators of a condition in order until one fails. -/
def meetsAll (v : Value) : Catalog Value → Result Bool
  | [] => .ok true
  | (key, operand) :: rest => do
    let op ← Operator.ofValue key
    if ← op.apply v operand then meetsAll v rest else return false

def meets (v condition : Value) : Result Bool :=
  if isOperatorObject condition then meetsAll v (condition.entries?.getD [])
  else .ok (strictEq v condition)

/-- The value of a document's field, null when it is absent. Only objects have fields, and only what
can be the key of a table names one. -/
def fieldOf (doc field : Value) : Result Value :=
  match doc with
  | .object _ | .mapping _ =>
    if field.isHashable then .ok ((doc.entry? field).getD .null) else failWith .wrongType
  | _ => failWith .noSuchMember

/-- Checks the conditions in order until one is not met. -/
def meetsConditions (doc : Value) : Catalog Value → Result Bool
  | [] => .ok true
  | (field, condition) :: rest => do
    let v ← fieldOf doc field
    if ← meets v condition then meetsConditions doc rest else return false

def accepts (filter doc : Value) : Result Bool :=
  match filter.entries? with
  | some conditions => meetsConditions doc conditions
  | none => failWith .noSuchMember

/-- Refuses the first key of an operator object that is no operator. -/
def checkOperators : Catalog Value → Result Unit
  | [] => .ok ()
  | (key, _) :: rest => do
    let _ ← Operator.ofValue key
    checkOperators rest

def checkConditions : Catalog Value → Result Unit
  | [] => .ok ()
  | (_, condition) :: rest => do
    if isOperatorObject condition then checkOperators (condition.entries?.getD [])
    checkConditions rest

/-- Refuses unknown operators before any document is read. -/
def check (filter : Value) : Result Unit :=
  match filter.entries? with
  | some conditions => checkConditions conditions
  | none => failWith .noSuchMember

def select (filter : Value) : List Value → Result (List Value)
  | [] => .ok []
  | doc :: docs => do
    let kept ← accepts filter doc
    let rest ← select filter docs
    return if kept then doc :: rest else rest

/-- The documents that match a filter; a filter that counts as false selects all. -/
def run (filter : Value) (docs : List Value) : Result (List Value) :=
  if filter.truthy then do
    check filter
    select filter docs
  else .ok docs

/-- The number of documents that match a filter, counted without collecting them. -/
def countAccepted (filter : Value) : List Value → Result Nat
  | [] => .ok 0
  | doc :: docs => do
    let kept ← accepts filter doc
    let rest ← countAccepted filter docs
    return if kept then rest + 1 else rest

def count (filter : Value) (docs : List Value) : Result Nat :=
  if filter.truthy then do
    check filter
    countAccepted filter docs
  else .ok docs.length

end DocStore.Filter
