import DocStore.Value.Basic
/-!
Three equalities. Strict equality keeps booleans apart from numbers and lets a tuple equal a list;
loose equality counts a boolean as a number, a type as its name, and keeps tuples apart from lists.
Both compare integers and floats exactly, and what is not a number equals nothing. Sameness is loose
equality but for what is not a number, which is the same as itself: tables and sets go by it, and objects
by their keys, whatever these are, in each of the three.
-/

namespace DocStore

/-- Two places on the line are equal; an undefined one equals nothing. -/
def Extended.same (x y : Extended) : Bool := x.compare? y == some .eq

/-- Two values without parts, other than numbers and text, are equal. -/
def Value.sameAtom : Value → Value → Bool
  | .null, .null => true
  | .date a, .date b => a == b
  | .dateTime a, .dateTime b => a.sameInstant b
  | .imaginary, .imaginary => true
  | .maker a, .maker b => a.name == b.name
  | _, _ => false

/-- Two numbers, two booleans, or two texts of one type are equal. -/
def Value.sameScalar : Value → Value → Bool
  | .bool a, .bool b => a == b
  | .string a, .string b => a == b
  | .fieldType a, .fieldType b => a == b
  | v, w =>
    match v.number?, w.number? with
    | some x, some y => x.same y
    | _, _ => Value.sameAtom v w

/-- The same as numbers, booleans included, as texts, or as values without parts. -/
def Value.sameLoose : Value → Value → Bool
  | .float (.nan a), .float (.nan b) => a == b
  | v, w =>
    match v.looseNumber?, w.looseNumber? with
    | some x, some y => x.same y
    | _, _ =>
      match v.text?, w.text? with
      | some a, some b => a == b
      | _, _ => Value.sameAtom v w

mutual

def isSame : Value → Value → Bool
  | .list xs, .list ys => areSame xs ys
  | .tuple xs, .tuple ys => areSame xs ys
  | .set xs, .set ys => xs.length == ys.length && sameMembers xs ys
  | .object es, .object fs => es.length == fs.length && sameEntries es fs
  | .object es, .mapping fs => es.length == fs.length && sameNamed es fs
  | .mapping es, .object fs => es.length == fs.length && samePairs es (Document.pairs fs)
  | .mapping es, .mapping fs => es.length == fs.length && samePairs es fs
  | .record a es, .record b fs => a == b && es.length == fs.length && sameEntries es fs
  | v, w => Value.sameLoose v w
termination_by structural v => v

def areSame : List Value → List Value → Bool
  | [], [] => true
  | x :: xs, y :: ys => isSame x y && areSame xs ys
  | _, _ => false
termination_by structural v => v

/-- Every member of the first set is a member of the second. -/
def sameMembers : List Value → List Value → Bool
  | [], _ => true
  | x :: xs, ys => ys.any (isSame x ·) && sameMembers xs ys
termination_by structural v => v

/-- Every entry of the first object has one that is the same under its key in the second. -/
def sameEntries : Document → Document → Bool
  | [], _ => true
  | (k, v) :: es, fs =>
    (match fs.lookup k with
      | some w => isSame v w
      | none => false) && sameEntries es fs
termination_by structural v => v

/-- The same where the keys of the second object may be any values. -/
def sameNamed : Document → List (Value × Value) → Bool
  | [], _ => true
  | (k, v) :: es, fs =>
    fs.any (fun (l, w) => l.text? == some k && isSame v w) && sameNamed es fs
termination_by structural v => v

/-- The same where the keys of both may be any values. -/
def samePairs : List (Value × Value) → List (Value × Value) → Bool
  | [], _ => true
  | (k, v) :: es, fs => fs.any (fun (l, w) => isSame k l && isSame v w) && samePairs es fs
termination_by structural v => v

end

def looseEq (v w : Value) : Bool := !v.isUndefined && isSame v w

mutual

def strictEq : Value → Value → Bool
  | .list xs, w | .tuple xs, w =>
    match w.sequence? with
    | some ys => strictEqAll xs ys
    | none => false
  | .object es, .object fs => es.length == fs.length && strictEqEntries es fs
  | .object es, .mapping fs => es.length == fs.length && strictEqNamed es fs
  | .mapping es, .object fs => es.length == fs.length && strictEqPairs es (Document.pairs fs)
  | .mapping es, .mapping fs => es.length == fs.length && strictEqPairs es fs
  | .set xs, .set ys => xs.length == ys.length && sameMembers xs ys
  | .record a es, .record b fs => a == b && es.length == fs.length && sameEntries es fs
  | v, w => Value.sameScalar v w
termination_by structural v => v

def strictEqAll : List Value → List Value → Bool
  | [], [] => true
  | x :: xs, y :: ys => strictEq x y && strictEqAll xs ys
  | _, _ => false
termination_by structural v => v

/-- Every entry of the first object has an equal one under its key in the second. -/
def strictEqEntries : Document → Document → Bool
  | [], _ => true
  | (k, v) :: es, fs =>
    (match fs.lookup k with
      | some w => strictEq v w
      | none => false) && strictEqEntries es fs
termination_by structural v => v

def strictEqNamed : Document → List (Value × Value) → Bool
  | [], _ => true
  | (k, v) :: es, fs =>
    fs.any (fun (l, w) => l.text? == some k && strictEq v w) && strictEqNamed es fs
termination_by structural v => v

def strictEqPairs : List (Value × Value) → List (Value × Value) → Bool
  | [], _ => true
  | (k, v) :: es, fs => fs.any (fun (l, w) => isSame k l && strictEq v w) && strictEqPairs es fs
termination_by structural v => v

end

end DocStore
