import DocStore.Fault
import DocStore.Value.Equality
/-!
The natural order of values: numbers by their place, texts by code points, sequences by their first
difference, sets by inclusion, days and times by the calendar. Values of other types, or of two
families, have none.
-/

namespace DocStore

/-- Whether one time comes before another; a time with an offset and one without cannot be
compared. -/
def DateTime.before (a b : DateTime) : Except Fault Bool :=
  if a.offset.isSome = b.offset.isSome then .ok (a.instant < b.instant) else .error .wrongType

namespace Value

/-- Whether each member of a set is in the other, which has more. -/
def isProperSubset (xs ys : List Value) : Bool :=
  xs.length < ys.length && xs.all fun x => ys.any (isSame x)

def lessAtom (v w : Value) : Except Fault Bool :=
  match v.looseNumber?, w.looseNumber? with
  | some x, some y => .ok (x.compare? y == some .lt)
  | _, _ =>
    match v.text?, w.text? with
    | some a, some b => .ok (a < b)
    | _, _ => .error .wrongType

mutual

def less : Value → Value → Except Fault Bool
  | .list xs, .list ys => lessAll xs ys
  | .tuple xs, .tuple ys => lessAll xs ys
  | .set xs, .set ys => .ok (isProperSubset xs ys)
  | .date a, .date b => .ok (a.ordinal < b.ordinal)
  | .dateTime a, .dateTime b => a.before b
  | v, w => lessAtom v w

/-- The order of two sequences: that of their first members that are not the same, or that of their
lengths. -/
def lessAll : List Value → List Value → Except Fault Bool
  | [], ys => .ok !ys.isEmpty
  | _ :: _, [] => .ok false
  | x :: xs, y :: ys => if isSame x y then lessAll xs ys else less x y

end

end Value

end DocStore
