import DocStore.Calendar.Iso
import DocStore.Value.Literal
/-!
Where timestamps and ids come from: a clock that is read, and a counter that is raised.
-/

namespace DocStore

/-- A source of timestamps and ids: the instant of the next reading, the step between readings, and
the number of the last id. -/
structure Source where
  next : Int
  step : Int
  lastId : Nat
deriving Repr, Inhabited

namespace Source

/-- Text of an instant, empty when it lies outside the calendar. -/
def stamp (micros : Int) : String :=
  match DateTime.ofInstant micros with
  | some t => String.ofList (Iso.timestampText t)
  | none => ""

def now (s : Source) : String × Source := (stamp s.next, { s with next := s.next + s.step })

def idDigits : Nat := 12

/-- Makes the next id: what it starts with, an underscore, and the counter in hexadecimal. -/
def newId (s : Source) (start : String) : String × Source :=
  let n := s.lastId + 1
  (start ++ "_" ++ String.ofList (Literal.hex idDigits n), { s with lastId := n })

end Source

end DocStore
