/-!
Searches in a sorted sequence for the first place at which a test holds. The sequence is given by
its items and its length; the test may fail, and need not fit the order.
-/

namespace DocStore.Sort

variable {ε α : Type}

/-- A comparison that may fail: whether an item comes before another. -/
abbrev Less (ε α : Type) := α → α → Except ε Bool

/-- The first place from `low` below `high` at which the test holds, by halving. -/
def bisect (test : Nat → Except ε Bool) : Nat → Nat → Nat → Except ε Nat
  | 0, low, _ => .ok low
  | fuel + 1, low, high =>
    if high ≤ low then .ok low
    else do
      let middle := low + (high - low) / 2
      if ← test middle then bisect test fuel low middle else bisect test fuel (middle + 1) high

/-- Widens a step while the test holds at it and it stays below the limit: the last step that held,
and the next one, which is at most the limit. -/
def widen (test : Nat → Except ε Bool) (limit : Nat) : Nat → Nat → Nat → Except ε (Nat × Nat)
  | 0, last, step => .ok (last, min step limit)
  | fuel + 1, last, step =>
    if limit ≤ step then .ok (last, limit)
    else do
      if ← test step then widen test limit fuel step (2 * step + 1) else return (last, step)

/-- The first of `length` places at which the test holds, searched in widening steps from `hint`. -/
def gallop (test : Nat → Except ε Bool) (length hint : Nat) : Except ε Nat := do
  if ← test hint then
    let (last, step) ← widen (fun n => test (hint - n)) (hint + 1) length 0 1
    bisect test length (hint + 1 - step) (hint - last)
  else
    let beyond (n : Nat) : Except ε Bool := do return !(← test (hint + n))
    let (last, step) ← widen beyond (length - hint) length 0 1
    bisect test length (hint + last + 1) (hint + step)

variable [Inhabited α]

/-- The first place whose item does not come before a key. -/
def gallopLeft (less : Less ε α) (key : α) (item : Nat → α) (length hint : Nat) : Except ε Nat :=
  gallop (fun n => do return !(← less (item n) key)) length hint

/-- The first place whose item comes after a key. -/
def gallopRight (less : Less ε α) (key : α) (item : Nat → α) (length hint : Nat) : Except ε Nat :=
  gallop (fun n => less key (item n)) length hint

end DocStore.Sort
