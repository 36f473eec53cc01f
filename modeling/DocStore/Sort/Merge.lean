import DocStore.Sort.Search
/-!
Merging two neighbouring runs. Items are taken one by one until one run wins often enough, then by
searching how many items of a run come next; how often is enough adapts to the data. The shorter run
decides from which end the merge goes.
-/

namespace DocStore.Sort

variable {ε α : Type} [Inhabited α]

/-- The number of items in a row that make searching worth while. -/
def enough : Nat := 7

/-- Two runs of which `i` and `j` items are left to be merged or merged already, as the direction
says, what is merged in the order of merging, and how many wins in a row lead to searching. -/
structure Merging (α : Type) where
  left : Array α
  right : Array α
  i : Nat
  j : Nat
  merged : Array α
  patience : Nat

namespace Merging

def leftItem (m : Merging α) (n : Nat) : α := m.left.getD n default

def rightItem (m : Merging α) (n : Nat) : α := m.right.getD n default

/-- One less patience, but at least one. -/
def hurried (m : Merging α) : Merging α :=
  { m with patience := if 1 < m.patience then m.patience - 1 else m.patience }

def relaxed (m : Merging α) : Merging α := { m with patience := m.patience + 1 }

end Merging

/-- A merged run and the patience that is left for the next merge. -/
abbrev Merged (α : Type) := Array α × Nat

/-! ## From the front: `i` and `j` count what is merged -/

namespace Front

def leftCount (m : Merging α) : Nat := m.left.size - m.i

def rightCount (m : Merging α) : Nat := m.right.size - m.j

/-- What is left follows what is merged. -/
def rest (m : Merging α) : Merged α :=
  (m.merged ++ m.left.extract m.i m.left.size ++ m.right.extract m.j m.right.size, m.patience)

/-- The last item of the left run comes after all of the right run. -/
def lastLeft (m : Merging α) : Merged α :=
  ((m.merged ++ m.right.extract m.j m.right.size).push (m.leftItem m.i), m.patience)

def takeLeft (n : Nat) (m : Merging α) : Merging α :=
  { m with merged := m.merged ++ m.left.extract m.i (m.i + n), i := m.i + n }

def takeRight (n : Nat) (m : Merging α) : Merging α :=
  { m with merged := m.merged ++ m.right.extract m.j (m.j + n), j := m.j + n }

mutual

/-- Takes single items; the counts are those of the last wins in a row. -/
def single (less : Less ε α) : Nat → Nat → Nat → Merging α → Except ε (Merged α)
  | 0, _, _, m => .ok (rest m)
  | fuel + 1, lefts, rights, m => do
    if ← less (m.rightItem m.j) (m.leftItem m.i) then
      let m := takeRight 1 m
      if rightCount m = 0 then return rest m
      if m.patience ≤ rights + 1 then search less fuel m.relaxed
      else single less fuel 0 (rights + 1) m
    else
      let m := takeLeft 1 m
      if leftCount m = 1 then return lastLeft m
      if m.patience ≤ lefts + 1 then search less fuel m.relaxed
      else single less fuel (lefts + 1) 0 m

/-- Takes stretches of items found by searching, as long as they are long enough. -/
def search (less : Less ε α) : Nat → Merging α → Except ε (Merged α)
  | 0, m => .ok (rest m)
  | fuel + 1, m => do
    let m := m.hurried
    let lefts ← gallopRight less (m.rightItem m.j) (fun n => m.leftItem (m.i + n)) (leftCount m) 0
    let m := takeLeft lefts m
    if lefts ≠ 0 && leftCount m = 1 then return lastLeft m
    if lefts ≠ 0 && leftCount m = 0 then return rest m
    let m := takeRight 1 m
    if rightCount m = 0 then return rest m
    let rights ← gallopLeft less (m.leftItem m.i) (fun n => m.rightItem (m.j + n)) (rightCount m) 0
    let m := takeRight rights m
    if rights ≠ 0 && rightCount m = 0 then return rest m
    let m := takeLeft 1 m
    if leftCount m = 1 then return lastLeft m
    if enough ≤ lefts || enough ≤ rights then search less fuel m
    else single less fuel 0 0 m.relaxed

end

/-- Merges from the front, where the first item of the right run comes first. -/
def merge (less : Less ε α) (patience : Nat) (left right : Array α) : Except ε (Merged α) :=
  let m := takeRight 1 ⟨left, right, 0, 0, #[], patience⟩
  if rightCount m = 0 then .ok (rest m)
  else if leftCount m = 1 then .ok (lastLeft m)
  else single less (2 * (left.size + right.size)) 0 0 m

end Front

/-! ## From the back: `i` and `j` count what is left -/

namespace Back

/-- What is left precedes what is merged. -/
def rest (m : Merging α) : Merged α :=
  (m.left.extract 0 m.i ++ m.right.extract 0 m.j ++ m.merged.reverse, m.patience)

/-- The first item of the right run comes before all of the left run. -/
def firstRight (m : Merging α) : Merged α :=
  (#[m.rightItem 0] ++ m.left.extract 0 m.i ++ m.merged.reverse, m.patience)

def takeLeft (n : Nat) (m : Merging α) : Merging α :=
  { m with merged := m.merged ++ (m.left.extract (m.i - n) m.i).reverse, i := m.i - n }

def takeRight (n : Nat) (m : Merging α) : Merging α :=
  { m with merged := m.merged ++ (m.right.extract (m.j - n) m.j).reverse, j := m.j - n }

mutual

/-- Takes single items; the counts are those of the last wins in a row. -/
def single (less : Less ε α) : Nat → Nat → Nat → Merging α → Except ε (Merged α)
  | 0, _, _, m => .ok (rest m)
  | fuel + 1, lefts, rights, m => do
    if ← less (m.rightItem (m.j - 1)) (m.leftItem (m.i - 1)) then
      let m := takeLeft 1 m
      if m.i = 0 then return rest m
      if m.patience ≤ lefts + 1 then search less fuel m.relaxed
      else single less fuel (lefts + 1) 0 m
    else
      let m := takeRight 1 m
      if m.j = 1 then return firstRight m
      if m.patience ≤ rights + 1 then search less fuel m.relaxed
      else single less fuel 0 (rights + 1) m

/-- Takes stretches of items found by searching, as long as they are long enough. -/
def search (less : Less ε α) : Nat → Merging α → Except ε (Merged α)
  | 0, m => .ok (rest m)
  | fuel + 1, m => do
    let m := m.hurried
    let lefts := m.i - (← gallopRight less (m.rightItem (m.j - 1)) m.leftItem m.i (m.i - 1))
    let m := takeLeft lefts m
    if lefts ≠ 0 && m.i = 0 then return rest m
    let m := takeRight 1 m
    if m.j = 1 then return firstRight m
    let rights := m.j - (← gallopLeft less (m.leftItem (m.i - 1)) m.rightItem m.j (m.j - 1))
    let m := takeRight rights m
    if rights ≠ 0 && m.j = 1 then return firstRight m
    if rights ≠ 0 && m.j = 0 then return rest m
    let m := takeLeft 1 m
    if m.i = 0 then return rest m
    if enough ≤ lefts || enough ≤ rights then search less fuel m
    else single less fuel 0 0 m.relaxed

end

/-- Merges from the back, where the last item of the left run comes last. -/
def merge (less : Less ε α) (patience : Nat) (left right : Array α) : Except ε (Merged α) :=
  let m := takeLeft 1 ⟨left, right, left.size, right.size, #[], patience⟩
  if m.i = 0 then .ok (rest m)
  else if m.j = 1 then .ok (firstRight m)
  else single less (2 * (left.size + right.size)) 0 0 m

end Back

/-- Merges two runs: what already stands at its place at both ends is left out. -/
def mergeRuns (less : Less ε α) (patience : Nat) (left right : Array α) :
    Except ε (Merged α) := do
  let start ← gallopRight less (right.getD 0 default) (fun n => left.getD n default) left.size 0
  let tail := left.extract start left.size
  if tail.isEmpty then return (left ++ right, patience)
  let last := tail.getD (tail.size - 1) default
  let stop ← gallopLeft less last (fun n => right.getD n default) right.size (right.size - 1)
  if stop = 0 then return (left ++ right, patience)
  let head := right.extract 0 stop
  let (merged, patience) ←
    if tail.size ≤ head.size then Front.merge less patience tail head
    else Back.merge less patience tail head
  return (left.extract 0 start ++ merged ++ right.extract stop right.size, patience)

end DocStore.Sort
