import DocStore.Sort.Merge
/-!
A stable sort for any comparison, also one that is no order and one that may fail. Rising and
strictly falling runs are taken as they are, short ones are made longer by insertion, and runs are
merged by the powers of the places between them.
-/

namespace DocStore.Sort

variable {ε α : Type} [Inhabited α]

/-! ## Runs -/

/-- How many items from a place on continue a run: strictly falling, or not falling. -/
def runLength (less : Less ε α) (xs : Array α) (falling : Bool) : Nat → Nat → Except ε Nat
  | 0, _ => .ok 0
  | left + 1, place => do
    if (← less (xs.getD place default) (xs.getD (place - 1) default)) == falling then
      return (← runLength less xs falling left (place + 1)) + 1
    else return 0

/-- The run at a place in rising order; `left` counts the items from there to the end. -/
def runAt (less : Less ε α) (xs : Array α) (place left : Nat) : Except ε (Array α) := do
  if left < 2 then return xs.extract place (place + left)
  let falling ← less (xs.getD (place + 1) default) (xs.getD place default)
  let length ← runLength less xs falling (left - 2) (place + 2)
  let run := xs.extract place (place + 2 + length)
  return if falling then run.reverse else run

/-- Inserts an item into a run after every item found not greater. -/
def insert (less : Less ε α) (run : Array α) (x : α) : Except ε (Array α) := do
  let place ← bisect (fun n => less x (run.getD n default)) run.size 0 run.size
  return (run.extract 0 place).push x ++ run.extract place run.size

/-- The least length of a run: all of a short list, else between 32 and 64 such that the number of
runs is at most a power of two. -/
def leastRun (length : Nat) : Nat := go length length 0
where
  go : Nat → Nat → Nat → Nat
    | 0, n, odd => n + odd
    | fuel + 1, n, odd => if n < 64 then n + odd else go fuel (n / 2) (max odd (n % 2))

/-! ## Merging -/

/-- A run at its place, with the power of the place after it. -/
structure Run (α : Type) where
  start : Nat
  items : Array α
  power : Nat := 0

/-- The number of bits after which the midpoints of two neighbouring runs differ as parts of the
whole; the midpoints are given twice. -/
def bits (whole : Nat) : Nat → Nat → Nat → Nat
  | 0, _, _ => 0
  | fuel + 1, a, b =>
    if whole ≤ a then 1 + bits whole fuel (2 * (a - whole)) (2 * (b - whole))
    else if whole ≤ b then 1
    else 1 + bits whole fuel (2 * a) (2 * b)

/-- The power of the place between a run and one of a given length after it. -/
def power (whole : Nat) (run : Run α) (next : Nat) : Nat :=
  let a := 2 * run.start + run.items.size
  bits whole (Nat.log2 whole + 4) a (a + run.items.size + next)

/-- Runs that wait to be merged, the last first, and the patience for merges. -/
structure Pending (α : Type) where
  runs : List (Run α)
  patience : Nat

def joined (less : Less ε α) (patience : Nat) (a b : Run α) : Except ε (Run α × Nat) := do
  let (items, patience) ← mergeRuns less patience a.items b.items
  return ({ a with items }, patience)

/-- Merges the last two runs as long as the power of the place between them is greater. -/
def collapse (less : Less ε α) (limit : Nat) : Nat → Pending α → Except ε (Pending α)
  | 0, p => .ok p
  | fuel + 1, p =>
    match p.runs with
    | b :: a :: rest =>
      if limit < a.power then do
        let (run, patience) ← joined less p.patience a b
        collapse less limit fuel ⟨run :: rest, patience⟩
      else .ok p
    | _ => .ok p

def addRun (less : Less ε α) (whole start : Nat) (items : Array α) (p : Pending α) :
    Except ε (Pending α) := do
  match p.runs with
  | [] => return { p with runs := [⟨start, items, 0⟩] }
  | last :: _ =>
    let between := power whole last items.size
    let p ← collapse less between p.runs.length p
    let runs := match p.runs with
      | last :: rest => { last with power := between } :: rest
      | [] => []
    return { p with runs := ⟨start, items, 0⟩ :: runs }

/-- Merges all runs into one, the shorter neighbour of the last but one first. -/
def mergeAll (less : Less ε α) : Nat → Pending α → Except ε (Array α)
  | 0, p => .ok (p.runs.reverse.foldl (fun items run => items ++ run.items) #[])
  | fuel + 1, p =>
    match p.runs with
    | [] => .ok #[]
    | [run] => .ok run.items
    | c :: b :: a :: rest =>
      if a.items.size < c.items.size then do
        let (run, patience) ← joined less p.patience a b
        mergeAll less fuel ⟨c :: run :: rest, patience⟩
      else do
        let (run, patience) ← joined less p.patience b c
        mergeAll less fuel ⟨run :: a :: rest, patience⟩
    | [b, a] => do
      let (run, patience) ← joined less p.patience a b
      mergeAll less fuel ⟨[run], patience⟩

/-- Takes the items from a place on as runs, each of at least a length but for the last. -/
def takeRuns (less : Less ε α) (xs : Array α) (least : Nat) :
    Nat → Nat → Pending α → Except ε (Pending α)
  | 0, _, p => .ok p
  | fuel + 1, place, p =>
    if xs.size ≤ place then .ok p
    else do
      let run ← runAt less xs place (xs.size - place)
      let wanted := min least (xs.size - place)
      let further := xs.extract (place + run.size) (place + wanted)
      let run ← further.foldlM (insert less) run
      takeRuns less xs least fuel (place + run.size) (← addRun less xs.size place run p)

/-- Sorts a list; the comparison may fail, and then so does the sort. -/
def stableSort (less : Less ε α) (items : List α) : Except ε (List α) := do
  let xs := items.toArray
  let pending ← takeRuns less xs (leastRun xs.size) xs.size 0 ⟨[], enough⟩
  return (← mergeAll less xs.size pending).toList

end DocStore.Sort
