import DocStore.Task
/-!
Tasks side by side. What is ready goes on in the order in which it became ready, each task up to its
next request; what waits for work done elsewhere goes on when nothing else is ready. A line serves
what it is asked one request after the other, and only then is the one who asked ready again.
-/

namespace DocStore

/-- What becomes of a task that makes a request. -/
inductive Call (σ ρ τ : Type) where
  /-- It goes on after all that is ready. -/
  | turn
  /-- It goes on when the work is done that it waits for. -/
  | work
  /-- It goes on when a line has done a service for it, after all that the line was asked before. -/
  | service (line : Nat) (task : Task σ ρ τ Unit)
  /-- It goes on when a line has nothing more to serve. -/
  | drained (line : Nat)
  /-- It goes on when tasks that run side by side have all ended, with what is made of their
  results. -/
  | all (tasks : List (Task σ ρ τ τ)) (collect : List (Result τ) → τ)

namespace Loop

variable {σ ρ τ : Type}

/-- A task that waits, known by its number. -/
structure Sleeper (σ ρ τ : Type) where
  number : Nat
  next : Result τ → Task σ ρ τ τ

/-- Something that is to go on. -/
inductive Event (σ ρ τ : Type) where
  | task (number : Nat) (task : Task σ ρ τ τ)
  /-- A line takes up the next of its requests. -/
  | line (number : Nat)
  /-- A line goes on with a service for someone. -/
  | service (line : Nat) (asker : Sleeper σ ρ τ) (task : Task σ ρ τ Unit)
  /-- The end of a task is told to the one that waits for it. -/
  | ended (number : Nat)

/-- A line: what it was asked, those who wait until it is done, and whether it is at work. -/
structure Line (σ ρ τ : Type) where
  asked : List (Sleeper σ ρ τ × Task σ ρ τ Unit) := []
  leavers : List (Sleeper σ ρ τ) := []
  busy : Bool := false
  unserved : Nat := 0

/-- Tasks that one waits for together. -/
structure Family (σ ρ τ : Type) where
  parent : Sleeper σ ρ τ
  children : List Nat
  left : Nat
  collect : List (Result τ) → τ

/-- All that is under way. -/
structure State (σ ρ τ : Type) where
  state : σ
  ready : List (Event σ ρ τ) := []
  working : List (Event σ ρ τ) := []
  lines : List (Nat × Line σ ρ τ) := []
  families : List (Family σ ρ τ) := []
  results : List (Nat × Result τ) := []
  last : Nat := 0

namespace State

def later (s : State σ ρ τ) (e : Event σ ρ τ) : State σ ρ τ := { s with ready := s.ready ++ [e] }

def atOnce (s : State σ ρ τ) (e : Event σ ρ τ) : State σ ρ τ := { s with ready := e :: s.ready }

def whenDone (s : State σ ρ τ) (e : Event σ ρ τ) : State σ ρ τ :=
  { s with working := s.working ++ [e] }

def line (s : State σ ρ τ) (n : Nat) : Line σ ρ τ := (s.lines.lookup n).getD {}

def setLine (s : State σ ρ τ) (n : Nat) (line : Line σ ρ τ) : State σ ρ τ :=
  { s with lines := (n, line) :: s.lines.filter (·.1 ≠ n) }

end State

variable [Inhabited τ]

/-- The answer to a request of which only the success counts. -/
def granted : Result τ := .ok default

/-- Puts a request at the end of a line, which takes it up in its turn unless it is at work. -/
def ask (s : State σ ρ τ) (n : Nat) (asker : Sleeper σ ρ τ) (task : Task σ ρ τ Unit) :
    State σ ρ τ :=
  let line := s.line n
  let s := s.setLine n { line with
    asked := line.asked ++ [(asker, task)]
    busy := true
    unserved := line.unserved + 1 }
  if line.busy then s else s.later (.line n)

/-- Starts tasks for one that waits for all of them. -/
def fork (s : State σ ρ τ) (parent : Sleeper σ ρ τ) (tasks : List (Task σ ρ τ τ))
    (collect : List (Result τ) → τ) : State σ ρ τ :=
  let children := (List.range tasks.length).map (s.last + 1 + ·)
  let s := { s with
    last := s.last + tasks.length
    families := ⟨parent, children, tasks.length, collect⟩ :: s.families }
  (children.zip tasks).foldl (fun s (n, task) => s.later (.task n task)) s

def call (s : State σ ρ τ) (who : Sleeper σ ρ τ) : Call σ ρ τ → State σ ρ τ
  | .turn => s.later (.task who.number (who.next granted))
  | .work => s.whenDone (.task who.number (who.next granted))
  | .service n task => ask s n who task
  | .drained n =>
    let line := s.line n
    if line.unserved = 0 then s.atOnce (.task who.number (who.next granted))
    else s.setLine n { line with leavers := line.leavers ++ [who] }
  | .all [] collect => s.atOnce (.task who.number (who.next (.ok (collect []))))
  | .all tasks collect => fork s who tasks collect

/-- Tells the end of a task to the one that waits for it. -/
def ended (s : State σ ρ τ) (number : Nat) : State σ ρ τ :=
  match s.families.find? (·.children.contains number) with
  | none => s
  | some family =>
    let others := s.families.filter (!·.children.contains number)
    if 1 < family.left then
      { s with families := { family with left := family.left - 1 } :: others }
    else
      let results := family.children.map fun n =>
        (s.results.lookup n).getD (.error (.fault .assumption))
      { s with families := others }.later
        (.task family.parent.number (family.parent.next (.ok (family.collect results))))

/-- Ends a service: the asker is ready again, then those who wait for the last service. -/
def serviceEnded (s : State σ ρ τ) (n : Nat) (asker : Sleeper σ ρ τ) (result : Result Unit) :
    State σ ρ τ :=
  let line := s.line n
  let s := s.later (.task asker.number (asker.next (result.map fun _ => default)))
  let leaves := line.unserved ≤ 1
  let s := if leaves then
      line.leavers.foldl (fun s who => s.later (.task who.number (who.next granted))) s
    else s
  let s := s.setLine n { line with
    unserved := line.unserved - 1
    leavers := if leaves then [] else line.leavers }
  s.atOnce (.line n)

def happen (interpret : ρ → Call σ ρ τ) (s : State σ ρ τ) : Event σ ρ τ → State σ ρ τ
  | .task number task =>
    match task.advance s.state with
    | (state, .wait request next) => call { s with state } ⟨number, next⟩ (interpret request)
    | (state, .done result) =>
      { s with state, results := (number, result) :: s.results }.later (.ended number)
    | (state, task) => { s with state }.later (.task number task)
  | .line n =>
    let line := s.line n
    match line.asked with
    | [] => s.setLine n { line with busy := false }
    | (asker, task) :: asked => (s.setLine n { line with asked }).atOnce (.service n asker task)
  | .service n asker task =>
    match task.advance s.state with
    | (state, .wait _ next) => { s with state }.whenDone (.service n asker (next granted))
    | (state, .done result) => serviceEnded { s with state } n asker result
    | (state, task) => { s with state }.later (.service n asker task)
  | .ended number => ended s number

/-- Lets events happen until nothing is to go on, at most a number of times. -/
def steps (interpret : ρ → Call σ ρ τ) : Nat → State σ ρ τ → State σ ρ τ
  | 0, s => s
  | fuel + 1, s =>
    match s.ready, s.working with
    | e :: ready, _ => steps interpret fuel (happen interpret { s with ready } e)
    | [], e :: working => steps interpret fuel (happen interpret { s with working } e)
    | [], [] => s

/-- The number of events after which a run is cut short. -/
def limit : Nat := 1000000000000

/-- Runs tasks side by side: the state in the end and the result of each. -/
def gather (interpret : ρ → Call σ ρ τ) (tasks : List (Task σ ρ τ τ)) (s : σ) :
    σ × List (Result τ) :=
  let numbers := List.range tasks.length
  let ready := (numbers.zip tasks).map fun (n, task) => .task n task
  let s := steps interpret limit { state := s, ready, last := tasks.length }
  (s.state, numbers.map fun n => (s.results.lookup n).getD (.error (.fault .assumption)))

end Loop

end DocStore
