import DocStore.Error
/-!
Tasks: operations that read and change a state and now and then make a request and wait for its
answer. What a task does up to its next request is done at once, and a task that waits is not cancelled.
-/

namespace DocStore

/-- An operation on a state `σ` with requests `ρ`, answered by `τ`, that ends with a result or an
error. -/
inductive Task (σ ρ τ α : Type) where
  | done (result : Result α)
  | read (next : σ → Task σ ρ τ α)
  | write (state : σ) (next : Task σ ρ τ α)
  | wait (request : ρ) (next : Result τ → Task σ ρ τ α)

namespace Task

variable {σ ρ τ α β : Type}

instance : Inhabited (Task σ ρ τ α) := ⟨.done (.error (.fault .assumption))⟩

protected def bind (t : Task σ ρ τ α) (f : α → Task σ ρ τ β) : Task σ ρ τ β :=
  match t with
  | .done (.ok a) => f a
  | .done (.error e) => .done (.error e)
  | .read next => .read fun s => (next s).bind f
  | .write s next => .write s (next.bind f)
  | .wait request next => .wait request fun answer => (next answer).bind f

instance : Monad (Task σ ρ τ) where
  pure a := .done (.ok a)
  bind := Task.bind

/-- Turns the error of a task into a result. -/
def attempt : Task σ ρ τ α → Task σ ρ τ (Result α)
  | .done result => .done (.ok result)
  | .read next => .read fun s => (next s).attempt
  | .write s next => .write s next.attempt
  | .wait request next => .wait request fun answer => (next answer).attempt

def raise (e : Error) : Task σ ρ τ α := .done (.error e)

def ofResult (r : Result α) : Task σ ρ τ α := .done r

def get : Task σ ρ τ σ := .read fun s => .done (.ok s)

def set (s : σ) : Task σ ρ τ Unit := .write s (.done (.ok ()))

def modify (f : σ → σ) : Task σ ρ τ Unit := .read fun s => .write (f s) (.done (.ok ()))

def change (f : σ → σ × Result α) : Task σ ρ τ α := .read fun s => .write (f s).1 (.done (f s).2)

def await (request : ρ) : Task σ ρ τ τ := .wait request fun answer => .done answer

def each (items : List α) (f : α → Task σ ρ τ β) : Task σ ρ τ (List β) :=
  match items with
  | [] => pure []
  | a :: rest => do
    let b ← f a
    return b :: (← each rest f)

/-- How requests are answered on the spot: each changes the state and succeeds or fails. -/
abbrev Server (σ ρ τ : Type) := ρ → σ → σ × Result τ

/-- Runs a task alone; each request is answered when it is made. -/
def run (serve : Server σ ρ τ) : Task σ ρ τ α → σ → σ × Result α
  | .done result, s => (s, result)
  | .read next, s => (next s).run serve s
  | .write s next, _ => next.run serve s
  | .wait request next, s =>
    let (s, answer) := serve request s
    (next answer).run serve s

/-- Runs a task up to its end or its next request. -/
def advance : Task σ ρ τ α → σ → σ × Task σ ρ τ α
  | .done result, s => (s, .done result)
  | .read next, s => (next s).advance s
  | .write s next, _ => next.advance s
  | .wait request next, s => (s, .wait request next)

theorem run_bind (serve : Server σ ρ τ) (t : Task σ ρ τ α) (f : α → Task σ ρ τ β) (s : σ) :
    (t >>= f).run serve s =
      match t.run serve s with
      | (s, .ok a) => (f a).run serve s
      | (s, .error e) => (s, .error e) := by
  show (t.bind f).run serve s = _
  induction t generalizing s with
  | done r => cases r <;> rfl
  | read next ih => simp only [Task.bind, run]; exact ih s s
  | write state next ih => simp only [Task.bind, run]; exact ih state
  | wait request next ih => simp only [Task.bind, run]; exact ih _ _

end Task

end DocStore
