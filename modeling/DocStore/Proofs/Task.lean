import DocStore.Task
/-!
Tasks between their requests: what a task does at once, where it stops, and how a run alone is made
of such pieces.
-/

namespace DocStore.Task

variable {σ ρ τ α β : Type}

/-- A task stops at its end or at a request. -/
def Stopped : Task σ ρ τ α → Prop
  | .done _ | .wait .. => True
  | .read _ | .write .. => False

theorem advance_stopped (t : Task σ ρ τ α) (s : σ) : (t.advance s).2.Stopped := by
  induction t generalizing s with
  | done r => trivial
  | read next ih => exact ih s s
  | write state next ih => exact ih state
  | wait request next => trivial

/-- A run alone goes up to the first request, has it answered, and goes on from there. -/
theorem run_advance (serve : Server σ ρ τ) (t : Task σ ρ τ α) (s : σ) :
    t.run serve s = (t.advance s).2.run serve (t.advance s).1 := by
  induction t generalizing s with
  | done r => rfl
  | read next ih => exact ih s s
  | write state next ih => exact ih state
  | wait request next => rfl

theorem run_of_done {serve : Server σ ρ τ} {t : Task σ ρ τ α} {s s' : σ} {r : Result α}
    (h : t.advance s = (s', .done r)) : t.run serve s = (s', r) := by
  rw [run_advance, h]; rfl

theorem run_of_wait {serve : Server σ ρ τ} {t : Task σ ρ τ α} {s s' : σ} {request : ρ}
    {next : Result τ → Task σ ρ τ α} (h : t.advance s = (s', .wait request next)) :
    t.run serve s = (next (serve request s').2).run serve (serve request s').1 := by
  rw [run_advance, h]; rfl

/-! ## Tasks in sequence -/

/-- What comes after a task comes after what is left of it where it stops. -/
theorem advance_bind (t : Task σ ρ τ α) (f : α → Task σ ρ τ β) (s : σ) :
    (t >>= f).advance s = ((t.advance s).2 >>= f).advance (t.advance s).1 := by
  show (t.bind f).advance s = ((t.advance s).2.bind f).advance _
  induction t generalizing s with
  | done r => rfl
  | read next ih => exact ih s s
  | write state next ih => exact ih state
  | wait request next => rfl

theorem advance_bind_done {t : Task σ ρ τ α} {f : α → Task σ ρ τ β} {s s' : σ} {a : α}
    (h : t.advance s = (s', .done (.ok a))) : (t >>= f).advance s = (f a).advance s' := by
  show (t.bind f).advance s = _
  induction t generalizing s with
  | done r =>
    simp only [advance, Prod.mk.injEq, done.injEq] at h
    obtain ⟨rfl, rfl⟩ := h
    rfl
  | read next ih => exact ih s h
  | write state next ih => exact ih h
  | wait request next => simp [advance] at h

theorem advance_bind_failed {t : Task σ ρ τ α} {f : α → Task σ ρ τ β} {s s' : σ} {e : Error}
    (h : t.advance s = (s', .done (.error e))) :
    (t >>= f).advance s = (s', .done (.error e)) := by
  show (t.bind f).advance s = _
  induction t generalizing s with
  | done r =>
    simp only [advance, Prod.mk.injEq, done.injEq] at h
    obtain ⟨rfl, rfl⟩ := h
    rfl
  | read next ih => exact ih s h
  | write state next ih => exact ih h
  | wait request next => simp [advance] at h

theorem advance_bind_wait {t : Task σ ρ τ α} {f : α → Task σ ρ τ β} {s s' : σ} {request : ρ}
    {next : Result τ → Task σ ρ τ α} (h : t.advance s = (s', .wait request next)) :
    (t >>= f).advance s = (s', .wait request fun answer => next answer >>= f) := by
  show (t.bind f).advance s = _
  induction t generalizing s with
  | done r => simp [advance] at h
  | read next ih => exact ih s h
  | write state next ih => exact ih h
  | wait request next =>
    simp only [advance, Prod.mk.injEq, wait.injEq] at h
    obtain ⟨rfl, rfl, rfl⟩ := h
    rfl

theorem advance_attempt_done {t : Task σ ρ τ α} {s s' : σ} {r : Result α}
    (h : t.advance s = (s', .done r)) : t.attempt.advance s = (s', .done (.ok r)) := by
  induction t generalizing s with
  | done r =>
    simp only [advance, Prod.mk.injEq, done.injEq] at h
    obtain ⟨rfl, rfl⟩ := h
    rfl
  | read next ih => exact ih s h
  | write state next ih => exact ih h
  | wait request next => simp [advance] at h

theorem advance_attempt_wait {t : Task σ ρ τ α} {s s' : σ} {request : ρ}
    {next : Result τ → Task σ ρ τ α} (h : t.advance s = (s', .wait request next)) :
    t.attempt.advance s = (s', .wait request fun answer => (next answer).attempt) := by
  induction t generalizing s with
  | done r => simp [advance] at h
  | read next ih => exact ih s h
  | write state next ih => exact ih h
  | wait request next =>
    simp only [advance, Prod.mk.injEq, wait.injEq] at h
    obtain ⟨rfl, rfl, rfl⟩ := h
    rfl

end DocStore.Task
