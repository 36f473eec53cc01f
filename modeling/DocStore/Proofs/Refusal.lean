import DocStore.Proofs.World
/-!
Refusals: the errors that are the store's own. A task that stands is refused no more, however it goes on;
one that checks first is refused, if at all, before it changes or asks for anything.
-/

namespace DocStore

/-- An error of the store's own. -/
def Error.Refuses (e : Error) : Prop := e.kind.isOwn = true

/-- A result that is no refusal. -/
def Result.Stands {α : Type} : Result α → Prop
  | .ok _ => True
  | .error e => ¬e.Refuses

/-- The world is the same but for what is reported, the clock and the number of the last id. -/
def World.Untouched (w w' : World) : Prop := ∃ journal source, w' = { w with journal, source }

theorem World.Untouched.refl (w : World) : w.Untouched w := ⟨w.journal, w.source, rfl⟩

theorem World.Untouched.trans {w w' w'' : World} (h : w.Untouched w') (h' : w'.Untouched w'') :
    w.Untouched w'' := by
  obtain ⟨_, _, rfl⟩ := h
  obtain ⟨journal, source, rfl⟩ := h'
  exact ⟨journal, source, rfl⟩

/-! ## Results that stand -/

namespace Result

variable {α β : Type}

theorem stands_fault (f : Fault) : Stands (failWith f : Result α) := Bool.false_ne_true

theorem stands_bind {r : Result α} {f : α → Result β} (h : r.Stands) (hf : ∀ a, (f a).Stands) :
    Stands (r >>= f) := by
  cases r with
  | ok a => exact hf a
  | error e => exact h

theorem stands_map {r : Result α} (h : r.Stands) (f : α → β) : Stands (r.map f) := by
  cases r with
  | ok a => trivial
  | error e => exact h

end Result

/-! ## Tasks that stand -/

namespace Task

variable {σ ρ τ α β : Type}

/-- A task that ends in no refusal as long as no request of it is refused. -/
def Stands : Task σ ρ τ α → Prop
  | .done result => result.Stands
  | .read next => ∀ s, (next s).Stands
  | .write _ next => next.Stands
  | .wait _ next => ∀ answer, answer.Stands → (next answer).Stands

theorem stands_advance {t : Task σ ρ τ α} (h : t.Stands) (s : σ) : (t.advance s).2.Stands := by
  induction t generalizing s with
  | done r => exact h
  | read next ih => exact ih s (h s) s
  | write state next ih => exact ih h state
  | wait request next => exact h

theorem stands_pure (a : α) : Stands (pure a : Task σ ρ τ α) := trivial

theorem stands_get : Stands (get : Task σ ρ τ σ) := fun _ => trivial

theorem stands_modify (f : σ → σ) : Stands (modify f : Task σ ρ τ Unit) :=
  fun _ => trivial

theorem stands_change {f : σ → σ × Result α} (h : ∀ s, (f s).2.Stands) :
    Stands (change f : Task σ ρ τ α) := h

theorem stands_await (request : ρ) : Stands (await request : Task σ ρ τ τ) := fun _ h => h

theorem stands_bind {t : Task σ ρ τ α} {f : α → Task σ ρ τ β} (h : t.Stands)
    (hf : ∀ a, (f a).Stands) : (t >>= f).Stands := by
  show (t.bind f).Stands
  induction t with
  | done r =>
    cases r with
    | ok a => exact hf a
    | error e => exact h
  | read next ih => exact fun s => ih s (h s)
  | write state next ih => exact ih h
  | wait request next ih => exact fun answer stands => ih answer (h answer stands)

theorem stands_each {items : List α} {f : α → Task σ ρ τ β} (h : ∀ a ∈ items, (f a).Stands) :
    (each items f).Stands := by
  induction items with
  | nil => exact stands_pure []
  | cons a rest ih =>
    refine stands_bind (h a (by simp)) fun b => ?_
    exact stands_bind (ih fun x hx => h x (by simp [hx])) fun bs => stands_pure _

/-- What is done with an outcome that stands may stand on it. -/
theorem stands_attempt_bind {t : Task σ ρ τ α} {f : Result α → Task σ ρ τ β} (h : t.Stands)
    (hf : ∀ outcome : Result α, outcome.Stands → (f outcome).Stands) : (t.attempt >>= f).Stands := by
  show (t.attempt.bind f).Stands
  induction t with
  | done r => exact hf r h
  | read next ih => exact fun s => ih s (h s)
  | write state next ih => exact ih h
  | wait request next ih => exact fun answer stands => ih answer (h answer stands)

end Task

/-! ## Tasks that check first -/

namespace Op

variable {α β : Type}

/-- A task that ends at once and leaves the world untouched. -/
def Checks (t : Op α) : Prop := ∀ w : World, ∃ w' r, t.advance w = (w', .done r) ∧ w.Untouched w'

/-- A task that is refused, if at all, at once and with the world untouched. -/
structure ChecksFirst (t : Op α) : Prop where
  refused : ∀ {w w' : World} {e : Error},
    t.advance w = (w', .done (.error e)) → e.Refuses → w.Untouched w'
  waits : ∀ {w w' : World} {request : Request} {next : Result Unit → Op α},
    t.advance w = (w', .wait request next) → (Task.wait request next : Op α).Stands

theorem checks_pure (a : α) : Checks (pure a : Op α) := fun w => ⟨w, _, rfl, .refl w⟩

theorem checks_result (r : Result α) : Checks (Task.ofResult r) := fun w => ⟨w, r, rfl, .refl w⟩

theorem checks_get : Checks (Task.get : Op World) := fun w => ⟨w, _, rfl, .refl w⟩

theorem checks_bind {t : Op α} {f : α → Op β} (h : Checks t) (hf : ∀ a, Checks (f a)) :
    Checks (t >>= f) := by
  intro w
  obtain ⟨w', r, stop, untouched⟩ := h w
  cases r with
  | error e => exact ⟨w', _, Task.advance_bind_failed stop, untouched⟩
  | ok a =>
    obtain ⟨w'', r', stop', untouched'⟩ := hf a w'
    exact ⟨w'', r', (Task.advance_bind_done stop).trans stop', untouched.trans untouched'⟩

theorem checksFirst_of_checks {t : Op α} (h : Checks t) : ChecksFirst t := by
  constructor
  · intro w w' e stop _
    obtain ⟨v, r, stop', untouched⟩ := h w
    rw [stop] at stop'
    cases stop'
    exact untouched
  · intro w w' request next stop
    obtain ⟨v, r, stop', -⟩ := h w
    rw [stop] at stop'
    cases stop'

theorem checksFirst_of_stands {t : Op α} (h : t.Stands) : ChecksFirst t := by
  constructor
  · intro w w' e stop refuses
    have stands := Task.stands_advance h w
    rw [stop] at stands
    exact absurd refuses stands
  · intro w w' request next stop
    have stands := Task.stands_advance h w
    rw [stop] at stands
    exact stands

/-- What comes after the checks of a task may check first itself. -/
theorem checksFirst_bind {t : Op α} {f : α → Op β} (h : Checks t) (hf : ∀ a, ChecksFirst (f a)) :
    ChecksFirst (t >>= f) := by
  constructor
  · intro w w' e stop refuses
    obtain ⟨v, r, first, untouched⟩ := h w
    cases r with
    | error e' =>
      rw [Task.advance_bind_failed first] at stop
      cases stop
      exact untouched
    | ok a =>
      rw [Task.advance_bind_done first] at stop
      exact untouched.trans ((hf a).refused stop refuses)
  · intro w w' request next stop
    obtain ⟨v, r, first, -⟩ := h w
    cases r with
    | error e =>
      rw [Task.advance_bind_failed first] at stop
      cases stop
    | ok a =>
      rw [Task.advance_bind_done first] at stop
      exact (hf a).waits stop

/-- What comes after a task that checks first must stand. -/
theorem checksFirst_bind_stands {t : Op α} {f : α → Op β} (h : ChecksFirst t)
    (hf : ∀ a, (f a).Stands) : ChecksFirst (t >>= f) := by
  constructor
  · intro w w' e stop refuses
    match first : t.advance w, t.advance_stopped w with
    | (v, .done (.ok a)), _ =>
      rw [Task.advance_bind_done first] at stop
      have stands := Task.stands_advance (hf a) v
      rw [stop] at stands
      exact absurd refuses stands
    | (v, .done (.error e')), _ =>
      rw [Task.advance_bind_failed first] at stop
      cases stop
      exact h.refused first refuses
    | (v, .wait request next), _ =>
      rw [Task.advance_bind_wait first] at stop
      cases stop
  · intro w w' request next stop
    match first : t.advance w, t.advance_stopped w with
    | (v, .done (.ok a)), _ =>
      rw [Task.advance_bind_done first] at stop
      exact (checksFirst_of_stands (hf a)).waits stop
    | (v, .done (.error e)), _ =>
      rw [Task.advance_bind_failed first] at stop
      cases stop
    | (v, .wait request' next'), _ =>
      rw [Task.advance_bind_wait first] at stop
      cases stop
      exact fun answer stands => Task.stands_bind (h.waits first answer stands) hf

/-- An outcome that is only reported is still that of a task that checks first. -/
theorem checksFirst_attempt_bind {t : Op α} {f : Result α → Op α} (h : ChecksFirst t)
    (reports : ∀ outcome (w : World), ∃ w', (f outcome).advance w = (w', .done outcome) ∧ w.Untouched w')
    (hf : ∀ outcome : Result α, outcome.Stands → (f outcome).Stands) :
    ChecksFirst (t.attempt >>= f) := by
  have at_once {w v : World} {r : Result α} (first : t.advance w = (v, .done r)) :
      ∃ v', (t.attempt >>= f).advance w = (v', .done r) ∧ v.Untouched v' := by
    obtain ⟨v', stop, untouched⟩ := reports r v
    exact ⟨v', (Task.advance_bind_done (Task.advance_attempt_done first)).trans stop, untouched⟩
  constructor
  · intro w w' e stop refuses
    match first : t.advance w, t.advance_stopped w with
    | (v, .done r), _ =>
      obtain ⟨v', stop', untouched⟩ := at_once first
      rw [stop] at stop'
      cases stop'
      exact (h.refused first refuses).trans untouched
    | (v, .wait request next), _ =>
      rw [Task.advance_bind_wait (Task.advance_attempt_wait first)] at stop
      cases stop
  · intro w w' request next stop
    match first : t.advance w, t.advance_stopped w with
    | (v, .done r), _ =>
      obtain ⟨v', stop', -⟩ := at_once first
      rw [stop] at stop'
      cases stop'
    | (v, .wait request' next'), _ =>
      rw [Task.advance_bind_wait (Task.advance_attempt_wait first)] at stop
      cases stop
      exact fun answer stands => Task.stands_attempt_bind (h.waits first answer stands) hf

end Op

end DocStore
