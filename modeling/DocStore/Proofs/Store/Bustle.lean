import DocStore.Proofs.Refusal
import DocStore.Proofs.Store.Callers
/-!
All that can go on around a store: operations of every kind are called at any time, what is ready or done
goes on in any order, flushes fail, and the world changes from outside. What is asked of the tasks under
each number and of their results lasts, if it lasts as long as no request is refused.
-/

namespace DocStore

open Loop (Event State Sleeper)
open Writer (attend service)

variable {τ : Type}

theorem Op.stands_joined {α : Type} {t : Op α} (h : t.Stands) : (Op.joined (τ := τ) t).Stands := by
  induction t with
  | done r => exact h
  | read next ih => exact fun w => ih w (h w)
  | write w next ih => exact ih h
  | wait request next ih =>
    exact fun answer stands => ih _ (h _ (Result.stands_map stands _))

/-- The writer refuses nothing. -/
theorem Writer.stands_service (i : Nat) (kind : WriteKind) : (service i kind).Stands := by
  have writes (files : Snapshot) : (Task.change (writeFiles i files) : Op Unit).Stands := by
    refine Task.stands_change fun w => ?_
    unfold writeFiles
    generalize files.write w.directory = written
    obtain ⟨d, outcome⟩ := written
    cases outcome with
    | ok _ => trivial
    | error f => exact Result.stands_fault f
  cases kind with
  | flush =>
    refine Task.stands_bind (fun _ => trivial) fun s => ?_
    dsimp only
    split
    · exact Task.stands_pure ()
    · refine Task.stands_bind Task.stands_get fun w => ?_
      split
      · exact Task.stands_change fun _ => Result.stands_fault _
      · exact Task.stands_bind trivial fun _ => Task.stands_bind (Task.stands_await _) fun _ => writes _
  | remove collection =>
    cases null : collection.isNull with
    | true =>
      cases collection with
      | null => exact Task.stands_change fun _ => Result.stands_fault _
      | _ => cases null
    | false =>
      rw [service_remove i null]
      refine Task.stands_bind (Task.stands_await _) fun _ => Task.stands_change fun w => ?_
      unfold removeFile
      split
      · exact Result.stands_fault _
      · split
        · exact Result.stands_fault _
        · trivial

/-! ## What is asked of tasks by their numbers -/

/-- What is asked of the task under each number and of its result, such that a task lives up to it as it
goes on, as long as no request is refused. -/
structure Standard (τ : Type) where
  task : Nat → Task World Request τ τ → Prop
  result : Nat → Result τ → Prop
  ends : ∀ {n t w w' r}, task n t → t.advance w = (w', .done r) → result n r
  waits : ∀ {n t w w' request next}, task n t → t.advance w = (w', .wait request next) →
    ∀ answer, answer.Stands → task n (next answer)

namespace Standard

/-- No number is above a bound. -/
def upTo (k : Nat) : Standard τ where
  task n _ := n ≤ k
  result n _ := n ≤ k
  ends h _ := h
  waits h _ _ _ := h

/-- The task under a number is refused no more. -/
def standing (k : Nat) : Standard τ where
  task n t := n = k → t.Stands
  result n r := n = k → r.Stands
  ends {n t w w' r} h stop own := by
    have stands := Task.stands_advance (h own) w
    rwa [stop] at stands
  waits {n t w w' request next} h stop answer stands own := by
    have waits := Task.stands_advance (h own) w
    rw [stop] at waits
    exact waits answer stands

def ended (k : Nat) (r : Result τ) : Standard τ where
  task n _ := n ≠ k
  result n r' := n = k → r' = r
  ends other _ own := absurd own other
  waits other _ _ _ := other

variable (P : Standard τ)

/-- One that waits lives up to the standard when it is told an answer that is no refusal. -/
def sleeper (who : Sleeper World Request τ) : Prop :=
  ∀ answer, answer.Stands → P.task who.number (who.next answer)

def event : Event World Request τ → Prop
  | .task n t => P.task n t
  | .service _ who t => P.sleeper who ∧ t.Stands
  | .line _ | .ended _ => True

/-- All that is under way lives up to the standard, and so many tasks were called. -/
structure Holds (k : Nat) (s : State World Request τ) : Prop where
  last : s.last = k
  events : ∀ e ∈ s.events, P.event e
  asked : ∀ l, ∀ x ∈ (s.line l).asked, P.sleeper x.1 ∧ x.2.Stands
  leavers : ∀ l, ∀ who ∈ (s.line l).leavers, P.sleeper who
  families : s.families = []
  results : ∀ n r, (n, r) ∈ s.results → P.result n r

variable {P} {k : Nat} {s s' left : State World Request τ} {e : Event World Request τ}

namespace Holds

theorem start (w : World) : P.Holds 0 { state := w } := ⟨rfl, nofun, nofun, nofun, rfl, nofun⟩

/-- A standard that asks no more of those who are there. -/
theorem mono {Q : Standard τ} (task : ∀ {n t}, P.task n t → Q.task n t)
    (result : ∀ {n r}, P.result n r → Q.result n r) (h : P.Holds k s) : Q.Holds k s := by
  have sleeper {who} (hw : P.sleeper who) : Q.sleeper who :=
    fun answer stands => task (hw answer stands)
  refine ⟨h.last, fun e he => ?_, fun l x hx => (h.asked l x hx).imp sleeper id,
    fun l who hw => sleeper (h.leavers l who hw), h.families, fun n r hr => result (h.results n r hr)⟩
  have own := h.events e he
  cases e with
  | task n t => exact task own
  | service l who t => exact own.imp sleeper id
  | line | ended => trivial

/-- Nothing is asked of the world. -/
theorem within (h : P.Holds k s) (w : World) : P.Holds k { s with state := w } :=
  ⟨h.last, h.events, h.asked, h.leavers, h.families, h.results⟩

theorem takes (h : P.Holds k s) (take : s.Takes e left) : P.Holds k left ∧ P.event e := by
  have less := fun other (ho : other ∈ left.events) => h.events other (take.mem_left ho)
  have own := h.events e take.mem
  obtain ⟨ready, working, rfl⟩ := take.rest
  exact ⟨⟨h.last, less, h.asked, h.leavers, h.families, h.results⟩, own⟩

theorem puts (h : P.Holds k s) (put : s.Puts e s') (he : P.event e) : P.Holds k s' := by
  have more : ∀ other ∈ s'.events, P.event other := by
    intro other there
    rcases put.mem there with rfl | there
    · exact he
    · exact h.events other there
  cases put <;> exact ⟨h.last, more, h.asked, h.leavers, h.families, h.results⟩

theorem later (h : P.Holds k s) (he : P.event e) : P.Holds k (s.later e) := h.puts .later he

theorem atOnce (h : P.Holds k s) (he : P.event e) : P.Holds k (s.atOnce e) := h.puts .atOnce he

theorem whenDone (h : P.Holds k s) (he : P.event e) : P.Holds k (s.whenDone e) := h.puts .whenDone he

theorem setLine (h : P.Holds k s) (n : Nat) {line : Loop.Line World Request τ}
    (asked : ∀ x ∈ line.asked, P.sleeper x.1 ∧ x.2.Stands)
    (leavers : ∀ who ∈ line.leavers, P.sleeper who) : P.Holds k (s.setLine n line) := by
  refine ⟨h.last, h.events, fun l => ?_, fun l => ?_, h.families, h.results⟩
  · by_cases own : l = n
    · subst own
      rwa [State.line_setLine]
    · rw [State.line_setLine_of_ne _ _ _ own]
      exact h.asked l
  · by_cases own : l = n
    · subst own
      rwa [State.line_setLine]
    · rw [State.line_setLine_of_ne _ _ _ own]
      exact h.leavers l

theorem asks (h : P.Holds k s) (n : Nat) {who : Sleeper World Request τ}
    {task : Task World Request τ Unit} (hw : P.sleeper who) (stands : task.Stands) :
    P.Holds k (Loop.ask s n who task) := by
  have lined : P.Holds k (s.setLine n ((s.line n).asking who task)) := by
    refine h.setLine n (fun x hx => ?_) (h.leavers n)
    rcases List.mem_append.mp hx with before | new
    · exact h.asked n x before
    · rw [List.mem_singleton.mp new]
      exact ⟨hw, stands⟩
  unfold Loop.ask
  dsimp only
  split
  · exact lined
  · exact lined.later trivial

variable [Inhabited τ]

/-- What becomes of a task that makes a request. -/
theorem call (h : P.Holds k s) {who : Sleeper World Request τ} (hw : P.sleeper who)
    (request : Request) : P.Holds k (Loop.call s who (attend request)) := by
  have granted : P.task who.number (who.next Loop.granted) := hw _ trivial
  cases request with
  | turn => exact h.later granted
  | work => exact h.whenDone granted
  | serve line i kind => exact h.asks line hw (Op.stands_joined (Writer.stands_service i kind))
  | drained n =>
    unfold Loop.call attend
    dsimp only
    split
    · exact h.atOnce granted
    · refine h.setLine n (h.asked n) fun other there => ?_
      rcases List.mem_append.mp there with before | new
      · exact h.leavers n other before
      · rw [List.mem_singleton.mp new]
        exact hw

/-- A service that ends in no refusal. -/
theorem serviceEnded (h : P.Holds k s) (n : Nat) {who : Sleeper World Request τ} (hw : P.sleeper who)
    {result : Result Unit} (stands : result.Stands) :
    P.Holds k (Loop.serviceEnded s n who result) := by
  have told (left : List (Sleeper World Request τ)) (hl : ∀ who ∈ left, P.sleeper who)
      {s : State World Request τ} (h : P.Holds k s) :
      P.Holds k (left.foldl (fun s who => s.later (.task who.number (who.next Loop.granted))) s) := by
    induction left generalizing s with
    | nil => exact h
    | cons who rest ih =>
      refine ih (fun other there => hl other (by simp [there])) (h.later ?_)
      exact hl who (by simp) _ trivial
  have answered : P.event (.task who.number (who.next (result.map fun _ => default))) :=
    hw _ (Result.stands_map stands _)
  unfold Loop.serviceEnded
  dsimp only
  refine atOnce (setLine ?_ n (h.asked n) ?_) trivial
  · split
    · exact told _ (h.leavers n) (h.later answered)
    · exact h.later answered
  · split
    · exact nofun
    · exact h.leavers n

variable {n : Nat} {t : Task World Request τ τ} {w : World}

theorem task_done (h : P.Holds k s) {r : Result τ} (stop : t.advance s.state = (w, .done r))
    (hr : P.result n r) : P.Holds k (Loop.happen attend s (.task n t)) := by
  have recorded : P.Holds k { s with state := w, results := (n, r) :: s.results } := by
    refine ⟨h.last, h.events, h.asked, h.leavers, h.families, fun m r' there => ?_⟩
    rcases List.mem_cons.mp there with new | before
    · cases new
      exact hr
    · exact h.results m r' before
  rw [Loop.happen_task_done stop]
  exact recorded.later trivial

theorem task_wait (h : P.Holds k s) {request : Request} {next : Result τ → Task World Request τ τ}
    (stop : t.advance s.state = (w, .wait request next)) (hw : P.sleeper ⟨n, next⟩) :
    P.Holds k (Loop.happen attend s (.task n t)) := by
  rw [Loop.happen_task_wait stop]
  exact (h.within w).call hw request

/-- One event happens. -/
theorem happens (h : P.Holds k s) (he : P.event e) : P.Holds k (Loop.happen attend s e) := by
  cases e with
  | task n t =>
    match stop : t.advance s.state, t.advance_stopped s.state with
    | (w, .wait request next), _ => exact h.task_wait stop (P.waits he stop)
    | (w, .done r), _ => exact h.task_done stop (P.ends he stop)
  | line n =>
    cases asked : (s.line n).asked with
    | nil =>
      rw [Loop.happen_line_nil asked]
      exact h.setLine n (h.asked n) (h.leavers n)
    | cons x rest =>
      have own := h.asked n
      rw [asked] at own
      rw [Loop.happen_line_cons asked]
      refine atOnce (h.setLine n ?_ (h.leavers n)) (own x (by simp))
      exact fun y there => own y (by simp [there])
  | service n who t =>
    have stands := Task.stands_advance he.2 s.state
    match stop : t.advance s.state, t.advance_stopped s.state with
    | (w, .wait request next), _ =>
      rw [stop] at stands
      rw [Loop.happen_service_wait stop]
      exact (h.within w).whenDone ⟨he.1, stands _ trivial⟩
    | (w, .done r), _ =>
      rw [stop] at stands
      rw [Loop.happen_service_done stop]
      exact (h.within w).serviceEnded n he.1 stands
  | ended n =>
    simp only [Loop.happen, Loop.ended, h.families, List.find?_nil]
    exact h

end Holds

end Standard

/-! ## Calls among all else -/

/-- What is under way. -/
abbrev Bustle (τ : Type) := State World Request τ

namespace Bustle

variable [Inhabited τ]

/-- An operation is called: what of it can be done at once is done. -/
def calls (s : Bustle τ) (t : Op τ) : Bustle τ :=
  Loop.happen attend { s with last := s.last + 1 } (.task (s.last + 1) (Op.joined t))

/-- What can happen next: any operation is called, something that is ready or of which the work is done
goes on, a service under way fails, or the world changes from outside. -/
inductive Step (s : Bustle τ) : Bustle τ → Prop
  | calls (t : Op τ) : Step s (s.calls t)
  | goesOn {e : Event World Request τ} {left : Bustle τ} (next : s.Takes e left) :
      Step s (Loop.happen attend left e)
  | fails {before after : List (Event World Request τ)} {line : Nat} {asker : Sleeper World Request τ}
      {t : Task World Request τ Unit} (busy : s.working = before ++ .service line asker t :: after)
      (f : Fault) :
      Step s (Loop.serviceEnded { s with working := before ++ after } line asker (failWith f))
  | changes (w : World) : Step s { s with state := w }

/-- What comes of a state in steps. -/
inductive Run (s : Bustle τ) : Bustle τ → Prop
  | start : Run s s
  | step {s' s'' : Bustle τ} (run : Run s s') (step : Step s' s'') : Run s s''

variable {P : Standard τ} {k : Nat} {s s' : Bustle τ}

theorem holds_calls {t : Op τ} (h : P.Holds k s) (ht : P.task (k + 1) (Op.joined t)) :
    P.Holds (k + 1) (s.calls t) := by
  obtain rfl := h.last
  have next : P.Holds (s.last + 1) { s with last := s.last + 1 } :=
    ⟨rfl, h.events, h.asked, h.leavers, h.families, h.results⟩
  exact next.happens ht

/-- What is asked lasts in a step that is no call. -/
theorem holds_step (h : P.Holds k s) (step : Step s s') :
    (∃ t, s' = s.calls t) ∨ P.Holds k s' := by
  cases step with
  | calls t => exact .inl ⟨t, rfl⟩
  | goesOn next =>
    obtain ⟨left, own⟩ := h.takes next
    exact .inr (left.happens own)
  | @fails before after line asker t busy f =>
    obtain ⟨left, own⟩ := h.takes (.working busy)
    exact .inr (left.serviceEnded line own.1 (Result.stands_fault f))
  | changes w => exact .inr (h.within w)

/-- A standard that asks nothing of later tasks lasts. -/
theorem holds_run (h : P.Holds k s) (new : ∀ n t, k < n → P.task n t) (run : Run s s') :
    ∃ k', k ≤ k' ∧ P.Holds k' s' := by
  induction run with
  | start => exact ⟨k, Nat.le_refl k, h⟩
  | step run step ih =>
    obtain ⟨l, hl, held⟩ := ih
    rcases holds_step held step with ⟨t, rfl⟩ | held'
    · exact ⟨l + 1, by omega, holds_calls held (new _ _ (by omega))⟩
    · exact ⟨l, hl, held'⟩

/-- No task has a number above that of the last one. -/
theorem numbered {w : World} (run : Run { state := w } s) : ∃ k, (Standard.upTo k).Holds k s := by
  induction run with
  | start => exact ⟨0, .start w⟩
  | step run step ih =>
    obtain ⟨k, held⟩ := ih
    rcases holds_step held step with ⟨t, rfl⟩ | held'
    · have above : (Standard.upTo (k + 1)).Holds k _ := held.mono Nat.le_succ_of_le Nat.le_succ_of_le
      exact ⟨k + 1, holds_calls above (Nat.le_refl _)⟩
    · exact ⟨k, held'⟩

/-- A call that is refused in the end was refused at once, with the world untouched and nothing else under
way changed. -/
theorem refused_at_once {w : World} {t : Op τ} {e : Error} (careful : t.ChecksFirst)
    (reached : Run { state := w } s) (run : Run (s.calls t) s')
    (refused : (s.last + 1, .error e) ∈ s'.results) (refuses : e.Refuses) :
    ∃ journal source, s.calls t =
      { s with
        state := { s.state with journal, source }
        last := s.last + 1
        results := (s.last + 1, .error e) :: s.results
        ready := s.ready ++ [.ended (s.last + 1)] } := by
  obtain ⟨k, above⟩ := numbered reached
  obtain rfl := above.last
  -- A standard for the new number alone holds before the call.
  have fresh {Q : Standard τ} (task : ∀ {n t}, n ≠ s.last + 1 → Q.task n t)
      (result : ∀ {n r}, n ≠ s.last + 1 → Q.result n r) :
      Q.Holds (s.last + 1) { s with last := s.last + 1 } := by
    have other : Q.Holds s.last s :=
      above.mono (fun {n _} (low : n ≤ s.last) => task (by omega)) fun {n _} (low : n ≤ s.last) =>
        result (by omega)
    exact ⟨rfl, other.events, other.asked, other.leavers, other.families, other.results⟩
  have standing : (Standard.standing (s.last + 1)).Holds (s.last + 1) { s with last := s.last + 1 } :=
    fresh (fun other own => absurd own other) fun other own => absurd own other
  have never (held : (Standard.standing (s.last + 1)).Holds (s.last + 1) (s.calls t)) : False := by
    obtain ⟨k, -, later⟩ := holds_run held (fun n t low own => by omega) run
    exact later.results _ _ refused rfl refuses
  have joined := Op.advance_joined (τ := τ) t s.state
  match stop : t.advance s.state, t.advance_stopped s.state with
  | (v, .wait request next), _ =>
    rw [stop] at joined
    refine (never (standing.task_wait joined fun answer stands _ => ?_)).elim
    exact Op.stands_joined (careful.waits stop _ (Result.stands_map stands _))
  | (v, .done (.ok a)), _ =>
    rw [stop] at joined
    exact (never (standing.task_done joined fun _ => trivial)).elim
  | (v, .done (.error e')), _ =>
    rw [stop] at joined
    by_cases own : e'.Refuses
    · obtain ⟨journal, source, rfl⟩ := careful.refused stop own
      have ended : (Standard.ended (s.last + 1) (.error e')).Holds (s.last + 1) (s.calls t) :=
        (fresh id (fun other own => absurd own other)).task_done joined fun _ => rfl
      obtain ⟨k, -, later⟩ := holds_run ended (fun _ _ low => Nat.ne_of_gt low) run
      cases later.results _ _ refused rfl
      exact ⟨journal, source, Loop.happen_task_done joined⟩
    · exact (never (standing.task_done joined fun _ => own)).elim

end Bustle

end DocStore
