import DocStore.Loop
import DocStore.Proofs.Task
/-!
Events one at a time: which of them belong to lines, the numbers of the tasks in them, and what becomes
of a line.
-/

namespace DocStore.Loop

variable {σ ρ τ : Type}

namespace Event

def isLine : Event σ ρ τ → Bool
  | .line _ | .service .. => true
  | .task .. | .ended _ => false

def goes? : Event σ ρ τ → Option Nat
  | .task number _ => some number
  | _ => none

end Event

def numbers (events : List (Event σ ρ τ)) : List Nat := events.filterMap Event.goes?

/-- An event among others is counted under the number of its task, if it is a task. -/
theorem count_numbers (before after : List (Event σ ρ τ)) (e : Event σ ρ τ) (m : Nat) :
    (numbers (before ++ e :: after)).count m =
      (numbers (before ++ after)).count m + e.goes?.toList.count m := by
  have one : numbers (e :: after) = e.goes?.toList ++ numbers after := by
    rw [numbers, List.filterMap_cons]
    cases e.goes? <;> rfl
  have apart (es : List (Event σ ρ τ)) : numbers (before ++ es) = numbers before ++ numbers es :=
    List.filterMap_append
  rw [apart, apart, one, List.count_append, List.count_append, List.count_append]
  omega

theorem goes?_of_isLine {e : Event σ ρ τ} (h : e.isLine = true) : e.goes? = none := by
  cases e <;> first | rfl | cases h

namespace State

def events (s : State σ ρ τ) : List (Event σ ρ τ) := s.ready ++ s.working

/-- An event is taken from those that are ready or of those whose work is done. -/
inductive Takes (s : State σ ρ τ) (e : Event σ ρ τ) : State σ ρ τ → Prop
  | ready {before after : List (Event σ ρ τ)} (next : s.ready = before ++ e :: after) :
      Takes s e { s with ready := before ++ after }
  | working {before after : List (Event σ ρ τ)} (next : s.working = before ++ e :: after) :
      Takes s e { s with working := before ++ after }

theorem Takes.events {s s' : State σ ρ τ} {e : Event σ ρ τ} (h : s.Takes e s') :
    ∃ before after, s.events = before ++ e :: after ∧ s'.events = before ++ after := by
  cases h with
  | @ready before after next =>
    exact ⟨before, after ++ s.working, by simp [State.events, next], by simp [State.events]⟩
  | @working before after next =>
    exact ⟨s.ready ++ before, after, by simp [State.events, next], by simp [State.events]⟩

/-- An event is put among those that are ready or that wait for work. -/
inductive Puts (s : State σ ρ τ) (e : Event σ ρ τ) : State σ ρ τ → Prop
  | later : Puts s e (s.later e)
  | atOnce : Puts s e (s.atOnce e)
  | whenDone : Puts s e (s.whenDone e)

theorem Puts.events {s s' : State σ ρ τ} {e : Event σ ρ τ} (h : s.Puts e s') :
    ∃ before after, s'.events = before ++ e :: after ∧ s.events = before ++ after := by
  cases h with
  | later => exact ⟨s.ready, s.working, by simp [State.events, State.later], rfl⟩
  | atOnce => exact ⟨[], s.ready ++ s.working, rfl, rfl⟩
  | whenDone =>
    exact ⟨s.ready ++ s.working, [], by simp [State.events, State.whenDone], by simp [State.events]⟩

section Events

variable {s s' : State σ ρ τ} {e other : Event σ ρ τ}

/-- Nothing but the events changes when one is taken. -/
theorem Takes.rest (h : s.Takes e s') : ∃ ready working, s' = { s with ready, working } := by
  cases h with
  | ready => exact ⟨_, _, rfl⟩
  | working => exact ⟨_, _, rfl⟩

theorem Takes.mem (h : s.Takes e s') : e ∈ s.events := by
  obtain ⟨before, after, all, -⟩ := h.events
  simp [all]

theorem Takes.mem_left (h : s.Takes e s') (left : other ∈ s'.events) : other ∈ s.events := by
  obtain ⟨before, after, all, less⟩ := h.events
  rw [less, List.mem_append] at left
  rw [all]
  rcases left with left | left <;> simp [left]

theorem Takes.count_numbers (h : s.Takes e s') (m : Nat) :
    (numbers s.events).count m = (numbers s'.events).count m + e.goes?.toList.count m := by
  obtain ⟨before, after, all, less⟩ := h.events
  rw [all, less, Loop.count_numbers]

theorem Takes.filter_other (h : s.Takes e s') (beside : e.isLine = false) :
    s'.events.filter Event.isLine = s.events.filter Event.isLine := by
  obtain ⟨before, after, all, less⟩ := h.events
  rw [all, less, List.filter_append, List.filter_append, List.filter_cons_of_neg (by simp [beside])]

/-- An event of a line is the only one, and no other is left. -/
theorem Takes.filter_line (h : s.Takes e s') (isLine : e.isLine = true)
    {only : Option (Event σ ρ τ)} (one : s.events.filter Event.isLine = only.toList) :
    only = some e ∧ s'.events.filter Event.isLine = [] := by
  obtain ⟨before, after, all, less⟩ := h.events
  rw [all, List.filter_append, List.filter_cons_of_pos isLine] at one
  have few : only.toList.length ≤ 1 := by cases only <;> simp
  rw [← one, List.length_append, List.length_cons] at few
  have hb : before.filter Event.isLine = [] := List.eq_nil_of_length_eq_zero (by omega)
  have ha : after.filter Event.isLine = [] := List.eq_nil_of_length_eq_zero (by omega)
  rw [hb, ha] at one
  refine ⟨?_, by rw [less, List.filter_append, hb, ha, List.append_nil]⟩
  cases only with
  | none => cases one
  | some x => simpa using one.symm

theorem Puts.mem (h : s.Puts e s') (there : other ∈ s'.events) : other = e ∨ other ∈ s.events := by
  obtain ⟨before, after, more, was⟩ := h.events
  rw [more, List.mem_append, List.mem_cons] at there
  rw [was, List.mem_append]
  rcases there with there | there | there
  · exact .inr (.inl there)
  · exact .inl there
  · exact .inr (.inr there)

theorem Puts.count_numbers (h : s.Puts e s') (m : Nat) :
    (numbers s'.events).count m = (numbers s.events).count m + e.goes?.toList.count m := by
  obtain ⟨before, after, more, was⟩ := h.events
  rw [more, was, Loop.count_numbers]

theorem Puts.filter_other (h : s.Puts e s') (beside : e.isLine = false) :
    s'.events.filter Event.isLine = s.events.filter Event.isLine := by
  obtain ⟨before, after, more, was⟩ := h.events
  rw [more, was, List.filter_append, List.filter_append, List.filter_cons_of_neg (by simp [beside])]

theorem Puts.filter_line (h : s.Puts e s') (isLine : e.isLine = true)
    (none : s.events.filter Event.isLine = []) : s'.events.filter Event.isLine = [e] := by
  obtain ⟨before, after, more, was⟩ := h.events
  rw [was, List.filter_append] at none
  obtain ⟨hb, ha⟩ := List.append_eq_nil_iff.mp none
  rw [more, List.filter_append, List.filter_cons_of_pos isLine, hb, ha]
  rfl

end Events

variable (s : State σ ρ τ) (n : Nat) (line : Line σ ρ τ)

@[simp] theorem line_setLine : (s.setLine n line).line n = line := by
  simp [setLine, State.line]

theorem line_setLine_of_ne {m : Nat} (other : m ≠ n) : (s.setLine n line).line m = s.line m := by
  have kept (lines : List (Nat × Line σ ρ τ)) :
      (lines.filter (·.1 ≠ n)).lookup m = lines.lookup m := by
    induction lines with
    | nil => rfl
    | cons e rest ih =>
      obtain ⟨k, line'⟩ := e
      by_cases own : k = n
      · subst own
        rw [List.filter_cons_of_neg (by simp), ih, List.lookup_cons, beq_false_of_ne other]
      · rw [List.filter_cons_of_pos (by simpa using own), List.lookup_cons, List.lookup_cons, ih]
  rw [State.line, State.line, setLine, List.lookup_cons, beq_false_of_ne other]
  exact congrArg (·.getD {}) (kept s.lines)

@[simp] theorem line_later (e : Event σ ρ τ) : (s.later e).line n = s.line n := rfl

@[simp] theorem line_atOnce (e : Event σ ρ τ) : (s.atOnce e).line n = s.line n := rfl

end State

/-! ## Events one after the other -/

section Goes

variable [Inhabited τ] {interpret : ρ → Call σ ρ τ} {s s' s'' : State σ ρ τ}

/-- The loop gets from one state to another. -/
def Goes (interpret : ρ → Call σ ρ τ) (s s' : State σ ρ τ) : Prop :=
  ∃ k, ∀ fuel, steps interpret (k + fuel) s = steps interpret fuel s'

theorem Goes.refl (s : State σ ρ τ) : Goes interpret s s := ⟨0, fun fuel => by rw [Nat.zero_add]⟩

theorem Goes.trans (h : Goes interpret s s') (h' : Goes interpret s' s'') :
    Goes interpret s s'' := by
  obtain ⟨k, hk⟩ := h
  obtain ⟨l, hl⟩ := h'
  exact ⟨k + l, fun fuel => by rw [Nat.add_assoc, hk, hl]⟩

theorem goes_ready {e : Event σ ρ τ} {rest : List (Event σ ρ τ)} (next : s.ready = e :: rest) :
    Goes interpret s (happen interpret { s with ready := rest } e) := by
  refine ⟨1, fun fuel => ?_⟩
  rw [Nat.add_comm, steps.eq_def]
  simp only [next]

theorem goes_working {e : Event σ ρ τ} {rest : List (Event σ ρ τ)} (idle : s.ready = [])
    (next : s.working = e :: rest) :
    Goes interpret s (happen interpret { s with working := rest } e) := by
  refine ⟨1, fun fuel => ?_⟩
  rw [Nat.add_comm, steps.eq_def]
  simp only [idle, next]

theorem happen_line_nil {n : Nat} (none : (s.line n).asked = []) :
    happen interpret s (.line n) = s.setLine n { s.line n with busy := false } := by
  simp only [happen, none]

theorem happen_line_cons {n : Nat} {asker : Sleeper σ ρ τ} {task : Task σ ρ τ Unit}
    {asked : List (Sleeper σ ρ τ × Task σ ρ τ Unit)} (next : (s.line n).asked = (asker, task) :: asked) :
    happen interpret s (.line n) =
      (s.setLine n { s.line n with asked }).atOnce (.service n asker task) := by
  simp only [happen, next]

theorem happen_task_done {n : Nat} {t : Task σ ρ τ τ} {state : σ} {r : Result τ}
    (stop : t.advance s.state = (state, .done r)) :
    happen interpret s (.task n t) =
      { s with state, results := (n, r) :: s.results }.later (.ended n) := by
  simp only [happen, stop]

theorem happen_task_wait {n : Nat} {t : Task σ ρ τ τ} {state : σ} {request : ρ}
    {next : Result τ → Task σ ρ τ τ} (stop : t.advance s.state = (state, .wait request next)) :
    happen interpret s (.task n t) = call { s with state } ⟨n, next⟩ (interpret request) := by
  simp only [happen, stop]

theorem happen_service_done {n : Nat} {asker : Sleeper σ ρ τ} {t : Task σ ρ τ Unit} {state : σ}
    {r : Result Unit} (stop : t.advance s.state = (state, .done r)) :
    happen interpret s (.service n asker t) = serviceEnded { s with state } n asker r := by
  simp only [happen, stop]

theorem happen_service_wait {n : Nat} {asker : Sleeper σ ρ τ} {t : Task σ ρ τ Unit} {state : σ}
    {request : ρ} {next : Result τ → Task σ ρ τ Unit}
    (stop : t.advance s.state = (state, .wait request next)) :
    happen interpret s (.service n asker t) =
      { s with state }.whenDone (.service n asker (next granted)) := by
  simp only [happen, stop]

def Line.asking (line : Line σ ρ τ) (asker : Sleeper σ ρ τ) (task : Task σ ρ τ Unit) : Line σ ρ τ :=
  { line with
    asked := line.asked ++ [(asker, task)]
    busy := true
    unserved := line.unserved + 1 }

section Ask

variable (s : State σ ρ τ) (n : Nat) (asker : Sleeper σ ρ τ) (task : Task σ ρ τ Unit)

omit [Inhabited τ] in
theorem ask_line : (ask s n asker task).line n = (s.line n).asking asker task := by
  simp only [ask]
  split
  · exact State.line_setLine ..
  · rw [State.line_later]
    exact State.line_setLine ..

omit [Inhabited τ] in
/-- Nothing else changes when a line is asked, but that a line that rested is to take up a request. -/
theorem ask_rest : ∃ lines, ask s n asker task =
    { s with lines, ready := s.ready ++ if (s.line n).busy then [] else [.line n] } := by
  refine ⟨(ask s n asker task).lines, ?_⟩
  cases busy : (s.line n).busy with
  | true => simp only [ask, busy, if_true, List.append_nil, State.setLine]
  | false => simp only [ask, busy, Bool.false_eq_true, if_false, State.setLine, State.later]

omit [Inhabited τ] in
theorem task_of_ask {number : Nat} {t : Task σ ρ τ τ}
    (there : .task number t ∈ (ask s n asker task).events) : .task number t ∈ s.events := by
  obtain ⟨lines, same⟩ := ask_rest s n asker task
  rw [same, State.events] at there
  rcases List.mem_append.mp there with ready | working
  · rcases List.mem_append.mp ready with before | called
    · exact List.mem_append_left _ before
    · split at called
      · cases called
      · cases List.mem_singleton.mp called
  · exact List.mem_append_right _ working

end Ask

end Goes

end DocStore.Loop
