import DocStore.Proofs.Storage.Client
/-!
The writer among its clients: at most one event is of its line, and each step is one of the moves of a
store with its writer.
-/

namespace DocStore.Writer

open Loop (Event Sleeper State)

/-- What an event tells those who call a flush. -/
def markOf (s : State World Request Unit) : Event World Request Unit → Mark
  | .task number t =>
    match (t.advance s.state).2 with
    | .wait (.serve ..) _ => .called number
    | _ => .other
  | .service _ asker t =>
    match (t.advance s.state).2 with
    | .done r => .answered asker.number r.isOk
    | _ => .other
  | _ => .other

/-- The write of a snapshot that fails after the first `k` of its files. -/
def failing (i : Nat) (files : Snapshot) (k : Nat) (f : Fault) : Op Unit :=
  Task.change fun w =>
    abandonFlush i files.names f
      { w with directory := (Snapshot.write w.directory (files.take k)).1 }

/-- All that is under way, and the files of the flush that began last. -/
structure Scene where
  loop : State World Request Unit
  files : Snapshot := []

def Scene.filesAfter (i : Nat) (s : Scene) : Event World Request Unit → Snapshot
  | .service _ _ t =>
    match (t.advance s.loop.state).2, startFlush i s.loop.state with
    | .wait .., .ok (files, _) => files
    | _, _ => s.files
  | _ => s.files

/-- What can happen next: a client begins, something that is ready or of which the work is done goes
on, some of the files of a flush are written, or a flush fails at one of them. -/
inductive Step (i : Nat) (s : Scene) : Mark → Scene → Prop
  | begins {t : Op Unit} (client : Client i t) :
      Step i s .other
        { s with
          loop := State.later { s.loop with last := s.loop.last + 1 }
            (.task (s.loop.last + 1) t) }
  | goesOn {e : Event World Request Unit} {left : State World Request Unit}
      (next : s.loop.Takes e left) :
      Step i s (markOf s.loop e) ⟨Loop.happen interpret left e, s.filesAfter i e⟩
  | writes {line : Nat} {asker : Sleeper World Request Unit} {t : Op Unit}
      (busy : .service line asker t ∈ s.loop.working) (k : Nat) :
      Step i s .other
        { s with
          loop := { s.loop with
            state := { s.loop.state with
              directory := (Snapshot.write s.loop.state.directory (s.files.take k)).1 } } }
  | fails {before after : List (Event World Request Unit)} {line : Nat}
      {asker : Sleeper World Request Unit} {t : Op Unit}
      (busy : s.loop.working = before ++ .service line asker t :: after) (k : Nat) (f : Fault) :
      Step i s (.answered asker.number false)
        { s with
          loop := Loop.happen interpret { s.loop with working := before ++ after }
            (.service line asker (failing i s.files k f)) }

/-- What the writer is at. -/
inductive Phase where
  | idle
  /-- It is to take up a request. -/
  | called
  | serving (asker : Sleeper World Request Unit)
  | writing (asker : Sleeper World Request Unit) (files : Snapshot)

namespace Phase

def event? (i line : Nat) : Phase → Option (Event World Request Unit)
  | idle => none
  | called => some (.line line)
  | serving asker => some (.service line asker (service i .flush))
  | writing asker files => some (.service line asker (Task.change (writeFiles i files)))

def asker? : Phase → Option (Sleeper World Request Unit)
  | serving asker | writing asker _ => some asker
  | idle | called => none

def waiting : Phase → List Nat
  | serving asker => [asker.number]
  | idle | called | writing .. => []

def flight? : Phase → Option (Nat × Snapshot)
  | writing asker files => some (asker.number, files)
  | idle | called | serving _ => none

def isBusy : Phase → Bool
  | idle => false
  | called | serving _ | writing .. => true

end Phase

/-- The numbers of those whose requests a line has not taken up. -/
def askers (line : Loop.Line World Request Unit) : List Nat := line.asked.map (·.1.number)

/-- The tasks beside a line with one event at most, where each number occurs once; some tasks are in
the hands of the line or go on right now. -/
structure Base (indent : Value) (i line : Nat) (s : State World Request Unit)
    (event? : Option (Event World Request Unit)) (owners : List Nat) : Prop where
  here : i < s.state.stores.length
  indent : (s.state.store i).indent = indent
  families : s.families = []
  lined : (s.state.store i).line = some line ∨ (s.state.store i).line = none ∧ s.lines = []
  leavers : (s.line line).leavers = []
  asked : ∀ a ∈ (s.line line).asked, a.2 = service i .flush ∧ ∀ answer, Client i (a.1.next answer)
  events : s.events.filter Event.isLine = event?.toList
  tasks : ∀ n t, .task n t ∈ s.events → Client i t
  alone : ∀ n, (Loop.numbers s.events).count n + (askers (s.line line)).count n + owners.count n ≤
    if n ≤ s.last then 1 else 0

/-- Clients beside the writer of store `i`, while some tasks go on. -/
structure Shape (indent : Value) (i line : Nat) (s : State World Request Unit) (p : Phase)
    (going : List Nat) : Prop where
  base : Base indent i line s (p.event? i line) (going ++ (p.asker?.map (·.number)).toList)
  busy : (s.line line).busy = p.isBusy
  asker : ∀ a, p.asker? = some a → ∀ answer, Client i (a.next answer)
  works : ∀ a files, p = .writing a files →
    .service line a (Task.change (writeFiles i files)) ∈ s.working
  rests : ∀ l a t, .service l a t ∈ s.working → ∃ files, p = .writing a files

/-- The store with its writer. -/
def view (i line : Nat) (s : State World Request Unit) (p : Phase) : View :=
  ⟨(s.state.store i).memory, s.state.directory, p.waiting ++ askers (s.line line), p.flight?⟩

/-! ## Taking an event -/

namespace Base

variable {indent : Value} {i line n : Nat} {s left : State World Request Unit} {t : Op Unit}
  {event? : Option (Event World Request Unit)} {owners : List Nat}
  {e : Event World Request Unit}

/-- With an event taken, the rest is as before. -/
theorem taken (h : Base indent i line s event? owners) (next : s.Takes e left)
    {rest : Option (Event World Request Unit)} {owners' : List Nat}
    (events : left.events.filter Event.isLine = rest.toList)
    (alone : ∀ n, (Loop.numbers left.events).count n + (askers (s.line line)).count n +
      owners'.count n ≤ if n ≤ s.last then 1 else 0) :
    Base indent i line left rest owners' := by
  have tasks (n : Nat) (t : Op Unit) (ht : .task n t ∈ left.events) : Client i t :=
    h.tasks n t (next.mem_left ht)
  cases next with
  | ready | working =>
    exact ⟨h.here, h.indent, h.families, h.lined, h.leavers, h.asked, events, tasks, alone⟩

/-- A task that goes on is in the hands of nobody else. -/
theorem take_task (h : Base indent i line s event? owners) (next : s.Takes (.task n t) left) :
    Base indent i line left event? (n :: owners) ∧ Client i t := by
  refine ⟨h.taken next ((next.filter_other rfl).trans h.events) fun m => ?_, h.tasks n t next.mem⟩
  have alone := h.alone m
  rw [next.count_numbers, Event.goes?, Option.toList_some] at alone
  rw [← List.singleton_append, List.count_append]
  omega

/-- An event of the line is the one that there is. -/
theorem take_line (h : Base indent i line s event? owners) (next : s.Takes e left)
    (isLine : e.isLine = true) : event? = some e ∧ Base indent i line left none owners := by
  obtain ⟨own, rest⟩ := next.filter_line isLine h.events
  refine ⟨own, h.taken next rest fun m => ?_⟩
  have alone := h.alone m
  rwa [next.count_numbers, Loop.goes?_of_isLine isLine, Option.toList_none, List.count_nil,
    Nat.add_zero] at alone

/-! ## Putting an event -/

variable {next : State World Request Unit}

theorem put (h : Base indent i line s event? owners) (puts : s.Puts e next)
    {all : Option (Event World Request Unit)} {owners' : List Nat}
    (events : next.events.filter Event.isLine = all.toList)
    (client : ∀ n t, e = .task n t → Client i t)
    (alone : ∀ n, (Loop.numbers next.events).count n + (askers (s.line line)).count n +
      owners'.count n ≤ if n ≤ s.last then 1 else 0) :
    Base indent i line next all owners' := by
  have tasks (n : Nat) (t : Op Unit) (ht : .task n t ∈ next.events) : Client i t := by
    rcases puts.mem ht with same | before
    · exact client n t same.symm
    · exact h.tasks n t before
  cases puts with
  | later | atOnce | whenDone =>
    exact ⟨h.here, h.indent, h.families, h.lined, h.leavers, h.asked, events, tasks, alone⟩

theorem put_task (h : Base indent i line s event? (n :: owners)) (client : Client i t)
    (puts : s.Puts (.task n t) next) : Base indent i line next event? owners := by
  refine h.put puts ((puts.filter_other rfl).trans h.events) (fun m u same => ?_) fun m => ?_
  · cases same
    exact client
  · have alone := h.alone m
    rw [← List.singleton_append, List.count_append] at alone
    rw [puts.count_numbers, Event.goes?, Option.toList_some]
    omega

theorem put_line (h : Base indent i line s none owners) (isLine : e.isLine = true)
    (puts : s.Puts e next) : Base indent i line next (some e) owners := by
  refine h.put puts (puts.filter_line isLine h.events) (fun m u same => ?_) fun m => ?_
  · subst same
    cases isLine
  · rw [puts.count_numbers, Loop.goes?_of_isLine isLine]
    exact h.alone m

/-- A task that has ended is nobody's. -/
theorem put_ended (h : Base indent i line s event? (n :: owners)) (m : Nat)
    (puts : s.Puts (.ended m) next) : Base indent i line next event? owners := by
  refine h.put puts ((puts.filter_other rfl).trans h.events) (fun m u same => by cases same) fun k => ?_
  have alone := h.alone k
  have none : (Event.ended m : Event World Request Unit).goes?.toList = [] := rfl
  rw [List.count_cons] at alone
  rw [puts.count_numbers, none, List.count_nil]
  omega

theorem no_service (h : Base indent i line s none owners) {p : Phase} :
    ∀ l a t, .service l a t ∈ s.working → ∃ files, p = .writing a files := by
  intro l a t ht
  have none := List.filter_eq_nil_iff.mp h.events (.service l a t) (List.mem_append_right _ ht)
  exact absurd rfl none

/-! ## Changing the line -/

theorem own_of_busy (h : Base indent i line s event? owners) (busy : (s.line line).busy = true) :
    (s.state.store i).line = some line := by
  refine h.lined.resolve_right fun none => ?_
  rw [State.line, none.2] at busy
  cases busy

theorem setLine (h : Base indent i line s event? owners)
    (own : (s.state.store i).line = some line) (l : Loop.Line World Request Unit)
    (leavers : l.leavers = [])
    (asked : ∀ a ∈ l.asked, a.2 = service i .flush ∧ ∀ answer, Client i (a.1.next answer))
    {owners' : List Nat}
    (same : ∀ n, (askers l).count n + owners'.count n ≤
      (askers (s.line line)).count n + owners.count n) :
    Base indent i line (s.setLine line l) event? owners' := by
  have now := State.line_setLine s line l
  refine ⟨h.here, h.indent, h.families, .inl own, by rwa [now], by rwa [now], h.events, h.tasks, ?_⟩
  intro n
  have alone := h.alone n
  have same := same n
  rw [now]
  show (Loop.numbers s.events).count n + (askers l).count n + owners'.count n ≤
    if n ≤ s.last then 1 else 0
  omega

/-- What a task does at once leaves the line as it is, but the store may have got one. -/
theorem edits (h : Base indent i line s event? owners) {w : World} (did : Edits i s.state w) :
    ∃ line', (line' = line ∨ s.lines = []) ∧ (∀ l, (w.store i).line = some l → l = line') ∧
      Base indent i line' { s with state := w } event? owners := by
  have here : i < w.stores.length := did.length ▸ h.here
  have indent := did.indent.trans h.indent
  cases now : (w.store i).line with
  | none =>
    refine ⟨line, .inl rfl, fun l same => (by cases same), here, indent, h.families, .inr ⟨now, ?_⟩,
      h.leavers, h.asked, h.events, h.tasks, h.alone⟩
    rcases h.lined with own | none
    · rcases did.line with before | same
      · rw [own] at before
        cases before
      · rw [own, now] at same
        cases same
    · exact none.2
  | some l =>
    rcases h.lined with own | ⟨-, lines⟩
    · have same : l = line := by
        rcases did.line with before | same
        · rw [own] at before
          cases before
        · rw [own, now] at same
          exact Option.some.inj same
      subst same
      exact ⟨l, .inl rfl, fun _ same => (Option.some.inj same).symm, here, indent, h.families,
        .inl now, h.leavers, h.asked, h.events, h.tasks, h.alone⟩
    · have empty (n : Nat) : s.line n = {} := by rw [State.line, lines]; rfl
      have asked := h.asked
      have alone := h.alone
      rw [empty] at asked alone
      refine ⟨l, .inr lines, fun _ same => (Option.some.inj same).symm, here, indent, h.families,
        .inl now, ?_, ?_, h.events, h.tasks, ?_⟩
      · show (s.line l).leavers = []
        rw [empty]
      · show ∀ a ∈ (s.line l).asked, _
        rwa [empty]
      · show ∀ n, (Loop.numbers s.events).count n + (askers (s.line l)).count n + owners.count n ≤
          if n ≤ s.last then 1 else 0
        rwa [empty]

end Base

/-! ## A task goes on -/

namespace Shape

variable {indent : Value} {i line n : Nat} {s left : State World Request Unit} {t : Op Unit}
  {p : Phase} {going : List Nat} {next : State World Request Unit}

/-- The event of the line that writes is not that of a task. -/
theorem works_taken {e : Event World Request Unit} (h : Shape indent i line s p going)
    (take : s.Takes e left) (other : e.isLine = false) :
    ∀ a files, p = .writing a files →
      .service line a (Task.change (writeFiles i files)) ∈ left.working := by
  intro a files same
  have works := h.works a files same
  cases take with
  | ready => exact works
  | working next =>
    rw [next, List.mem_append, List.mem_cons] at works
    rcases works with works | rfl | works
    · exact List.mem_append_left _ works
    · cases other
    · exact List.mem_append_right _ works

theorem rests_taken {e : Event World Request Unit} (h : Shape indent i line s p going)
    (take : s.Takes e left) :
    ∀ l a t, .service l a t ∈ left.working → ∃ files, p = .writing a files := by
  intro l a t ht
  cases take with
  | ready => exact h.rests l a t ht
  | working next =>
    refine h.rests l a t ?_
    rw [next]
    rcases List.mem_append.mp ht with ht | ht <;> simp [ht]

theorem take_task (h : Shape indent i line s p []) (take : s.Takes (.task n t) left) :
    Shape indent i line left p [n] ∧ Client i t ∧ view i line left p = view i line s p := by
  obtain ⟨base, client⟩ := h.base.take_task take
  have works := h.works_taken take rfl
  have busy := h.busy
  refine ⟨⟨base, ?_, h.asker, works, h.rests_taken take⟩, client, ?_⟩
  · cases take <;> exact busy
  · cases take <;> rfl

theorem put_task (h : Shape indent i line s p [n]) (client : Client i t)
    (puts : s.Puts (.task n t) next) :
    Shape indent i line next p [] ∧ view i line next p = view i line s p := by
  have base := h.base.put_task client puts
  have busy := h.busy
  refine ⟨⟨base, ?_, h.asker, fun a files same => ?_, fun l a u hu => ?_⟩, ?_⟩
  · cases puts <;> exact busy
  · have works := h.works a files same
    cases puts with
    | later | atOnce => exact works
    | whenDone => exact List.mem_append_left _ works
  · cases puts with
    | later | atOnce => exact h.rests l a u hu
    | whenDone =>
      rcases List.mem_append.mp hu with hu | hu
      · exact h.rests l a u hu
      · cases List.mem_singleton.mp hu
  · cases puts <;> rfl

theorem put_ended (h : Shape indent i line s p [n]) (m : Nat) (results : List (Nat × Result Unit)) :
    Shape indent i line (State.later { s with results } (.ended m)) p [] := by
  have base := h.base.put_ended m .later
  exact ⟨⟨base.here, base.indent, base.families, base.lined, base.leavers, base.asked, base.events,
    base.tasks, base.alone⟩, h.busy, h.asker, h.works, h.rests⟩

theorem edits (h : Shape indent i line s p going) {w : World} (did : Edits i s.state w) :
    ∃ line', Shape indent i line' { s with state := w } p going ∧
      (∀ l, (w.store i).line = some l → l = line') ∧
      view i line' { s with state := w } p =
        { view i line s p with memory := (w.store i).memory } := by
  obtain ⟨line', same, own, base⟩ := h.base.edits did
  have files := did.directory
  rcases same with rfl | lines
  · refine ⟨line', ⟨base, h.busy, h.asker, h.works, h.rests⟩, own, ?_⟩
    simp only [view, files]
    rfl
  · have empty (n : Nat) : s.line n = {} := by rw [State.line, lines]; rfl
    have busy := h.busy
    rw [empty] at busy
    cases p with
    | idle =>
      have idle (n : Nat) : (State.line { s with state := w } n) = {} := empty n
      refine ⟨line', ⟨base, by rw [idle]; rfl, fun a none => (by cases none),
        fun a files none => (by cases none), h.rests⟩, own, ?_⟩
      simp only [view, files, idle, empty]
    | called | serving | writing => cases busy

/-- A caller of a flush is put at the end of the line, which is woken if nothing is asked of it. -/
theorem ask (h : Shape indent i line s p [n]) (own : (s.state.store i).line = some line)
    {resume : Result Unit → Op Unit} (client : ∀ answer, Client i (resume answer)) :
    ∃ p', Shape indent i line (Loop.ask s line ⟨n, resume⟩ (service i .flush)) p' [] ∧
      view i line (Loop.ask s line ⟨n, resume⟩ (service i .flush)) p' =
        { view i line s p with waiting := (view i line s p).waiting ++ [n] } ∧
      p'.flight? = p.flight? := by
  let longer : Loop.Line World Request Unit :=
    { s.line line with
      asked := (s.line line).asked ++ [(⟨n, resume⟩, service i .flush)]
      busy := true
      unserved := (s.line line).unserved + 1 }
  have asked : askers longer = askers (s.line line) ++ [n] := by simp [askers, longer]
  have base : Base indent i line (s.setLine line longer) (p.event? i line)
      (p.asker?.map (·.number)).toList := by
    refine h.base.setLine own longer h.base.leavers (fun a ha => ?_) fun m => ?_
    · rcases List.mem_append.mp ha with ha | ha
      · exact h.base.asked a ha
      · obtain rfl := List.mem_singleton.mp ha
        exact ⟨rfl, client⟩
    · rw [asked, List.count_append, List.count_append]
      omega
  have now := State.line_setLine s line longer
  have seen (p' : Phase) (waits : p'.waiting = p.waiting) (flight : p'.flight? = p.flight?) :
      view i line (s.setLine line longer) p' =
        { view i line s p with waiting := (view i line s p).waiting ++ [n] } := by
    simp only [view, now, asked, waits, flight, List.append_assoc]
    rfl
  have asks : Loop.ask s line ⟨n, resume⟩ (service i .flush) =
      if (s.line line).busy then s.setLine line longer
      else (s.setLine line longer).later (.line line) := rfl
  rw [asks, h.busy]
  cases p with
  | idle =>
    refine ⟨.called, ⟨base.put_line rfl .later, ?_, fun a none => (by cases none),
      fun a files none => (by cases none), base.no_service⟩, seen .called rfl rfl, rfl⟩
    exact congrArg Loop.Line.busy now
  | called | serving | writing =>
    exact ⟨_, ⟨base, congrArg Loop.Line.busy now, h.asker, h.works, h.rests⟩, seen _ rfl rfl, rfl⟩

/-- A caller that is not in the hands of the line has no flush there. -/
theorem not_called (h : Shape indent i line s p [n]) :
    n ∉ (view i line s p).waiting ∧ ∀ files, (view i line s p).writing ≠ some (n, files) := by
  have alone := h.base.alone n
  have once : (askers (s.line line)).count n + (p.asker?.map (·.number)).toList.count n = 0 := by
    rw [List.count_append] at alone
    simp only [List.count_singleton_self] at alone
    split at alone <;> omega
  have free : n ∉ askers (s.line line) := List.count_eq_zero.mp (by omega)
  have hands : n ∉ (p.asker?.map (·.number)).toList := List.count_eq_zero.mp (by omega)
  cases p with
  | idle | called => exact ⟨by simpa [view, Phase.waiting] using free, fun files h => by cases h⟩
  | serving a =>
    refine ⟨?_, fun files h => by cases h⟩
    simp only [Phase.asker?, Option.map_some, Option.toList_some] at hands
    simpa [view, Phase.waiting, free] using hands
  | writing a files =>
    refine ⟨by simpa [view, Phase.waiting] using free, fun files' same => ?_⟩
    cases same
    simp [Phase.asker?] at hands

/-- A task goes on up to its next request. -/
theorem goes (h : Shape indent i line s p []) (saved : (view i line s p).Saved)
    (take : s.Takes (.task n t) left) :
    ∃ line' p', Shape indent i line' (Loop.happen interpret left (.task n t)) p' [] ∧
      Moves indent (view i line s p) (markOf s (.task n t))
        (view i line' (Loop.happen interpret left (.task n t)) p') ∧
      p'.flight? = p.flight? := by
  obtain ⟨shape, client, seen⟩ := h.take_task take
  have state : left.state = s.state := by cases take <;> rfl
  obtain ⟨did, waits⟩ := client_advance client ⟨h.base.here, saved.dirty⟩
  have stopped := Task.advance_stopped t s.state
  cases stop : t.advance s.state with
  | mk w rest =>
    rw [stop] at did waits stopped
    rw [← state] at did
    obtain ⟨line', shape', own, seen'⟩ := shape.edits did
    have edited : (view i line s p).memory.Edited (w.store i).memory := by
      have memory := did.memory
      rw [state] at memory
      exact memory
    cases rest with
    | read | write => cases stopped
    | done r =>
      have happen : Loop.happen interpret left (.task n t) =
          State.later { left with state := w, results := (n, r) :: left.results } (.ended n) := by
        simp only [Loop.happen, state, stop]
      have mark : markOf s (.task n t) = .other := by simp only [markOf, stop]
      rw [happen, mark]
      refine ⟨line', p, shape'.put_ended n _, ?_⟩
      have same : view i line' (State.later { left with
          state := w, results := (n, r) :: left.results } (.ended n)) p =
          { view i line s p with memory := (w.store i).memory } := by
        rw [← seen]
        exact seen'
      rw [same]
      exact ⟨.edits edited, rfl⟩
    | wait request next =>
      obtain ⟨waits, later⟩ := waits request next rfl
      cases waits with
      | turn =>
        have happen : Loop.happen interpret left (.task n t) =
            State.later { left with state := w } (.task n (next Loop.granted)) := by
          simp only [Loop.happen, state, stop]
          rfl
        have mark : markOf s (.task n t) = .other := by simp only [markOf, stop]
        obtain ⟨after, same⟩ := shape'.put_task (later Loop.granted) .later
        rw [happen, mark]
        refine ⟨line', p, after, ?_⟩
        rw [same, seen', seen]
        exact ⟨.edits edited, rfl⟩
      | work =>
        have happen : Loop.happen interpret left (.task n t) =
            State.whenDone { left with state := w } (.task n (next Loop.granted)) := by
          simp only [Loop.happen, state, stop]
          rfl
        have mark : markOf s (.task n t) = .other := by simp only [markOf, stop]
        obtain ⟨after, same⟩ := shape'.put_task (later Loop.granted) .whenDone
        rw [happen, mark]
        refine ⟨line', p, after, ?_⟩
        rw [same, seen', seen]
        exact ⟨.edits edited, rfl⟩
      | @flush l mine =>
        obtain rfl := own l mine
        have happen : Loop.happen interpret left (.task n t) =
            Loop.ask { left with state := w } l ⟨n, next⟩ (service i .flush) := by
          simp only [Loop.happen, state, stop]
          rfl
        have mark : markOf s (.task n t) = .called n := by simp only [markOf, stop]
        obtain ⟨fresh, idle⟩ := shape.not_called
        rw [seen] at fresh idle
        obtain ⟨p', after, same, flight⟩ := shape'.ask mine later
        rw [happen, mark]
        refine ⟨l, p', after, ?_⟩
        rw [same, seen', seen]
        exact ⟨.calls edited fresh idle, flight⟩

/-! ## The line goes on -/

/-- The line takes up its next request, or has none left. -/
theorem take_request {l : Nat} (h : Shape indent i line s p []) (take : s.Takes (.line l) left) :
    ∃ p', Shape indent i line (Loop.happen interpret left (.line l)) p' [] ∧
      view i line (Loop.happen interpret left (.line l)) p' = view i line s p := by
  obtain ⟨event, base⟩ := h.base.take_line take rfl
  have busy := h.busy
  have lines : left.lines = s.lines := by cases take <;> rfl
  have state : left.state = s.state := by cases take <;> rfl
  have line_ (n : Nat) : left.line n = s.line n := by simp only [State.line, lines]
  cases p with
  | idle | serving | writing => cases event
  | called =>
    obtain rfl : line = l := by cases event; rfl
    have own := base.own_of_busy (by rw [line_]; exact busy)
    cases asked : (left.line line).asked with
    | nil =>
      let idle : Loop.Line World Request Unit := { left.line line with busy := false }
      have happen : Loop.happen interpret left (.line line) = left.setLine line idle := by
        unfold Loop.happen
        dsimp only
        split
        · rfl
        · next some => cases asked.symm.trans some
      have now := State.line_setLine left line idle
      have set : Base indent i line (left.setLine line idle) none [] :=
        base.setLine own idle base.leavers base.asked fun n => le_refl _
      rw [happen]
      refine ⟨.idle, ⟨set, congrArg Loop.Line.busy now, fun a none => (by cases none),
        fun a files none => (by cases none), base.no_service⟩, ?_⟩
      simp only [view, now, ← line_]
      simp only [State.setLine, state]
      rfl
    | cons request rest =>
      obtain ⟨a, t⟩ := request
      let fewer : Loop.Line World Request Unit := { left.line line with asked := rest }
      have happen : Loop.happen interpret left (.line line) =
          (left.setLine line fewer).atOnce (.service line a t) := by
        simp only [Loop.happen, asked]
        rfl
      have now := State.line_setLine left line fewer
      have first := base.asked ⟨a, t⟩ (by rw [asked]; simp)
      obtain ⟨rfl, client⟩ : t = service i .flush ∧ _ := first
      have set : Base indent i line (left.setLine line fewer) none [a.number] := by
        refine base.setLine own fewer base.leavers
          (fun b hb => base.asked b (by rw [asked]; exact List.mem_cons_of_mem _ hb)) fun n => ?_
        simp only [askers, asked, fewer, List.map_cons, List.count_cons, List.count_nil]
        omega
      rw [happen]
      refine ⟨.serving a, ⟨set.put_line rfl .atOnce, ?_, ?_, fun a files none => (by cases none),
        base.no_service⟩, ?_⟩
      · refine (congrArg Loop.Line.busy now).trans ?_
        show (left.line line).busy = true
        rw [line_]
        exact busy
      · intro b same
        cases same
        exact client
      · simp only [view, State.line_atOnce, now, ← line_, Phase.waiting, Phase.flight?, askers,
          asked, fewer, List.map_cons, List.singleton_append, List.nil_append]
        simp only [State.atOnce, State.setLine, state]

end Shape

/-- A request is answered, and the line goes on with the next. -/
theorem serviceEnded_shape {indent : Value} {i line : Nat} {s : State World Request Unit}
    {a : Sleeper World Request Unit} (base : Base indent i line s none [a.number])
    (busy : (s.line line).busy = true) (client : ∀ answer, Client i (a.next answer))
    (r : Result Unit) :
    Shape indent i line (Loop.serviceEnded s line a r) .called [] ∧
      view i line (Loop.serviceEnded s line a r) .called =
        ⟨(s.state.store i).memory, s.state.directory, askers (s.line line), none⟩ := by
  let next := s.later (.task a.number (a.next (r.map fun _ => default)))
  let rested : Loop.Line World Request Unit :=
    { s.line line with unserved := (s.line line).unserved - 1, leavers := [] }
  have ended : Loop.serviceEnded s line a r = (next.setLine line rested).atOnce (.line line) := by
    simp only [Loop.serviceEnded, base.leavers, List.foldl_nil, ite_self]
    rfl
  have own := base.own_of_busy busy
  have told : Base indent i line next none [] := base.put_task (client _) .later
  have set : Base indent i line (next.setLine line rested) none [] :=
    told.setLine own rested rfl base.asked fun n => le_refl _
  have now := State.line_setLine next line rested
  rw [ended]
  refine ⟨⟨set.put_line rfl .atOnce, ?_, fun a none => (by cases none),
    fun a files none => (by cases none), base.no_service⟩, ?_⟩
  · exact (congrArg Loop.Line.busy now).trans busy
  · simp only [view, Phase.waiting, Phase.flight?, State.line_atOnce, now, List.nil_append]
    rfl

/-- A world in which only the memory of store `i` and the files may differ. -/
theorem Base.serves {indent : Value} {i line : Nat} {s : State World Request Unit}
    {event? : Option (Event World Request Unit)} {owners : List Nat} {w : World} {m : Memory}
    (h : Base indent i line s event? owners)
    (stores : w.stores = s.state.stores.set i { s.state.store i with memory := m }) :
    Base indent i line { s with state := w } event? owners ∧ (w.store i).memory = m := by
  have same := World.store_of_stores h.here stores
  refine ⟨⟨?_, ?_, h.families, ?_, h.leavers, h.asked, h.events, h.tasks, h.alone⟩, by rw [same]⟩
  · rw [stores, List.length_set]
    exact h.here
  · rw [same]
    exact h.indent
  · rw [same]
    exact h.lined

namespace Shape

variable {indent : Value} {i line n : Nat} {s left : State World Request Unit} {t : Op Unit}
  {p : Phase} {a : Sleeper World Request Unit}

/-- A service ends, as it is or in some other way, with what was made of memory and files. -/
theorem ends {l : Nat} {t' : Op Unit} (h : Shape indent i line s p [])
    (take : s.Takes (.service l a t') left) {w : World} {m : Memory} {d : Directory}
    {r : Result Unit} (done : t.advance s.state = (w, .done r))
    (stores : w.stores = s.state.stores.set i { s.state.store i with memory := m })
    (directory : w.directory = d) :
    l = line ∧ p.asker? = some a ∧ markOf s (.service l a t) = .answered a.number r.isOk ∧
      Shape indent i line (Loop.happen interpret left (.service l a t)) .called [] ∧
      view i line (Loop.happen interpret left (.service l a t)) .called =
        ⟨m, d, askers (s.line line), none⟩ := by
  obtain ⟨event, base⟩ := h.base.take_line take rfl
  have lines : left.lines = s.lines := by cases take <;> rfl
  have state : left.state = s.state := by cases take <;> rfl
  have line_ (n : Nat) : left.line n = s.line n := by simp only [State.line, lines]
  obtain ⟨rfl, asker, busy⟩ : l = line ∧ p.asker? = some a ∧ p.isBusy = true := by
    cases p with
    | idle | called => cases event
    | serving b | writing b => cases event; exact ⟨rfl, rfl, rfl⟩
  rw [← state] at stores
  obtain ⟨base, memory⟩ := base.serves stores
  rw [asker] at base
  have busy : (State.line { left with state := w } l).busy = true := by
    show (left.line l).busy = true
    rw [line_, h.busy, busy]
  obtain ⟨shape, seen⟩ := serviceEnded_shape base busy (h.asker a asker) r
  have happen : Loop.happen interpret left (.service l a t) =
      Loop.serviceEnded { left with state := w } l a r := by
    simp only [Loop.happen, state, done]
  rw [happen, seen]
  refine ⟨rfl, asker, by simp only [markOf, done], shape, ?_⟩
  show View.mk (w.store i).memory w.directory (askers (left.line l)) none = _
  rw [memory, directory, line_]

/-- The line goes on with a flush: it is done or refused at once, or it takes its snapshot, or its
files are written. -/
theorem serves {l : Nat} (h : Shape indent i line s p [])
    (take : s.Takes (.service l a t) left) (last : Snapshot) :
    ∃ p', Shape indent i line (Loop.happen interpret left (.service l a t)) p' [] ∧
      Moves indent (view i line s p) (markOf s (.service l a t))
        (view i line (Loop.happen interpret left (.service l a t)) p') ∧
      ∀ n files, p'.flight? = some (n, files) →
        Scene.filesAfter i ⟨s, last⟩ (.service l a t) = files := by
  obtain ⟨event, base⟩ := h.base.take_line take rfl
  have state : left.state = s.state := by cases take <;> rfl
  have here := h.base.here
  have kept := set_store_self s.state i
  cases p with
  | idle | called => cases event
  | serving b =>
    cases event
    have queue : (view i line s (.serving a)).waiting.erase a.number = askers (s.line line) := by
      simp [view, Phase.waiting]
    cases clean : (s.state.store i).memory.dirty.isEmpty with
    | true =>
      have done : (service i .flush).advance s.state = (s.state, .done (.ok ())) :=
        flush_clean clean
      obtain ⟨-, -, mark, shape, seen⟩ :=
        h.ends (m := (s.state.store i).memory) take done kept rfl
      refine ⟨.called, shape, ?_, fun n files none => (by cases none)⟩
      rw [mark, seen, ← queue]
      exact .passes (by simp [view, Phase.waiting]) rfl (by simpa [view] using clean)
    | false =>
      have start := startFlush_eq i s.state
      cases taken : snapshot (s.state.store i).indent (s.state.store i).memory
          (s.state.store i).memory.pending with
      | error f =>
        rw [taken] at start
        have done : (service i .flush).advance s.state =
            ((failFlush (s.state.store i).memory.pending f s.state).1,
              .done (failFlush (s.state.store i).memory.pending f s.state).2) :=
          flush_failed clean start
        obtain ⟨-, -, mark, shape, seen⟩ :=
          h.ends (m := (s.state.store i).memory) take done kept rfl
        refine ⟨.called, shape, ?_, fun n files none => (by cases none)⟩
        rw [mark, seen, ← queue]
        exact .refuses
      | ok files =>
        rw [taken] at start
        let w := s.state.setStore i (settled (s.state.store i))
        have happen : Loop.happen interpret left (.service line a (service i .flush)) =
            State.whenDone { left with state := w }
              (.service line a (Task.change (writeFiles i files))) := by
          have stop : (service i .flush).advance s.state = (writing i files).advance w :=
            flush_started clean start
          simp only [Loop.happen, state, stop]
          rfl
        have mark : markOf s (.service line a (service i .flush)) = .other := by
          have stop : (service i .flush).advance s.state = (writing i files).advance w :=
            flush_started clean start
          simp only [markOf, stop]
          rfl
        have stores : w.stores = left.state.stores.set i { left.state.store i with
            memory := { (s.state.store i).memory with dirty := [] } } := by rw [state]; rfl
        have lines : left.lines = s.lines := by cases take <;> rfl
        have line_ (n : Nat) : left.line n = s.line n := by simp only [State.line, lines]
        obtain ⟨base, memory⟩ := base.serves stores
        rw [happen, mark]
        refine ⟨.writing a files, ⟨base.put_line rfl .whenDone, ?_, h.asker, ?_,
          fun l b t hb => ?_⟩, ?_, ?_⟩
        · show (left.line line).busy = true
          rw [line_]
          exact h.busy
        · intro b files' same
          cases same
          exact List.mem_append_right _ (List.mem_singleton.mpr rfl)
        · rcases List.mem_append.mp hb with hb | hb
          · obtain ⟨files', none⟩ := h.rests_taken take l b t hb
            cases none
          · cases List.mem_singleton.mp hb
            exact ⟨files, rfl⟩
        · have seen : view i line (State.whenDone { left with state := w }
              (.service line a (Task.change (writeFiles i files)))) (.writing a files) =
                ⟨{ (s.state.store i).memory with dirty := [] }, s.state.directory,
                  askers (s.line line), some (a.number, files)⟩ := by
            show View.mk (w.store i).memory w.directory (askers (left.line line)) _ = _
            rw [memory, line_]
            rfl
          rw [seen, ← queue]
          have taken := h.base.indent ▸ taken
          exact .starts rfl taken
        · intro n files' same
          cases same
          have stop : (service i .flush).advance s.state = (writing i files).advance w :=
            flush_started clean start
          simp only [Scene.filesAfter, stop, start]
          rfl
  | writing b files =>
    cases event
    have serves := writeFiles_serves i s.state files
    have done : (Task.change (writeFiles i files) : Op Unit).advance s.state =
        ((writeFiles i files s.state).1, .done (writeFiles i files s.state).2) := rfl
    obtain ⟨-, -, mark, shape, seen⟩ := h.ends take done serves.stores serves.directory
    refine ⟨.called, shape, ?_, fun n files none => (by cases none)⟩
    rw [mark, seen, serves.answer]
    simp only [written]
    cases wrote : files.write s.state.directory with
    | mk d outcome =>
      cases outcome with
      | ok _ => exact .ends rfl wrote
      | error f =>
        obtain ⟨k, first⟩ := Snapshot.write_failed wrote
        rw [first]
        exact .fails rfl k

/-- A flush fails at one of its files. -/
theorem fails {l : Nat} {files : Snapshot} (h : Shape indent i line s (.writing a files) [])
    (take : s.Takes (.service l a t) left) (k : Nat) (f : Fault) :
    Shape indent i line (Loop.happen interpret left (.service l a (failing i files k f)))
        .called [] ∧
      Moves indent (view i line s (.writing a files)) (.answered a.number false)
        (view i line (Loop.happen interpret left (.service l a (failing i files k f))) .called) := by
  have done : (failing i files k f).advance s.state =
      ((abandonFlush i files.names f { s.state with
          directory := (Snapshot.write s.state.directory (files.take k)).1 }).1,
        .done (Result.ofFault (.error f))) := rfl
  obtain ⟨-, -, -, shape, seen⟩ := h.ends take done rfl rfl
  refine ⟨shape, ?_⟩
  rw [seen]
  exact .fails rfl k

/-- A client begins. -/
theorem begins (h : Shape indent i line s p []) (client : Client i t) :
    Shape indent i line
        (State.later { s with last := s.last + 1 } (.task (s.last + 1) t)) p [] ∧
      view i line (State.later { s with last := s.last + 1 } (.task (s.last + 1) t)) p =
        view i line s p := by
  have base := h.base
  have fresh : Base indent i line { s with last := s.last + 1 } (p.event? i line)
      ([s.last + 1] ++ (p.asker?.map (·.number)).toList) := by
    refine ⟨base.here, base.indent, base.families, base.lined, base.leavers, base.asked,
      base.events, base.tasks, fun n => ?_⟩
    have alone := base.alone n
    rw [List.nil_append] at alone
    rw [List.count_append, List.count_singleton]
    show (Loop.numbers s.events).count n + (askers (s.line line)).count n + _ ≤
      if n ≤ s.last + 1 then 1 else 0
    by_cases new : n = s.last + 1
    · subst new
      rw [if_neg (by omega)] at alone
      simp only [beq_self_eq_true, if_true, le_refl]
      omega
    · have other : (s.last + 1 == n) = false := by simpa using fun same => new same.symm
      rw [other, if_neg Bool.false_ne_true]
      split at alone <;> split <;> omega
  have going : Shape indent i line { s with last := s.last + 1 } p [s.last + 1] :=
    ⟨fresh, h.busy, h.asker, h.works, h.rests⟩
  exact going.put_task client .later

/-- The end of a task is told to nobody. -/
theorem ended (h : Shape indent i line s p []) (take : s.Takes (.ended n) left) :
    Shape indent i line (Loop.happen interpret left (.ended n)) p [] ∧
      view i line (Loop.happen interpret left (.ended n)) p = view i line s p := by
  have base : Base indent i line left (p.event? i line)
      ([] ++ (p.asker?.map (·.number)).toList) := by
    refine h.base.taken take ((take.filter_other rfl).trans h.base.events) fun m => ?_
    have alone := h.base.alone m
    rw [take.count_numbers] at alone
    exact alone
  have happen : Loop.happen interpret left (.ended n) = left := by
    simp only [Loop.happen, Loop.ended, base.families, List.find?_nil]
  have busy := h.busy
  have works := h.works_taken take rfl
  rw [happen]
  refine ⟨⟨base, ?_, h.asker, works, h.rests_taken take⟩, ?_⟩
  · cases take <;> exact busy
  · cases take <;> rfl

end Shape

/-- Clients beside the writer, with the files of its flush. -/
structure Scene.Fits (indent : Value) (i line : Nat) (s : Scene) (p : Phase) : Prop where
  shape : Shape indent i line s.loop p []
  files : ∀ n files, p.flight? = some (n, files) → s.files = files

/-- A step is a move of the store with its writer. -/
theorem step_moves {indent : Value} {i line : Nat} {s s' : Scene} {p : Phase} {mark : Mark}
    (h : s.Fits indent i line p) (saved : (view i line s.loop p).Saved) (step : Step i s mark s') :
    ∃ line' p', s'.Fits indent i line' p' ∧
      Moves indent (view i line s.loop p) mark (view i line' s'.loop p') := by
  obtain ⟨shape, files⟩ := h
  cases step with
  | begins client =>
    obtain ⟨after, seen⟩ := shape.begins client
    refine ⟨line, p, ⟨after, files⟩, ?_⟩
    rw [seen]
    exact .edits (.refl _)
  | @goesOn e left next =>
    cases e with
    | task n t =>
      obtain ⟨line', p', after, moves, flight⟩ := shape.goes saved next
      exact ⟨line', p', ⟨after, flight ▸ files⟩, moves⟩
    | line l =>
      obtain ⟨p', after, seen⟩ := shape.take_request next
      have flight : p'.flight? = p.flight? := congrArg View.writing seen
      refine ⟨line, p', ⟨after, flight ▸ files⟩, ?_⟩
      rw [seen]
      exact .edits (.refl _)
    | service l a t =>
      obtain ⟨p', after, moves, flight⟩ := shape.serves next s.files
      exact ⟨line, p', ⟨after, flight⟩, moves⟩
    | ended n =>
      obtain ⟨after, seen⟩ := shape.ended next
      refine ⟨line, p, ⟨after, files⟩, ?_⟩
      rw [seen]
      exact .edits (.refl _)
  | @writes l a t busy k =>
    obtain ⟨files', rfl⟩ := shape.rests l a t busy
    obtain rfl := files _ _ rfl
    have kept : s.loop.state.stores =
        s.loop.state.stores.set i (s.loop.state.store i) := set_store_self s.loop.state i
    obtain ⟨base, memory⟩ := shape.base.serves (m := (s.loop.state.store i).memory)
      (w := { s.loop.state with
        directory := (Snapshot.write s.loop.state.directory (s.files.take k)).1 }) kept
    exact ⟨line, _, ⟨⟨base, shape.busy, shape.asker, shape.works, shape.rests⟩, files⟩,
      .writes rfl k⟩
  | @fails before after l a t busy k f =>
    obtain ⟨files', rfl⟩ := shape.rests l a t (by rw [busy]; simp)
    obtain rfl := files _ _ rfl
    obtain ⟨shape', moves⟩ := shape.fails (.working busy) k f
    exact ⟨line, .called, ⟨shape', fun n files none => (by cases none)⟩, moves⟩

end DocStore.Writer
