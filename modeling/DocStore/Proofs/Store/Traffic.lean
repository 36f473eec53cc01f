import DocStore.Proofs.Storage.Files
import DocStore.Proofs.Store.Callers
import DocStore.Proofs.Store.Order
/-!
Demands that come to a store while others are under way and its writer is at work, in any order: what
each step does to the store, its files and the requests that wait.
-/

namespace DocStore

open Loop (Event State)
open Store (Caller)
open Writer (attend service removeFile writeFiles)
open CollectionName (fileOf)

/-- Demands under way beside the writer. -/
abbrev Traffic := State World Request Reply

namespace Directory

/-- Each entry is as it was in one directory or as it is in another. -/
def Between (d d' now : Directory) : Prop :=
  ∀ file, now.entry? file = d.entry? file ∨ now.entry? file = d'.entry? file

end Directory

namespace Traffic

/-- A demand comes: what of it can be done at once is done. -/
def comes (i : Nat) (d : Demand) (s : Traffic) : Traffic :=
  Loop.happen attend { s with last := s.last + 1 } (.task (s.last + 1) (Op.joined (d.task i)))

/-- What can happen next: a demand comes, something that is ready or of which the work is done goes on,
or the work under way gets on with its files or fails at one of them. A flush that fails leaves its
collections as it does when there is no directory. -/
inductive Step (i : Nat) (s : Traffic) : Option Demand → Traffic → Prop
  | comes (d : Demand) : Step i s (some d) (s.comes i d)
  | goesOn {e : Event World Request Reply} {left : Traffic} (next : s.Takes e left) :
      Step i s none (Loop.happen attend left e)
  | works {line : Nat} {asker : Loop.Sleeper World Request Reply} {t : Task World Request Reply Unit}
      {now : Directory} (busy : .service line asker t ∈ s.working)
      (partly : s.state.directory.Between (t.advance s.state).1.directory now) :
      Step i s none { s with state := { s.state with directory := now } }
  | fails {before after : List (Event World Request Reply)} {line : Nat}
      {asker : Loop.Sleeper World Request Reply} {t : Task World Request Reply Unit} {now : Directory}
      (busy : s.working = before ++ .service line asker t :: after)
      (partly : s.state.directory.Between (t.advance s.state).1.directory now) (e : Error) :
      Step i s none
        (Loop.serviceEnded
          { s with
            state := { (t.advance { s.state with directory := none }).1 with directory := now }
            working := before ++ after } line asker (.error e))

/-- What comes of a state in steps, where only some demands come. -/
inductive Run (i : Nat) (allowed : Demand → Prop) (s : Traffic) : Traffic → Prop
  | start : Run i allowed s s
  | step {s' s'' : Traffic} {d? : Option Demand} (run : Run i allowed s s') (step : Step i s' d? s'')
      (may : ∀ d, d? = some d → allowed d) : Run i allowed s s''

theorem Run.trans {i : Nat} {allowed : Demand → Prop} {s s' s'' : Traffic}
    (run : Run i allowed s s') (run' : Run i allowed s' s'') : Run i allowed s s'' := by
  induction run' with
  | start => exact run
  | step _ step may ih => exact ih.step step may

/-- The loop takes steps that are possible. -/
theorem run_steps {i : Nat} {allowed : Demand → Prop} (fuel : Nat) (s : Traffic) :
    Run i allowed s (Loop.steps Writer.attend fuel s) := by
  induction fuel generalizing s with
  | zero => exact .start
  | succ fuel ih =>
    have goes {e : Loop.Event World Request Reply} {left : Traffic} (next : s.Takes e left) :
        Run i allowed s (Loop.happen Writer.attend left e) := .step .start (.goesOn next) nofun
    cases ready : s.ready with
    | cons e rest =>
      simp only [Loop.steps, ready]
      exact (goes (@Loop.State.Takes.ready _ _ _ s e [] rest ready)).trans (ih _)
    | nil =>
      cases working : s.working with
      | cons e rest =>
        simp only [Loop.steps, ready, working]
        have next := goes (@Loop.State.Takes.working _ _ _ s e [] rest working)
        rw [ready] at next
        exact next.trans (ih _)
      | nil =>
        simp only [Loop.steps, ready, working]
        exact .start

end Traffic

/-! ## The desk of the writer -/

/-- A store and its files with the requests to its writer that are not answered, the first of them first,
the files of the flush that is being written, and the answers that were given. -/
structure Desk where
  store : Store
  directory : Directory
  queue : List (Nat × WriteKind)
  flight : Snapshot
  told : List (Nat × Result Unit)
  last : Nat

namespace Desk

variable (v : Desk)

/-- No file appears that is not in flight. -/
def Works (now : Directory) : Prop :=
  ∀ file, v.directory.entry? file = none → (∀ f ∈ v.flight, fileOf f.1 ≠ file) →
    now.entry? file = none

/-- Memory holds the same, and nothing counts as changed that did not and is not in flight. -/
structure Dirties (m : Memory) : Prop where
  collections : m.collections = v.store.memory.collections
  dirty : ∀ x ∈ m.dirty, x ∈ v.store.memory.dirty ∨ x ∈ v.flight.names

/-- What a step does to a desk. -/
inductive Moves : Option Demand → Desk → Prop
  | rests : Moves none v
  | ends {d : Demand} (asks : Effect.asked? (d.effect v.store).2 = none) :
      Moves (some d) { v with
        store := (d.effect v.store).1
        told := (v.last + 1, (d.reply v.store).map fun _ => ()) :: v.told
        last := v.last + 1 }
  | asks {d : Demand} {kind : WriteKind} (line : Option Nat)
      (asks : Effect.asked? (d.effect v.store).2 = some kind) :
      Moves (some d) { v with
        store := { (d.effect v.store).1 with line }
        queue := v.queue ++ [(v.last + 1, kind)]
        last := v.last + 1 }
  | starts {n : Nat} {queue : List (Nat × WriteKind)} {files : Snapshot}
      (first : v.queue = (n, .flush) :: queue)
      (taken : snapshot v.store.indent v.store.memory v.store.memory.pending = .ok files) :
      Moves none { v with store := Writer.settled v.store, flight := files }
  | works {now : Directory} (works : v.Works now) : Moves none { v with directory := now }
  | answers {n : Nat} {kind : WriteKind} {queue : List (Nat × WriteKind)} {m : Memory}
      {now : Directory} {answer : Result Unit} (first : v.queue = (n, kind) :: queue)
      (dirties : v.Dirties m) (works : v.Works now)
      (removed : ∀ c, kind = .remove c → answer = .ok () → v.directory.remove (fileOf c) = .ok now) :
      Moves none { v with
        store := { v.store with memory := m }
        directory := now
        queue
        flight := []
        told := (n, answer) :: v.told }

end Desk

/-! ## What the writer is at -/

/-- What the writer is at: nothing, about to take up a request, or at one that it has taken up, for which
it may be writing the files of a flush or removing one. -/
inductive Front where
  | idle
  | called
  | taken (c : Caller Reply)
  | writing (c : Caller Reply) (files : Snapshot)
  | removing (c : Caller Reply) (collection : Value)

namespace Front

def caller? : Front → Option (Caller Reply)
  | idle | called => none
  | taken c | writing c _ | removing c _ => some c

def flight : Front → Snapshot
  | writing _ files => files
  | _ => []

def isBusy : Front → Bool
  | idle => false
  | _ => true

/-- The work that is left of a request. -/
def work (i : Nat) : Front → Op Unit
  | idle | called => pure ()
  | taken c => service i c.kind
  | writing _ files => Task.change (writeFiles i files)
  | removing _ collection => Task.change (removeFile i collection)

def event? (i line : Nat) (p : Front) : Option (Event World Request Reply) :=
  match p with
  | idle => none
  | called => some (.line line)
  | taken c | writing c _ | removing c _ => some (.service line c.sleeper (Op.joined (p.work i)))

/-- The work belongs to the request. -/
def Fits : Front → Prop
  | writing c _ => c.kind = .flush
  | removing c collection => c.kind = .remove collection
  | _ => True

/-- A line that is asked does not rest any more. -/
def awake : Front → Front
  | idle => called
  | p => p

theorem caller?_awake (p : Front) : p.awake.caller? = p.caller? := by cases p <;> rfl

theorem flight_awake (p : Front) : p.awake.flight = p.flight := by cases p <;> rfl

theorem isBusy_awake (p : Front) : p.awake.isBusy = true := by cases p <;> rfl

theorem fits_awake {p : Front} (h : p.Fits) : p.awake.Fits := by
  cases p with
  | idle => trivial
  | called | taken | writing | removing => exact h

/-- A service under way is the work that is left of the request that was taken up. -/
theorem event?_service {i line l : Nat} {p : Front} {a : Loop.Sleeper World Request Reply}
    {t : Task World Request Reply Unit} (h : p.event? i line = some (.service l a t)) :
    l = line ∧ t = Op.joined (p.work i) ∧ ∃ c, p.caller? = some c ∧ a = c.sleeper := by
  cases p with
  | idle | called => cases h
  | taken c | writing c | removing c =>
    cases h
    exact ⟨rfl, rfl, c, rfl, rfl⟩

end Front

/-- What the writer does to its store and the files while some of them are in flight. -/
structure Writer.Tends (i : Nat) (flight : Snapshot) (w w' : World) : Prop where
  memory : ∃ m, w'.stores = w.stores.set i { w.store i with memory := m } ∧
    m.collections = (w.store i).memory.collections ∧
    ∀ x ∈ m.dirty, x ∈ (w.store i).memory.dirty ∨ x ∈ flight.names
  appears : ∀ file, w.directory.entry? file = none → (∀ f ∈ flight, fileOf f.1 ≠ file) →
    w'.directory.entry? file = none

namespace Writer

variable {i : Nat} {w w' : World} {flight : Snapshot}

theorem Tends.of_directory (same : w'.stores = w.stores)
    (appears : ∀ file, w.directory.entry? file = none → (∀ f ∈ flight, fileOf f.1 ≠ file) →
      w'.directory.entry? file = none) : Tends i flight w w' :=
  ⟨⟨_, same.trans (set_store_self w i), rfl, fun _ hx => .inl hx⟩, appears⟩

theorem dirty_of_takeBack {m : Memory} {names : List Value} {x : Value}
    (h : x ∈ (takeBack m names).dirty) : x ∈ m.dirty ∨ x ∈ names := by
  have marks (names : List Value) (m : Memory) (h : x ∈ (names.foldl Memory.markDirty m).dirty) :
      x ∈ m.dirty ∨ x ∈ names := by
    induction names generalizing m with
    | nil => exact .inl h
    | cons name rest ih =>
      rcases ih _ h with marked | later
      · rw [Memory.markDirty] at marked
        split at marked
        · exact .inl marked
        · rcases List.mem_append.mp marked with before | new
          · exact .inl before
          · exact .inr (by simp_all)
      · exact .inr (by simp [later])
  exact (marks _ m h).imp_right fun there => List.mem_of_mem_filter there

theorem tends_writeFiles (files : Snapshot) (w : World) :
    Tends i files w (writeFiles i files w).1 := by
  have entry := files.write_entry w.directory
  rw [writeFiles]
  generalize files.write w.directory = outcome at entry
  obtain ⟨d, r⟩ := outcome
  have appears (file : String) (absent : w.directory.entry? file = none)
      (other : ∀ f ∈ files, fileOf f.1 ≠ file) : d.entry? file = none := by
    rcases entry file with same | ⟨f, hf, own, -⟩
    · exact same.trans absent
    · exact absurd own (other f hf)
  cases r with
  | ok _ => exact .of_directory rfl appears
  | error f =>
    exact ⟨⟨_, rfl, takeBack_collections _ _, fun x hx => dirty_of_takeBack hx⟩, appears⟩

theorem tends_removeFile (collection : Value) (w : World) :
    Tends i flight w (removeFile i collection w).1 := by
  rw [removeFile]
  cases gone : w.directory.remove (fileOf collection) with
  | error f => exact .of_directory rfl fun _ absent _ => absent
  | ok d =>
    cases lost : (w.store i).fsync && d.isNone with
    | true =>
      simp only [lost, if_true]
      exact .of_directory rfl fun _ absent _ => absent
    | false =>
      simp only [lost, Bool.false_eq_true, if_false]
      refine .of_directory rfl fun file absent _ => ?_
      show d.entry? file = _
      rw [Directory.entry?_remove gone, absent, ite_self]

/-- A removal that is granted has removed its file. -/
theorem removed_of_granted {collection : Value} (granted : (removeFile i collection w).2 = .ok ()) :
    w.directory.remove (fileOf collection) = .ok (removeFile i collection w).1.directory := by
  rw [removeFile] at granted ⊢
  cases gone : w.directory.remove (fileOf collection) with
  | error f =>
    rw [gone] at granted
    cases granted
  | ok d =>
    rw [gone] at granted
    simp only at granted ⊢
    split at granted
    · cases granted
    · next kept =>
      rw [if_neg kept]
      rfl

/-- What is left of a service when it begins. -/
inductive Begins (i : Nat) (w : World) : WriteKind → World → Op Unit → Prop
  | ends {kind : WriteKind} {w' : World} {answer : Result Unit} (same : w'.stores = w.stores)
      (directory : w'.directory = w.directory)
      (removes : ∀ c, kind = .remove c → answer ≠ .ok ()) : Begins i w kind w' (.done answer)
  | writes {files : Snapshot}
      (taken : snapshot (w.store i).indent (w.store i).memory (w.store i).memory.pending = .ok files) :
      Begins i w .flush (w.setStore i (settled (w.store i))) (writing i files)
  | removes {collection : Value} :
      Begins i w (.remove collection) w (do
        Task.await .work
        Task.change (removeFile i collection))

theorem begins (kind : WriteKind) (w : World) :
    ∃ w' t, (service i kind).advance w = t.advance w' ∧ Begins i w kind w' t := by
  cases kind with
  | flush =>
    cases clean : (w.store i).memory.dirty.isEmpty with
    | true => exact ⟨w, .done (.ok ()), flush_clean clean, .ends rfl rfl nofun⟩
    | false =>
      have start := startFlush_eq i w
      cases taken : snapshot (w.store i).indent (w.store i).memory (w.store i).memory.pending with
      | error f =>
        rw [taken] at start
        exact ⟨_, .done _, flush_failed clean start, .ends rfl rfl nofun⟩
      | ok files =>
        rw [taken] at start
        exact ⟨_, _, flush_started clean start, .writes taken⟩
  | remove collection =>
    cases null : collection.isNull with
    | true =>
      cases collection with
      | null => exact ⟨_, .done _, rfl, .ends rfl rfl fun _ _ granted => by cases granted⟩
      | _ => cases null
    | false =>
      rw [service_remove i null]
      exact ⟨w, _, rfl, .removes⟩

end Writer

theorem Front.tends (i : Nat) (p : Front) (w : World) :
    Writer.Tends i p.flight w ((p.work i).advance w).1 := by
  cases p with
  | idle | called => exact .of_directory rfl fun _ absent _ => absent
  | writing c files => exact Writer.tends_writeFiles files w
  | removing c collection => exact Writer.tends_removeFile collection w
  | taken c =>
    obtain ⟨w', t, same, begins⟩ := Writer.begins (i := i) c.kind w
    rw [Front.work, same]
    generalize c.kind = kind at begins
    cases begins with
    | ends stores directory => exact .of_directory stores fun _ absent _ => directory ▸ absent
    | writes taken => exact ⟨⟨_, rfl, rfl, fun x none => by cases none⟩, fun _ absent _ => absent⟩
    | removes => exact .of_directory rfl fun _ absent _ => absent

/-! ## Traffic and the desk -/

/-- Demands under way with what the writer is at, those who wait for it, and the answers given. -/
structure Traffic.Shows (i line : Nat) (s : Traffic) (p : Front) (cs : List (Caller Reply))
    (told : List (Nat × Result Unit)) : Prop where
  here : i < s.state.stores.length
  families : s.families = []
  leavers : (s.line line).leavers = []
  lined : (s.state.store i).line = some line ∨ (s.state.store i).line = none ∧ s.lines = []
  busy : (s.line line).busy = p.isBusy
  asked : (s.line line).asked = cs.map (·.request i)
  event : s.events.filter Event.isLine = (p.event? i line).toList
  fits : p.Fits
  passes : ∀ c ∈ p.caller?.toList ++ cs, ∀ answer, Op.Passes answer (c.next answer)
  tasks : ∀ n t, .task n t ∈ s.events →
    ∃ answer u, t = Op.joined u ∧ Op.Passes answer u ∧ (n, answer) ∈ told
  results : ∀ n r, (n, r) ∈ s.results → (n, r.map fun _ => ()) ∈ told

/-- What the writer has on its desk then. -/
def Traffic.desk (i : Nat) (s : Traffic) (p : Front) (cs : List (Caller Reply))
    (told : List (Nat × Result Unit)) : Desk :=
  ⟨s.state.store i, s.state.directory, (p.caller?.toList ++ cs).map fun c => (c.number, c.kind),
    p.flight, told, s.last⟩

namespace Traffic

variable {i line n : Nat} {s left : Traffic} {p : Front} {cs : List (Caller Reply)}
  {told : List (Nat × Result Unit)} {t : Task World Request Reply Reply}

/-- A task goes on with its answer, and ends. -/
theorem Shows.task (h : Shows i line s p cs told) (take : s.Takes (.task n t) left) :
    Shows i line (Loop.happen attend left (.task n t)) p cs told ∧
      desk i (Loop.happen attend left (.task n t)) p cs told = desk i s p cs told := by
  obtain ⟨answer, u, rfl, passes, known⟩ := h.tasks n t take.mem
  have other := take.filter_other rfl
  have less (e : Event World Request Reply) (he : e ∈ left.events) : e ∈ s.events := take.mem_left he
  obtain ⟨ready, working, rfl⟩ := take.rest
  obtain ⟨w, r, ends, agrees, outcome⟩ := passes s.state
  have happens : Loop.happen attend { s with ready, working } (.task n (Op.joined u)) =
      State.later { s with state := w, ready, working, results := (n, r) :: s.results } (.ended n) := by
    simp only [Loop.happen, Op.advance_joined, ends, Op.joined]
  have recorded : (n, r.map fun _ => ()) ∈ told := by
    cases answer with
    | ok _ =>
      obtain ⟨a, rfl⟩ := outcome
      exact known
    | error e =>
      subst outcome
      exact known
  have store : w.store i = s.state.store i := agrees.store i
  rw [happens]
  refine ⟨⟨?_, h.families, h.leavers, ?_, h.busy, h.asked, ?_, h.fits, h.passes, ?_, ?_⟩, ?_⟩
  · show i < w.stores.length
    rw [agrees.stores]
    exact h.here
  · show (w.store i).line = _ ∨ (w.store i).line = _ ∧ _
    rw [store]
    exact h.lined
  · rw [← h.event, ← other]
    exact State.Puts.later.filter_other rfl
  · intro m u' there
    rcases State.Puts.later.mem there with same | there
    · cases same
    · exact h.tasks m u' (less _ there)
  · intro m r' there
    rcases List.mem_cons.mp there with same | there
    · cases same
      exact recorded
    · exact h.results m r' there
  · show Desk.mk (w.store i) w.directory _ _ _ _ = _
    rw [store, agrees.directory]
    rfl

/-- The end of a task is told to nobody. -/
theorem Shows.ended (h : Shows i line s p cs told) (take : s.Takes (.ended n) left) :
    Shows i line (Loop.happen attend left (.ended n)) p cs told ∧
      desk i (Loop.happen attend left (.ended n)) p cs told = desk i s p cs told := by
  have other := take.filter_other rfl
  have less (e : Event World Request Reply) (he : e ∈ left.events) : e ∈ s.events := take.mem_left he
  obtain ⟨ready, working, rfl⟩ := take.rest
  have happens : Loop.happen attend { s with ready, working } (.ended n) =
      { s with ready, working } := by
    simp only [Loop.happen, Loop.ended, h.families, List.find?_nil]
  rw [happens]
  exact ⟨⟨h.here, h.families, h.leavers, h.lined, h.busy, h.asked, other.trans h.event, h.fits, h.passes,
    fun m u there => h.tasks m u (less _ there), h.results⟩, rfl⟩

/-- A line at work is that of the store. -/
theorem Shows.own (h : Shows i line s p cs told) (busy : p.isBusy = true) :
    (s.state.store i).line = some line := by
  refine h.lined.resolve_right fun none => ?_
  have idle := h.busy
  rw [State.line, none.2, busy] at idle
  cases idle

/-- The line takes up its next request, or rests. -/
theorem Shows.takes_up {l : Nat} (h : Shows i line s p cs told) (take : s.Takes (.line l) left) :
    ∃ p' cs', Shows i line (Loop.happen attend left (.line l)) p' cs' told ∧
      desk i (Loop.happen attend left (.line l)) p' cs' told = desk i s p cs told := by
  obtain ⟨event, rest⟩ := take.filter_line rfl h.event
  have less (e : Event World Request Reply) (he : e ∈ left.events) : e ∈ s.events := take.mem_left he
  obtain ⟨ready, working, rfl⟩ := take.rest
  cases p with
  | idle | taken | writing | removing => cases event
  | called =>
    cases event
    have own := h.own rfl
    have asked : (State.line { s with ready, working } line).asked = cs.map (·.request i) := h.asked
    cases cs with
    | nil =>
      rw [Loop.happen_line_nil asked]
      refine ⟨.idle, [], ⟨h.here, h.families, ?_, .inl own, ?_, ?_, rest, trivial, h.passes,
        fun m u there => h.tasks m u (less _ there), h.results⟩, rfl⟩
      · rw [State.line_setLine]
        exact h.leavers
      · rw [State.line_setLine]
        rfl
      · rw [State.line_setLine]
        exact h.asked
    | cons c cs =>
      rw [Loop.happen_line_cons asked]
      refine ⟨.taken c, cs, ⟨h.here, h.families, ?_, .inl own, ?_, ?_, ?_, trivial, h.passes,
        fun m u there => ?_, h.results⟩, rfl⟩
      · rw [State.line_atOnce, State.line_setLine]
        exact h.leavers
      · rw [State.line_atOnce, State.line_setLine]
        exact h.busy
      · rw [State.line_atOnce, State.line_setLine]
      · exact State.Puts.atOnce.filter_line rfl rest
      · rcases State.Puts.atOnce.mem there with same | there
        · cases same
        · exact h.tasks m u (less _ there)

/-- The one whose request was served is told the answer, and the line is to take up the next. -/
theorem Shows.answered {c : Caller Reply} {ready working : List (Event World Request Reply)}
    (h : Shows i line s p cs told) (caller : p.caller? = some c)
    (rest : (ready ++ working).filter Event.isLine = [])
    (less : ∀ e ∈ ready ++ working, e ∈ s.events) {w : World} {m : Memory}
    (stores : w.stores = s.state.stores.set i { s.state.store i with memory := m })
    (dirties : (desk i s p cs told).Dirties m) (works : (desk i s p cs told).Works w.directory)
    (answer : Result Unit)
    (removed : ∀ v, c.kind = .remove v → answer = .ok () →
      s.state.directory.remove (fileOf v) = .ok w.directory) :
    ∃ p' cs' told',
      Shows i line (Loop.serviceEnded { s with state := w, ready, working } line c.sleeper answer)
        p' cs' told' ∧
      (desk i s p cs told).Moves none
        (desk i (Loop.serviceEnded { s with state := w, ready, working } line c.sleeper answer)
          p' cs' told') := by
  have busy : p.isBusy = true := by
    cases p with
    | idle => cases caller
    | called | taken | writing | removing => rfl
  have store : w.store i = { s.state.store i with memory := m } := World.store_of_stores h.here stores
  have passes := h.passes
  rw [caller] at passes
  let goesOn : Traffic := State.later { s with state := w, ready, working }
    (.task c.number (Op.joined (c.next answer)))
  have ends : Loop.serviceEnded { s with state := w, ready, working } line c.sleeper answer =
      (goesOn.setLine line { s.line line with unserved := (s.line line).unserved - 1, leavers := [] }).atOnce
        (.line line) := by
    have leavers : (State.line { s with state := w, ready, working } line).leavers = [] := h.leavers
    have told : c.sleeper.next (answer.map fun _ => default) = Op.joined (c.next answer) := by
      cases answer <;> rfl
    simp only [Loop.serviceEnded, leavers, List.foldl_nil, ite_self, told]
    rfl
  have among {e : Event World Request Reply} (there : e ∈ goesOn.events) :
      e = .task c.number (Op.joined (c.next answer)) ∨ e ∈ s.events :=
    (State.Puts.later.mem there).imp_right (less e)
  have queue : (desk i s p cs told).queue = (c.number, c.kind) :: cs.map fun c => (c.number, c.kind) := by
    simp only [desk, caller, Option.toList_some, List.singleton_append, List.map_cons]
  have moves := Desk.Moves.answers queue dirties works removed
  rw [ends]
  refine ⟨.called, cs, (c.number, answer) :: told, ⟨?_, h.families, ?_, .inl ?_, ?_, ?_, ?_, trivial, ?_, ?_, ?_⟩, ?_⟩
  · show i < w.stores.length
    rw [stores, List.length_set]
    exact h.here
  · rw [State.line_atOnce, State.line_setLine]
  · show (w.store i).line = _
    rw [store]
    exact h.own busy
  · rw [State.line_atOnce, State.line_setLine]
    exact h.busy.trans busy
  · rw [State.line_atOnce, State.line_setLine]
    exact h.asked
  · refine State.Puts.atOnce.filter_line rfl ?_
    exact (State.Puts.later.filter_other rfl).trans rest
  · exact fun c' hc => passes c' (List.mem_cons_of_mem c hc)
  · intro n u there
    rcases State.Puts.atOnce.mem there with same | there
    · cases same
    · rcases among there with same | there
      · cases same
        exact ⟨answer, _, rfl, passes c (by simp) answer, by simp⟩
      · obtain ⟨answer', u', rfl, passes', known⟩ := h.tasks n u there
        exact ⟨answer', u', rfl, passes', by simp [known]⟩
  · exact fun n r there => List.mem_cons_of_mem _ (h.results n r there)
  · rw [← show w.store i = { (desk i s p cs told).store with memory := m } from store] at moves
    exact moves

/-- A request that is done with leaves the desk. -/
theorem Shows.done {c : Caller Reply} {ready working : List (Event World Request Reply)}
    (h : Shows i line s p cs told) (caller : p.caller? = some c)
    (rest : (ready ++ working).filter Event.isLine = [])
    (less : ∀ e ∈ ready ++ working, e ∈ s.events) {w : World} {answer : Result Unit}
    (stop : (p.work i).advance s.state = (w, .done answer))
    (removed : ∀ v, c.kind = .remove v → answer = .ok () →
      s.state.directory.remove (fileOf v) = .ok w.directory) :
    ∃ p' cs' told', Shows i line (Loop.happen attend { s with ready, working }
        (.service line c.sleeper (Op.joined (p.work i)))) p' cs' told' ∧
      (desk i s p cs told).Moves none (desk i (Loop.happen attend { s with ready, working }
        (.service line c.sleeper (Op.joined (p.work i)))) p' cs' told') := by
  obtain ⟨⟨m, stores, collections, dirty⟩, appears⟩ := p.tends i s.state
  rw [stop] at stores appears
  have happens : Loop.happen attend { s with ready, working }
      (.service line c.sleeper (Op.joined (p.work i))) =
        Loop.serviceEnded { s with state := w, ready, working } line c.sleeper answer := by
    simp only [Loop.happen, Op.advance_joined, stop, Op.joined]
  rw [happens]
  exact h.answered caller rest less stores ⟨collections, dirty⟩ appears answer removed

/-- A request that waits for work on files stays on the desk. -/
theorem Shows.waits {c : Caller Reply} {ready working : List (Event World Request Reply)}
    (h : Shows i line s (.taken c) cs told) (rest : (ready ++ working).filter Event.isLine = [])
    (less : ∀ e ∈ ready ++ working, e ∈ s.events) {w : World} {request : Request}
    {next : Result Unit → Op Unit} (stop : (service i c.kind).advance s.state = (w, .wait request next))
    (length : w.stores.length = s.state.stores.length)
    (own : (w.store i).line = (s.state.store i).line) (goes : p.work i = next (.ok ()))
    (event : p.event? i line = some (.service line c.sleeper (Op.joined (p.work i))))
    (caller : p.caller? = some c) (fits : p.Fits) (busy : p.isBusy = true) :
    Shows i line (Loop.happen attend { s with ready, working }
        (.service line c.sleeper (Op.joined (service i c.kind)))) p cs told ∧
      desk i (Loop.happen attend { s with ready, working }
          (.service line c.sleeper (Op.joined (service i c.kind)))) p cs told =
        { desk i s (.taken c) cs told with
          store := w.store i, directory := w.directory, flight := p.flight } := by
  have happens : Loop.happen attend { s with ready, working }
      (.service line c.sleeper (Op.joined (service i c.kind))) =
        State.whenDone { s with state := w, ready, working }
          (.service line c.sleeper (Op.joined (p.work i))) := by
    simp only [Loop.happen, Op.advance_joined, stop, Op.joined, goes]
    rfl
  rw [happens]
  refine ⟨⟨length ▸ h.here, h.families, h.leavers, ?_, h.busy.trans busy.symm, h.asked, ?_, fits, ?_,
    fun n u there => ?_, h.results⟩, ?_⟩
  · show (w.store i).line = _ ∨ (w.store i).line = _ ∧ _
    rw [own]
    exact h.lined
  · rw [event]
    exact State.Puts.whenDone.filter_line rfl rest
  · rw [caller]
    exact h.passes
  · rcases State.Puts.whenDone.mem there with same | there
    · cases same
    · exact h.tasks n u (less _ there)
  · rw [desk, caller]
    rfl

/-- The writer goes on with what it is at. -/
theorem Shows.serves {l : Nat} {a : Loop.Sleeper World Request Reply}
    {t : Task World Request Reply Unit} (h : Shows i line s p cs told)
    (take : s.Takes (.service l a t) left) :
    ∃ p' cs' told', Shows i line (Loop.happen attend left (.service l a t)) p' cs' told' ∧
      (desk i s p cs told).Moves none
        (desk i (Loop.happen attend left (.service l a t)) p' cs' told') := by
  obtain ⟨event, rest⟩ := take.filter_line rfl h.event
  have less (e : Event World Request Reply) (he : e ∈ left.events) : e ∈ s.events := take.mem_left he
  obtain ⟨rfl, rfl, c, caller, rfl⟩ := Front.event?_service event
  obtain ⟨ready, working, rfl⟩ := take.rest
  cases p with
  | idle | called => cases caller
  | writing c files =>
    cases caller
    refine h.done rfl rest less rfl fun v removes => ?_
    cases h.fits.symm.trans removes
  | removing c collection =>
    cases caller
    refine h.done rfl rest less rfl fun v removes granted => ?_
    cases h.fits.symm.trans removes
    exact Writer.removed_of_granted granted
  | taken c =>
    cases caller
    obtain ⟨w, t, same, begins⟩ := Writer.begins (i := i) c.kind s.state
    generalize kind : c.kind = k at begins
    cases begins with
    | ends stores directory removes =>
      refine h.done rfl rest less same fun v removes' granted => ?_
      exact absurd granted (removes v (kind.symm.trans removes'))
    | @writes files taken =>
      have store := Writer.stores_setStore h.here (Writer.settled (s.state.store i))
      have queue : (desk i s (.taken c) cs told).queue =
          (c.number, .flush) :: cs.map fun c => (c.number, c.kind) := by
        rw [← kind]
        rfl
      obtain ⟨shows, seen⟩ := h.waits (p := .writing c files) rest less same (List.length_set ..)
        (congrArg (·.line) store) rfl rfl rfl kind rfl
      refine ⟨_, _, _, shows, ?_⟩
      rw [show Front.work i (.taken c) = service i c.kind from rfl, seen, store]
      exact .starts queue taken
    | @removes collection =>
      obtain ⟨shows, seen⟩ := h.waits (p := .removing c collection) rest less same rfl rfl
        rfl rfl rfl kind rfl
      refine ⟨_, _, _, shows, ?_⟩
      rw [show Front.work i (.taken c) = service i c.kind from rfl, seen]
      exact .rests

/-- A demand that ends at once. -/
theorem Shows.ends {d : Demand} {w : World} {r : Result Reply} (h : Shows i line s p cs told)
    (stop : (d.task i).advance s.state = (w, .done r))
    (becomes : s.state.Becomes i (d.effect (s.state.store i)).1 w)
    (reply : d.reply (s.state.store i) = r) :
    Shows i line (comes i d s) p cs ((s.last + 1, r.map fun _ => ()) :: told) ∧
      desk i (comes i d s) p cs ((s.last + 1, r.map fun _ => ()) :: told) =
        { desk i s p cs told with
          store := (d.effect (s.state.store i)).1
          told := (s.last + 1, (d.reply (s.state.store i)).map fun _ => ()) :: told
          last := s.last + 1 } := by
  have happens : comes i d s =
      State.later { s with state := w, last := s.last + 1, results := (s.last + 1, r) :: s.results }
        (.ended (s.last + 1)) := by
    simp only [comes, Loop.happen, Op.advance_joined, stop, Op.joined]
  have store := becomes.store h.here
  have own := d.line_effect (s.state.store i)
  rw [happens]
  refine ⟨⟨?_, h.families, h.leavers, ?_, h.busy, h.asked, ?_, h.fits, h.passes, ?_, ?_⟩, ?_⟩
  · exact becomes.length ▸ h.here
  · show (w.store i).line = _ ∨ (w.store i).line = _ ∧ _
    rw [store, own]
    exact h.lined
  · exact (State.Puts.later.filter_other rfl).trans h.event
  · intro n u there
    rcases State.Puts.later.mem there with same | there
    · cases same
    · obtain ⟨answer, u', rfl, passes, known⟩ := h.tasks n u there
      exact ⟨answer, u', rfl, passes, List.mem_cons_of_mem _ known⟩
  · intro n r' there
    rcases List.mem_cons.mp there with same | there
    · cases same
      exact List.mem_cons_self
    · exact List.mem_cons_of_mem _ (h.results n r' there)
  · show Desk.mk (w.store i) w.directory _ _ _ _ = _
    rw [store, becomes.directory, reply]
    rfl

/-- Before a store has a line, nothing waits on any. -/
theorem Shows.lineFor (h : Shows i line s p cs told) :
    Shows i (s.state.lineFor (s.state.store i)) s p cs told := by
  rcases h.lined with own | ⟨none, lines⟩
  · rw [World.lineFor, own]
    exact h
  · have empty (l : Nat) : s.line l = {} := by
      rw [State.line, lines]
      rfl
    have busy := h.busy
    have asked := h.asked
    rw [empty] at busy asked
    obtain rfl : p = .idle := by
      cases p with
      | idle => rfl
      | called | taken | writing | removing => cases busy
    obtain rfl : cs = [] := List.map_eq_nil_iff.mp asked.symm
    refine ⟨h.here, h.families, ?_, .inr ⟨none, lines⟩, ?_, ?_, h.event, h.fits, h.passes, h.tasks,
      h.results⟩ <;> rw [empty] <;> rfl

/-- A demand that waits for the writer asks on the line of its store. -/
theorem Shows.asks {d : Demand} {w : World} {c : Caller Reply} (h : Shows i line s p cs told)
    (own : s.state.lineFor (s.state.store i) = line) (number : c.number = s.last + 1)
    (stop : (d.task i).advance s.state = (w, .wait (.serve line i c.kind) c.next))
    (asks : s.state.Asks i (d.effect (s.state.store i)).1 w)
    (passes : ∀ answer, Op.Passes answer (c.next answer)) :
    Shows i line (comes i d s) p.awake (cs ++ [c]) told ∧
      desk i (comes i d s) p.awake (cs ++ [c]) told =
        { desk i s p cs told with
          store := { (d.effect (s.state.store i)).1 with line := some line }
          queue := (desk i s p cs told).queue ++ [(s.last + 1, c.kind)]
          last := s.last + 1 } := by
  let began : Traffic := { s with state := w, last := s.last + 1 }
  have happens : comes i d s = Loop.ask began line c.sleeper (Op.joined (service i c.kind)) := by
    simp only [comes, Loop.happen, Op.advance_joined, stop, Op.joined, attend, Loop.call, began,
      Caller.sleeper, number]
  have store : w.store i = { (d.effect (s.state.store i)).1 with line := some line } := by
    rw [World.store_of_stores h.here asks.stores, World.lineFor, d.line_effect]
    exact congrArg (fun l => { (d.effect (s.state.store i)).1 with line := some l }) own
  have here : i < w.stores.length := by
    rw [asks.stores, List.length_set]
    exact h.here
  have queue (front : List (Caller Reply)) :
      (front ++ (cs ++ [c])).map (fun c => (c.number, c.kind)) =
        (front ++ cs).map (fun c => (c.number, c.kind)) ++ [(s.last + 1, c.kind)] := by
    rw [← List.append_assoc, List.map_append, List.map_singleton, number]
  have all (c' : Caller Reply) (hc : c' ∈ p.caller?.toList ++ (cs ++ [c])) (answer : Result Unit) :
      Op.Passes answer (c'.next answer) := by
    rw [← List.append_assoc] at hc
    rcases List.mem_append.mp hc with before | new
    · exact h.passes c' before answer
    · rw [List.mem_singleton.mp new]
      exact passes answer
  have now := Loop.ask_line began line c.sleeper (Op.joined (service i c.kind))
  have tasks {n : Nat} {u : Task World Request Reply Reply} :=
    @Loop.task_of_ask _ _ _ began line c.sleeper (Op.joined (service i c.kind)) n u
  obtain ⟨lines, same⟩ := Loop.ask_rest began line c.sleeper (Op.joined (service i c.kind))
  rw [same] at now tasks
  rw [happens, same]
  refine ⟨⟨here, h.families, ?_, .inl (congrArg (·.line) store), ?_, ?_, ?_, Front.fits_awake h.fits, ?_,
    fun n u there => h.tasks n u (tasks there), h.results⟩, ?_⟩
  · rw [now]
    exact h.leavers
  · rw [now, p.isBusy_awake]
    rfl
  · rw [now]
    exact c.asked_more h.asked
  · rw [show (began.line line).busy = p.isBusy from h.busy]
    cases p with
    | idle => exact State.Puts.later.filter_line rfl h.event
    | called | taken | writing | removing =>
      simp only [Front.isBusy, if_true, List.append_nil]
      exact h.event
  · rw [p.caller?_awake]
    exact all
  · show Desk.mk (w.store i) w.directory _ _ _ _ = _
    rw [store, asks.directory, p.caller?_awake, p.flight_awake, queue]
    rfl

/-- A demand comes. -/
theorem Shows.comes (h : Shows i line s p cs told) (d : Demand) :
    ∃ line' p' cs' told', Shows i line' (Traffic.comes i d s) p' cs' told' ∧
      (desk i s p cs told).Moves (some d) (desk i (Traffic.comes i d s) p' cs' told') := by
  cases d.begun h.here with
  | ends stop becomes reply asked =>
    obtain ⟨shows, seen⟩ := h.ends stop becomes reply
    refine ⟨_, _, _, _, shows, ?_⟩
    rw [seen]
    exact .ends asked
  | @waits w kind next hand a stop asks asked rest passes reply own =>
    have same : s.state.lineFor (d.effect (s.state.store i)).1 =
        s.state.lineFor (s.state.store i) := by
      rw [World.lineFor, d.line_effect]
      rfl
    rw [same] at stop
    let c : Caller Reply := { number := s.last + 1, kind, next, reply := a }
    obtain ⟨shows, seen⟩ := h.lineFor.asks (c := c) rfl rfl stop asks passes
    refine ⟨_, _, _, _, shows, ?_⟩
    rw [seen]
    exact .asks _ asked

/-- A service under way is what the writer is at. -/
theorem Shows.event_of_mem {e : Event World Request Reply} (h : Shows i line s p cs told)
    (there : e ∈ s.events) (isLine : e.isLine = true) : p.event? i line = some e := by
  have own : e ∈ (p.event? i line).toList := h.event ▸ List.mem_filter.mpr ⟨there, isLine⟩
  exact Option.mem_toList.mp own

/-- What the work under way does to the files on the way. -/
theorem Front.works_between {now : Directory} (w : World)
    (partly : w.directory.Between ((p.work i).advance w).1.directory now) (file : String)
    (absent : w.directory.entry? file = none) (other : ∀ f ∈ p.flight, fileOf f.1 ≠ file) :
    now.entry? file = none := by
  rcases partly file with same | same
  · exact same.trans absent
  · exact same.trans ((p.tends i w).appears file absent other)

/-- What a step does to the desk. -/
theorem step_moves {s' : Traffic} {d? : Option Demand} (h : Shows i line s p cs told)
    (step : Step i s d? s') :
    ∃ line' p' cs' told', Shows i line' s' p' cs' told' ∧
      (desk i s p cs told).Moves d? (desk i s' p' cs' told') := by
  cases step with
  | comes d => exact h.comes d
  | @goesOn e left next =>
    cases e with
    | task n t =>
      obtain ⟨shows, seen⟩ := h.task next
      exact ⟨line, p, cs, told, shows, seen ▸ .rests⟩
    | line l =>
      obtain ⟨p', cs', shows, seen⟩ := h.takes_up next
      exact ⟨line, p', cs', told, shows, seen ▸ .rests⟩
    | service l a t =>
      obtain ⟨p', cs', told', shows, moves⟩ := h.serves next
      exact ⟨line, p', cs', told', shows, moves⟩
    | ended n =>
      obtain ⟨shows, seen⟩ := h.ended next
      exact ⟨line, p, cs, told, shows, seen ▸ .rests⟩
  | @works l a t now busy partly =>
    have event := h.event_of_mem (List.mem_append_right _ busy) rfl
    obtain ⟨rfl, rfl, -⟩ := Front.event?_service event
    rw [Op.advance_joined] at partly
    exact ⟨l, p, cs, told, ⟨h.here, h.families, h.leavers, h.lined, h.busy, h.asked, h.event, h.fits,
      h.passes, h.tasks, h.results⟩, .works (Front.works_between s.state partly)⟩
  | @fails before after l a t now busy partly e =>
    have take : s.Takes (.service l a t) _ := .working busy
    obtain ⟨event, rest⟩ := take.filter_line rfl h.event
    obtain ⟨rfl, rfl, c, caller, rfl⟩ := Front.event?_service event
    rw [Op.advance_joined] at partly ⊢
    obtain ⟨m, stores, collections, dirty⟩ := (p.tends i { s.state with directory := none }).memory
    refine ⟨l, h.answered (m := m)
      (w := { ((p.work i).advance { s.state with directory := none }).1 with directory := now })
      caller rest (fun e he => take.mem_left he) stores ⟨collections, dirty⟩
      (Front.works_between s.state partly) (.error e) ?_⟩
    exact fun _ _ granted => by cases granted

/-- What every move keeps holds of the desk after a run. -/
theorem run_invariant {s' : Traffic} {allowed : Demand → Prop} {P : Desk → Prop}
    (keeps : ∀ v v' d?, (∀ d, d? = some d → allowed d) → v.Moves d? v' → P v → P v')
    (h : Shows i line s p cs told) (start : P (desk i s p cs told)) (run : Run i allowed s s') :
    ∃ line' p' cs' told', Shows i line' s' p' cs' told' ∧ P (desk i s' p' cs' told') := by
  induction run with
  | start => exact ⟨line, p, cs, told, h, start⟩
  | step run step may ih =>
    obtain ⟨line', p', cs', told', shows, kept⟩ := ih
    obtain ⟨line'', p'', cs'', told'', shows', moves⟩ := step_moves shows step
    exact ⟨line'', p'', cs'', told'', shows', keeps _ _ _ may moves kept⟩

/-- Nothing is under way yet. -/
theorem shows_start {w : World} (here : i < w.stores.length) :
    ∃ line, Shows i line { state := w } .idle [] [] := by
  refine ⟨((w.store i).line).getD 0, here, rfl, rfl, ?_, rfl, rfl, rfl, trivial, nofun, nofun,
    nofun⟩
  show (w.store i).line = _ ∨ (w.store i).line = _ ∧ _
  cases (w.store i).line with
  | none => exact .inr ⟨rfl, rfl⟩
  | some l => exact .inl rfl

end Traffic

end DocStore
