import DocStore.Proofs.Loop
import DocStore.Proofs.Storage.Drain
import DocStore.Proofs.Store.Effect
/-!
Operations side by side that call for the writer of one store: each does at once what it can, in order,
and then the line serves what was asked of it, one request after the other, until nothing is under way
and every operation has its result.
-/

namespace DocStore

open Loop (Event Sleeper State Goes)
open Writer (serveAll)

variable {α τ : Type}

/-- An operation beside others that end with results in `τ`: of an answer it hears only whether its
request was granted. -/
def Op.joined : Op α → Task World Request τ α
  | .done result => .done result
  | .read next => .read fun w => Op.joined (next w)
  | .write w next => .write w (Op.joined next)
  | .wait request next =>
    .wait request fun answer => Op.joined (next (answer.map fun _ => ()))

/-- What the requests of operations with results in `τ` come to. -/
def Writer.attend : Request → Call World Request τ
  | .turn => .turn
  | .work => .work
  | .serve line i kind => .service line (Op.joined (service i kind))
  | .drained line => .drained line

theorem Op.advance_joined (t : Op α) (w : World) :
    (Op.joined (τ := τ) t).advance w = ((t.advance w).1, Op.joined (t.advance w).2) := by
  induction t generalizing w with
  | done r => rfl
  | read next ih => exact ih w w
  | write state next ih => exact ih state
  | wait request next => rfl

theorem Result.map_unit (r : Result Unit) : (r.map fun _ => ()) = r := by cases r <;> rfl

/-- Beside operations without results nothing is to be left out of an answer. -/
theorem Op.joined_self (t : Op α) : Op.joined t = t := by
  induction t with
  | done r => rfl
  | read next ih => exact congrArg Task.read (funext ih)
  | write state next ih => exact congrArg (Task.write state) ih
  | wait request next ih =>
    refine congrArg (Task.wait request) (funext fun answer => ?_)
    rw [Result.map_unit]
    exact ih answer

theorem Writer.attend_self : Writer.attend = Writer.interpret := by
  funext request
  cases request <;> simp only [attend, interpret, Op.joined_self]

/-! ## A service in its pieces -/

theorem Writer.sharing_writeFiles (i : Nat) (files : Snapshot) (w : World) :
    (writeFiles i files w).1.sharing = w.sharing := by
  rw [writeFiles]
  obtain ⟨d, outcome⟩ := files.write w.directory
  cases outcome <;> rfl

theorem Writer.sharing_removeFile (i : Nat) {collection : Value} (w : World) :
    (removeFile i collection w).1.sharing = w.sharing := by
  rw [removeFile]
  split
  · rfl
  · split <;> rfl

/-- A service is done at once, or it waits once for work, during which the stores and the files stay as
they are; what is shared it leaves alone. -/
theorem Writer.service_pieces {i : Nat} {w : World} (kind : WriteKind) (here : i < w.stores.length) :
    (∃ w' r, (service i kind).advance w = (w', .done r) ∧ w'.sharing = w.sharing ∧
      Serves i w (served (w.store i) w.directory kind) w' r) ∨
    ∃ w' next, (service i kind).advance w = (w', .wait .work next) ∧ w'.sharing = w.sharing ∧
      w'.stores.length = w.stores.length ∧ ∀ v, w'.Agrees v →
        ∃ v' r, (next (.ok ())).advance v = (v', .done r) ∧ v'.sharing = v.sharing ∧
          Serves i w (served (w.store i) w.directory kind) v' r := by
  have kept := set_store_self w i
  cases kind with
  | flush =>
    cases clean : (w.store i).memory.dirty.isEmpty with
    | true =>
      refine .inl ⟨w, .ok (), flush_clean clean, rfl, ?_⟩
      simp only [served, flushed, clean, if_true]
      exact ⟨kept, rfl, rfl, rfl⟩
    | false =>
      have start := startFlush_eq i w
      cases taken : snapshot (w.store i).indent (w.store i).memory (w.store i).memory.pending with
      | error f =>
        rw [taken] at start
        refine .inl ⟨_, _, flush_failed clean start, rfl, ?_⟩
        simp only [served, flushed, clean, Bool.false_eq_true, if_false, taken]
        exact ⟨kept, rfl, rfl, rfl⟩
      | ok files =>
        rw [taken] at start
        refine .inr ⟨_, _, (flush_started clean start).trans rfl, rfl, List.length_set ..,
          fun v agrees => ?_⟩
        have serves := writeFiles_serves i v files
        refine ⟨_, _, rfl, sharing_writeFiles i files v, ?_⟩
        simp only [served, flushed, clean, Bool.false_eq_true, if_false, taken]
        have store : v.store i = settled (w.store i) :=
          (agrees.store i).trans (stores_setStore here _)
        rw [store, agrees.directory] at serves
        refine ⟨?_, serves.directory, serves.lines.trans agrees.lines, serves.answer⟩
        rw [serves.stores, agrees.stores, store]
        exact List.set_set ..
  | remove collection =>
    cases null : collection.isNull with
    | true =>
      cases collection with
      | null => exact .inl ⟨_, _, rfl, rfl, kept, rfl, rfl, rfl⟩
      | _ => cases null
    | false =>
      rw [service_remove i null]
      refine .inr ⟨w, _, rfl, rfl, rfl, fun v agrees => ⟨_, _, rfl, sharing_removeFile i v, ?_⟩⟩
      have serves := removeFile_serves (i := i) (w := v) collection null
      rw [agrees.store, agrees.directory] at serves
      refine ⟨?_, serves.directory, serves.lines.trans agrees.lines, serves.answer⟩
      rw [serves.stores, agrees.stores, agrees.store]
      rfl

/-- A service leaves alone what is shared. -/
theorem Writer.sharing_service {i : Nat} {w : World} (kind : WriteKind) (here : i < w.stores.length) :
    ((service i kind).run grant w).1.sharing = w.sharing := by
  rcases service_pieces kind here with ⟨w', r, stop, same, -⟩ | ⟨w', next, stop, same, -, goes⟩
  · rw [Task.run_of_done stop]
    exact same
  · obtain ⟨v, r, stop', same', -⟩ := goes w' (.refl w')
    rw [Task.run_of_wait stop]
    show ((next (.ok ())).run grant w').1.sharing = w.sharing
    rw [Task.run_of_done stop', same', same]

namespace Store

/-! ## Those who called the writer -/

/-- Someone who asked the writer of a store for something: how the operation goes on when it is told the
answer, what it replies when the request was granted, and what must be shared then as it was. -/
structure Caller (τ : Type) where
  number : Nat
  kind : WriteKind
  next : Result Unit → Op τ
  reply : τ
  needs : Sharing → Prop := fun _ => True

namespace Caller

variable (c : Caller τ)

def sleeper : Sleeper World Request τ :=
  ⟨c.number, fun answer => Op.joined (c.next (answer.map fun _ => ()))⟩

def request (i : Nat) : Sleeper World Request τ × Task World Request τ Unit :=
  (c.sleeper, Op.joined (Writer.service i c.kind))

/-- One more caller asks its line. -/
theorem asked_more {line : Loop.Line World Request τ} {cs : List (Caller τ)} {i : Nat}
    (asked : line.asked = cs.map (·.request i)) :
    (line.asking c.sleeper (Op.joined (Writer.service i c.kind))).asked =
      (cs ++ [c]).map (·.request i) := by
  rw [List.map_append, ← asked]
  rfl

def result (answer : Result Unit) : Nat × Result τ := (c.number, answer.map fun _ => c.reply)

/-- Once it is told an answer, the operation ends, with nothing changed but what is reported and shared. -/
def Ends : Prop :=
  ∀ answer v, c.needs v.sharing →
    ∃ v', (c.next answer).advance v = (v', .done (c.result answer).2) ∧ v.Agrees v'

/-- The end of one operation leaves another one what it needs. -/
def Spares (c' : Caller τ) : Prop :=
  ∀ answer v, c.needs v.sharing → c'.needs v.sharing →
    c'.needs ((c.next answer).advance v).1.sharing

end Caller

/-- Callers that have not ended yet. -/
structure Held (cs : List (Caller τ)) (s : Sharing) : Prop where
  ends : ∀ c ∈ cs, c.Ends
  needs : ∀ c ∈ cs, c.needs s
  apart : cs.Pairwise fun c c' => c.Spares c' ∧ c'.Spares c

/-- What is left of operations that called. -/
inductive Left (τ : Type) where
  | ended (number : Nat)
  | told (c : Caller τ) (answer : Result Unit)

namespace Left

def event : Left τ → Event World Request τ
  | ended n => .ended n
  | told c answer => .task c.number (Op.joined (c.next answer))

def caller? : Left τ → Option (Caller τ)
  | ended _ => none
  | told c _ => some c

def result? : Left τ → Option (Nat × Result τ)
  | ended _ => none
  | told c answer => some (c.result answer)

end Left

def callers (left : List (Left τ)) : List (Caller τ) := left.filterMap Left.caller?

/-- The results of those who were told. -/
def told (left : List (Left τ)) : List (Nat × Result τ) := left.filterMap Left.result?

theorem events_ended (ns : List Nat) :
    (ns.map (Left.ended (τ := τ))).map Left.event = ns.map .ended :=
  List.map_map.trans rfl

theorem callers_ended (ns : List Nat) : callers (ns.map (Left.ended (τ := τ))) = [] := by
  simp [callers, List.filterMap_map, Left.caller?, Function.comp_def]

theorem told_ended (ns : List Nat) : told (ns.map (Left.ended (τ := τ))) = [] := by
  simp [told, List.filterMap_map, Left.result?, Function.comp_def]

theorem callers_after (after : List (Left τ)) (ns : List Nat) :
    callers (after ++ ns.map Left.ended) = callers after := by
  have parts : callers (after ++ ns.map Left.ended) = callers after ++ callers (ns.map Left.ended) :=
    List.filterMap_append
  rw [parts, callers_ended, List.append_nil]

theorem told_after (after : List (Left τ)) (ns : List Nat) :
    told (after ++ ns.map Left.ended) = told after := by
  have parts : told (after ++ ns.map Left.ended) = told after ++ told (ns.map Left.ended) :=
    List.filterMap_append
  rw [parts, told_ended, List.append_nil]

/-- A line that is to serve requests in order, while some callers are told their answers or served. -/
structure Draining (i l : Nat) (own waiting : List (Caller τ)) (w : World)
    (s : State World Request τ) : Prop where
  here : i < w.stores.length
  agrees : w.Agrees s.state
  families : s.families = []
  leavers : (s.line l).leavers = []
  asked : (s.line l).asked = waiting.map (·.request i)
  held : Held (own ++ waiting) s.state.sharing

variable {i l : Nat} {own waiting waiting' : List (Caller τ)} {w : World} {s : State World Request τ}

/-- A caller that ends leaves the others what they need. -/
theorem Held.tail {c : Caller τ} {cs : List (Caller τ)} {v : World} (h : Held (c :: cs) v.sharing)
    (answer : Result Unit) : Held cs ((c.next answer).advance v).1.sharing := by
  obtain ⟨apart, rest⟩ := List.pairwise_cons.mp h.apart
  refine ⟨fun c' hc => h.ends c' (by simp [hc]), fun c' hc => ?_, rest⟩
  exact (apart c' hc).1 answer v (h.needs c (by simp)) (h.needs c' (by simp [hc]))

theorem Draining.withReady (h : Draining i l own waiting w s) (ready : List (Event World Request τ)) :
    Draining i l own waiting w { s with ready } :=
  ⟨h.here, h.agrees, h.families, h.leavers, h.asked, h.held⟩

theorem Draining.setLine (h : Draining i l own waiting w s) (line : Loop.Line World Request τ)
    (leavers : line.leavers = []) (asked : line.asked = waiting'.map (·.request i))
    {own' : List (Caller τ)} (held : Held (own' ++ waiting') s.state.sharing) :
    Draining i l own' waiting' w (s.setLine l line) := by
  refine ⟨h.here, h.agrees, h.families, ?_, ?_, held⟩
  · rw [State.line_setLine]
    exact leavers
  · rw [State.line_setLine]
    exact asked

variable [Inhabited τ]

/-- One event that is left over. -/
theorem idle_step {x : Left τ} {rest : List (Event World Request τ)}
    (h : Draining i l (callers [x] ++ own) waiting w s) (ready : s.ready = x.event :: rest) :
    ∃ s', ∃ ns : List Nat, Goes Writer.attend s s' ∧ Draining i l own waiting w s' ∧ s'.working = s.working ∧
      s'.ready = rest ++ ns.map .ended ∧ ns.length = (callers [x]).length ∧
      s'.results = told [x] ++ s.results := by
  have goes : Goes Writer.attend s _ := Loop.goes_ready ready
  cases x with
  | ended n =>
    have same : Loop.happen Writer.attend { s with ready := rest } (.ended n) =
        { s with ready := rest } := by
      simp only [Loop.happen, Loop.ended, h.families, List.find?_nil]
    rw [Left.event, same] at goes
    exact ⟨_, [], goes, ⟨h.here, h.agrees, h.families, h.leavers, h.asked, h.held⟩, rfl,
      (List.append_nil rest).symm, rfl, rfl⟩
  | told c answer =>
    have held := h.held.tail answer
    obtain ⟨v, ends, agrees⟩ :=
      h.held.ends c (by simp [callers, Left.caller?]) answer s.state
        (h.held.needs c (by simp [callers, Left.caller?]))
    have happens : Loop.happen Writer.attend { s with ready := rest } (Left.told c answer).event =
        State.later { s with state := v, ready := rest, results := c.result answer :: s.results }
          (.ended c.number) := by
      simp only [Loop.happen, Left.event, Op.advance_joined, ends]
      rfl
    rw [happens] at goes
    rw [ends] at held
    exact ⟨_, [c.number], goes,
      ⟨h.here, h.agrees.trans agrees, h.families, h.leavers, h.asked, held⟩, rfl, rfl, rfl, rfl⟩

/-- The events that are left over ahead of others. -/
theorem idle_first {before : List (Left τ)} {rest : List (Event World Request τ)}
    (h : Draining i l (callers before ++ own) waiting w s)
    (ready : s.ready = before.map Left.event ++ rest) :
    ∃ s', ∃ ns : List Nat, Goes Writer.attend s s' ∧ Draining i l own waiting w s' ∧ s'.working = s.working ∧
      s'.ready = rest ++ ns.map .ended ∧ ns.length = (callers before).length ∧
      s'.results.Perm (told before ++ s.results) := by
  induction before generalizing s rest with
  | nil => exact ⟨s, [], .refl s, h, rfl, by simpa using ready, rfl, .refl _⟩
  | cons x before ih =>
    have split : callers (x :: before) = callers [x] ++ callers before :=
      List.filterMap_append (l := [x])
    rw [split, List.append_assoc] at h
    obtain ⟨s₁, ns, goes, h₁, working, ready₁, few, results⟩ := idle_step h ready
    obtain ⟨s₂, ns', goes', h₂, working', ready₂, few', results'⟩ :=
      ih h₁ (ready₁.trans (List.append_assoc ..))
    refine ⟨s₂, ns ++ ns', goes.trans goes', h₂, working'.trans working, ?_, ?_, ?_⟩
    · rw [ready₂, List.map_append, List.append_assoc]
    · rw [split, List.length_append, List.length_append, few, few']
    · have parts : told (x :: before) = told [x] ++ told before :=
        List.filterMap_append (l := [x])
      rw [parts, List.append_assoc]
      rw [results] at results'
      refine results'.trans ?_
      rw [← List.append_assoc, ← List.append_assoc]
      exact (List.perm_append_comm).append_right _

/-- All that is left over is done in the end. -/
theorem idle_all {left : List (Left τ)} (h : Draining i l (callers left ++ own) waiting w s)
    (ready : s.ready = left.map Left.event) :
    ∃ s', Goes Writer.attend s s' ∧ Draining i l own waiting w s' ∧ s'.working = s.working ∧
      s'.ready = [] ∧ s'.results.Perm (told left ++ s.results) := by
  obtain ⟨s₁, ns, goes, h₁, working, ready₁, -, results⟩ :=
    idle_first h (ready.trans (List.append_nil _).symm)
  have ready₁ : s₁.ready = (ns.map Left.ended).map Left.event ++ [] := by
    rw [ready₁, events_ended, List.append_nil]
    rfl
  have h₁ : Draining i l (callers (ns.map Left.ended) ++ own) waiting w s₁ := by
    rwa [callers_ended]
  obtain ⟨s₂, ns', goes', h₂, working', ready₂, few, results'⟩ := idle_first h₁ ready₁
  rw [callers_ended, List.length_nil, List.length_eq_zero_iff] at few
  rw [told_ended] at results'
  refine ⟨s₂, goes.trans goes', h₂, working'.trans working, ?_, results'.trans results⟩
  rw [ready₂, few]
  rfl

/-! ## The requests of a line -/

/-- The end of a service: the asker is told, and the line takes up its next request. -/
theorem service_ended {v w' : World} {c : Caller τ} (answer : Result Unit)
    (h : Draining i l own waiting w s) (here : i < w'.stores.length) (agrees : w'.Agrees v)
    (kept : v.sharing = s.state.sharing) :
    ∃ s', Loop.serviceEnded { s with state := v } l c.sleeper answer = s' ∧
      Draining i l own waiting w' s' ∧ s'.working = s.working ∧
      s'.ready = .line l :: (s.ready ++ [(Left.told c answer).event]) ∧ s'.results = s.results := by
  have leavers : (State.line { s with state := v } l).leavers = [] := h.leavers
  have told : c.sleeper.next (answer.map fun _ => default) = Op.joined (c.next answer) := by
    cases answer <;> rfl
  refine ⟨_, rfl, ?_, ?_, ?_, ?_⟩
  all_goals simp only [Loop.serviceEnded, leavers, List.foldl_nil, ite_self]
  · refine ⟨here, agrees, h.families, ?_, ?_, kept ▸ h.held⟩
    · rw [State.line_atOnce, State.line_setLine]
    · rw [State.line_atOnce, State.line_setLine]
      exact h.asked
  · rfl
  · simp only [told]
    rfl
  · rfl

/-- A service that is taken up is done in the end, and then the line takes up its next request. -/
theorem service_done {c : Caller τ} {left : List (Left τ)}
    (h : Draining i l (callers left ++ [c]) waiting w s)
    (ready : s.ready = .service l c.sleeper (Op.joined (Writer.service i c.kind)) ::
      left.map Left.event)
    (working : s.working = []) :
    ∃ s', ∃ after : List (Left τ), Goes Writer.attend s s' ∧
      Draining i l (callers after) waiting ((Writer.service i c.kind).run Writer.grant w).1 s' ∧
      s'.working = [] ∧ s'.ready = .line l :: after.map Left.event ∧
      (told after ++ s'.results).Perm
        (c.result ((Writer.service i c.kind).run Writer.grant w).2 :: (told left ++ s.results)) := by
  obtain ⟨v, answer, ran, serves⟩ := Writer.service_serves c.kind h.here
  rw [ran]
  have there : i < v.stores.length := by
    rw [serves.stores, List.length_set]
    exact h.here
  have hereafter : i < s.state.stores.length := by
    rw [h.agrees.stores]
    exact h.here
  -- the service does to the state what it does to the world that agrees with it
  have same {v' : World} {answer' : Result Unit}
      (done : Writer.Serves i s.state
        (Writer.served (s.state.store i) s.state.directory c.kind) v' answer') :
      v.Agrees v' ∧ answer' = answer := by
    rw [h.agrees.store, h.agrees.directory] at done
    refine ⟨⟨?_, done.directory.trans serves.directory.symm, ?_⟩,
      done.answer.trans serves.answer.symm⟩
    · rw [done.stores, serves.stores, h.agrees.stores, h.agrees.store]
    · rw [done.lines, serves.lines, h.agrees.lines]
  have goes : Goes Writer.attend s _ := Loop.goes_ready ready
  have taken := h.withReady (left.map Left.event)
  rcases Writer.service_pieces c.kind hereafter with
    ⟨v', answer', ends, kept, done⟩ | ⟨v', next, waits, kept, length, ends⟩
  · obtain ⟨agrees, rfl⟩ := same done
    obtain ⟨s', happens, h', working', ready', results⟩ :=
      service_ended (c := c) answer' taken there agrees kept
    simp only [Loop.happen, Op.advance_joined, ends, Op.joined] at goes
    rw [happens] at goes
    have split : callers (left ++ [Left.told c answer']) = callers left ++ [c] :=
      List.filterMap_append
    have parts : told (left ++ [Left.told c answer']) = told left ++ [c.result answer'] :=
      List.filterMap_append
    refine ⟨s', left ++ [.told c answer'], goes, split ▸ h', working'.trans working, ?_, ?_⟩
    · rw [ready', List.map_append]
      rfl
    · rw [parts, results, List.append_assoc]
      exact List.perm_middle
  · simp only [Loop.happen, Op.advance_joined, waits, Op.joined] at goes
    have waiting : Draining i l (callers left ++ [c]) waiting v'
        (State.whenDone { s with state := v', ready := left.map Left.event }
          (.service l c.sleeper (Op.joined (next (.ok ()))))) :=
      ⟨length.symm ▸ hereafter, .refl v', h.families, h.leavers, h.asked, kept ▸ h.held⟩
    obtain ⟨s₂, goes', h₂, working₂, ready₂, results₂⟩ := idle_all waiting rfl
    have working₂ : s₂.working = [.service l c.sleeper (Op.joined (next (.ok ())))] := by
      rw [working₂, State.whenDone, working, List.nil_append]
    obtain ⟨v'', answer', ends, kept', done⟩ := ends s₂.state h₂.agrees
    obtain ⟨agrees, rfl⟩ := same done
    have resumed : Draining i l [c] _ v' { s₂ with working := [] } :=
      ⟨h₂.here, h₂.agrees, h₂.families, h₂.leavers, h₂.asked, h₂.held⟩
    obtain ⟨s', happens, h', working', ready', results⟩ :=
      service_ended (c := c) answer' resumed there agrees kept'
    have goes'' : Goes Writer.attend s₂ _ := Loop.goes_working ready₂ working₂
    simp only [Loop.happen, Op.advance_joined, ends, Op.joined] at goes''
    rw [happens] at goes''
    refine ⟨s', [.told c answer'], goes.trans (goes'.trans goes''), h', working', ?_, ?_⟩
    · rw [ready']
      simp only [ready₂, List.nil_append, List.map_cons, List.map_nil]
    · rw [results]
      exact results₂.cons _

/-- What is left over ahead of the turn of the line. -/
theorem idle_before {before after : List (Left τ)}
    (h : Draining i l (callers before ++ callers after) waiting w s)
    (ready : s.ready = before.map Left.event ++ .line l :: after.map Left.event) :
    ∃ s', ∃ ns : List Nat, Goes Writer.attend s s' ∧
      Draining i l (callers (after ++ ns.map Left.ended)) waiting w s' ∧ s'.working = s.working ∧
      s'.ready = .line l :: (after ++ ns.map Left.ended).map Left.event ∧
      s'.results.Perm (told before ++ s.results) := by
  obtain ⟨s', ns, goes, h', working, ready', -, results⟩ := idle_first h ready
  refine ⟨s', ns, goes, ?_, working, ?_, results⟩
  · rwa [callers_after]
  · rw [ready', List.map_append, events_ended]
    rfl

/-- The line serves its requests in order, and then nothing is under way any more. -/
theorem drained {before after : List (Left τ)}
    (h : Draining i l (callers before ++ callers after) waiting w s)
    (ready : s.ready = before.map Left.event ++ .line l :: after.map Left.event)
    (working : s.working = []) :
    ∃ s', Goes Writer.attend s s' ∧ s'.ready = [] ∧ s'.working = [] ∧
      (serveAll i (waiting.map (·.kind)) w).1.Agrees s'.state ∧
      s'.results.Perm (List.zipWith Caller.result waiting (serveAll i (waiting.map (·.kind)) w).2 ++
        (told after ++ (told before ++ s.results))) := by
  induction waiting generalizing w s before after with
  | nil =>
    obtain ⟨s₁, ns, goes, h₁, working₁, ready₁, results₁⟩ := idle_before h ready
    have goes₁ : Goes Writer.attend s₁ _ := Loop.goes_ready ready₁
    rw [Loop.happen_line_nil (h₁.withReady _).asked] at goes₁
    have held : Held ((callers (after ++ ns.map Left.ended) ++ []) ++ []) s₁.state.sharing := by
      rw [List.append_nil]
      exact h₁.held
    obtain ⟨s', goes', h', working', ready', results'⟩ :=
      idle_all ((h₁.withReady ((after ++ ns.map Left.ended).map Left.event)).setLine
        { s₁.line l with busy := false } h₁.leavers h₁.asked held) rfl
    refine ⟨s', goes.trans (goes₁.trans goes'), ready', working'.trans (working₁.trans working),
      h'.agrees, ?_⟩
    rw [told_after] at results'
    exact results'.trans (results₁.append_left _)
  | cons c waiting ih =>
    obtain ⟨s₁, ns, goes, h₁, working₁, ready₁, results₁⟩ := idle_before h ready
    have goes₁ : Goes Writer.attend s₁ _ := Loop.goes_ready ready₁
    rw [Loop.happen_line_cons (h₁.withReady _).asked] at goes₁
    have served : Held ((callers (after ++ ns.map Left.ended) ++ [c]) ++ waiting) s₁.state.sharing := by
      rw [List.append_assoc]
      exact h₁.held
    have h₂ := ((h₁.withReady _).setLine
      { s₁.line l with asked := waiting.map (·.request i) } h₁.leavers rfl served).withReady
        (.service l c.sleeper (Op.joined (Writer.service i c.kind)) ::
          (after ++ ns.map Left.ended).map Left.event)
    obtain ⟨s₃, left, goes₂, h₃, working₃, ready₃, results₃⟩ :=
      service_done h₂ rfl (working₁.trans working)
    have h₃ : Draining i l (callers [] ++ callers left) waiting _ s₃ := h₃
    obtain ⟨s', goes₃, ready', working', agrees, results'⟩ := ih h₃ ready₃ working₃
    refine ⟨s', goes.trans (goes₁.trans (goes₂.trans goes₃)), ready', working', agrees,
      results'.trans ?_⟩
    have recorded : (told left ++ (told [] ++ s₃.results)).Perm
        (c.result ((Writer.service i c.kind).run Writer.grant w).2 ::
          (told after ++ (told before ++ s.results))) := by
      refine results₃.trans (List.Perm.cons _ ?_)
      rw [told_after]
      exact results₁.append_left _
    exact (recorded.append_left _).trans List.perm_middle

/-! ## Operations that begin in order -/

/-- The parts of numbered operations that are done at once, in order, on store `i`: the world they leave,
those who call the writer, and the results of those that end at once. -/
inductive Starts (i : Nat) :
    World → List (Nat × Op τ) → World → List (Caller τ) → List (Nat × Result τ) → Prop
  | nil {w : World} : Starts i w [] w [] []
  | ends {w w' u : World} {n : Nat} {t : Op τ} {tasks : List (Nat × Op τ)} {cs : List (Caller τ)}
      {rs : List (Nat × Result τ)} {r : Result τ} {next : Store}
      (ends : t.advance w = (w', .done r)) (becomes : w.Becomes i next w')
      (line : next.line = (w.store i).line) (rest : Starts i w' tasks u cs rs) :
      Starts i w ((n, t) :: tasks) u cs ((n, r) :: rs)
  | waits {w w' u : World} {t : Op τ} {tasks : List (Nat × Op τ)} {c : Caller τ}
      {cs : List (Caller τ)} {rs : List (Nat × Result τ)} {next : Store}
      (waits : t.advance w = (w', .wait (.serve (w.lineFor next) i c.kind) c.next))
      (asks : w.Asks i next w') (line : next.line = (w.store i).line)
      (rest : Starts i w' tasks u cs rs) : Starts i w ((c.number, t) :: tasks) u (c :: cs) rs

def turn (l : Nat) (cs : List (Caller τ)) : List (Event World Request τ) :=
  if cs.isEmpty then [] else [.line l]

def beginnings (tasks : List (Nat × Op τ)) : List (Event World Request τ) :=
  tasks.map fun (n, t) => .task n (Op.joined t)

/-- Operations that are still to begin, next to what those that began before them asked of the line. -/
structure Beginning (i l : Nat) (cs : List (Caller τ)) (w : World) (tasks : List (Nat × Op τ))
    (s : State World Request τ) : Prop where
  here : i < w.stores.length
  state : s.state = w
  own : w.lineFor (w.store i) = l
  families : s.families = []
  leavers : (s.line l).leavers = []
  asked : (s.line l).asked = cs.map (·.request i)
  busy : (s.line l).busy = !cs.isEmpty
  working : s.working = []
  ready : ∃ before after : List Nat,
    s.ready = beginnings tasks ++ (before.map .ended ++ turn l cs ++ after.map .ended)

section Beginning

variable {n : Nat} {t : Op τ} {tasks : List (Nat × Op τ)} {cs : List (Caller τ)} {w' : World}
  {next : Store}

/-- An operation that ends at once. -/
theorem Beginning.ends (h : Beginning i l cs w ((n, t) :: tasks) s) {r : Result τ}
    (ends : t.advance w = (w', .done r)) (becomes : w.Becomes i next w')
    (line : next.line = (w.store i).line) :
    ∃ s', Goes Writer.attend s s' ∧ Beginning i l cs w' tasks s' ∧
      s'.results = (n, r) :: s.results := by
  obtain ⟨before, after, ready⟩ := h.ready
  have goes : Goes Writer.attend s _ := Loop.goes_ready ready
  simp only [Loop.happen, h.state, Op.advance_joined, ends, Op.joined] at goes
  have here : i < w'.stores.length := becomes.length ▸ h.here
  have own : w'.lineFor (w'.store i) = l := by
    rw [becomes.store h.here, World.lineFor, line, becomes.lines]
    exact h.own
  refine ⟨_, goes, ⟨here, rfl, own, h.families, h.leavers, h.asked, h.busy, h.working,
    before, after ++ [n], ?_⟩, rfl⟩
  simp only [State.later, beginnings, List.append_eq, List.append_assoc, List.map_append,
    List.map_cons, List.map_nil]

/-- An operation that waits for the writer: what it asks is the last that the line is asked. -/
theorem Beginning.waits {c : Caller τ} (h : Beginning i l cs w ((c.number, t) :: tasks) s)
    (waits : t.advance w = (w', .wait (.serve (w.lineFor next) i c.kind) c.next))
    (asks : w.Asks i next w') (line : next.line = (w.store i).line) :
    ∃ s', Goes Writer.attend s s' ∧ Beginning i l (cs ++ [c]) w' tasks s' ∧
      s'.results = s.results := by
  obtain ⟨before, after, ready⟩ := h.ready
  have goes : Goes Writer.attend s _ := Loop.goes_ready ready
  have for_line : w.lineFor next = l := by
    rw [World.lineFor, line]
    exact h.own
  rw [for_line] at waits
  have here : i < w'.stores.length := by
    rw [asks.stores, List.length_set]
    exact h.here
  have own : w'.lineFor (w'.store i) = l := by
    rw [World.store_of_stores h.here asks.stores, World.lineFor, Option.getD_some]
    exact for_line
  simp only [Loop.happen, h.state, Op.advance_joined, waits, Op.joined, Writer.attend,
    Loop.call] at goes
  let began : State World Request τ := { s with
    state := w'
    ready := beginnings tasks ++ (before.map .ended ++ turn l cs ++ after.map .ended) }
  have goes : Goes Writer.attend s (Loop.ask began l c.sleeper (Op.joined (Writer.service i c.kind))) :=
    goes
  have longer : (cs ++ [c]).isEmpty = false := by simp
  have line' := Loop.ask_line began l c.sleeper (Op.joined (Writer.service i c.kind))
  obtain ⟨lines, same⟩ := Loop.ask_rest began l c.sleeper (Op.joined (Writer.service i c.kind))
  rw [same] at goes line'
  refine ⟨_, goes, ⟨here, rfl, own, h.families, ?_, ?_, ?_, h.working, ?_⟩, rfl⟩
  · rw [line']
    exact h.leavers
  · rw [line']
    exact c.asked_more h.asked
  · rw [line', longer]
    rfl
  · rw [show (began.line l).busy = !cs.isEmpty from h.busy]
    cases first : cs.isEmpty with
    | true => exact ⟨before ++ after, [], by simp [began, turn, first]⟩
    | false => exact ⟨before, after, by simp [began, turn, first]⟩

/-- All operations have begun. -/
theorem begin_all {u : World} {cs' : List (Caller τ)} {rs : List (Nat × Result τ)}
    (starts : Starts i w tasks u cs' rs) (h : Beginning i l cs w tasks s) :
    ∃ s', Goes Writer.attend s s' ∧ Beginning i l (cs ++ cs') u [] s' ∧
      s'.results.Perm (rs ++ s.results) := by
  induction starts generalizing cs s with
  | nil => exact ⟨s, .refl s, by rwa [List.append_nil], .refl _⟩
  | ends ends becomes line rest ih =>
    obtain ⟨s₁, goes, h₁, results⟩ := h.ends ends becomes line
    obtain ⟨s', goes', h', results'⟩ := ih h₁
    rw [results] at results'
    exact ⟨s', goes.trans goes', h', results'.trans List.perm_middle⟩
  | waits waits asks line rest ih =>
    obtain ⟨s₁, goes, h₁, results⟩ := h.waits waits asks line
    obtain ⟨s', goes', h', results'⟩ := ih h₁
    rw [List.append_assoc] at h'
    rw [results] at results'
    exact ⟨s', goes.trans goes', h', results'⟩

end Beginning

def starting (tasks : List (Nat × Op τ)) (w : World) : State World Request τ :=
  { state := w, ready := beginnings tasks, last := tasks.length }

/-- Operations that are started together: in the end nothing is under way, the world is what the requests,
served in order after all that is done at once, leave of it, and each operation ends as it did at once or
as the answer to its request says. -/
theorem served_together {tasks : List (Nat × Op τ)} {u : World} {cs : List (Caller τ)}
    {rs : List (Nat × Result τ)} (here : i < w.stores.length) (starts : Starts i w tasks u cs rs)
    (held : Held cs u.sharing) :
    ∃ s', Goes Writer.attend (starting tasks w) s' ∧ s'.ready = [] ∧ s'.working = [] ∧
      (serveAll i (cs.map (·.kind)) u).1.Agrees s'.state ∧
      s'.results.Perm
        (List.zipWith Caller.result cs (serveAll i (cs.map (·.kind)) u).2 ++ rs) := by
  have beginning : Beginning i (w.lineFor (w.store i)) [] w tasks (starting tasks w) :=
    ⟨here, rfl, rfl, rfl, rfl, rfl, rfl, rfl, [], [], (List.append_nil _).symm⟩
  obtain ⟨s₁, goes, h, results⟩ := begin_all starts beginning
  rw [List.nil_append] at h
  obtain ⟨before, after, ready⟩ := h.ready
  have draining (ns ns' : List Nat) : Draining i (w.lineFor (w.store i))
      (callers (ns.map .ended) ++ callers (ns'.map .ended)) cs u s₁ := by
    rw [callers_ended, callers_ended]
    exact ⟨h.here, h.state ▸ .refl _, h.families, h.leavers, h.asked, h.state ▸ held⟩
  cases cs with
  | nil =>
    have ready : s₁.ready = ((before ++ after).map (Left.ended (τ := τ))).map Left.event := by
      rw [ready, events_ended, List.map_append]
      simp [beginnings, turn]
    obtain ⟨s', goes', h', working, ready', results'⟩ :=
      idle_all (draining (before ++ after) []) ready
    refine ⟨s', goes.trans goes', ready', working.trans h.working, h'.agrees, ?_⟩
    rw [told_ended] at results'
    exact results'.trans (results.trans (by simp [starting]))
  | cons c cs =>
    have ready : s₁.ready = (before.map (Left.ended (τ := τ))).map Left.event ++
        .line (w.lineFor (w.store i)) :: (after.map Left.ended).map Left.event := by
      rw [ready, events_ended, events_ended]
      simp [beginnings, turn]
    obtain ⟨s', goes', ready', working', agrees, results'⟩ :=
      drained (draining before after) ready h.working
    refine ⟨s', goes.trans goes', ready', working', agrees, ?_⟩
    rw [told_ended, told_ended] at results'
    exact results'.trans (results.append_left _ |>.trans (by simp [starting]))

end Store

end DocStore
