import DocStore.Proofs.Model.Refusal
import DocStore.Proofs.Storage.Removal
import DocStore.Proofs.Store.Concurrency
import DocStore.Proofs.Store.Run
/-!
Collections that a connected store does not hold. What works on their documents is refused at once, and
nothing changes. A drop does not look whether the collection is there: it is not refused, it takes no
collection from memory, and it removes the file of that name if there is one.
-/

namespace DocStore

/-- What works on the documents of one collection, with any further arguments. -/
inductive Scoped where
  | insert (doc : Value)
  | findById (id : Value)
  | find (options : Result FindOptions)
  | count (filter : Value)
  | update (id changes : Value)
  | delete (id : Value)
  | deleteMany (filter : Value)

def Scoped.task (i : Nat) (collection : Value) : Scoped → Op Reply
  | insert doc => do return .document (← Store.insert i collection doc)
  | findById id => do return .document (← Store.findById i collection id)
  | find options => do return .documents (← Store.find i collection options)
  | count filter => do return .number (← Store.count i collection filter)
  | update id changes => do return .document (← Store.update i collection id changes)
  | delete id => do return .flag (← Store.delete i collection id)
  | deleteMany filter => do return .number (← Store.deleteMany i collection filter)

/-! ## Refused at once -/

namespace Op

variable {α β : Type} {i : Nat} {w : World} {name : String}

/-- A task that is refused at once, with nothing changed but what is reported. -/
def Fails (t : Op α) (w : World) (e : Error) : Prop :=
  ∃ journal, t.advance w = ({ w with journal }, .done (.error e))

theorem fails_bind {t : Op α} {e : Error} (h : Fails t w e) (f : α → Op β) : Fails (t >>= f) w e := by
  obtain ⟨journal, stop⟩ := h
  exact ⟨journal, Task.advance_bind_failed stop⟩

theorem fails_observed {t : Op α} {e : Error} (operation : String) (collection : Value)
    (h : Fails t w e) : Fails (Store.observed operation collection t) w e := by
  obtain ⟨journal, stop⟩ := h
  obtain ⟨later, reported⟩ := advance_observed operation collection stop
  exact ⟨later, reported⟩

/-- Nothing is done with the documents of a collection that is not held. -/
theorem fails_documentsOf (connected : (w.store i).connected = true)
    (absent : (w.store i).memory.holds (.string name) = false) (f : List Value → Op β) :
    Fails (Store.documentsOf i (.string name) >>= f) w (.collectionNotFound (.string name)) := by
  refine fails_bind ⟨w.journal, ?_⟩ f
  rw [advance_documentsOf, Effect.documentsOf, connected, absent]
  rfl

theorem fails_scoped (connected : (w.store i).connected = true)
    (absent : (w.store i).memory.holds (.string name) = false) (task : Scoped) :
    Fails (task.task i (.string name)) w (.collectionNotFound (.string name)) := by
  have looked {β : Type} (operation : String) (f : List Value → Op β) :=
    fails_observed operation (.string name) (fails_documentsOf connected absent f)
  cases task with
  | insert doc => exact fails_bind (fails_bind (looked "insert" _) _) _
  | findById id => exact fails_bind (looked "find_by_id" _) _
  | find options => exact fails_bind (looked "find" _) _
  | count filter => exact fails_bind (looked "count" _) _
  | update id changes => exact fails_bind (looked "update" _) _
  | delete id => exact fails_bind (looked "delete" _) _
  | deleteMany filter => exact fails_bind (looked "delete_many" _) _

/-! ## A drop -/

theorem checksFirst_dropCollection (i : Nat) (collection : Value) :
    ChecksFirst (Store.dropCollection i collection) := by
  refine checksFirst_bind (checks_requireConnected i) fun _ => ?_
  refine checksFirst_bind_stands ?_ fun _ => ?_
  · refine checksFirst_bind (checks_checkName collection) fun _ => ?_
    exact checksFirst_of_stands (stands_modifyStore i _)
  refine Task.stands_bind (stands_modifyStore i _) fun _ => ?_
  refine Task.stands_bind (Task.stands_modify _) fun _ => ?_
  refine Task.stands_bind ?_ fun _ => ?_
  · refine Task.stands_bind (stands_checkName collection) fun _ => ?_
    exact Task.stands_bind (stands_modifyStore i _) fun _ => stands_ask i _
  exact Task.stands_bind (Task.stands_modify _) fun _ => Task.stands_modify _

end Op

/-- Forgetting a collection that is not held leaves those that are. -/
theorem Memory.drop_absent {m : Memory} {name : String} (absent : m.holds (.string name) = false) :
    (m.drop (.string name)).collections = m.collections := by
  show Table.drop m.collections name = m.collections
  have fresh : name ∉ Table.names m.collections := by
    rw [← Table.has_iff]
    exact Bool.eq_false_iff.mp absent
  refine List.filter_eq_self.mpr fun e he => decide_eq_true ?_
  rintro rfl
  exact fresh (List.mem_map.mpr ⟨e, he, rfl⟩)

/-- A removal that succeeds takes away the entry to which the name leads, and one that fails nothing. -/
theorem Writer.entry?_removed (s : Store) (name : String) (d : Directory) (file : String) :
    Directory.entry? (removed s (.string name) d).2.1 file =
      if (Result.ofFault (removed s (.string name) d).2.2).isOk = true ∧
          d.target? (CollectionName.fileName name) = some file then none
      else d.entry? file := by
  have known : CollectionName.fileOf (.string name) = CollectionName.fileName name := rfl
  rw [removed, known]
  cases gone : d.remove (CollectionName.fileName name) with
  | error f => exact (if_neg fun h => Bool.false_ne_true h.1).symm
  | ok left =>
    cases lost : s.fsync && left.isNone with
    | true =>
      simp only [lost]
      exact (if_neg fun h => Bool.false_ne_true h.1).symm
    | false =>
      have entry := Directory.entry?_remove gone file
      simp only [lost, Value.isNull, Bool.false_eq_true, if_false]
      rw [entry]
      simp [Result.ofFault, Except.isOk, Except.toBool]

namespace Store

variable {w : World} {i : Nat} {name : String}

/-- A drop in a connected store looks for nothing and asks for a file to be removed. -/
theorem effect_drop (name : String) (connected : (w.store i).connected = true) :
    ∃ dropped, Effect.drop name (w.store i) = (dropped, .ok (some (.remove (.string name)))) ∧
      dropped.memory = (w.store i).memory.drop (.string name) := by
  rw [Effect.drop, connected]
  exact ⟨_, rfl, rfl⟩

/-- A drop of a collection that is not held, done alone: memory holds what it held, and of the files at most
the one of that name is gone, which it is if the drop succeeds. -/
theorem drop_absent (connected : (w.store i).connected = true)
    (absent : (w.store i).memory.holds (.string name) = false) :
    ∃ w' r, (dropCollection i (.string name)).run Writer.serve w = (w', r) ∧
      (∀ j, (w'.store j).memory.collections = (w.store j).memory.collections) ∧
      ∀ file, w'.directory.entry? file =
        if r.isOk = true ∧ w.directory.target? (CollectionName.fileName name) = some file then none
        else w.directory.entry? file := by
  have here := World.here_of_connected connected
  obtain ⟨w', r, ran, after⟩ := Op.has_awaits ((Operation.drop name).has_effect here) here
  obtain ⟨dropped, effect, memory⟩ := effect_drop name connected
  rw [Operation.effect, effect] at after
  obtain ⟨line, stores⟩ := after.stores
  have same : r = Result.ofFault (Writer.removed dropped (.string name) w.directory).2.2 := by
    have outcome := after.outcome
    cases r <;> exact outcome
  refine ⟨w', r, ran, fun j => ?_, fun file => ?_⟩
  · by_cases own : j = i
    · subst own
      rw [World.store_of_stores here stores]
      show (Writer.served dropped w.directory _).1.collections = _
      rw [Writer.served_collections]
      exact (congrArg Memory.collections memory).trans (Memory.drop_absent absent)
    · rw [World.store, stores, List.getD_eq_getElem?_getD, List.getElem?_set_ne (Ne.symm own),
        ← List.getD_eq_getElem?_getD]
      rfl
  · have directory : w'.directory = (Writer.removed dropped (.string name) w.directory).2.1 :=
      after.directory
    rw [directory, same]
    exact Writer.entry?_removed dropped name w.directory file

end Store

namespace Bustle

variable {w : World} {s : Bustle Reply} {i : Nat} {name : String}

/-- A task that is refused at once is told so, and nothing else changes. -/
theorem calls_fails {t : Op Reply} {e : Error} (h : t.Fails s.state e) : ∃ journal, s.calls t =
    { s with
      state := { s.state with journal }
      last := s.last + 1
      results := (s.last + 1, .error e) :: s.results
      ready := s.ready ++ [.ended (s.last + 1)] } := by
  obtain ⟨journal, stop⟩ := h
  have joined := Op.advance_joined (τ := Reply) t s.state
  rw [stop] at joined
  exact ⟨journal, Loop.happen_task_done joined⟩

/-- A drop in a connected store is not refused, however the run goes on. -/
theorem drop_stands {s' : Bustle Reply} {e : Error} (reached : Run { state := w } s)
    (connected : (s.state.store i).connected = true)
    (run : Run (s.calls ((Operation.drop name).replied i)) s')
    (told : (s.last + 1, .error e) ∈ s'.results) : ¬e.Refuses := by
  intro refuses
  have careful : ((Operation.drop name).replied i).ChecksFirst :=
    Op.checksFirst_bind_stands (Op.checksFirst_dropCollection i _) fun _ => Task.stands_pure _
  obtain ⟨journal, source, ended⟩ := refused_at_once careful reached run told refuses
  -- It is not over: it waits for the writer.
  have has := Op.has_drop (w := s.state) name (World.here_of_connected connected)
  obtain ⟨dropped, effect, -⟩ := Store.effect_drop name connected
  rw [effect] at has
  obtain ⟨v, next, waits, -, -⟩ := has
  have stops : ((Operation.drop name).replied i).advance s.state = _ := Task.advance_bind_wait waits
  have joined := Op.advance_joined (τ := Reply) ((Operation.drop name).replied i) s.state
  rw [stops] at joined
  have same : (s.calls ((Operation.drop name).replied i)).results = s.results := by
    have called : s.calls ((Operation.drop name).replied i) = _ := Loop.happen_task_wait joined
    rw [called]
    unfold Loop.call Writer.attend Loop.ask
    dsimp only
    split <;> rfl
  rw [ended] at same
  exact absurd (congrArg List.length same) (by simp)

/-- Whatever is under way, all that works on the documents of a collection that the store does not hold is
refused when it is called, with nothing changed but what is reported. A drop of it is not refused, however
the run goes on; done alone it leaves the collections in memory and every file but the one of that name,
which is gone when the drop succeeds. -/
theorem absent_refused (reached : Run { state := w } s)
    (connected : (s.state.store i).connected = true)
    (absent : (s.state.store i).memory.holds (.string name) = false) :
    (∀ task : Scoped, ∃ journal, s.calls (task.task i (.string name)) =
      { s with
        state := { s.state with journal }
        last := s.last + 1
        results := (s.last + 1, .error (.collectionNotFound (.string name))) :: s.results
        ready := s.ready ++ [.ended (s.last + 1)] }) ∧
    (∀ s' e, Run (s.calls ((Operation.drop name).replied i)) s' →
      (s.last + 1, .error e) ∈ s'.results → ¬e.Refuses) ∧
    ∃ w' r, (Store.dropCollection i (.string name)).run Writer.serve s.state = (w', r) ∧
      (∀ j, (w'.store j).memory.collections = (s.state.store j).memory.collections) ∧
      ∀ file, w'.directory.entry? file =
        if r.isOk = true ∧ s.state.directory.target? (CollectionName.fileName name) = some file then none
        else s.state.directory.entry? file := by
  exact ⟨fun task => calls_fails (Op.fails_scoped connected absent task),
    fun s' e => drop_stands reached connected, Store.drop_absent connected absent⟩

/-- A store was opened, and a file came from outside under the name that no collection can have. -/
def intruded : World :=
  { Store.opened with
    directory := Store.opened.directory.put "protodb.json" (.text "\x7b\x7d") }

/-- Counting in that name is refused; a drop of it takes the file away. -/
theorem protodb_absent :
    let s : Bustle Reply := { state := intruded }
    (∃ journal, (s.calls (Scoped.task 0 (.string "protodb") (.count .null))).state =
      { s.state with journal }) ∧
    ∃ w' r, (Store.dropCollection 0 (.string "protodb")).run Writer.serve intruded = (w', r) ∧
      (w'.store 0).memory.collections = [] ∧
      (r.isOk = true → w'.directory.entry? "protodb.json" = none) := by
  intro s
  have reached : Run { state := Store.opened } s := .step .start (.changes _)
  have connected : (s.state.store 0).connected = true := by decide +kernel
  have absent : (s.state.store 0).memory.holds (.string "protodb") = false := by decide +kernel
  have leads : intruded.directory.target? (CollectionName.fileName "protodb") = some "protodb.json" := by
    decide +kernel
  have empty : (intruded.store 0).memory.collections = [] := rfl
  obtain ⟨refused, -, w', r, ran, kept, entries⟩ := absent_refused reached connected absent
  obtain ⟨journal, counted⟩ := refused (.count .null)
  refine ⟨⟨journal, congrArg Loop.State.state counted⟩, w', r, ran, (kept 0).trans empty, ?_⟩
  intro ends
  exact (entries "protodb.json").trans (if_pos ⟨ends, leads⟩)

/-- A drop of what is not held succeeds, and the file is gone. -/
theorem absent_file_removed :
    (intruded.store 0).connected = true ∧
      (intruded.store 0).memory.holds (.string "protodb") = false ∧
      intruded.directory.entry? "protodb.json" = some (.text "\x7b\x7d") ∧
      ((Store.dropCollection 0 (.string "protodb")).run Writer.serve intruded).2.isOk = true ∧
      Directory.entry? ((Store.dropCollection 0 (.string "protodb")).run Writer.serve intruded).1.directory
        "protodb.json" = none := by
  decide +kernel

end Bustle

end DocStore
