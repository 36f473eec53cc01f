import DocStore.Proofs.World
import DocStore.Storage.Writer
/-!
What the writer does to memory and files when it serves a request, as a function of these alone.
-/

namespace DocStore

theorem ok_of_ofFault {α : Type} {x : Except Fault α} {a : α} (h : Result.ofFault x = .ok a) :
    x = .ok a := by
  cases x with
  | error f => cases h
  | ok b =>
    cases h
    rfl

namespace Writer

/-- Memory and files after a request, and how it ends. -/
abbrev Served := Memory × Directory × Except Fault Unit

/-- A store of which nothing counts as changed. -/
def settled (s : Store) : Store := { s with memory := { s.memory with dirty := [] } }

/-- Memory and files after those of a snapshot were written. -/
def written (m : Memory) (files : Snapshot) (d : Directory) : Served :=
  match files.write d with
  | (d, .ok ()) => (m, d, .ok ())
  | (d, .error f) => (takeBack m files.names, d, .error f)

/-- A flush: the changed collections are written, and count as changed again when that fails. -/
def flushed (s : Store) (d : Directory) : Served :=
  if s.memory.dirty.isEmpty then (s.memory, d, .ok ())
  else match snapshot s.indent s.memory s.memory.pending with
  | .error f => (s.memory, d, .error f)
  | .ok files => written (settled s).memory files d

def removed (s : Store) (collection : Value) (d : Directory) : Served :=
  if collection.isNull then (s.memory, d, .error .assumption)
  else match d.remove (CollectionName.fileOf collection) with
  | .error f => (s.memory, d, .error f)
  | .ok left =>
    if s.fsync && left.isNone then (s.memory, d, .error .fileNotFound)
    else (s.memory, left, .ok ())

def served (s : Store) (d : Directory) : WriteKind → Served
  | .flush => flushed s d
  | .remove collection => removed s collection d

/-- The world after a request was served, and the answer to it. -/
structure Serves (i : Nat) (w : World) (served : Served) (w' : World) (answer : Result Unit) :
    Prop where
  stores : w'.stores = w.stores.set i { w.store i with memory := served.1 }
  directory : w'.directory = served.2.1
  lines : w'.lines = w.lines
  answer : answer = Result.ofFault served.2.2

theorem takeBack_collections (m : Memory) (names : List Value) :
    (takeBack m names).collections = m.collections := by
  have run (names : List Value) (m : Memory) :
      (names.foldl Memory.markDirty m).collections = m.collections := by
    induction names generalizing m with
    | nil => rfl
    | cons name rest ih =>
      rw [List.foldl_cons, ih, Memory.markDirty]
      split <;> rfl
  exact run _ m

theorem written_collections (m : Memory) (files : Snapshot) (d : Directory) :
    (written m files d).1.collections = m.collections := by
  rw [written]
  split
  · rfl
  · exact takeBack_collections m _

/-- The collections in memory are as before; only what counts as changed may differ. -/
theorem served_collections (s : Store) (d : Directory) (kind : WriteKind) :
    (served s d kind).1.collections = s.memory.collections := by
  cases kind with
  | flush =>
    simp only [served, flushed]
    split
    · rfl
    · split
      · rfl
      · exact written_collections _ _ _
  | remove collection =>
    simp only [served, removed]
    split
    · rfl
    · split
      · rfl
      · split <;> rfl

variable {i : Nat} {w : World}

theorem stores_setStore (hi : i < w.stores.length) (s : Store) :
    (w.setStore i s).store i = s := World.store_of_stores hi rfl

theorem set_store_self (w : World) (i : Nat) : w.stores = w.stores.set i (w.store i) :=
  ((World.Agrees.refl w).becomes i).stores

/-! ## A flush in its steps -/

theorem startFlush_eq (i : Nat) (w : World) :
    startFlush i w =
      match snapshot (w.store i).indent (w.store i).memory (w.store i).memory.pending with
      | .error f => .error f
      | .ok files => .ok (files, w.setStore i (settled (w.store i))) := by
  simp only [startFlush, bind, Except.bind, pure, Except.pure]
  cases snapshot (w.store i).indent (w.store i).memory (w.store i).memory.pending <;> rfl

/-- A flush goes on to write the files of its snapshot. -/
def writing (i : Nat) (files : Snapshot) : Op Unit := do
  Task.await .work
  Task.change (writeFiles i files)

theorem flush_clean (clean : (w.store i).memory.dirty.isEmpty = true) :
    (flush i).advance w = (w, .done (.ok ())) := by
  simp only [flush, Op.store, Task.get, bind, Task.bind, Task.advance, pure, clean, if_true]

theorem flush_failed {f : Fault} (changed : (w.store i).memory.dirty.isEmpty = false)
    (failed : startFlush i w = .error f) :
    (flush i).advance w =
      ((failFlush (w.store i).memory.pending f w).1,
        .done (failFlush (w.store i).memory.pending f w).2) := by
  simp only [flush, Op.store, Task.get, bind, Task.bind, Task.advance, pure, changed,
    Bool.false_eq_true, if_false, failed, Task.change]

theorem flush_started {files : Snapshot} {w' : World}
    (changed : (w.store i).memory.dirty.isEmpty = false)
    (started : startFlush i w = .ok (files, w')) :
    (flush i).advance w = (writing i files).advance w' := by
  simp only [flush, Op.store, Task.get, bind, Task.bind, Task.advance, pure, changed,
    Bool.false_eq_true, if_false, started, writing, Task.set]

theorem writeFiles_serves (i : Nat) (w : World) (files : Snapshot) :
    Serves i w (written (w.store i).memory files w.directory) (writeFiles i files w).1
      (writeFiles i files w).2 := by
  rw [written, writeFiles]
  generalize files.write w.directory = result
  obtain ⟨d, outcome⟩ := result
  cases outcome with
  | ok _ => exact ⟨set_store_self w i, rfl, rfl, rfl⟩
  | error f => exact ⟨rfl, rfl, rfl, rfl⟩

theorem flush_serves (hi : i < w.stores.length) :
    ∃ w' answer, (flush i).run grant w = (w', answer) ∧
      Serves i w (flushed (w.store i) w.directory) w' answer := by
  rw [flushed]
  cases clean : (w.store i).memory.dirty.isEmpty with
  | true => exact ⟨w, .ok (), Task.run_of_done (flush_clean clean), set_store_self w i, rfl, rfl, rfl⟩
  | false =>
    have start := startFlush_eq i w
    cases taken : snapshot (w.store i).indent (w.store i).memory (w.store i).memory.pending with
    | error f =>
      rw [taken] at start
      exact ⟨_, _, Task.run_of_done (flush_failed clean start), set_store_self w i, rfl, rfl, rfl⟩
    | ok files =>
      rw [taken] at start
      have serves := writeFiles_serves i (w.setStore i (settled (w.store i))) files
      rw [stores_setStore hi] at serves
      refine ⟨_, _, (Task.run_advance grant _ w).trans ?_, ?_, serves.directory, serves.lines,
        serves.answer⟩
      · rw [flush_started clean start]
        rfl
      · rw [serves.stores, stores_setStore hi]
        exact List.set_set ..

theorem removeFile_serves (collection : Value) (valued : collection.isNull = false) :
    Serves i w (removed (w.store i) collection w.directory) (removeFile i collection w).1
      (removeFile i collection w).2 := by
  have kept := set_store_self w i
  rw [removed, valued, removeFile]
  cases w.directory.remove (CollectionName.fileOf collection) with
  | error f => exact ⟨kept, rfl, rfl, rfl⟩
  | ok left =>
    cases lost : (w.store i).fsync && left.isNone with
    | true => simp only [lost, if_true]; exact ⟨kept, rfl, rfl, rfl⟩
    | false => simp only [lost, Bool.false_eq_true, if_false]; exact ⟨kept, rfl, rfl, rfl⟩

theorem service_remove (i : Nat) {collection : Value} (valued : collection.isNull = false) :
    service i (.remove collection) = (do
      Task.await .work
      Task.change (removeFile i collection)) := by
  cases collection <;> first | rfl | cases valued

theorem remove_serves (collection : Value) :
    ∃ w' answer, (service i (.remove collection)).run grant w = (w', answer) ∧
      Serves i w (removed (w.store i) collection w.directory) w' answer := by
  cases null : collection.isNull with
  | true =>
    cases collection with
    | null => exact ⟨_, _, rfl, set_store_self w i, rfl, rfl, rfl⟩
    | _ => cases null
  | false =>
    rw [service_remove i null]
    exact ⟨_, _, rfl, removeFile_serves collection null⟩

theorem service_serves (kind : WriteKind) (hi : i < w.stores.length) :
    ∃ w' answer, (service i kind).run grant w = (w', answer) ∧
      Serves i w (served (w.store i) w.directory kind) w' answer := by
  cases kind with
  | flush => exact flush_serves hi
  | remove collection => exact remove_serves collection

/-- A flush that is awaited, whether or not the store had a line. -/
theorem run_flush (hi : i < w.stores.length) :
    ∃ w' line, (Op.flush i).run serve w =
        (w', Result.ofFault (flushed (w.store i) w.directory).2.2) ∧
      w'.stores = w.stores.set i
        { w.store i with memory := (flushed (w.store i) w.directory).1, line := some line } ∧
      w'.directory = (flushed (w.store i) w.directory).2.1 := by
  cases had : (w.store i).line with
  | some line =>
    obtain ⟨w', answer, ran, serves⟩ := flush_serves hi
    refine ⟨w', line, ?_, ?_, serves.directory⟩
    · rw [← serves.answer]
      exact (Task.run_of_wait (Op.advance_ask_lined had)).trans ran
    · rw [serves.stores, ← had]
  | none =>
    let lined : World :=
      { w with lines := w.lines + 1 }.setStore i { w.store i with line := some w.lines }
    have same : lined.store i = { w.store i with line := some w.lines } :=
      World.store_of_stores (w := w) hi rfl
    have here : i < lined.stores.length := by
      show i < (w.stores.set i _).length
      rw [List.length_set]
      exact hi
    obtain ⟨w', answer, ran, serves⟩ := flush_serves here
    rw [same] at serves
    refine ⟨w', w.lines, ?_, ?_, serves.directory⟩
    · refine (Task.run_of_wait (Op.advance_ask_lineless had)).trans (ran.trans ?_)
      rw [serves.answer]
      rfl
    · rw [serves.stores, same]
      show (w.stores.set i _).set i _ = w.stores.set i _
      rw [List.set_set]
      rfl

end Writer

end DocStore
