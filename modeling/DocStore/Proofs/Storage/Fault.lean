import DocStore.Proofs.Mirror
import DocStore.Proofs.Storage.Crash
import DocStore.Proofs.Storage.Drain
/-!
Flushes that may fail anywhere in the work on their files: what memory and files are then, whoever
answers the request.
-/

namespace DocStore

namespace Op

variable {α β : Type} {t : Op α}

/-- A task that waits for nothing but work on files. -/
def Works {α : Type} : Op α → Prop
  | .done _ => True
  | .read next => ∀ w, Works (next w)
  | .write _ next => Works next
  | .wait request next => request = .work ∧ ∀ answer, Works (next answer)

theorem works_bind {f : α → Op β} (ht : Works t) (hf : ∀ a, Works (f a)) : Works (t >>= f) := by
  show Works (Task.bind t f)
  induction t with
  | done r =>
    cases r with
    | ok a => exact hf a
    | error e => trivial
  | read next ih => exact fun w => ih w (ht w)
  | write w next ih => exact ih ht
  | wait request next ih => exact ⟨ht.1, fun answer => ih answer (ht.2 answer)⟩

theorem works_each {items : List α} {f : α → Op β} (h : ∀ a, Works (f a)) :
    Works (Task.each items f) := by
  induction items with
  | nil => exact trivial
  | cons a rest ih => exact works_bind (h a) fun b => works_bind ih fun bs => trivial

/-- All servers that grant work do the same for such a task. -/
theorem Works.run_eq {server server' : Task.Server World Request Unit}
    (work : ∀ w, server .work w = (w, .ok ())) (work' : ∀ w, server' .work w = (w, .ok ()))
    (h : Works t) (w : World) : t.run server w = t.run server' w := by
  induction t generalizing w with
  | done r => rfl
  | read next ih => exact ih w (h w) w
  | write v next ih => exact ih h v
  | wait request next ih =>
    obtain ⟨rfl, later⟩ := h
    simp only [Task.run, work, work']
    exact ih _ (later _) w

theorem Works.granted {server : Task.Server World Request Unit}
    (work : ∀ w, server .work w = (w, .ok ())) (h : Works t) (w : World) : t.Granted server w := by
  induction t generalizing w with
  | done r => trivial
  | read next ih => exact ih w (h w) w
  | write v next ih => exact ih h v
  | wait request next ih =>
    obtain ⟨rfl, later⟩ := h
    refine ⟨⟨(), by rw [work]⟩, ?_⟩
    rw [work]
    exact ih _ (later _) w

/-- From a state on, a task goes on as another one from its own, with the same requests granted. -/
structure Continues (server : Task.Server World Request Unit) (t : Op α) (w : World) (u : Op α)
    (v : World) : Prop where
  run : t.run server w = u.run server v
  granted : t.Granted server w ↔ u.Granted server v

theorem Continues.trans {server : Task.Server World Request Unit} {u : Op α} {w v v' : World}
    {u' : Op α} (h : Continues server t w u v) (h' : Continues server u v u' v') :
    Continues server t w u' v' :=
  ⟨h.run.trans h'.run, h.granted.trans h'.granted⟩

theorem continues_bind {server : Task.Server World Request Unit} {f : α → Op β} {w v : World} {a : α}
    (ran : t.run server w = (v, .ok a)) (granted : t.Granted server w) :
    Continues server (t >>= f) w (f a) v := by
  refine ⟨Task.run_bind_ok ran, ?_⟩
  rw [Task.granted_bind, ran]
  exact ⟨fun h => h.2 a rfl, fun h => ⟨granted, fun _ same => Except.ok.inj same ▸ h⟩⟩

end Op

namespace Writer

open CollectionName (fileName fileOf)

/-- How a flush can end: as the writer ends it, or with a fault anywhere in the work on its files. -/
inductive FlushEnds (i : Nat) (w : World) : World × Result Unit → Prop
  | whole : FlushEnds i w ((flush i).run grant w)
  | broken {files : Snapshot} {w' : World} {s : Writing.State} (f : Fault)
      (changed : (w.store i).memory.dirty.isEmpty = false)
      (started : startFlush i w = .ok (files, w')) (run : Writing.Run w'.directory files s) :
      FlushEnds i w (abandonFlush i files.names f { w' with directory := s.directory })

/-- A server that grants all work and ends each flush in one of these ways. -/
structure Answers (i : Nat) (server : Task.Server World Request Unit) : Prop where
  work : ∀ w, server .work w = (w, .ok ())
  flush : ∀ line w, FlushEnds i w (server (.serve line i .flush) w)

/-- Tasks that only wait for work go as if they were done alone. -/
theorem Answers.continues {α β : Type} {i : Nat} {server : Task.Server World Request Unit}
    (answers : Answers i server) {t : Op α} (works : Op.Works t) {f : α → Op β} {w v : World} {a : α}
    (ran : t.run serve w = (v, .ok a)) : Op.Continues server (t >>= f) w (f a) v :=
  Op.continues_bind ((works.run_eq answers.work (fun _ => rfl) w).trans ran)
    (works.granted answers.work w)

theorem answers_serve (i : Nat) : Answers i serve := ⟨fun _ => rfl, fun _ _ => .whole⟩

/-- Memory and files after a flush, however it ended: all that is held stays, and a file that can be
seen is as it was, or that of a collection that was pending. -/
structure Tried (i : Nat) (w w' : World) : Prop where
  stores : ∃ m line, m.collections = (w.store i).memory.collections ∧
    w'.stores = w.stores.set i { w.store i with memory := m, line }
  entry : ∀ file, file.toList.head? ≠ some '.' → w'.directory.entry? file = w.directory.entry? file ∨
    ∃ docs text, Pending (w.store i).memory file docs ∧
      fileText (w.store i).indent docs = .ok text ∧ w'.directory.entry? file = some (.text text)

variable {i line : Nat} {w w' : World} {r : Result Unit} {s : Store}
  {server : Task.Server World Request Unit}

/-- The files of a snapshot are those of pending collections. -/
theorem pending_of_snapshot (texts : ∀ x ∈ s.memory.dirty, ∃ c, x = .string c) {files : Snapshot}
    (taken : snapshot s.indent s.memory s.memory.pending = .ok files) {f : Value × String}
    (hf : f ∈ files) :
    ∃ docs, Pending s.memory (fileOf f.1) docs ∧ fileText s.indent docs = .ok f.2 := by
  obtain ⟨names, made⟩ := mem_snapshot taken
  have pending : f.1 ∈ s.memory.pending := names ▸ List.mem_map.mpr ⟨f, hf, rfl⟩
  obtain ⟨changed, held⟩ := Memory.mem_pending.mp pending
  obtain ⟨c, named⟩ := texts _ changed
  have text := made f hf
  rw [named] at changed held text ⊢
  obtain ⟨docs, hdocs⟩ := Option.isSome_iff_exists.mp held
  rw [Memory.documents_string, hdocs] at text
  exact ⟨docs, ⟨c, rfl, changed, hdocs⟩, text⟩

theorem tried_of_written {files : Snapshot} {m : Memory}
    (texts : ∀ x ∈ (w.store i).memory.dirty, ∃ c, x = .string c)
    (taken : snapshot (w.store i).indent (w.store i).memory (w.store i).memory.pending = .ok files)
    (collections : m.collections = (w.store i).memory.collections)
    (stores : w'.stores = w.stores.set i { w.store i with memory := m })
    (entry : ∀ file, file.toList.head? ≠ some '.' →
      w'.directory.entry? file = w.directory.entry? file ∨
        ∃ f ∈ files, fileOf f.1 = file ∧ w'.directory.entry? file = some (.text f.2)) :
    Tried i w w' := by
  refine ⟨⟨m, (w.store i).line, collections, stores⟩, fun file shown => ?_⟩
  refine (entry file shown).imp_right ?_
  rintro ⟨f, hf, rfl, now⟩
  obtain ⟨docs, pending, text⟩ := pending_of_snapshot texts taken hf
  exact ⟨docs, f.2, pending, text, now⟩

theorem tried_whole (here : i < w.stores.length)
    (texts : ∀ x ∈ (w.store i).memory.dirty, ∃ c, x = .string c) :
    Tried i w ((flush i).run grant w).1 := by
  obtain ⟨v, answer, ran, serves⟩ := flush_serves here
  rw [ran]
  have collections := served_collections (w.store i) w.directory .flush
  have directory := serves.directory
  have same (directory : v.directory = w.directory) : Tried i w v :=
    ⟨⟨_, (w.store i).line, collections, serves.stores⟩, fun file _ => .inl (by rw [directory])⟩
  cases clean : (w.store i).memory.dirty.isEmpty with
  | true =>
    rw [flushed, if_pos clean] at directory
    exact same directory
  | false =>
    rw [flushed, clean, if_neg Bool.false_ne_true] at directory
    cases taken : snapshot (w.store i).indent (w.store i).memory (w.store i).memory.pending with
    | error f =>
      rw [taken] at directory
      exact same directory
    | ok files =>
      rw [taken] at directory
      have wrote : (written (settled (w.store i)).memory files w.directory).2.1 =
          (files.write w.directory).1 := by
        rw [written]
        split <;> next wrote => rw [wrote]
      refine tried_of_written texts taken collections serves.stores fun file _ => ?_
      rw [directory]
      exact wrote ▸ Snapshot.write_entry files w.directory file

theorem tried_broken {files : Snapshot} {state : Writing.State} (f : Fault)
    (here : i < w.stores.length) (texts : ∀ x ∈ (w.store i).memory.dirty, ∃ c, x = .string c)
    (started : startFlush i w = .ok (files, w')) (run : Writing.Run w'.directory files state) :
    Tried i w (abandonFlush i files.names f { w' with directory := state.directory }).1 := by
  rw [startFlush_eq] at started
  split at started
  · cases started
  · next taken =>
    cases started
    have store := stores_setStore here (settled (w.store i))
    refine tried_of_written (m := takeBack (settled (w.store i)).memory files.names) texts taken
      (takeBack_collections _ _) ?_ fun file shown => Writing.run_entry run shown
    show ((w.stores.set i (settled (w.store i))).set i _) = _
    rw [List.set_set]
    show w.stores.set i { (w.setStore i (settled (w.store i))).store i with
      memory := takeBack ((w.setStore i (settled (w.store i))).store i).memory files.names } = _
    rw [store]
    rfl

theorem tried {x : World × Result Unit} (here : i < w.stores.length)
    (texts : ∀ x ∈ (w.store i).memory.dirty, ∃ c, x = .string c) (ends : FlushEnds i w x) :
    Tried i w x.1 ∧ (x.2 = .ok () →
      Flushes (w.store i).indent (w.store i).memory w.directory (x.1.store i).memory
        x.1.directory) := by
  cases ends with
  | whole =>
    refine ⟨tried_whole here texts, fun done => ?_⟩
    obtain ⟨v, answer, ran, serves⟩ := flush_serves here
    rw [ran] at done ⊢
    have outcome : (flushed (w.store i) w.directory).2.2 = .ok () :=
      ok_of_ofFault (serves.answer.symm.trans done)
    refine flushes texts ?_
    rw [World.store_of_stores here serves.stores, serves.directory, ← outcome]
  | broken f changed started run => exact ⟨tried_broken f here texts started run, nofun⟩

/-- A store that gets a line is else the same. -/
theorem Tried.lined {v : World} (here : i < w.stores.length) (h : Tried i v w')
    (stores : v.stores = w.stores.set i { w.store i with line := some line })
    (directory : v.directory = w.directory) : Tried i w w' := by
  have store := World.store_of_stores here stores
  refine ⟨?_, fun file shown => ?_⟩
  · obtain ⟨m, line', collections, kept⟩ := h.stores
    rw [store] at collections kept
    exact ⟨m, line', collections, by rw [kept, stores, List.set_set]⟩
  · have entry := h.entry file shown
    rw [store, directory] at entry
    exact entry

/-- A flush that is asked for: it is granted if and only if it ends well, and then all that was pending
is written. -/
theorem run_flush_answered (answers : Answers i server) (here : i < w.stores.length)
    (texts : ∀ x ∈ (w.store i).memory.dirty, ∃ c, x = .string c) :
    ∃ w' r, (Op.flush i).run server w = (w', r) ∧ ((Op.flush i).Granted server w ↔ r = .ok ()) ∧
      Tried i w w' ∧ (r = .ok () →
        Flushes (w.store i).indent (w.store i).memory w.directory (w'.store i).memory
          w'.directory) := by
  have goes {v : World} {line : Nat} (there : i < v.stores.length)
      (waits : (Op.flush i).advance w =
        (v, .wait (.serve line i .flush) fun answer => .done answer))
      (texts : ∀ x ∈ (v.store i).memory.dirty, ∃ c, x = .string c) :
      ∃ w' r, (Op.flush i).run server w = (w', r) ∧ ((Op.flush i).Granted server w ↔ r = .ok ()) ∧
        Tried i v w' ∧ (r = .ok () →
          Flushes (v.store i).indent (v.store i).memory v.directory (w'.store i).memory
            w'.directory) := by
    obtain ⟨tries, writes⟩ := tried there texts (answers.flush line v)
    refine ⟨_, _, Task.run_of_wait waits, ?_, tries, writes⟩
    rw [Task.granted_advance, waits]
    exact (and_iff_left trivial).trans ⟨fun ⟨_, granted⟩ => granted, fun granted => ⟨(), granted⟩⟩
  cases had : (w.store i).line with
  | some line => exact goes here (Op.advance_ask_lined had) texts
  | none =>
    let v : World :=
      { w with lines := w.lines + 1 }.setStore i { w.store i with line := some w.lines }
    have stores : v.stores = w.stores.set i { w.store i with line := some w.lines } := rfl
    have store := World.store_of_stores here stores
    have there : i < v.stores.length := by
      rw [stores, List.length_set]
      exact here
    obtain ⟨w', r, ran, granted, tries, writes⟩ :=
      goes there (Op.advance_ask_lineless had) (by rw [store]; exact texts)
    rw [store] at writes
    exact ⟨w', r, ran, granted, tries.lined here stores rfl, writes⟩

end Writer

end DocStore
