import DocStore.Proofs.Mirror
import DocStore.Proofs.Schema.Data
import DocStore.Proofs.Storage.Restore
/-!
A flush with one changed collection, or with none: what it writes, what a load makes of the files then,
and what it leaves alone.
-/

namespace DocStore

open CollectionName (Visible fileName fileOf)
open Value (IsData)

namespace Directory

variable {d d' : Directory} {c : String} {indent : Value} {docs : List Value}

/-- Documents are written to the file of a collection. -/
def Saves (d : Directory) (indent : Value) (c : String) (docs : List Value) (d' : Directory) : Prop :=
  ∃ text, fileText indent docs = .ok text ∧ d.replace (fileName c) text = .ok d'

/-- What a load makes of the files of a directory. -/
structure Holds (d : Directory) (docs : String → Option (List Value)) : Prop where
  sound : d.Sound
  stored : ∀ c, d.stored? c = docs c

theorem Saves.isSome (h : d.Saves indent c docs d') : d'.isSome = true := by
  obtain ⟨text, -, replaced⟩ := h
  cases d with
  | none => cases replaced
  | some entries =>
    simp only [replace] at replaced
    split at replaced
    · cases replaced
    · split at replaced
      · cases replaced
      · cases replaced
        rfl

/-- A collection of data that is written is read back as it is, and all others stay. -/
theorem Holds.saves {held : String → Option (List Value)} (h : d.Holds held)
    (saves : d.Saves indent c docs d') (number : indent.text? = none) (visible : Visible c)
    (data : ∀ doc ∈ docs, doc.IsData) : d'.Holds (Function.update held c (some docs)) := by
  obtain ⟨text, written, replaced⟩ := saves
  have entry := entry?_replace replaced
  have form : docs.map Value.jsonForm = docs :=
    (List.map_congr_left fun doc hdoc => (data doc hdoc).jsonForm).trans (List.map_id docs)
  have own : d'.Reads c docs := by
    have parsed := readDocuments_fileText number written
    rw [form] at parsed
    exact ⟨text, read_eq_ok.mpr (by rw [entry, if_pos rfl]), parsed⟩
  have other {name : String} (apart : name ≠ c) :
      d'.entry? (fileName name) = d.entry? (fileName name) := by
    rw [entry, if_neg fun same => apart (CollectionName.fileName_inj same)]
  have listed {name : String} (apart : name ≠ c) : name ∈ d'.listed ↔ name ∈ d.listed := by
    rw [mem_listed, mem_listed, other apart]
  have there : c ∈ d'.listed := mem_listed.mpr ⟨by rw [entry, if_pos rfl]; rfl, visible⟩
  refine ⟨⟨?_, fun name among => ?_⟩, fun name => ?_⟩
  · have legacy : d'.entry? legacyFile = d.entry? legacyFile := other (Ne.symm visible.2)
    rw [isFile_congr legacy]
    exact h.sound.legacy
  · by_cases same : name = c
    · exact ⟨docs, same ▸ own⟩
    · obtain ⟨found, reads⟩ := h.sound.reads name ((listed same).mp among)
      exact ⟨found, reads.congr (other same)⟩
  · by_cases same : name = c
    · rw [same, Function.update_self]
      exact stored?_eq_some.mpr ⟨there, own⟩
    · rw [Function.update_of_ne same, ← h.stored]
      ext found
      rw [stored?_eq_some, stored?_eq_some, listed same]
      refine and_congr_right fun _ => ⟨fun reads => ?_, fun reads => ?_⟩
      · exact reads.congr (other same).symm
      · exact reads.congr (other same)

end Directory

namespace Writer

variable {s : Store} {d d' : Directory} {c : String} {docs : List Value} {w : World} {i : Nat}

theorem flushed_nothing (clean : s.memory.dirty = []) : flushed s d = (s.memory, d, .ok ()) := by
  rw [flushed, clean]
  rfl

/-- A store of which one collection counts as changed. -/
structure OneChanged (s : Store) (c : String) (docs : List Value) : Prop where
  dirty : s.memory.dirty = [.string c]
  held : s.memory.collections.lookup c = some docs

theorem OneChanged.snapshot (h : OneChanged s c docs) :
    snapshot s.indent s.memory s.memory.pending =
      match fileText s.indent docs with
      | .ok text => .ok [(.string c, text)]
      | .error f => .error f := by
  have pending : s.memory.pending = [.string c] := by
    simp [Memory.pending, h.dirty, Memory.holds_of_lookup h.held, Memory.insertByText]
  have documents : s.memory.documents (.string c) = docs := by
    rw [Memory.documents_string, h.held]
    rfl
  rw [pending, DocStore.snapshot, documents]
  cases fileText s.indent docs <;> rfl

theorem OneChanged.flushed (h : OneChanged s c docs) (saves : d.Saves s.indent c docs d') :
    flushed s d = ({ s.memory with dirty := [] }, d', .ok ()) := by
  obtain ⟨text, made, replaced⟩ := saves
  have taken := h.snapshot
  rw [made] at taken
  have changed : s.memory.dirty.isEmpty = false := by rw [h.dirty]; rfl
  simp only [Writer.flushed, changed, Bool.false_eq_true, if_false, taken, written, Snapshot.write,
    CollectionName.fileOf_string, replaced]
  rfl

theorem OneChanged.saves (h : OneChanged s c docs) (done : (Writer.flushed s d).2.2 = .ok ()) :
    ∃ d', d.Saves s.indent c docs d' := by
  have taken := h.snapshot
  have changed : s.memory.dirty.isEmpty = false := by rw [h.dirty]; rfl
  cases made : fileText s.indent docs with
  | error f =>
    rw [made] at taken
    simp only [Writer.flushed, changed, Bool.false_eq_true, if_false, taken] at done
    cases done
  | ok text =>
    rw [made] at taken
    simp only [Writer.flushed, changed, Bool.false_eq_true, if_false, taken, written,
      Snapshot.write, CollectionName.fileOf_string] at done
    cases replaced : d.replace (fileName c) text with
    | error f =>
      rw [replaced] at done
      cases done
    | ok d' => exact ⟨d', text, made, replaced⟩

/-! ## What a flush leaves alone -/

end Writer

/-- Models, databases, the source of times and ids, and what is shared are the same. -/
structure World.Keeps (w w' : World) : Prop where
  models : w'.models = w.models
  databases : w'.databases = w.databases
  source : w'.source = w.source
  sharing : w'.sharing = w.sharing

theorem World.Keeps.refl (w : World) : w.Keeps w := ⟨rfl, rfl, rfl, rfl⟩

theorem World.Keeps.trans {w w' w'' : World} (h : w.Keeps w') (h' : w'.Keeps w'') : w.Keeps w'' :=
  ⟨h'.models.trans h.models, h'.databases.trans h.databases, h'.source.trans h.source,
    h'.sharing.trans h.sharing⟩

namespace Writer

variable {w : World} {i : Nat}

theorem keeps_writeFiles (i : Nat) (files : Snapshot) (w : World) :
    w.Keeps (writeFiles i files w).1 := by
  rw [writeFiles]
  generalize files.write w.directory = result
  obtain ⟨d, outcome⟩ := result
  cases outcome <;> exact ⟨rfl, rfl, rfl, rfl⟩

theorem keeps_flush (i : Nat) (w : World) : w.Keeps ((flush i).run grant w).1 := by
  rw [Task.run_advance]
  cases clean : (w.store i).memory.dirty.isEmpty with
  | true =>
    rw [flush_clean clean]
    exact .refl w
  | false =>
    cases started : startFlush i w with
    | error f =>
      rw [flush_failed clean started]
      exact ⟨rfl, rfl, rfl, rfl⟩
    | ok taken =>
      obtain ⟨files, w'⟩ := taken
      rw [flush_started clean started]
      have same : w.Keeps w' := by
        rw [startFlush_eq] at started
        split at started
        · cases started
        · cases started
          exact ⟨rfl, rfl, rfl, rfl⟩
      exact same.trans (keeps_writeFiles i files w')

theorem keeps_removeFile (i : Nat) (collection : Value) (w : World) :
    w.Keeps (removeFile i collection w).1 := by
  rw [removeFile]
  split
  · exact ⟨rfl, rfl, rfl, rfl⟩
  · split <;> exact ⟨rfl, rfl, rfl, rfl⟩

/-- Whatever the writer is asked, it changes stores and files alone. -/
theorem keeps_serve (request : Request) (w : World) : w.Keeps (serve request w).1 := by
  cases request with
  | serve line i kind =>
    cases kind with
    | flush => exact keeps_flush i w
    | remove collection =>
      cases null : collection.isNull with
      | true =>
        cases collection with
        | null => exact ⟨rfl, rfl, rfl, rfl⟩
        | _ => cases null
      | false =>
        rw [serve, service_remove i null]
        exact keeps_removeFile i collection w
  | _ => exact .refl w

end Writer

namespace Op

open Writer (serve)

variable {α β : Type} {w : World} {i : Nat}

/-- A task that leaves all but stores and files alone. -/
def Keeps (t : Op α) : Prop := ∀ w : World, w.Keeps (t.run serve w).1

theorem keeps_bind {t : Op α} {f : α → Op β} (ht : Keeps t) (hf : ∀ a, Keeps (f a)) :
    Keeps (t >>= f) := by
  intro w
  have first := ht w
  rw [Task.run_bind]
  revert first
  obtain ⟨w', r⟩ := t.run serve w
  intro first
  cases r with
  | ok a => exact first.trans (hf a w')
  | error e => exact first

theorem keeps_done (r : Result α) : Keeps (Task.done r : Op α) := fun w => .refl w

theorem keeps_modify {f : World → World} (h : ∀ w : World, w.Keeps (f w)) :
    Keeps (Task.modify f : Op Unit) := h

theorem keeps_each {items : List α} {f : α → Op β} (h : ∀ a, Keeps (f a)) :
    Keeps (Task.each items f) := by
  induction items with
  | nil => exact keeps_done _
  | cons a rest ih => exact keeps_bind (h a) fun _ => keeps_bind ih fun _ => keeps_done _

theorem keeps_modifyStore (i : Nat) (f : Store → Store) : Keeps (Op.modifyStore i f) :=
  keeps_modify fun _ => ⟨rfl, rfl, rfl, rfl⟩

theorem keeps_store (i : Nat) : Keeps (Op.store i) := fun w => .refl w

theorem keeps_log (level : Level) (component event : String) (fields : Document) :
    Keeps (Op.log level component event fields) := keeps_modify fun _ => ⟨rfl, rfl, rfl, rfl⟩

theorem keeps_count (s : Series) : Keeps (Op.count s) := keeps_modify fun _ => ⟨rfl, rfl, rfl, rfl⟩

theorem keeps_flush (i : Nat) : Keeps (Op.flush i) := by
  intro w
  cases had : (w.store i).line with
  | some line =>
    have ran : (Op.flush i).run serve w = (Writer.flush i).run Writer.grant w :=
      Task.run_of_wait (advance_ask_lined had)
    rw [ran]
    exact Writer.keeps_flush i w
  | none =>
    let lined : World :=
      { w with lines := w.lines + 1 }.setStore i { w.store i with line := some w.lines }
    have ran : (Op.flush i).run serve w = (Writer.flush i).run Writer.grant lined :=
      Task.run_of_wait (advance_ask_lineless had)
    have same : w.Keeps lined := ⟨rfl, rfl, rfl, rfl⟩
    rw [ran]
    exact same.trans (Writer.keeps_flush i lined)

/-- A flush that is granted ends well. -/
theorem granted_flush (h : (Op.flush i).Granted serve w) : ((Op.flush i).run serve w).2 = .ok () := by
  rw [Task.granted_advance] at h
  cases had : (w.store i).line with
  | some line =>
    have waits : (Op.flush i).advance w = _ := advance_ask_lined had
    rw [waits] at h
    obtain ⟨⟨answer, granted⟩, -⟩ := h
    rw [Task.run_of_wait waits]
    exact granted
  | none =>
    have waits : (Op.flush i).advance w = _ := advance_ask_lineless had
    rw [waits] at h
    obtain ⟨⟨answer, granted⟩, -⟩ := h
    rw [Task.run_of_wait waits]
    exact granted

end Op

end DocStore
