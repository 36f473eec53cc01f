import DocStore.Proofs.Index.Collection
import DocStore.Proofs.Storage.Memory
import DocStore.Proofs.Storage.Writer
/-!
Stores and directories that differ at most in the order of their tables: what is read of them is the same,
and what is written leaves them so.
-/

namespace DocStore

/-! ## Files -/

namespace Directory

/-- Two directories with the same entries. -/
structure Akin (d d' : Directory) : Prop where
  made : d'.isSome = d.isSome
  entries : ∀ file, d'.entry? file = d.entry? file

variable {d d' : Directory}

/-- A file is put into both, or for one reason into none. -/
theorem Akin.replace (h : d.Akin d') (file text : String) :
    (∃ f, d.replace file text = .error f ∧ d'.replace file text = .error f) ∨
      ∃ e e', d.replace file text = .ok e ∧ d'.replace file text = .ok e' ∧ e.Akin e' := by
  obtain ⟨made, entries⟩ := h
  cases d with
  | none =>
    cases d' with
    | none => exact .inl ⟨_, rfl, rfl⟩
    | some _ => cases made
  | some table =>
    cases d' with
    | none => cases made
    | some table' =>
      have found : table'.lookup file = table.lookup file := entries file
      have put (other : String) : entry? (some (Table.put table' file (.text text))) other =
          entry? (some (Table.put table file (.text text))) other := by
        simp only [Option.bind_some, entry?, Table.lookup_put]
        split
        · rfl
        · exact entries other
      simp only [Directory.replace, found]
      split
      · exact .inl ⟨_, rfl, rfl⟩
      · split
        · exact .inl ⟨_, rfl, rfl⟩
        · exact .inr ⟨_, _, rfl, rfl, rfl, put⟩

theorem Akin.write (h : d.Akin d') (files : Snapshot) :
    Akin (files.write d).1 (files.write d').1 ∧ (files.write d').2 = (files.write d).2 := by
  induction files generalizing d d' with
  | nil => exact ⟨h, rfl⟩
  | cons f rest ih =>
    rcases h.replace (CollectionName.fileOf f.1) f.2 with ⟨fault, failed, failed'⟩ | ⟨e, e', put, put', akin⟩
    · rw [Snapshot.write, Snapshot.write, failed, failed']
      exact ⟨h, rfl⟩
    · rw [Snapshot.write, Snapshot.write, put, put']
      exact ih akin

end Directory

/-! ## Collections in memory -/

namespace Memory

/-- The same collections, of which the same count as changed. -/
structure Akin (m m' : Memory) : Prop where
  dirty : m'.dirty = m.dirty
  collections : ∀ c, m'.collections.lookup c = m.collections.lookup c

namespace Akin

variable {m m' : Memory}

theorem holds (h : m.Akin m') (name : Value) : m'.holds name = m.holds name := by
  have same : Table.has m'.collections = Table.has m.collections := by
    funext c
    rw [Table.has, Table.has, h.collections]
  rw [Memory.holds, Memory.holds, same]

theorem documents (h : m.Akin m') (name : Value) : m'.documents name = m.documents name := by
  simp only [Memory.documents, h.collections]

theorem pending (h : m.Akin m') : m'.pending = m.pending := by
  rw [Memory.pending, Memory.pending, h.dirty, funext h.holds]

theorem snapshot (h : m.Akin m') (indent : Value) (names : List Value) :
    snapshot indent m' names = snapshot indent m names := by
  induction names with
  | nil => rfl
  | cons name rest ih => rw [DocStore.snapshot, DocStore.snapshot, h.documents, ih]

theorem settled (h : m.Akin m') : Akin { m with dirty := [] } { m' with dirty := [] } :=
  ⟨rfl, h.collections⟩

theorem setDocuments (h : m.Akin m') (c : String) (docs : List Value) :
    (m.setDocuments c docs).Akin (m'.setDocuments c docs) := by
  refine ⟨h.dirty, fun other => ?_⟩
  rw [Memory.setDocuments_collections, Memory.setDocuments_collections, Table.lookup_put, Table.lookup_put,
    h.collections]

theorem markDirty (h : m.Akin m') (name : Value) : (m.markDirty name).Akin (m'.markDirty name) := by
  refine ⟨?_, fun c => ?_⟩
  · simp only [Memory.markDirty, h.dirty]
    split
    · exact h.dirty
    · rfl
  · rw [Memory.markDirty_collections, Memory.markDirty_collections, h.collections]

theorem takeBack (h : m.Akin m') (names : List Value) :
    (Writer.takeBack m names).Akin (Writer.takeBack m' names) := by
  have marked (names : List Value) {m m' : Memory} (h : m.Akin m') :
      (names.foldl Memory.markDirty m).Akin (names.foldl Memory.markDirty m') := by
    induction names generalizing m m' with
    | nil => exact h
    | cons name rest ih => exact ih (h.markDirty name)
  rw [Writer.takeBack, Writer.takeBack, funext h.holds]
  exact marked _ h

end Akin

end Memory

/-! ## Indexes -/

namespace Indexes

/-- Each collection has the same indexes. -/
def Akin (ix ix' : Indexes) : Prop := ∀ c, ix'.ofCollection c = ix.ofCollection c

/-- A change that depends on no more than the indexes of each collection. -/
def Respects (change : Indexes → Indexes × Result Unit) : Prop :=
  ∀ ix ix', Akin ix ix' → Akin (change ix).1 (change ix').1 ∧ (change ix').2 = (change ix).2

theorem Akin.put {ix ix' : Indexes} (h : ix.Akin ix') (c : Value) (indexes : List FieldIndex) :
    Akin (Catalog.put ix c indexes) (Catalog.put ix' c indexes) := by
  intro other
  rw [ofCollection_put_eq, ofCollection_put_eq, h]

theorem respects_changeAll (c : Value) (check : List FieldIndex → Result Unit)
    (f : FieldIndex → FieldIndex × Result Unit) : Respects (·.changeAll c check f) := by
  intro ix ix' h
  simp only [changeAll, h c]
  split
  · exact ⟨h, rfl⟩
  · split
    · exact ⟨h, rfl⟩
    · split
      · exact ⟨h, rfl⟩
      · exact ⟨h.put c _, rfl⟩

end Indexes

/-! ## Stores -/

namespace Store

/-- Two stores that differ at most in the order of their tables, in their schemas and in their lines. -/
structure Akin (s s' : Store) : Prop where
  connected : s'.connected = s.connected
  indent : s'.indent = s.indent
  memory : s.memory.Akin s'.memory
  indexes : s.indexes.Akin s'.indexes

end Store

namespace Writer

variable {s s' : Store} {d d' : Directory}

/-- What a flush leaves of memory and files that are akin is akin, and it ends alike. -/
structure Akin (x x' : Served) : Prop where
  memory : x.1.Akin x'.1
  directory : x.2.1.Akin x'.2.1
  outcome : x'.2.2 = x.2.2

theorem akin_written {m m' : Memory} (h : m.Akin m') (hd : d.Akin d') (files : Snapshot) :
    Akin (written m files d) (written m' files d') := by
  obtain ⟨akin, same⟩ := hd.write files
  rw [written, written]
  revert akin same
  obtain ⟨e, r⟩ := files.write d
  obtain ⟨e', r'⟩ := files.write d'
  intro akin same
  obtain rfl : r' = r := same
  cases r' with
  | ok _ => exact ⟨h, akin, rfl⟩
  | error f => exact ⟨h.takeBack _, akin, rfl⟩

theorem akin_flushed (h : s.Akin s') (hd : d.Akin d') : Akin (flushed s d) (flushed s' d') := by
  rw [flushed, flushed, h.memory.dirty, h.indent, h.memory.pending, h.memory.snapshot]
  split
  · exact ⟨h.memory, hd, rfl⟩
  · split
    · exact ⟨h.memory, hd, rfl⟩
    · exact akin_written h.memory.settled hd _

end Writer

end DocStore
