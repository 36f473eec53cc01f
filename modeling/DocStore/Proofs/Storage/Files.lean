import DocStore.Proofs.Json.RoundTrip
import DocStore.Proofs.Storage.Memory
/-!
The files of collections: what a snapshot holds, what is in the directory after some of its files were
written, and what the file of a collection decodes to.
-/

namespace DocStore

namespace CollectionName

theorem fileName_inj {a b : String} (h : fileName a = fileName b) : a = b := by
  have same := congrArg String.toList h
  simp only [fileName, String.toList_append, List.append_cancel_right_eq] at same
  exact String.toList_inj.mp same

/-- The name of the file of a collection has a slash only if that of the collection has one. -/
theorem plain_fileName {name : String} (h : '/' ∉ name.toList) : '/' ∉ (fileName name).toList := by
  rw [fileName, String.toList_append, List.mem_append]
  exact fun slash => slash.elim h (by decide)

@[simp] theorem fileOf_string (name : String) : fileOf (.string name) = fileName name := rfl

end CollectionName

/-- Text that decodes to the JSON form of documents. -/
def Encodes (text : String) (docs : List Value) : Prop :=
  ∀ path, readDocuments path text = .ok (docs.map Value.jsonForm)

namespace Directory

variable {d d' : Directory}

/-- The file of a collection decodes to the JSON form of documents. -/
def Decodes (d : Directory) (name : String) (docs : List Value) : Prop :=
  ∃ text, d.entry? (CollectionName.fileName name) = some (.text text) ∧ Encodes text docs

theorem entry?_replace {file text : String} (h : d.replace file text = .ok d') (other : String) :
    d'.entry? other = if other = file then some (.text text) else d.entry? other := by
  cases d with
  | none => cases h
  | some entries =>
    have put : d' = some (Table.put entries file (.text text)) := by
      simp only [replace] at h
      split at h
      · cases h
      · split at h
        · cases h
        · exact (Except.ok.inj h).symm
    rw [put]
    exact Table.lookup_put entries file other (.text text)

end Directory

namespace Snapshot

variable {files : Snapshot} {d d' : Directory}

/-- An entry is as it was, or it is the file of a collection in the snapshot. -/
theorem write_entry (files : Snapshot) (d : Directory) (file : String) :
    Directory.entry? (files.write d).1 file = d.entry? file ∨
      ∃ f ∈ files, CollectionName.fileOf f.1 = file ∧
        Directory.entry? (files.write d).1 file = some (.text f.2) := by
  induction files generalizing d with
  | nil => exact .inl rfl
  | cons f rest ih =>
    simp only [write]
    cases replaced : d.replace (CollectionName.fileOf f.1) f.2 with
    | error e => exact .inl rfl
    | ok next =>
      have entry := Directory.entry?_replace replaced file
      rcases ih next with same | ⟨g, hg, named, later⟩
      · rw [entry] at same
        split at same
        · next here => exact .inr ⟨f, by simp, here.symm, same⟩
        · exact .inl same
      · exact .inr ⟨g, by simp [hg], named, later⟩

/-- Once all files are written, each collection has the text of the snapshot. -/
theorem write_all (h : files.write d = (d', .ok ())) {f : Value × String} (hf : f ∈ files) :
    ∃ g ∈ files, CollectionName.fileOf g.1 = CollectionName.fileOf f.1 ∧
      d'.entry? (CollectionName.fileOf f.1) = some (.text g.2) := by
  induction files generalizing d with
  | nil => cases hf
  | cons e rest ih =>
    simp only [write] at h
    cases replaced : d.replace (CollectionName.fileOf e.1) e.2 with
    | error err =>
      rw [replaced] at h
      cases (Prod.mk.inj h).2
    | ok next =>
      simp only [replaced] at h
      rcases List.mem_cons.mp hf with rfl | hf
      · have later := write_entry rest next (CollectionName.fileOf f.1)
        rw [h] at later
        rcases later with same | ⟨g, hg, named, last⟩
        · exact ⟨f, by simp, rfl, by rw [same, Directory.entry?_replace replaced, if_pos rfl]⟩
        · exact ⟨g, by simp [hg], named, last⟩
      · obtain ⟨g, hg, named, last⟩ := ih h hf
        exact ⟨g, by simp [hg], named, last⟩

/-- A write that fails has written the first of its files. -/
theorem write_failed {f : Fault} (h : files.write d = (d', .error f)) :
    ∃ k, d' = (write d (files.take k)).1 := by
  induction files generalizing d with
  | nil => cases (Prod.mk.inj h).2
  | cons e rest ih =>
    simp only [write] at h
    cases replaced : d.replace (CollectionName.fileOf e.1) e.2 with
    | error err =>
      simp only [replaced] at h
      exact ⟨0, (Prod.mk.inj h).1.symm⟩
    | ok next =>
      simp only [replaced] at h
      obtain ⟨k, same⟩ := ih h
      exact ⟨k + 1, by simp only [List.take_succ_cons, write, replaced, same]⟩

end Snapshot

namespace Memory

variable {m : Memory} {v : Value}

theorem insertByText_perm (name : Value) (names : List Value) :
    (insertByText name names).Perm (name :: names) := by
  induction names with
  | nil => exact .refl _
  | cons n rest ih =>
    rw [insertByText]
    split
    · exact .refl _
    · exact (ih.cons n).trans (.swap name n rest)

/-- A flush writes the collections that count as changed and are held. -/
theorem mem_pending : v ∈ m.pending ↔ v ∈ m.dirty ∧ m.holds v = true := by
  have fold (names sorted : List Value) :
      (names.foldl (fun sorted name => insertByText name sorted) sorted).Perm (names ++ sorted) := by
    induction names generalizing sorted with
    | nil => exact .refl _
    | cons n rest ih =>
      refine (ih (insertByText n sorted)).trans ?_
      exact ((insertByText_perm n sorted).append_left rest).trans List.perm_middle
  rw [pending, (fold _ []).mem_iff, List.append_nil, List.mem_filter]

theorem mem_markDirty (texts : ∀ v ∈ m.dirty, ∃ s, v = .string s) (name : String) :
    v ∈ (m.markDirty (.string name)).dirty ↔ v ∈ m.dirty ∨ v = .string name := by
  rw [markDirty]
  split
  · next marked =>
    have known := (any_isSame texts name).mp marked
    exact ⟨.inl, fun h => h.elim id fun same => same ▸ known⟩
  · simp

end Memory

/-! ## Snapshots -/

/-- A snapshot has the collections it is asked for, each with the text of its documents. -/
theorem mem_snapshot {indent : Value} {m : Memory} {names : List Value} {files : Snapshot}
    (h : snapshot indent m names = .ok files) :
    files.names = names ∧ ∀ f ∈ files, fileText indent (m.documents f.1) = .ok f.2 := by
  induction names generalizing files with
  | nil =>
    cases h
    exact ⟨rfl, by simp⟩
  | cons name rest ih =>
    obtain ⟨text, first, h⟩ := Json.ok_of_bind h
    obtain ⟨later, hl, h⟩ := Json.ok_of_bind h
    cases h
    obtain ⟨named, texts⟩ := ih hl
    refine ⟨by simp [Snapshot.names, ← named], ?_⟩
    simpa using ⟨first, fun v text hf => texts (v, text) hf⟩

end DocStore
