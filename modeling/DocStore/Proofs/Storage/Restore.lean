import DocStore.Proofs.Json.Data
import DocStore.Proofs.Storage.Reload
/-!
What a store writes to an empty directory, a new store reads there: the same collections with the same
documents.
-/

namespace DocStore

open CollectionName (Visible fileName fileOf)

namespace Directory

variable {d : Directory} {file : String}

/-- The name leaves room for that of the unfinished file. -/
def Fits (file : String) : Prop := file.utf8ByteSize + unfinished ≤ maxName

instance : Decidable (Fits file) := inferInstanceAs (Decidable (_ ≤ _))

def Flat (d : Directory) : Prop := d.isSome = true ∧ ∀ file, d.entry? file ≠ some .folder

theorem replace_ok (flat : d.Flat) (fits : Fits file) (text : String) :
    ∃ d', d.replace file text = .ok d' ∧ d'.Flat := by
  obtain ⟨there, files⟩ := flat
  obtain ⟨entries, rfl⟩ := Option.isSome_iff_exists.mp there
  have replaced : replace (some entries) file text =
      .ok (some (Table.put entries file (.text text))) := by
    rw [replace, if_neg (Nat.not_lt.mpr fits)]
    cases found : entries.lookup file with
    | none => rfl
    | some e =>
      cases e with
      | folder => exact absurd found (files file)
      | _ => rfl
  refine ⟨_, replaced, rfl, fun other => ?_⟩
  rw [Directory.entry?_replace replaced]
  split
  · simp
  · exact files other

end Directory

/-- Files with names that fit are all written. -/
theorem Snapshot.write_ok {files : Snapshot} {d : Directory} (flat : d.Flat)
    (fits : ∀ f ∈ files, Directory.Fits (fileOf f.1)) : ∃ d', files.write d = (d', .ok ()) := by
  induction files generalizing d with
  | nil => exact ⟨d, rfl⟩
  | cons f rest ih =>
    obtain ⟨next, replaced, flat⟩ := Directory.replace_ok flat (fits f (by simp)) f.2
    obtain ⟨d', written⟩ := ih flat fun g hg => fits g (by simp [hg])
    exact ⟨d', by rw [Snapshot.write, replaced]; exact written⟩

/-- Any indent that settings may have is one that files can be written with. -/
theorem Json.indentOf_asked {indent : Value} (asked : indent = .null ∨ ∃ n : Nat, n ≤ 8 ∧ indent = .int n) :
    ∃ blanks, Json.indentOf indent = .ok blanks := by
  rcases asked with same | ⟨n, small, same⟩
  · exact ⟨none, by rw [same]; rfl⟩
  · have few : ¬Json.maxBlanks < (n : Int) := by
      simp only [Json.maxBlanks]
      omega
    exact ⟨_, by rw [same, Json.indentOf, if_neg few]⟩

namespace Writer

variable {w : World} {i : Nat} {s : Store} {d : Directory} {name : String}

/-- A store of which every collection counts as changed, can be given its name, and holds JSON data. -/
structure Ready (s : Store) : Prop where
  asked : s.indent = .null ∨ ∃ n : Nat, n ≤ 8 ∧ s.indent = .int n
  marked : ∀ v, v ∈ s.memory.dirty ↔
    ∃ name, v = .string name ∧ Table.has s.memory.collections name = true
  named : ∀ name, Table.has s.memory.collections name = true →
    CollectionName.check (.string name) = .ok name ∧ Directory.Fits (fileName name)
  data : ∀ name docs, s.memory.collections.lookup name = some docs → ∀ doc ∈ docs, doc.IsJson

/-- The files of a directory are those of the collections of a store. -/
structure Exported (s : Store) (d : Directory) : Prop where
  own : ∀ file, (d.entry? file).isSome = true →
    ∃ name, fileName name = file ∧ Table.has s.memory.collections name = true
  text : ∀ name docs, s.memory.collections.lookup name = some docs →
    ∃ text, fileText s.indent docs = .ok text ∧
      d.entry? (fileName name) = some (.text text)

namespace Ready

theorem number (h : Ready s) : s.indent.text? = none := by
  rcases h.asked with same | ⟨n, -, same⟩ <;> rw [same] <;> rfl

theorem blanks (h : Ready s) : ∃ blanks, Json.indentOf s.indent = .ok blanks := Json.indentOf_asked h.asked

theorem mem_pending (h : Ready s) {v : Value} : v ∈ s.memory.pending ↔
    ∃ name, v = .string name ∧ Table.has s.memory.collections name = true := by
  rw [Memory.mem_pending, h.marked]
  constructor
  · exact And.left
  · rintro ⟨name, rfl, held⟩
    exact ⟨⟨name, rfl, held⟩, held⟩

theorem snapshot_ok (h : Ready s) :
    ∃ files, snapshot s.indent s.memory s.memory.pending = .ok files := by
  obtain ⟨blanks, asked⟩ := h.blanks
  refine DocStore.snapshot_ok asked fun v pending doc hdoc => ?_
  obtain ⟨name, rfl, held⟩ := h.mem_pending.mp pending
  obtain ⟨docs, held⟩ := Option.isSome_iff_exists.mp held
  rw [Memory.documents_string, held] at hdoc
  exact h.data name docs held doc hdoc

/-- The flush into an empty directory writes all collections and nothing else. -/
theorem flushed (h : Ready s) :
    (Writer.flushed s (some [])).2.2 = .ok () ∧ Exported s (Writer.flushed s (some [])).2.1 := by
  have none (file : String) : Directory.entry? (some []) file = none := rfl
  rw [Writer.flushed]
  split
  · next clean =>
    have nothing (name : String) : Table.has s.memory.collections name ≠ true := by
      intro held
      have marked := (h.marked (.string name)).mpr ⟨name, rfl, held⟩
      rw [List.isEmpty_iff.mp clean] at marked
      cases marked
    refine ⟨rfl, fun file there => ?_, fun name docs held => ?_⟩
    · cases there
    · exact absurd (Option.isSome_iff_exists.mpr ⟨docs, held⟩) (nothing name)
  · obtain ⟨files, taken⟩ := h.snapshot_ok
    obtain ⟨names, texts⟩ := mem_snapshot taken
    have known {f : Value × String} (hf : f ∈ files) :
        ∃ name, f.1 = .string name ∧ Table.has s.memory.collections name = true :=
      h.mem_pending.mp (names ▸ List.mem_map.mpr ⟨f, hf, rfl⟩)
    have fits : ∀ f ∈ files, Directory.Fits (fileOf f.1) := by
      intro f hf
      obtain ⟨name, same, held⟩ := known hf
      rw [same]
      exact (h.named name held).2
    obtain ⟨d', written⟩ := Snapshot.write_ok (d := some []) ⟨rfl, fun file => by simp [none]⟩ fits
    rw [taken]
    simp only [Writer.written, written]
    refine ⟨trivial, fun file there => ?_, fun name docs held => ?_⟩
    · rcases Snapshot.write_entry files (some []) file with same | ⟨f, hf, named, -⟩
      · rw [written] at same
        rw [same, none] at there
        cases there
      · obtain ⟨name, same, held⟩ := known hf
        rw [same] at named
        exact ⟨name, named, held⟩
    · have pending : .string name ∈ files.names := by
        rw [names]
        exact h.mem_pending.mpr ⟨name, rfl, Option.isSome_iff_exists.mpr ⟨docs, held⟩⟩
      obtain ⟨f, hf, same⟩ := List.mem_map.mp pending
      obtain ⟨g, hg, named, entry⟩ := Snapshot.write_all written hf
      obtain ⟨other, own, -⟩ := known hg
      rw [same, own, CollectionName.fileOf_string, CollectionName.fileOf_string] at named
      obtain rfl := CollectionName.fileName_inj named
      rw [same, CollectionName.fileOf_string] at entry
      refine ⟨g.2, ?_, entry⟩
      have text := texts g hg
      rwa [own, Memory.documents_string, held] at text

end Ready

namespace Exported

theorem reads (h : Exported s d) (number : s.indent.text? = none) {docs : List Value}
    (held : s.memory.collections.lookup name = some docs) :
    d.Reads name (docs.map Value.jsonForm) := by
  obtain ⟨text, written, entry⟩ := h.text name docs held
  exact ⟨text, Directory.read_eq_ok.mpr entry, readDocuments_fileText number written⟩

theorem held (h : Exported s d) (there : (d.entry? (fileName name)).isSome = true) :
    ∃ docs, s.memory.collections.lookup name = some docs := by
  obtain ⟨other, same, held⟩ := h.own _ there
  obtain rfl := CollectionName.fileName_inj same
  exact Option.isSome_iff_exists.mp held

theorem sound (h : Exported s d) (number : s.indent.text? = none)
    (visible : ∀ name, Table.has s.memory.collections name = true → Visible name) : d.Sound := by
  refine ⟨?_, fun name listed => ?_⟩
  · have missing : d.entry? Directory.legacyFile = none := by
      rw [← Option.not_isSome_iff_eq_none]
      intro there
      obtain ⟨name, same, held⟩ := h.own _ there
      exact (visible name held).2 (CollectionName.fileName_inj same)
    rw [Directory.isFile, missing]
  · obtain ⟨docs, held⟩ := h.held (Directory.mem_listed.mp listed).1
    exact ⟨_, h.reads number held⟩

/-- What a load makes of the files is the JSON form of what was held. -/
theorem stored (h : Exported s d) (number : s.indent.text? = none)
    (visible : ∀ name, Table.has s.memory.collections name = true → Visible name) (name : String) :
    d.stored? name = (s.memory.collections.lookup name).map (·.map Value.jsonForm) := by
  cases held : s.memory.collections.lookup name with
  | none =>
    rw [Directory.stored?, if_neg]
    · rfl
    · intro listed
      obtain ⟨docs, some⟩ := h.held (Directory.mem_listed.mp listed).1
      cases held.symm.trans some
  | some docs =>
    obtain ⟨text, -, entry⟩ := h.text name docs held
    refine Directory.stored?_eq_some.mpr ⟨Directory.mem_listed.mpr ⟨by rw [entry]; rfl, ?_⟩,
      h.reads number held⟩
    exact visible name (Option.isSome_iff_exists.mpr ⟨docs, held⟩)

end Exported

/-- All collections of a store are flushed into an empty directory, and a new store that loads it
holds the same collections with the same documents, up to what is not a number. -/
theorem load_of_flush (here : i < w.stores.length) (ready : Ready (w.store i))
    (empty : w.directory = some []) :
    ∃ w', (Op.flush i).run serve w = (w', .ok ()) ∧
      ∀ (v : World) (j : Nat), j < v.stores.length → (v.store j).memory = {} →
        v.directory = w'.directory → ∃ v', (Load.run j).run serve v = (v', .ok ()) ∧
          ∀ name, ((v'.store j).memory.collections.lookup name).map (·.map Value.unmarked) =
            ((w.store i).memory.collections.lookup name).map (·.map Value.unmarked) := by
  obtain ⟨w', line, ran, -, directory⟩ := run_flush here
  obtain ⟨done, exported⟩ := ready.flushed
  rw [empty] at ran directory
  rw [← directory] at exported
  have visible (name : String) (held : Table.has (w.store i).memory.collections name = true) :
      Visible name := CollectionName.visible_of_check (ready.named name held).1
  refine ⟨w', by rw [ran, done]; rfl, fun v j there fresh same => ?_⟩
  have sound : v.directory.Sound := same ▸ exported.sound ready.number visible
  obtain ⟨m, journal, loaded, -, holds⟩ := Load.run_sound there fresh sound
  refine ⟨_, loaded, fun name => ?_⟩
  rw [World.store_of_stores (w := { v with directory := v.directory.ensure, journal }) there rfl]
  show (m.collections.lookup name).map _ = _
  rw [holds, same, exported.stored ready.number visible]
  cases held : (w.store i).memory.collections.lookup name with
  | none => rfl
  | some docs =>
    have data := ready.data name docs held
    simp only [Option.map_some, List.map_map, Option.some.injEq]
    exact List.map_congr_left fun doc hdoc => Value.unmarked_jsonForm (data doc hdoc)

/-! ## A small store, and one whose name does not fit -/

def storeOn (d : Directory) (memory : Memory) : World :=
  { directory := d, source := ⟨0, 0, 0⟩,
    stores := [{ path := "data", indent := .int 2, memory }] }

/-- Two collections, of which one has a document. -/
def archive : Memory where
  collections := [("users", [.object [("id", .string "a"), ("score", .float (.nan 7))]]), ("a.b", [])]
  dirty := [.string "users", .string "a.b"]

theorem ready_archive : Ready ((storeOn (some []) archive).store 0) := by
  have held (name : String) (h : Table.has archive.collections name = true) :
      name = "users" ∨ name = "a.b" := by
    simpa [archive, Table.names] using Table.has_iff.mp h
  refine ⟨.inr ⟨2, by decide, rfl⟩, fun v => ?_, fun name h => ?_, fun name docs h => ?_⟩
  · show v ∈ archive.dirty ↔ ∃ name, v = .string name ∧ Table.has archive.collections name = true
    constructor
    · intro among
      rcases List.mem_cons.mp among with rfl | among
      · exact ⟨"users", rfl, rfl⟩
      · exact ⟨"a.b", List.mem_singleton.mp among, rfl⟩
    · rintro ⟨name, rfl, h⟩
      rcases held name h with rfl | rfl <;> simp [archive]
  · rcases held name h with rfl | rfl <;> exact ⟨rfl, by decide⟩
  · have h : archive.collections.lookup name = some docs := h
    intro doc hdoc
    rcases held name (Option.isSome_iff_exists.mpr ⟨docs, h⟩) with rfl | rfl <;> cases h
    · rw [List.mem_singleton.mp hdoc]
      refine .object (by decide) fun e he => ?_
      rcases List.mem_cons.mp he with rfl | he
      · exact .string "a"
      · rw [List.mem_singleton.mp he]
        exact .float trivial
    · cases hdoc

theorem archive_restored :
    ∃ w', (Op.flush 0).run serve (storeOn (some []) archive) = (w', .ok ()) ∧
      ∃ v', (Load.run 0).run serve (storeOn w'.directory {}) = (v', .ok ()) ∧
        ((v'.store 0).memory.collections.lookup "users").map (·.map Value.unmarked) =
          some [.object [("id", .string "a"), ("score", .float (.nan 0))]] ∧
        ((v'.store 0).memory.collections.lookup "a.b").map (·.map Value.unmarked) = some [] := by
  obtain ⟨w', flushed, loads⟩ :=
    load_of_flush (i := 0) (w := storeOn (some []) archive) (by decide) ready_archive rfl
  obtain ⟨v', loaded, same⟩ := loads (storeOn w'.directory {}) 0 Nat.one_pos rfl rfl
  exact ⟨w', flushed, v', loaded, same "users", same "a.b"⟩

def single (name : String) : Memory where
  collections := [(name, [])]
  dirty := [.string name]

/-- A collection whose name leaves no room for that of the unfinished file is not written. -/
theorem unfit_unwritten (name : String) (long : ¬Directory.Fits (fileName name)) :
    ∃ w', (Op.flush 0).run serve (storeOn (some []) (single name)) =
        (w', .error (.fault .system)) ∧ w'.directory = some [] := by
  have pending : (single name).pending = [.string name] := by
    simp [Memory.pending, single, Memory.holds, Table.has, Value.text?, Memory.insertByText]
  have taken : snapshot (.int 2) (single name) (single name).pending =
      .ok [(.string name, "[]\n")] := by
    rw [pending]
    simp only [snapshot, Memory.documents_string, single, List.lookup_cons, BEq.rfl]
    rfl
  have refused : Directory.replace (some []) (fileName name) "[]\n" = .error .system := by
    rw [Directory.replace, if_pos (Nat.not_le.mp long)]
  have flushed : Writer.flushed ((storeOn (some []) (single name)).store 0) (some []) =
      (takeBack { single name with dirty := [] } [.string name], some [], .error .system) := by
    show Writer.flushed { path := "data", indent := .int 2, memory := single name } (some []) = _
    have changed : (single name).dirty.isEmpty = false := rfl
    simp only [Writer.flushed, changed, Bool.false_eq_true, if_false, taken, Writer.written,
      Snapshot.write, CollectionName.fileOf_string, refused]
    rfl
  obtain ⟨w', line, ran, -, directory⟩ := run_flush (i := 0) (w := storeOn (some []) (single name))
    Nat.one_pos
  have empty : (storeOn (some []) (single name)).directory = some [] := rfl
  rw [empty, flushed] at ran directory
  exact ⟨w', ran, directory⟩

/-- A name that can be given to a collection and is too long for a file. -/
def longName : String := String.ofList (List.replicate 300 'a')

/-- The collection is not written, and a new store does not find it. -/
theorem long_name_unwritten :
    CollectionName.check (.string longName) = .ok longName ∧
      ∃ w', (Op.flush 0).run serve (storeOn (some []) (single longName)) =
          (w', .error (.fault .system)) ∧
        (((Load.run 0).run serve (storeOn w'.directory {})).1.store 0).memory.collections.lookup
          longName = none := by
  have letters (n : Nat) : CollectionName.isWellFormed (List.replicate (n + 1) 'a') = true := by
    rw [List.replicate_succ, CollectionName.isWellFormed, List.dropWhile_replicate,
      if_pos (by decide)]
    decide
  have formed : CollectionName.isWellFormed longName.toList = true :=
    (congrArg CollectionName.isWellFormed String.toList_ofList).trans (letters 299)
  have free : longName ≠ CollectionName.reserved := by decide +kernel
  obtain ⟨w', ran, empty⟩ := unfit_unwritten longName (by decide +kernel)
  refine ⟨by simp [CollectionName.check, Value.text?, formed, free], w', ran, ?_⟩
  rw [empty]
  generalize longName = name
  rfl

end Writer

end DocStore
