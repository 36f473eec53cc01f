import DocStore.Proofs.Storage.Load
import DocStore.Store.Basic
/-!
Loads over a directory in which every listed collection has a file that decodes: the load ends, and
memory holds what the files say. Such directories are what loads leave.
-/

namespace DocStore

/-! ## Which collections are listed -/

namespace CollectionName

/-- The file of the collection is neither hidden nor the legacy file. -/
def Visible (name : String) : Prop :=
  (fileName name).toList.head? ≠ some '.' ∧ name ≠ reserved

theorem visible_of_check {name s : String} (h : check (.string name) = .ok s) : Visible name := by
  obtain ⟨-, formed, other⟩ := check_string_iff.mp h
  refine ⟨fun hidden => ?_, other⟩
  obtain ⟨c, cs, chars, opens⟩ := first_opens formed
  rw [fileName, String.toList_append, chars] at hidden
  obtain rfl : c = '.' := Option.some.inj hidden
  exact absurd opens (by decide)

end CollectionName

namespace Directory

open CollectionName (Visible fileName)

variable {d d' : Directory} {name file : String} {docs docs' : List Value}

theorem stem?_eq_some : stem? file = some name ↔ file = fileName name := by
  have tail : ".json".toList = ['.', 'j', 's', 'o', 'n'] := rfl
  constructor
  · intro h
    simp only [stem?] at h
    split at h
    · next ends =>
      obtain ⟨stem, whole⟩ := List.isSuffixOf_iff_suffix.mp ends
      rw [← whole, List.length_append, Nat.add_sub_cancel, List.take_left] at h
      apply String.toList_inj.mp
      rw [fileName, String.toList_append, ← Option.some.inj h, String.toList_ofList, whole]
    · cases h
  · rintro rfl
    simp only [stem?, fileName, String.toList_append]
    rw [if_pos (List.isSuffixOf_iff_suffix.mpr (List.suffix_append ..)), List.length_append,
      Nat.add_sub_cancel, List.take_left, String.ofList_toList]

theorem mem_names : file ∈ Table.names (d.getD []) ↔ (d.entry? file).isSome = true := by
  cases d with
  | none => simp [Table.names, entry?]
  | some entries => exact Table.has_iff.symm

/-- A collection is listed when its file is there to be seen. -/
theorem mem_listed :
    name ∈ d.listed ↔ (d.entry? (fileName name)).isSome = true ∧ Visible name := by
  simp only [listed, List.mem_filterMap, mem_sortNames, mem_names]
  constructor
  · rintro ⟨file, there, stem⟩
    split at stem
    · cases stem
    · next shown =>
      obtain rfl := stem?_eq_some.mp stem
      simp only [Bool.or_eq_true, beq_iff_eq, decide_eq_true_eq, not_or] at shown
      exact ⟨there, shown.1, fun same => shown.2 (same ▸ rfl)⟩
  · rintro ⟨there, shown, own⟩
    refine ⟨fileName name, there, ?_⟩
    rw [if_neg, stem?_eq_some]
    simp only [Bool.or_eq_true, beq_iff_eq, decide_eq_true_eq, not_or]
    exact ⟨shown, fun same => own (CollectionName.fileName_inj same)⟩

theorem listed_congr (entries : ∀ file, d'.entry? file = d.entry? file) :
    name ∈ d'.listed ↔ name ∈ d.listed := by
  rw [mem_listed, mem_listed, entries]

/-! ## What files say -/

/-- The file of a collection can be read and holds documents. -/
def Reads (d : Directory) (name : String) (docs : List Value) : Prop :=
  ∃ text, d.read (fileName name) = .ok text ∧ ∀ path, readDocuments path text = .ok docs

theorem read_eq_ok {text : String} : d.read file = .ok text ↔ d.entry? file = some (.text text) := by
  constructor
  · exact entry?_of_read
  · intro entry
    simp only [read, entry]

theorem reads_of_decodes (h : d.Decodes name docs) : d.Reads name (docs.map Value.jsonForm) := by
  obtain ⟨text, entry, encodes⟩ := h
  exact ⟨text, read_eq_ok.mpr entry, encodes⟩

theorem Reads.decodes (h : d.Reads name docs) : d.Decodes name docs := by
  obtain ⟨text, read, parsed⟩ := h
  exact ⟨text, read_eq_ok.mp read, encodes_of_read (parsed "")⟩

theorem Reads.unique (h : d.Reads name docs) (h' : d.Reads name docs') : docs = docs' := by
  obtain ⟨text, read, parsed⟩ := h
  obtain ⟨other, again, reparsed⟩ := h'
  obtain rfl := Except.ok.inj (read.symm.trans again)
  exact Except.ok.inj ((parsed "").symm.trans (reparsed ""))

/-- Only the entry of the file counts. -/
theorem Reads.congr (h : d.Reads name docs)
    (entry : d'.entry? (fileName name) = d.entry? (fileName name)) : d'.Reads name docs := by
  obtain ⟨text, read, parsed⟩ := h
  exact ⟨text, read_eq_ok.mpr (entry.trans (read_eq_ok.mp read)), parsed⟩

/-- What a load makes of a collection: the documents of its file, if it is listed and can be read. -/
def stored? (d : Directory) (name : String) : Option (List Value) :=
  if name ∈ d.listed then
    match d.read (fileName name) with
    | .ok text => (readDocuments "" text).toOption
    | .error _ => none
  else none

theorem stored?_eq_some : d.stored? name = some docs ↔ name ∈ d.listed ∧ d.Reads name docs := by
  rw [stored?]
  split
  · next listed =>
    constructor
    · intro h
      split at h
      · next text read =>
        refine ⟨listed, text, read, fun path => ?_⟩
        cases parsed : readDocuments "" text with
        | error e =>
          rw [parsed] at h
          cases h
        | ok found =>
          rw [parsed] at h
          cases h
          have encodes := encodes_of_read parsed path
          rwa [readDocuments_form parsed] at encodes
      · cases h
    · rintro ⟨-, text, read, parsed⟩
      simp only [read, parsed]
      rfl
  · next other =>
    constructor
    · exact fun h => by cases h
    · exact fun h => absurd h.1 other

/-- There is no legacy file, and each listed collection has a file that holds documents. -/
structure Sound (d : Directory) : Prop where
  legacy : d.isFile legacyFile = false
  reads : ∀ name ∈ d.listed, ∃ docs, d.Reads name docs

theorem isFile_congr (entry : d'.entry? file = d.entry? file) : d'.isFile file = d.isFile file := by
  rw [isFile, isFile, entry]

theorem Sound.congr (h : d.Sound) (entries : ∀ file, d'.entry? file = d.entry? file) :
    d'.Sound := by
  refine ⟨(isFile_congr (entries _)).trans h.legacy, fun name listed => ?_⟩
  obtain ⟨docs, reads⟩ := h.reads name ((listed_congr entries).mp listed)
  exact ⟨docs, reads.congr (entries _)⟩

end Directory

namespace Load

open CollectionName (Visible)
open Writer (serve)

variable {i : Nat} {w w' : World}

/-! ## A load over sound files -/

theorem setStore_setStore (w : World) (i : Nat) (s s' : Store) :
    (w.setStore i s).setStore i s' = w.setStore i s' := by
  simp only [World.setStore, List.set_set]

theorem run_readCollection {name : String} {docs : List Value}
    (reads : w.directory.Reads name docs) :
    (readCollection i name).run serve w = (w.setStore i
      { w.store i with memory := (w.store i).memory.setDocuments name docs }, .ok false) := by
  obtain ⟨text, read, parsed⟩ := reads
  have looked : (lookAt (·.read (CollectionName.fileName name))).run serve w =
      (w, .ok (.ok text)) := by
    rw [← read]
    rfl
  rw [readCollection, Task.run_bind, looked]
  simp only [Op.store, Task.get, Task.ofResult, Task.run, bind, Task.bind, pure, parsed]
  rfl

/-- Reading adds the collections that memory does not hold yet, each with what its file says. -/
theorem run_readCollections {names : List String} (here : i < w.stores.length)
    (reads : ∀ name ∈ names, ∃ docs, w.directory.Reads name docs) :
    ∃ m, (readCollections i names).run serve w =
        (w.setStore i { w.store i with memory := m }, .ok []) ∧
      m.dirty = (w.store i).memory.dirty ∧
      ∀ name docs, m.collections.lookup name = some docs ↔
        (w.store i).memory.collections.lookup name = some docs ∨
          (w.store i).memory.collections.lookup name = none ∧ name ∈ names ∧
            w.directory.Reads name docs := by
  induction names generalizing w with
  | nil =>
    refine ⟨(w.store i).memory, ?_, rfl, by simp⟩
    have same : w.setStore i (w.store i) = w := by
      rw [World.setStore, ← Writer.set_store_self]
    show (w, Except.ok []) = (w.setStore i (w.store i), Except.ok [])
    rw [same]
  | cons name rest ih =>
    obtain ⟨docs, read⟩ := reads name (by simp)
    have later := fun other h => reads other (List.mem_cons_of_mem name h)
    have start : (readCollections i (name :: rest)).run serve w =
        (if (w.store i).memory.holds (.string name) then readCollections i rest else do
          let missing ← readCollection i name
          let later ← readCollections i rest
          return if missing then name :: later else later).run serve w := rfl
    rw [start]
    by_cases held : (w.store i).memory.holds (.string name) = true
    · obtain ⟨m, run, dirty, holds⟩ := ih here later
      refine ⟨m, by rw [if_pos held, run], dirty, fun other docs' => ?_⟩
      rw [holds, List.mem_cons]
      rw [Memory.holds_string, Table.has, Option.isSome_iff_ne_none] at held
      constructor
      · rintro (old | ⟨new, among, said⟩)
        · exact .inl old
        · exact .inr ⟨new, .inr among, said⟩
      · rintro (old | ⟨new, rfl | among, said⟩)
        · exact .inl old
        · exact absurd new held
        · exact .inr ⟨new, among, said⟩
    · let v := w.setStore i
        { w.store i with memory := (w.store i).memory.setDocuments name docs }
      have same : v.store i =
          { w.store i with memory := (w.store i).memory.setDocuments name docs } :=
        World.store_of_stores here rfl
      have there : i < v.stores.length := by
        show i < (w.stores.set i _).length
        rw [List.length_set]
        exact here
      obtain ⟨m, run, dirty, holds⟩ := ih (w := v) there later
      refine ⟨m, ?_, by rw [dirty, same]; rfl, fun other docs' => ?_⟩
      · rw [if_neg held, Task.run_bind, run_readCollection read]
        show (readCollections i rest >>= fun later => pure later).run serve v = _
        rw [Task.run_bind, run]
        show (v.setStore i { v.store i with memory := m }, _) = _
        rw [setStore_setStore, same]
      · rw [Memory.holds_string, Table.has, Bool.not_eq_true, Option.isSome_eq_false_iff,
          Option.isNone_iff_eq_none] at held
        rw [holds, same, Memory.setDocuments_collections, Table.lookup_put, List.mem_cons]
        have files : v.directory = w.directory := rfl
        rw [files]
        by_cases this : other = name
        · subst this
          simp only [if_true, held, reduceCtorEq, false_and, or_false, true_or, true_and, false_or,
            Option.some.injEq]
          constructor
          · rintro rfl
            exact read
          · exact fun said => read.unique said
        · simp only [this, if_false, false_or]

theorem run_reportLoaded (i : Nat) (w : World) :
    ∃ journal, (reportLoaded i).run serve w = ({ w with journal }, .ok ()) := ⟨_, rfl⟩

/-- A load over sound files into a new store ends, with nothing to write; memory then holds what the
files of the listed collections say. -/
theorem run_sound (here : i < w.stores.length) (fresh : (w.store i).memory = {})
    (sound : w.directory.Sound) :
    ∃ m journal, (run i).run serve w =
        (({ w with directory := w.directory.ensure, journal } : World).setStore i
          { w.store i with memory := m }, .ok ()) ∧
      m.dirty = [] ∧ ∀ name, m.collections.lookup name = w.directory.stored? name := by
  let v : World := { w with directory := w.directory.ensure }
  have entries := Directory.entry?_ensure w.directory
  have sound' : v.directory.Sound := sound.congr entries
  obtain ⟨m, ran, dirty, holds⟩ := run_readCollections (w := v) here sound'.reads
  have same : v.store i = w.store i := rfl
  have start : (run i).run serve w = ((lookAt (·.isFile Directory.legacyFile) >>= fun legacy => do
      if legacy then migrate i
      let missing ← readCollections i (← lookAt Directory.listed)
      if !missing.isEmpty then
        Op.log .warning Writer.component "collection_files_missing"
          [("collections", .list (missing.map .string))]
        let _ ← Task.each missing (markDirty i)
        Op.flush i
      reportLoaded i).run serve v) := rfl
  have looked : (lookAt (·.isFile Directory.legacyFile)).run serve v = (v, .ok false) := by
    rw [← sound'.legacy]
    rfl
  have listed : (lookAt Directory.listed).run serve v = (v, .ok v.directory.listed) := rfl
  obtain ⟨journal, reported⟩ :=
    run_reportLoaded i (v.setStore i { v.store i with memory := m })
  refine ⟨m, journal, ?_, by rw [dirty, same, fresh], fun name => ?_⟩
  · rw [start, Task.run_bind, looked]
    simp only [Bool.false_eq_true, if_false]
    show (lookAt Directory.listed >>= _).run serve v = _
    rw [Task.run_bind, listed]
    simp only
    rw [Task.run_bind, ran]
    exact reported
  · ext docs
    rw [holds, same, fresh, Directory.stored?_eq_some, Directory.listed_congr entries]
    have nothing : (({} : Memory).collections.lookup name : Option (List Value)) = none := rfl
    rw [nothing]
    simp only [reduceCtorEq, true_and, false_or]
    exact and_congr_right fun _ => ⟨fun h => h.congr (entries _).symm, fun h => h.congr (entries _)⟩

/-- A store that is opened over sound files holds what they say. -/
theorem run_connect (here : i < w.stores.length) (closed : (w.store i).connected = false)
    (fresh : (w.store i).memory = {}) (sound : w.directory.Sound) :
    ∃ m journal, (Store.connect i).run serve w =
        (({ w with directory := w.directory.ensure, journal } : World).setStore i
          { w.store i with memory := m, connected := true }, .ok ()) ∧
      m.dirty = [] ∧ ∀ name, m.collections.lookup name = w.directory.stored? name := by
  obtain ⟨m, journal, ran, clean, holds⟩ := run_sound here fresh sound
  let v : World := ({ w with directory := w.directory.ensure, journal } : World).setStore i
    { w.store i with memory := m }
  have same : v.store i = { w.store i with memory := m } := World.store_of_stores here rfl
  have start : (Store.connect i).run serve w = (if (w.store i).connected then pure () else do
      run i
      Op.modifyStore i fun s => { s with connected := true }
      Op.log .info Store.component "adapter_connected"
        [("data_dir", .string (← Op.store i).path)]).run serve w := rfl
  rw [closed, if_neg (by simp)] at start
  let opened := v.setStore i { v.store i with connected := true }
  refine ⟨m, (opened.log .info Store.component "adapter_connected"
    [("data_dir", .string (opened.store i).path)]).journal, ?_, clean, holds⟩
  rw [start, Task.run_bind, ran]
  show (opened.log .info Store.component "adapter_connected"
    [("data_dir", .string (opened.store i).path)], Except.ok ()) = _
  simp only [opened, same]
  simp only [World.log, World.setStore, v, List.set_set]

/-! ## What a load leaves -/

/-- Nothing but names of collections counts as changed, and the file of each collection that is held
can be seen. -/
structure Tidy (i : Nat) (w : World) : Prop where
  here : i < w.stores.length
  texts : ∀ x ∈ (w.store i).memory.dirty, ∃ s, x = .string s
  visible : ∀ name, Table.has (w.store i).memory.collections name = true → Visible name

/-- The legacy file is gone, and what is listed is held. -/
structure Taken (i : Nat) (w : World) : Prop where
  legacy : w.directory.isFile Directory.legacyFile = false
  held : ∀ name ∈ w.directory.listed, Table.has (w.store i).memory.collections name = true

theorem Tidy.agrees (h : Tidy i w) (agrees : w.Agrees w') : Tidy i w' := by
  have same := agrees.store i
  exact ⟨agrees.stores ▸ h.here, same ▸ h.texts, same ▸ h.visible⟩

theorem Taken.agrees (h : Taken i w) (agrees : w.Agrees w') : Taken i w' := by
  have same := agrees.store i
  refine ⟨?_, ?_⟩
  · rw [agrees.directory]
    exact h.legacy
  · rw [agrees.directory, same]
    exact h.held

theorem Tidy.directory (h : Tidy i w) (d : Directory) : Tidy i { w with directory := d } :=
  ⟨h.here, h.texts, h.visible⟩

theorem Tidy.memory (h : Tidy i w) {m : Memory} (texts : ∀ x ∈ m.dirty, ∃ s, x = .string s)
    (visible : ∀ name, Table.has m.collections name = true → Visible name) :
    Tidy i (w.setStore i { w.store i with memory := m }) := by
  have same : (w.setStore i { w.store i with memory := m }).store i =
      { w.store i with memory := m } := World.store_of_stores h.here rfl
  refine ⟨?_, by rw [same]; exact texts, by rw [same]; exact visible⟩
  show i < (w.stores.set i _).length
  rw [List.length_set]
  exact h.here

theorem Tidy.put {name : String} (h : Tidy i w) (visible : Visible name) (docs : List Value) :
    Tidy i (w.setStore i
      { w.store i with memory := (w.store i).memory.setDocuments name docs }) := by
  refine h.memory h.texts fun other held => ?_
  rw [Memory.setDocuments_collections, Table.has_put, Bool.or_eq_true, beq_iff_eq] at held
  rcases held with rfl | held
  · exact visible
  · exact h.visible other held

theorem Tidy.mark (h : Tidy i w) (name : String) : Tidy i (w.setStore i
    { w.store i with memory := (w.store i).memory.markDirty (.string name) }) := by
  refine h.memory (fun x hx => ?_) ?_
  · exact ((Memory.mem_markDirty h.texts name).mp hx).elim (h.texts x) fun same => ⟨name, same⟩
  · rw [Memory.markDirty_collections]
    exact h.visible

theorem flushed_clean {s : Store} {d : Directory} (done : (Writer.flushed s d).2.2 = .ok ()) :
    (Writer.flushed s d).1.dirty = [] := by
  rw [Writer.flushed] at done ⊢
  split at done
  · next clean =>
    rw [if_pos clean]
    exact List.isEmpty_iff.mp clean
  · next changed =>
    rw [if_neg changed]
    split at done
    · cases done
    · next files _ =>
      rw [Writer.written] at done ⊢
      split at done
      · rfl
      · cases done

/-- A flush that ends well leaves nothing to write, and only files of what is held come to be. -/
theorem flush_tidy (h : Tidy i w) (run : (Op.flush i).run serve w = (w', .ok ())) :
    Tidy i w' ∧ (w'.store i).memory.dirty = [] ∧ (Taken i w → Taken i w') := by
  obtain ⟨v, line, ran, stores, directory⟩ := Writer.run_flush h.here
  obtain ⟨rfl, outcome⟩ := Prod.mk.inj (ran.symm.trans run)
  have same := World.store_of_stores h.here stores
  have clean : (v.store i).memory.dirty = [] := by
    rw [same]
    exact flushed_clean (ok_of_ofFault outcome)
  have kept : (v.store i).memory.collections = (w.store i).memory.collections := by
    rw [same]
    exact Writer.served_collections (w.store i) w.directory .flush
  have entry (file : String) : v.directory.entry? file = w.directory.entry? file ∨
      ∃ name, Table.has (w.store i).memory.collections name = true ∧
        CollectionName.fileName name = file := by
    rw [directory]
    exact flushed_entry h.texts w.directory file
  refine ⟨⟨?_, ?_, kept ▸ h.visible⟩, clean, fun taken => ⟨?_, fun name listed => ?_⟩⟩
  · rw [stores, List.length_set]
    exact h.here
  · rw [clean]
    exact fun x none => by cases none
  · rcases entry Directory.legacyFile with same | ⟨name, held, own⟩
    · rw [Directory.isFile_congr same]
      exact taken.legacy
    · exact absurd (CollectionName.fileName_inj own) (h.visible name held).2
  · rw [kept]
    obtain ⟨there, visible⟩ := Directory.mem_listed.mp listed
    rcases entry (CollectionName.fileName name) with same | ⟨other, held, own⟩
    · exact taken.held name (Directory.mem_listed.mpr ⟨same ▸ there, visible⟩)
    · exact CollectionName.fileName_inj own ▸ held

theorem yields_takeOver_tidy (i : Nat) (existing : List String) (legacy : Table (List Value)) :
    Yields (Tidy i) (takeOver i existing legacy) fun _ => Tidy i := by
  induction legacy with
  | nil => exact yields_pure [] fun w h => h
  | cons entry rest ih =>
    obtain ⟨name, docs⟩ := entry
    refine yields_bind (yields_ofResult _) ?_
    intro s
    split
    · refine yields_bind (yields_modify fun w h => h.1.agrees (w.agrees_log ..)) ?_
      exact fun _ => ih
    · refine yields_bind (m := fun _ => Tidy i) (yields_modify fun w h =>
        h.1.put (CollectionName.visible_of_check h.2) docs) ?_
      intro _
      refine yields_bind (yields_modify fun w h => h.mark name) ?_
      intro _
      exact yields_bind ih fun names => yields_pure _ fun w h => h

/-- Nothing to write, and no legacy file. -/
def Split (i : Nat) (w : World) : Prop :=
  Tidy i w ∧ (w.store i).memory.dirty = [] ∧ w.directory.isFile Directory.legacyFile = false

theorem yields_migrate_split (i : Nat) : Yields (Tidy i) (migrate i) fun _ => Split i := by
  refine yields_bind (yields_store i) ?_
  intro s
  refine yields_bind (yields_lookAt _) ?_
  intro read
  refine yields_bind (yields_ofResult _) ?_
  intro text
  refine yields_bind (yields_ofResult _) ?_
  intro collections
  refine yields_bind (yields_lookAt _) ?_
  intro existing
  refine yields_bind (yields_mono (yields_takeOver_tidy i existing collections)
    (fun w h => h.1.1.1.1.1) fun _ _ h => h) ?_
  intro migrated
  refine yields_bind (m := fun _ w => Tidy i w ∧ (w.store i).memory.dirty = []) ?_ ?_
  · intro w h w' _ run
    obtain ⟨tidy, clean, -⟩ := flush_tidy h run
    exact ⟨tidy, clean⟩
  intro _
  refine yields_bind (m := fun _ => Split i) ?_ ?_
  · refine yields_bind yields_work ?_
    intro _
    refine yields_bind yields_get ?_
    intro v
    refine yields_bind (yields_ofResult _) fun d => yields_modify fun w h => ?_
    obtain ⟨⟨⟨tidy, clean⟩, rfl⟩, taken⟩ := h
    refine ⟨tidy.directory d, clean, ?_⟩
    show d.isFile _ = false
    rw [Directory.isFile, Directory.entry?_takeFile (ok_of_ofFault taken), if_pos rfl]
  intro _
  refine yields_modify fun w h => ?_
  have agrees := w.agrees_log .info Writer.component "legacy_store_migrated"
    [("path", .string (pathOf s Directory.legacyFile)),
     ("collections", .list (migrated.map .string))]
  exact ⟨h.1.agrees agrees, h.2⟩

/-- All collections whose names are read are held then. -/
theorem yields_readCollections_held (i : Nat) (d : Directory) (names before : List String)
    (visible : ∀ name ∈ names, Visible name) :
    Yields (fun w => Split i w ∧ w.directory = d ∧
        ∀ name ∈ before, Table.has (w.store i).memory.collections name = true)
      (readCollections i names)
      fun _ w => Split i w ∧ w.directory = d ∧
        ∀ name ∈ before ++ names, Table.has (w.store i).memory.collections name = true := by
  induction names generalizing before with
  | nil =>
    refine yields_pure [] fun w h => ?_
    rwa [List.append_nil]
  | cons name rest ih =>
    have ih := ih (before ++ [name]) fun other h => visible other (by simp [h])
    rw [List.append_assoc, List.singleton_append] at ih
    refine yields_bind (yields_store i) ?_
    intro s
    split
    · next held =>
      refine yields_mono ih (fun w h => ?_) fun _ _ h => h
      obtain ⟨⟨split, files, known⟩, rfl⟩ := h
      refine ⟨split, files, fun other among => ?_⟩
      rcases List.mem_append.mp among with among | this
      · exact known other among
      · rw [List.mem_singleton.mp this]
        exact held
    · refine yields_bind (m := fun _ w => Split i w ∧ w.directory = d ∧
        ∀ other ∈ before ++ [name], Table.has (w.store i).memory.collections other = true) ?_ ?_
      · have put (docs : List Value) : Yields (fun w => Split i w ∧ w.directory = d ∧
            ∀ other ∈ before, Table.has (w.store i).memory.collections other = true)
            (setDocuments i name docs) fun _ w => Split i w ∧ w.directory = d ∧
            ∀ other ∈ before ++ [name],
              Table.has (w.store i).memory.collections other = true := by
          refine yields_modify fun w h => ?_
          obtain ⟨⟨tidy, clean, legacy⟩, files, known⟩ := h
          refine ⟨⟨tidy.put (visible name (by simp)) docs, ?_, legacy⟩, files, fun other among => ?_⟩
          · rw [World.store_of_stores tidy.here rfl]
            exact clean
          · rw [World.store_of_stores tidy.here rfl, Memory.setDocuments_collections,
              Table.has_put, Bool.or_eq_true, beq_iff_eq]
            rcases List.mem_append.mp among with among | this
            · exact .inr (known other among)
            · exact .inl (List.mem_singleton.mp this)
        refine yields_bind (yields_lookAt _) ?_
        intro read
        cases read with
        | ok text =>
          refine yields_bind (yields_store i) ?_
          intro s
          refine yields_bind (yields_ofResult _) ?_
          intro docs
          refine yields_bind (yields_mono (put docs) (fun w h => h.1.1.1.1) fun _ _ h => h) ?_
          exact fun _ => yields_pure false fun w h => h
        | error f =>
          cases f with
          | fileNotFound =>
            refine yields_bind (yields_mono (put []) (fun w h => h.1.1) fun _ _ h => h) ?_
            exact fun _ => yields_pure true fun w h => h
          | _ => exact yields_raise _
      · intro missing
        exact yields_bind ih fun later => yields_pure _ fun w h => h

/-- Nothing is left to write, the legacy file is gone, and what is listed is held. -/
structure Settled (i : Nat) (w : World) : Prop where
  tidy : Tidy i w
  clean : (w.store i).memory.dirty = []
  taken : Taken i w

theorem Settled.agrees (h : Settled i w) (agrees : w.Agrees w') : Settled i w' := by
  have same := agrees.store i
  exact ⟨h.tidy.agrees agrees, same ▸ h.clean, h.taken.agrees agrees⟩

theorem yields_readListed_settled (i : Nat) :
    Yields (Split i) (do
      let missing ← readCollections i (← lookAt Directory.listed)
      if !missing.isEmpty then
        Op.log .warning Writer.component "collection_files_missing"
          [("collections", .list (missing.map .string))]
        let _ ← Task.each missing (markDirty i)
        Op.flush i
      reportLoaded i) fun _ => Settled i := by
  have report : Yields (Settled i) (reportLoaded i) fun _ => Settled i := by
    refine yields_bind (yields_store i) fun s => ?_
    exact yields_modify fun w h => h.1.agrees (w.agrees_log ..)
  refine yields_bind (yields_lookAt _) ?_
  intro names
  refine yields_bind (m := fun _ w => Split i w ∧ Taken i w) ?_ ?_
  · intro w h w' missing run
    have visible (name : String) (among : name ∈ names) : Visible name := by
      rw [h.2] at among
      exact (Directory.mem_listed.mp among).2
    obtain ⟨split, files, held⟩ := yields_readCollections_held i w.directory names [] visible w
      ⟨h.1, rfl, by simp⟩ w' missing run
    refine ⟨split, split.2.2, fun name listed => held name ?_⟩
    rw [files, ← h.2] at listed
    exact listed
  intro missing
  cases missing with
  | nil => exact yields_mono report (fun w h => ⟨h.1.1, h.1.2.1, h.2⟩) fun _ _ h => h
  | cons name rest =>
    let Marked (w : World) : Prop := Tidy i w ∧ Taken i w
    have marks (names : List String) :
        Yields Marked (Task.each names (markDirty i)) fun _ => Marked := by
      induction names with
      | nil => exact yields_pure [] fun w h => h
      | cons name rest ih =>
        refine yields_bind (m := fun _ => Marked) (yields_modify fun w h => ?_) fun _ =>
          yields_bind ih fun _ => yields_pure _ fun w h => h
        refine ⟨h.1.mark name, h.2.legacy, fun other listed => ?_⟩
        rw [World.store_of_stores h.1.here rfl, Memory.markDirty_collections]
        exact h.2.held other listed
    refine yields_bind (m := fun _ => Marked) ?_ ?_
    · refine yields_modify fun w h => ?_
      have agrees := w.agrees_log .warning Writer.component "collection_files_missing"
        [("collections", .list ((name :: rest).map .string))]
      exact ⟨h.1.1.agrees agrees, h.2.agrees agrees⟩
    intro _
    refine yields_bind (marks (name :: rest)) ?_
    intro _
    refine yields_bind (m := fun _ => Settled i) ?_ ?_
    · intro w h w' _ run
      obtain ⟨tidy, clean, taken⟩ := flush_tidy h.1 run
      exact ⟨tidy, clean, taken h.2⟩
    exact fun _ => report

/-- A load that ends well leaves nothing to write and has read whatever is listed. -/
theorem yields_settled (i : Nat) :
    Yields (fun w => Tidy i w ∧ (w.store i).memory.dirty = []) (run i) fun _ => Settled i := by
  refine yields_bind (m := fun _ w => Tidy i w ∧ (w.store i).memory.dirty = [])
    (yields_modify fun w h => ⟨h.1.directory _, h.2⟩) ?_
  intro _
  refine yields_bind yields_work ?_
  intro _
  refine yields_bind (yields_lookAt _) ?_
  intro legacy
  cases legacy with
  | true =>
    refine yields_bind (yields_mono (yields_migrate_split i) (fun w h => h.1.1) fun _ _ h => h) ?_
    exact fun _ => yields_readListed_settled i
  | false =>
    refine yields_mono (yields_readListed_settled i) (fun w h => ?_) fun _ _ h => h
    exact ⟨h.1.1, h.1.2, h.2.symm⟩

theorem settled (here : i < w.stores.length) (fresh : (w.store i).memory = {})
    (done : (run i).run serve w = (w', .ok ())) : Settled i w' := by
  refine yields_settled i w ⟨⟨here, ?_, ?_⟩, ?_⟩ w' () done
  · rw [fresh]
    exact fun x none => by cases none
  · rw [fresh]
    exact fun name none => by cases none
  · rw [fresh]

/-- A load that ends well leaves sound files. -/
theorem sound_of_loaded (here : i < w.stores.length) (fresh : (w.store i).memory = {})
    (number : (w.store i).indent.text? = none) (done : (run i).run serve w = (w', .ok ())) :
    w'.directory.Sound := by
  have settled := settled here fresh done
  have loaded := loaded here fresh number done
  refine ⟨settled.taken.legacy, fun name listed => ?_⟩
  have held := settled.taken.held name listed
  obtain ⟨docs, held⟩ := Option.isSome_iff_exists.mp held
  rcases loaded.stands name docs held with marked | stored | none
  · rw [settled.clean] at marked
    cases marked
  · exact ⟨_, Directory.reads_of_decodes stored⟩
  · cases none

end Load

end DocStore
