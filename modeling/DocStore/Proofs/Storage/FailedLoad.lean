import DocStore.Proofs.Storage.Restart
/-!
Loads that fail over a directory with a legacy file. While anything of it is not written the legacy file
stays. Once it is gone, each of its collections is in a file, unless it had a file of its own: that one
counts, and is left as it was, be it readable or not. Entries that are no files are left out.
-/

namespace DocStore.Load

open CollectionName (Visible fileName)
open Writer (Answers Pending serve)

variable {i : Nat} {w w' : World} {server : Task.Server World Request Unit}
  {legacy : Table (List Value)} {text name : String} {m m' m'' : Memory}

/-! ## Reading with any outcome -/

/-- Memory after something was read: what was held stays, and no more counts as changed. -/
structure Grown (m m' : Memory) : Prop where
  dirty : m'.dirty = m.dirty
  held : ∀ name docs, m.collections.lookup name = some docs →
    m'.collections.lookup name = some docs

theorem Grown.refl (m : Memory) : Grown m m := ⟨rfl, fun _ _ held => held⟩

theorem Grown.trans (h : Grown m m') (h' : Grown m' m'') : Grown m m'' :=
  ⟨h'.dirty.trans h.dirty, fun name docs held => h'.held name docs (h.held name docs held)⟩

theorem grown_put (fresh : m.collections.lookup name = none) (docs : List Value) :
    Grown m (m.setDocuments name docs) := by
  refine ⟨rfl, fun other docs' held => ?_⟩
  rw [Memory.setDocuments_collections, Table.lookup_put, if_neg]
  · exact held
  · rintro rfl
    cases fresh.symm.trans held

/-- A collection of which the file leads nowhere is empty. -/
theorem read_collection
    (fresh : (w.store i).memory.collections.lookup name = none) :
    ∃ w' r m, (readCollection i name).run serve w = (w', r) ∧
      w.Becomes i { w.store i with memory := m } w' ∧ Grown (w.store i).memory m ∧
      (r = .ok true → m.collections.lookup name = some []) := by
  have put (docs : List Value) := grown_put fresh docs
  have same := (World.Agrees.refl w).becomes i
  have looked : (lookAt (·.read (fileName name))).run serve w =
      (w, .ok (w.directory.read (fileName name))) := rfl
  rw [readCollection, Task.run_bind, looked]
  cases w.directory.read (fileName name) with
  | ok text =>
    cases parsed : readDocuments (pathOf (w.store i) (fileName name)) text with
    | error e =>
      refine ⟨w, .error e, (w.store i).memory, ?_, same, .refl _, fun h => by cases h⟩
      simp only [Op.store, Task.get, Task.ofResult, Task.run, bind, Task.bind, pure, parsed]
    | ok docs =>
      refine ⟨_, .ok false, _, ?_, World.Becomes.set i w _, put docs, fun h => by cases h⟩
      simp only [Op.store, Task.get, Task.ofResult, Task.run, bind, Task.bind, pure, parsed]
      rfl
  | error f =>
    cases f with
    | fileNotFound =>
      refine ⟨_, .ok true, _, rfl, World.Becomes.set i w _, put [], fun _ => ?_⟩
      rw [Memory.setDocuments_collections, Table.lookup_put, if_pos rfl]
    | _ => exact ⟨w, _, (w.store i).memory, rfl, same, .refl _, fun h => by cases h⟩

theorem read_collections (here : i < w.stores.length) (names : List String) :
    ∃ w' r m, (readCollections i names).run serve w = (w', r) ∧
      w.Becomes i { w.store i with memory := m } w' ∧ Grown (w.store i).memory m ∧
      ∀ missing, r = .ok missing → ∀ name ∈ missing, m.collections.lookup name = some [] := by
  induction names generalizing w with
  | nil =>
    refine ⟨w, .ok [], (w.store i).memory, rfl, (World.Agrees.refl w).becomes i, .refl _, ?_⟩
    rintro missing h name among
    cases h
    cases among
  | cons name rest ih =>
    have start : (readCollections i (name :: rest)).run serve w =
        (if (w.store i).memory.holds (.string name) then readCollections i rest else do
          let missing ← readCollection i name
          let later ← readCollections i rest
          return if missing then name :: later else later).run serve w := rfl
    rw [start]
    cases held : (w.store i).memory.holds (.string name) with
    | true =>
      rw [if_pos rfl]
      exact ih here
    | false =>
      rw [Memory.holds_string, Table.has, Option.isSome_eq_false_iff,
        Option.isNone_iff_eq_none] at held
      obtain ⟨v, r, m, ran, becomes, grown, empty⟩ := read_collection held
      rw [if_neg Bool.false_ne_true, Task.run_bind, ran]
      cases r with
      | error e => exact ⟨v, .error e, m, rfl, becomes, grown, fun _ h => by cases h⟩
      | ok missing =>
        have store := becomes.store here
        obtain ⟨v', r', m', ran', becomes', grown', empty'⟩ :=
          ih (w := v) (becomes.length.symm ▸ here)
        rw [store] at becomes' grown'
        show ∃ w' r m, (readCollections i rest >>= fun later => pure _).run serve v = (w', r) ∧ _
        rw [Task.run_bind, ran']
        have grows := grown.trans grown'
        have becomes := becomes.trans becomes'
        cases r' with
        | error e => exact ⟨v', .error e, m', rfl, becomes, grows, fun _ h => by cases h⟩
        | ok later =>
          refine ⟨v', _, m', rfl, becomes, grows, fun all same other among => ?_⟩
          cases same
          cases missing with
          | false => exact empty' later rfl other among
          | true =>
            rcases List.mem_cons.mp among with rfl | among
            · exact grown'.held _ _ (empty rfl)
            · exact empty' later rfl other among

/-- What is marked is what counts as changed then. -/
theorem run_markAll (here : i < w.stores.length) (names : List String)
    (texts : ∀ x ∈ (w.store i).memory.dirty, ∃ c, x = .string c) :
    ∃ w' marks m, (Task.each names (markDirty i)).run serve w = (w', .ok marks) ∧
      w.Becomes i { w.store i with memory := m } w' ∧
      m.collections = (w.store i).memory.collections ∧
      ∀ x ∈ m.dirty, x ∈ (w.store i).memory.dirty ∨ ∃ name ∈ names, x = .string name := by
  induction names generalizing w with
  | nil =>
    exact ⟨w, [], (w.store i).memory, rfl, (World.Agrees.refl w).becomes i, rfl, fun _ => .inl⟩
  | cons name rest ih =>
    let v := w.setStore i
      { w.store i with memory := (w.store i).memory.markDirty (.string name) }
    have becomes : w.Becomes i
      { w.store i with memory := (w.store i).memory.markDirty (.string name) } v := .set i w _
    have store := becomes.store here
    have marked (x : Value) := Memory.mem_markDirty (v := x) texts name
    obtain ⟨w', marks, m, ran, becomes', collections, dirty⟩ :=
      ih (w := v) (becomes.length.symm ▸ here) (by
        rw [store]
        intro x hx
        exact ((marked x).mp hx).elim (texts x) fun same => ⟨name, same⟩)
    rw [store] at becomes' collections dirty
    refine ⟨w', () :: marks, m, ?_, becomes.trans becomes', ?_, fun x hx => ?_⟩
    · show (Task.each rest (markDirty i) >>= fun marks => pure (() :: marks)).run serve v = _
      rw [Task.run_bind_ok ran]
      rfl
    · rw [collections, Memory.markDirty_collections]
    · rcases dirty x hx with hx | ⟨other, among, same⟩
      · rcases (marked x).mp hx with hx | same
        · exact .inl hx
        · exact .inr ⟨name, by simp, same⟩
      · exact .inr ⟨other, List.mem_cons_of_mem _ among, same⟩

/-- Collections whose files led nowhere are written as empty ones, or are not written. -/
theorem tried_missing (answers : Answers i server) (here : i < w.stores.length)
    (clean : (w.store i).memory.dirty = []) {missing : List String}
    (empty : ∀ name ∈ missing, (w.store i).memory.collections.lookup name = some [])
    (visible : Visible name) :
    let d := ((do
      let _ ← Task.each missing (markDirty i)
      Op.flush i
      reportLoaded i : Op Unit).run server w).1.directory
    d.entry? (fileName name) = w.directory.entry? (fileName name) ∨
      ∃ text, fileText (w.store i).indent [] = .ok text ∧
        d.entry? (fileName name) = some (.text text) := by
  obtain ⟨w₁, marks, m, ran, becomes, collections, marked⟩ :=
    run_markAll here missing (by rw [clean]; exact fun x none => by cases none)
  have store := becomes.store here
  have dirty : ∀ x ∈ m.dirty, ∃ name ∈ missing, x = .string name := by
    intro x hx
    apply (marked x hx).resolve_left
    intro old
    rw [clean] at old
    cases old
  have works : Op.Works (Task.each missing (markDirty i)) := Op.works_each fun _ _ => trivial
  obtain ⟨w₂, r, flushed, granted, tries, -⟩ := Writer.run_flush_answered answers
    (becomes.length.symm ▸ here) (by
      rw [store]
      intro x hx
      obtain ⟨name, -, same⟩ := dirty x hx
      exact ⟨name, same⟩)
  have start := answers.continues works (f := fun _ => do
    Op.flush i
    reportLoaded i) ran
  have directory : ((do
      Op.flush i
      reportLoaded i : Op Unit).run server w₁).1.directory = w₂.directory := by
    rw [Task.run_bind, flushed]
    cases r <;> rfl
  have entry := tries.entry (fileName name) visible.1
  rw [store, becomes.directory] at entry
  rw [start.run, directory]
  refine entry.imp_right ?_
  rintro ⟨docs, text, ⟨c, named, changed, held⟩, made, there⟩
  obtain ⟨c', among, same⟩ := dirty _ changed
  cases same
  rw [collections, empty c among] at held
  cases held
  exact ⟨text, made, there⟩

/-- Reading what is listed, whatever comes of it, leaves the file of each collection as it was, or
empty. -/
theorem tried_readListed (answers : Answers i server) (here : i < w.stores.length)
    (clean : (w.store i).memory.dirty = []) (visible : Visible name) :
    let d := ((readListed i).run server w).1.directory
    d.entry? (fileName name) = w.directory.entry? (fileName name) ∨
      ∃ text, fileText (w.store i).indent [] = .ok text ∧
        d.entry? (fileName name) = some (.text text) := by
  obtain ⟨v, r, m, ran, becomes, grown, empty⟩ := read_collections here w.directory.listed
  have store := becomes.store here
  let rest (missing : List String) : Op Unit := do
    if !missing.isEmpty then
      Op.log .warning Writer.component "collection_files_missing"
        [("collections", .list (missing.map .string))]
      let _ ← Task.each missing (markDirty i)
      Op.flush i
    reportLoaded i
  have works := works_readCollections i w.directory.listed
  have looked : Op.Continues server (readListed i) w
      (readCollections i w.directory.listed >>= rest) w :=
    answers.continues (works_lookAt Directory.listed) rfl
  have same {w' : World} (kept : w'.directory = v.directory) :
      w'.directory.entry? (fileName name) = w.directory.entry? (fileName name) := by
    rw [kept, becomes.directory]
  intro d
  have read := (works.run_eq answers.work (fun _ => rfl) w).trans ran
  cases r with
  | error e =>
    have ends : (readListed i).run server w = (v, .error e) := by
      rw [looked.run, Task.run_bind, read]
    left
    simp only [d, ends]
    exact same rfl
  | ok missing =>
    have goes : (readListed i).run server w = (rest missing).run server v := by
      rw [looked.run, Task.run_bind_ok read]
    simp only [d, goes]
    cases missing with
    | nil => exact .inl (same rfl)
    | cons lost others =>
      let u := v.log .warning Writer.component "collection_files_missing"
        [("collections", .list ((lost :: others).map .string))]
      have agrees : v.Agrees u := v.agrees_log ..
      have held : u.store i = { w.store i with memory := m } := (agrees.store i).trans store
      have there : i < u.stores.length := by
        rw [agrees.stores, becomes.length]
        exact here
      have still : ∀ name ∈ lost :: others,
          (u.store i).memory.collections.lookup name = some [] := by
        rw [held]
        exact empty _ rfl
      have tried := tried_missing answers there
        (by rw [held]; exact grown.dirty.trans clean) still visible
      rw [held, agrees.directory, becomes.directory] at tried
      exact tried

/-! ## The load -/

/-- When a load fails over a directory with a legacy file, then that file is there as it was, or each of
its collections that had no entry but a file has a file that holds documents, or the one it had, which is as
it was. -/
theorem failed_load_keeps (has : w.directory.HasLegacy text legacy) (answers : Answers i server)
    (here : i < w.stores.length) (fresh : (w.store i).memory = {})
    (number : (w.store i).indent.text? = none) {e : Error}
    (failed : (run i).run server w = (w', .error e)) (among : name ∈ Table.names legacy)
    (regular : w.directory.entry? (fileName name) = none ∨
      w.directory.isFile (fileName name) = true) :
    w'.directory.entry? Directory.legacyFile = some (.text text) ∨
      (∃ docs, w'.directory.Reads name docs) ∨
      w.directory.isFile (fileName name) = true ∧
        w'.directory.entry? (fileName name) = w.directory.entry? (fileName name) := by
  have start := (continues_run answers has.there).run
  rw [failed] at start
  rcases run_migrate answers here fresh has with
    ⟨-, w₁, ran, migrated⟩ | ⟨-, w₁, e', ran, halted⟩
  · rw [Task.run_bind_ok ran] at start
    obtain ⟨docs, held⟩ := Option.isSome_iff_exists.mp (Table.has_iff.mpr among)
    have tried := tried_readListed answers migrated.here migrated.clean (has.visible held)
    rw [← start, migrated.indent] at tried
    right
    rcases tried with same | ⟨text', made, there⟩
    · by_cases listed : name ∈ w.directory.listed
      · have own : w.directory.isFile (fileName name) = true := by
          apply regular.resolve_left
          intro nothing
          have there := (Directory.mem_listed.mp listed).1
          rw [nothing] at there
          cases there
        exact .inr ⟨own, same.trans (migrated.unchanged listed)⟩
      · exact .inl ⟨docs, (migrated.reads has number held listed).congr same⟩
    · exact .inl ⟨_, text', Directory.read_eq_ok.mpr there, readDocuments_fileText number made⟩
  · rw [Task.run_bind, ran] at start
    cases start
    exact .inl (halted.there.trans has.there)

/-- One of two collections has a file of its own, which cannot be read. -/
def spoilt : World where
  directory := some [("protodb.json", .text archiveText), ("users.json", .text "\x7bnot json")]
  source := ⟨0, 0, 0⟩
  stores := [{ path := "data", indent := .int 2 }]

theorem spoilt_hasLegacy : spoilt.directory.HasLegacy archiveText archive :=
  ⟨rfl, archive_held, archive_accepted⟩

theorem spoilt_fails : ∃ w' e, (run 0).run serve spoilt = (w', .error e) ∧
    w'.directory.entry? Directory.legacyFile = none ∧
    w'.directory.entry? "users.json" = some (.text "\x7bnot json") := by
  have failed : ((run 0).run serve spoilt).2.isOk = false := by decide +kernel
  have gone : ((run 0).run serve spoilt).1.directory.entry? Directory.legacyFile = none := by
    decide +kernel
  have kept : ((run 0).run serve spoilt).1.directory.entry? "users.json" =
      some (.text "\x7bnot json") := by
    decide +kernel
  cases ran : (run 0).run serve spoilt with
  | mk w' r =>
    rw [ran] at failed gone kept
    cases r with
    | ok _ => cases failed
    | error e => exact ⟨w', e, rfl, gone, kept⟩

/-- The legacy copy of a collection that had a file of its own is not kept. -/
theorem failed_load_loses :
    ¬∀ (w w' : World) (text name : String) (legacy : Table (List Value)) (e : Error),
      w.directory.HasLegacy text legacy → 0 < w.stores.length → (w.store 0).memory = {} →
      (w.store 0).indent.text? = none → (run 0).run serve w = (w', .error e) →
      name ∈ Table.names legacy →
      w'.directory.entry? Directory.legacyFile = some (.text text) ∨
        ∃ docs, w'.directory.Reads name docs := by
  intro keeps
  obtain ⟨w', e, ran, gone, kept⟩ := spoilt_fails
  rcases keeps spoilt w' archiveText "users" archive e spoilt_hasLegacy (by decide) rfl rfl ran
    (by decide) with there | ⟨docs, text, read, parsed⟩
  · cases gone.symm.trans there
  · have same := kept.symm.trans (Directory.read_eq_ok.mp read)
    cases same
    have refused : (readDocuments "" "\x7bnot json").isOk = false := by decide +kernel
    rw [parsed] at refused
    cases refused

theorem spoilt_keeps : ∃ w' e, (run 0).run serve spoilt = (w', .error e) ∧
    ((∃ docs, w'.directory.Reads "users" docs) ∨
      w'.directory.entry? "users.json" = some (.text "\x7bnot json")) ∧
    ∃ docs, w'.directory.Reads "posts" docs := by
  obtain ⟨w', e, ran, gone, -⟩ := spoilt_fails
  have keeps (name : String) (among : name ∈ Table.names archive) :=
    failed_load_keeps spoilt_hasLegacy (Writer.answers_serve 0) (w := spoilt) (by decide) rfl rfl ran
      among
  have lost {p : Prop} (h : w'.directory.entry? Directory.legacyFile = some (.text archiveText) ∨ p) :
      p := by
    apply h.resolve_left
    intro there
    cases gone.symm.trans there
  have users := lost (keeps "users" (by decide) (.inr rfl))
  have posts := lost (keeps "posts" (by decide) (.inl rfl))
  exact ⟨w', e, ran, users.imp_right And.right, posts.resolve_right fun own => nomatch own.1⟩

end DocStore.Load
