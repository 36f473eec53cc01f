import DocStore.Proofs.Json.Data
import DocStore.Proofs.Storage.Fault
/-!
The legacy file is split into the files of its collections, and removed when all are written: what a
migration leaves that ended well, and what one leaves that failed.
-/

namespace DocStore

open CollectionName (Visible fileName)

/-! ## What the legacy file holds -/

/-- Entries that are all read as lists. -/
theorem lists_of_mapM {step : String × Value → Result (String × List Value)}
    (only : ∀ e x, step e = .ok x → e = (x.1, .list x.2)) {es : Document}
    {legacy : Table (List Value)} (h : es.mapM step = .ok legacy) :
    es = legacy.map fun e => (e.1, .list e.2) := by
  induction es generalizing legacy with
  | nil =>
    cases h
    rfl
  | cons e rest ih =>
    rw [List.mapM_cons] at h
    cases one : step e with
    | error f =>
      rw [one] at h
      cases h
    | ok x =>
      cases read : rest.mapM step with
      | error f =>
        rw [one, read] at h
        cases h
      | ok later =>
        rw [one, read] at h
        cases h
        rw [only e x one, ih read]
        rfl

theorem readLegacy_parse {path text : String} {legacy : Table (List Value)}
    (h : readLegacy path text = .ok legacy) :
    Json.parse text.toList = .ok (.object (legacy.map fun e => (e.1, .list e.2))) := by
  cases parsed : Json.parse text.toList with
  | error e =>
    rw [readLegacy, parsed] at h
    cases h
  | ok v =>
    rw [readLegacy, parsed] at h
    cases v with
    | object es =>
      rw [lists_of_mapM (fun e x read => ?_) h]
      obtain ⟨name, v⟩ := e
      cases v with
      | list docs =>
        cases read
        rfl
      | _ => cases read
    | _ => cases h

/-- Its collections have different names, and their documents are as they would be read again. -/
theorem readLegacy_settled {path text : String} {legacy : Table (List Value)}
    (h : readLegacy path text = .ok legacy) :
    (legacy.map (·.1)).Nodup ∧ ∀ e ∈ legacy, e.2.map Value.jsonForm = e.2 := by
  have settled := Value.settled_of_form (Json.parse_form (readLegacy_parse h))
  refine ⟨?_, fun e he => ?_⟩
  · have distinct := settled.distinct
    rwa [Document.keys, List.map_map] at distinct
  · have form := settled.forms (e.1, .list e.2) (List.mem_map.mpr ⟨e, he, rfl⟩)
    rw [Value.jsonForm, Value.jsonForms_eq_map] at form
    exact Value.list.inj form

namespace Directory

/-- There is a legacy file; it holds collections under names that they can be given. -/
structure HasLegacy (d : Directory) (text : String) (legacy : Table (List Value)) : Prop where
  there : d.entry? legacyFile = some (.text text)
  holds : ∀ path, readLegacy path text = .ok legacy
  accepted : ∀ name ∈ Table.names legacy, CollectionName.check (.string name) = .ok name

variable {text name : String} {legacy : Table (List Value)} {d : Directory}

theorem HasLegacy.visible (h : d.HasLegacy text legacy) {docs : List Value}
    (held : legacy.lookup name = some docs) : Visible name :=
  CollectionName.visible_of_check
    (h.accepted name (Table.has_iff.mp (Option.isSome_iff_exists.mpr ⟨docs, held⟩)))

theorem HasLegacy.form (h : d.HasLegacy text legacy) {docs : List Value}
    (held : legacy.lookup name = some docs) : docs.map Value.jsonForm = docs :=
  (readLegacy_settled (h.holds "")).2 (name, docs) (Table.mem_of_lookup held)

end Directory

namespace Load

open Writer (Answers serve)

variable {i : Nat} {w w' : World} {server : Task.Server World Request Unit}
  {legacy : Table (List Value)} {existing : List String} {text : String}

/-! ## Taking collections over -/

/-- The collections that have no entry of their own come into memory and count as changed. -/
structure Taking (existing : List String) (legacy : Table (List Value)) (m m' : Memory) : Prop where
  held : ∀ name, m'.collections.lookup name =
    if name ∈ existing then m.collections.lookup name
    else (legacy.lookup name).or (m.collections.lookup name)
  dirty : ∀ v, v ∈ m'.dirty ↔ v ∈ m.dirty ∨
    ∃ name ∈ Table.names legacy, name ∉ existing ∧ v = .string name

section Taking

variable {name : String} {docs : List Value} {m m' : Memory}

theorem Taking.skip (h : Taking existing legacy m m') (known : name ∈ existing) :
    Taking existing ((name, docs) :: legacy) m m' := by
  refine ⟨fun other => ?_, fun v => ?_⟩
  · rw [h.held, List.lookup_cons]
    split
    · rfl
    · next new =>
      have apart : other ≠ name := fun same => new (same ▸ known)
      rw [beq_false_of_ne apart]
  · rw [h.dirty]
    simp [Table.names, known]

theorem Taking.take (texts : ∀ x ∈ m.dirty, ∃ c, x = .string c) (new : name ∉ existing)
    (alone : legacy.lookup name = none)
    (h : Taking existing legacy ((m.setDocuments name docs).markDirty (.string name)) m') :
    Taking existing ((name, docs) :: legacy) m m' := by
  refine ⟨fun other => ?_, fun v => ?_⟩
  · rw [h.held, List.lookup_cons, Memory.markDirty_collections, Memory.setDocuments_collections,
      Table.lookup_put]
    by_cases same : other = name
    · subst same
      simp [new, alone]
    · simp [same, beq_false_of_ne same]
  · rw [h.dirty, Memory.mem_markDirty (m := m.setDocuments name docs) texts]
    simp [Table.names, new, or_assoc, Memory.setDocuments]

end Taking

theorem run_takeOver (existing : List String) (here : i < w.stores.length)
    (texts : ∀ x ∈ (w.store i).memory.dirty, ∃ c, x = .string c)
    (distinct : (legacy.map (·.1)).Nodup)
    (accepted : ∀ name ∈ Table.names legacy, CollectionName.check (.string name) = .ok name) :
    ∃ w' names m, (takeOver i existing legacy).run serve w = (w', .ok names) ∧
      w.Becomes i { w.store i with memory := m } w' ∧
      Taking existing legacy (w.store i).memory m := by
  induction legacy generalizing w with
  | nil =>
    refine ⟨w, [], (w.store i).memory, rfl, (World.Agrees.refl w).becomes i, fun name => ?_, ?_⟩
    · exact (ite_self _).symm
    · simp [Table.names]
  | cons e rest ih =>
    obtain ⟨name, docs⟩ := e
    obtain ⟨fresh, distinct⟩ := List.nodup_cons.mp distinct
    have alone : rest.lookup name = none := Table.lookup_eq_none_iff.mpr fresh
    have checked := accepted name (by simp [Table.names])
    have accepted := fun other h => accepted other (List.mem_cons_of_mem name h)
    by_cases known : name ∈ existing
    · let v := w.log .warning Writer.component "legacy_collection_skipped"
        [("collection", .string name)]
      have start : (takeOver i existing ((name, docs) :: rest)).run serve w =
          (takeOver i existing rest).run serve v := by
        rw [takeOver, checked, Task.ofResult]
        show (if existing.contains name = true then _ else _ : Op (List String)).run serve w = _
        rw [if_pos (List.contains_iff_mem.mpr known)]
        rfl
      have agrees : w.Agrees v := w.agrees_log ..
      have same := agrees.store i
      obtain ⟨w', names, m, ran, becomes, taking⟩ :=
        ih (w := v) (agrees.stores ▸ here) (by rw [same]; exact texts) distinct accepted
      rw [same] at becomes taking
      exact ⟨w', names, m, start.trans ran, (agrees.becomes i).trans becomes, taking.skip known⟩
    · let m := ((w.store i).memory.setDocuments name docs).markDirty (.string name)
      let u := w.setStore i
        { w.store i with memory := (w.store i).memory.setDocuments name docs }
      let v := u.setStore i
        { u.store i with memory := (u.store i).memory.markDirty (.string name) }
      have start : (takeOver i existing ((name, docs) :: rest)).run serve w =
          (takeOver i existing rest >>= fun names => pure (name :: names)).run serve v := by
        rw [takeOver, checked, Task.ofResult]
        show (if existing.contains name = true then _ else _ : Op (List String)).run serve w = _
        rw [if_neg (mt List.contains_iff_mem.mp known)]
        rfl
      have middle : u.store i =
          { w.store i with memory := (w.store i).memory.setDocuments name docs } :=
        World.store_of_stores here rfl
      have becomes : w.Becomes i { w.store i with memory := m } v := by
        have last : v = u.setStore i { w.store i with memory := m } := by
          simp only [v, middle, m]
        rw [last]
        exact (World.Becomes.set i w _).trans (World.Becomes.set i u _)
      have same := becomes.store here
      obtain ⟨w', names, m', ran, becomes', taking⟩ :=
        ih (w := v) (becomes.length ▸ here) (by
          rw [same]
          intro x hx
          exact ((Memory.mem_markDirty (m := (w.store i).memory.setDocuments name docs) texts
            name).mp hx).elim (texts x) fun named => ⟨name, named⟩) distinct accepted
      rw [same] at becomes' taking
      refine ⟨w', name :: names, m', ?_, becomes.trans becomes', taking.take texts known alone⟩
      rw [start, Task.run_bind, ran]
      rfl

theorem works_takeOver (i : Nat) (existing : List String) (legacy : Table (List Value)) :
    Op.Works (takeOver i existing legacy) := by
  induction legacy with
  | nil => exact trivial
  | cons e rest ih =>
    refine Op.works_bind trivial fun _ => ?_
    split
    · exact Op.works_bind (fun _ => trivial) fun _ => ih
    · refine Op.works_bind (fun _ => trivial) fun _ => ?_
      refine Op.works_bind (fun _ => trivial) fun _ => ?_
      exact Op.works_bind ih fun _ => trivial

theorem works_lookAt {α : Type} (look : Directory → α) : Op.Works (lookAt look) := by
  refine ⟨rfl, fun answer => ?_⟩
  cases answer with
  | ok a => exact fun _ => trivial
  | error e => trivial

theorem works_removeLegacy : Op.Works removeLegacy := by
  refine Op.works_bind ⟨rfl, fun _ => trivial⟩ fun _ => ?_
  refine Op.works_bind (fun _ => trivial) fun w => ?_
  exact Op.works_bind trivial fun d => fun _ => trivial

/-! ## The migration -/

open Writer (Pending)

/-- What a migration that ended well leaves. -/
structure Migrated (i : Nat) (legacy : Table (List Value)) (w w' : World) : Prop where
  here : i < w'.stores.length
  gone : w'.directory.entry? Directory.legacyFile = none
  written : ∀ name docs, legacy.lookup name = some docs → name ∉ w.directory.listed →
    ∃ text, fileText (w.store i).indent docs = .ok text ∧
      w'.directory.entry? (fileName name) = some (.text text)
  kept : ∀ file, file ≠ Directory.legacyFile →
    (∀ name, name ∈ Table.names legacy → name ∉ w.directory.listed → fileName name ≠ file) →
    w'.directory.entry? file = w.directory.entry? file
  held : ∀ name, (w'.store i).memory.collections.lookup name =
    if name ∈ w.directory.listed then none else legacy.lookup name
  clean : (w'.store i).memory.dirty = []
  indent : (w'.store i).indent = (w.store i).indent

/-- What a migration that failed leaves. -/
structure Halted (i : Nat) (legacy : Table (List Value)) (w w' : World) : Prop where
  there : w'.directory.entry? Directory.legacyFile = w.directory.entry? Directory.legacyFile
  entry : ∀ file, file.toList.head? ≠ some '.' →
    w'.directory.entry? file = w.directory.entry? file ∨ ∃ name docs text,
      legacy.lookup name = some docs ∧ name ∉ w.directory.listed ∧ fileName name = file ∧
        fileText (w.store i).indent docs = .ok text ∧ w'.directory.entry? file = some (.text text)

theorem Taking.pending {m : Memory} (h : Taking existing legacy {} m) {file : String}
    {docs : List Value} : Pending m file docs ↔
      ∃ name, fileName name = file ∧ name ∉ existing ∧ legacy.lookup name = some docs := by
  have nothing (name : String) : (({} : Memory).collections.lookup name : Option (List Value)) = none :=
    rfl
  constructor
  · rintro ⟨name, named, changed, held⟩
    obtain none | ⟨other, -, new, same⟩ := (h.dirty _).mp changed
    · cases none
    · obtain rfl := Value.string.inj same
      rw [h.held, if_neg new, nothing, Option.or_none] at held
      exact ⟨name, named, new, held⟩
  · rintro ⟨name, named, new, held⟩
    refine ⟨name, named, (h.dirty _).mpr (.inr ⟨name, ?_, new, rfl⟩), ?_⟩
    · exact Table.has_iff.mp (Option.isSome_iff_exists.mpr ⟨docs, held⟩)
    · rw [h.held, if_neg new, nothing, Option.or_none, held]

/-- Up to its flush a migration takes the collections over. -/
theorem continues_migrate (answers : Answers i server) (here : i < w.stores.length)
    (fresh : (w.store i).memory = {}) (has : w.directory.HasLegacy text legacy) :
    ∃ w' m fields, w.Becomes i { w.store i with memory := m } w' ∧
      Taking w.directory.listed legacy {} m ∧
      Op.Continues server (migrate i) w (do
        Op.flush i
        removeLegacy
        Op.log .info Writer.component "legacy_store_migrated" fields) w' := by
  obtain ⟨distinct, -⟩ := readLegacy_settled (has.holds "")
  obtain ⟨w', names, m, took, becomes, taking⟩ := run_takeOver w.directory.listed here
    (by rw [fresh]; exact fun x none => by cases none) distinct has.accepted
  have read := Directory.read_eq_ok.mpr has.there
  rw [fresh] at taking
  refine ⟨w', m, [("path", .string (pathOf (w.store i) Directory.legacyFile)),
    ("collections", .list (names.map .string))], becomes, taking, ?_⟩
  refine (answers.continues (t := Op.store i) (fun _ => trivial) rfl).trans ?_
  refine (answers.continues (works_lookAt _) (a := .ok text) (by rw [← read]; rfl)).trans ?_
  refine (answers.continues (t := Task.ofResult _) trivial rfl).trans ?_
  refine (answers.continues (t := Task.ofResult _) trivial
    (congrArg (Prod.mk w) (has.holds _))).trans ?_
  refine (answers.continues (works_lookAt _) rfl).trans ?_
  exact answers.continues (works_takeOver i _ _) took

namespace Migrated

variable {name : String}

theorem unchanged (h : Migrated i legacy w w') (listed : name ∈ w.directory.listed) :
    w'.directory.entry? (fileName name) = w.directory.entry? (fileName name) := by
  have visible := (Directory.mem_listed.mp listed).2
  refine h.kept _ (fun own => visible.2 (CollectionName.fileName_inj own)) ?_
  exact fun other _ fresh same => fresh (CollectionName.fileName_inj same ▸ listed)

theorem reads (h : Migrated i legacy w w') (has : w.directory.HasLegacy text legacy)
    (number : (w.store i).indent.text? = none) {docs : List Value}
    (held : legacy.lookup name = some docs) (fresh : name ∉ w.directory.listed) :
    w'.directory.Reads name docs := by
  obtain ⟨text, made, there⟩ := h.written name docs held fresh
  refine ⟨text, Directory.read_eq_ok.mpr there, fun path => ?_⟩
  rw [readDocuments_fileText number made, has.form held]

/-- Only collections of the legacy file have come. -/
theorem unlisted (h : Migrated i legacy w w') (fresh : name ∉ w.directory.listed)
    (unknown : legacy.lookup name = none) : name ∉ w'.directory.listed := by
  rw [Directory.mem_listed] at fresh ⊢
  rintro ⟨there, visible⟩
  rw [h.kept _ fun own => visible.2 (CollectionName.fileName_inj own)] at there
  · exact fresh ⟨there, visible⟩
  · intro other among _ same
    rw [CollectionName.fileName_inj same] at among
    exact Table.lookup_eq_none_iff.mp unknown among

theorem arrays (h : Migrated i legacy w w') (has : w.directory.HasLegacy text legacy)
    (number : (w.store i).indent.text? = none)
    (arrays : ∀ name ∈ w.directory.listed, ∃ docs, w.directory.Reads name docs) :
    ∀ name ∈ w'.directory.listed, ∃ docs, w'.directory.Reads name docs := by
  intro name listed
  by_cases known : name ∈ w.directory.listed
  · obtain ⟨docs, reads⟩ := arrays name known
    exact ⟨docs, reads.congr (h.unchanged known)⟩
  · cases held : legacy.lookup name with
    | some docs => exact ⟨docs, h.reads has number held known⟩
    | none => exact absurd listed (h.unlisted known held)

/-- What is read then comes to what the legacy file adds to the files there were. -/
theorem stored (h : Migrated i legacy w w')
    (arrays : ∀ name ∈ w.directory.listed, ∃ docs, w.directory.Reads name docs) (name : String) :
    ((w'.store i).memory.collections.lookup name).or (w'.directory.stored? name) =
      (w.directory.stored? name).or (legacy.lookup name) := by
  rw [h.held]
  by_cases known : name ∈ w.directory.listed
  · obtain ⟨docs, reads⟩ := arrays name known
    have same := h.unchanged known
    have listed : name ∈ w'.directory.listed := by
      rw [Directory.mem_listed, same]
      exact Directory.mem_listed.mp known
    rw [if_pos known, Directory.stored?_eq_some.mpr ⟨known, reads⟩,
      Directory.stored?_eq_some.mpr ⟨listed, reads.congr same⟩]
    rfl
  · have unread : w.directory.stored? name = none := by rw [Directory.stored?, if_neg known]
    rw [if_neg known, unread, Option.none_or]
    cases held : legacy.lookup name with
    | some docs => rfl
    | none => rw [Directory.stored?, if_neg (h.unlisted known held), Option.or_none]

end Migrated

theorem Taking.unreserved {m : Memory} (h : Taking existing legacy {} m)
    (accepted : ∀ name ∈ Table.names legacy, CollectionName.check (.string name) = .ok name)
    (docs : List Value) : ¬Pending m Directory.legacyFile docs := by
  intro pending
  obtain ⟨name, named, -, held⟩ := h.pending.mp pending
  have checked := accepted name (Table.has_iff.mp (Option.isSome_iff_exists.mpr ⟨docs, held⟩))
  exact CollectionName.unreserved_of_check checked (CollectionName.fileName_inj named).symm

section Flush

variable {w₁ w₂ : World} {m : Memory}

theorem halted (here : i < w.stores.length) (has : w.directory.HasLegacy text legacy)
    (becomes : w.Becomes i { w.store i with memory := m } w₁)
    (taking : Taking w.directory.listed legacy {} m) (tries : Writer.Tried i w₁ w₂) :
    Halted i legacy w w₂ := by
  have store := becomes.store here
  have entry := tries.entry
  rw [store, becomes.directory] at entry
  refine ⟨?_, fun file shown => (entry file shown).imp_right ?_⟩
  · rcases entry Directory.legacyFile (by decide) with same | ⟨docs, -, pending, -⟩
    · exact same
    · exact absurd pending (taking.unreserved has.accepted docs)
  · rintro ⟨docs, text, pending, made, now⟩
    obtain ⟨name, named, new, held⟩ := taking.pending.mp pending
    exact ⟨name, docs, text, held, new, named, made, now⟩

/-- The flush has written all, and the legacy file is taken away. -/
theorem migrated {d : Directory} (here : i < w.stores.length)
    (has : w.directory.HasLegacy text legacy)
    (becomes : w.Becomes i { w.store i with memory := m } w₁)
    (taking : Taking w.directory.listed legacy {} m) (tries : Writer.Tried i w₁ w₂)
    (writes : Writer.Flushes (w.store i).indent m w.directory (w₂.store i).memory w₂.directory)
    (taken : w₂.directory.takeFile Directory.legacyFile = .ok d) (fields : Document) :
    Migrated i legacy w
      (({ w₂ with directory := d } : World).log .info Writer.component "legacy_store_migrated"
        fields) := by
  have entry (file : String) : d.entry? file =
      if file = Directory.legacyFile then none else w₂.directory.entry? file :=
    Directory.entry?_takeFile taken file
  obtain ⟨m', line, -, stores⟩ := tries.stores
  refine ⟨?_, (entry _).trans (if_pos rfl), fun name docs held new => ?_, fun file other unheld => ?_,
    fun name => ?_, writes.clean, ?_⟩
  · show i < w₂.stores.length
    rw [stores, List.length_set, becomes.length]
    exact here
  · obtain ⟨text, made, now⟩ :=
      writes.written _ docs (taking.pending.mpr ⟨name, rfl, new, held⟩)
    have checked := has.accepted name (Table.has_iff.mp (Option.isSome_iff_exists.mpr ⟨docs, held⟩))
    refine ⟨text, made, (entry _).trans ((if_neg fun own => ?_).trans now)⟩
    exact CollectionName.unreserved_of_check checked (CollectionName.fileName_inj own).symm
  · refine (entry file).trans ((if_neg other).trans (writes.kept file fun docs pending => ?_))
    obtain ⟨name, named, new, held⟩ := taking.pending.mp pending
    exact unheld name (Table.has_iff.mp (Option.isSome_iff_exists.mpr ⟨docs, held⟩)) new named
  · show (w₂.store i).memory.collections.lookup name = _
    rw [writes.collections, taking.held]
    split
    · rfl
    · exact Option.or_none
  · show (w₂.store i).indent = _
    rw [World.store_of_stores (becomes.length.symm ▸ here) stores, becomes.store here]

end Flush

/-- A migration is granted if and only if it ends well. -/
theorem run_migrate (answers : Answers i server) (here : i < w.stores.length)
    (fresh : (w.store i).memory = {}) (has : w.directory.HasLegacy text legacy) :
    ((migrate i).Granted server w ∧
        ∃ w', (migrate i).run server w = (w', .ok ()) ∧ Migrated i legacy w w') ∨
      ¬(migrate i).Granted server w ∧
        ∃ w' e, (migrate i).run server w = (w', .error e) ∧ Halted i legacy w w' := by
  obtain ⟨w₁, m, fields, becomes, taking, start⟩ := continues_migrate answers here fresh has
  have store := becomes.store here
  have there : i < w₁.stores.length := becomes.length.symm ▸ here
  have texts : ∀ x ∈ (w₁.store i).memory.dirty, ∃ c, x = .string c := by
    rw [store]
    intro x hx
    obtain none | ⟨name, -, -, rfl⟩ := (taking.dirty x).mp hx
    · cases none
    · exact ⟨name, rfl⟩
  obtain ⟨w₂, r, flushed, granted, tries, writes⟩ :=
    Writer.run_flush_answered answers there texts
  rw [start.run, start.granted]
  cases r with
  | error e =>
    refine .inr ⟨?_, w₂, e, ?_, halted here has becomes taking tries⟩
    · rw [Task.granted_bind, granted]
      exact fun h => by cases h.1
    · rw [Task.run_bind, flushed]
  | ok _ =>
    have writes := writes rfl
    rw [store, becomes.directory] at writes
    obtain ⟨d, taken⟩ : ∃ d, w₂.directory.takeFile Directory.legacyFile = .ok d := by
      rw [Directory.takeFile, writes.kept _ (taking.unreserved has.accepted), has.there]
      exact ⟨_, rfl⟩
    have removed : removeLegacy.run serve w₂ = ({ w₂ with directory := d }, .ok ()) := by
      have work : (Task.await .work : Op Unit).run serve w₂ = (w₂, .ok ()) := rfl
      have got : (Task.get : Op World).run serve w₂ = (w₂, .ok w₂) := rfl
      rw [removeLegacy, Task.run_bind_ok work, Task.run_bind_ok got, taken]
      rfl
    have ends := (Op.continues_bind (f := fun _ => do
      removeLegacy
      Op.log .info Writer.component "legacy_store_migrated" fields) flushed (granted.mpr rfl)).trans
      (answers.continues works_removeLegacy removed)
    refine .inl ⟨ends.granted.mpr trivial, _, ends.run, ?_⟩
    exact migrated here has becomes taking tries writes taken fields

/-! ## The load after it -/

/-- Reads the collections that are listed, and writes those whose files led nowhere. -/
def readListed (i : Nat) : Op Unit := do
  let missing ← readCollections i (← lookAt Directory.listed)
  if !missing.isEmpty then
    Op.log .warning Writer.component "collection_files_missing"
      [("collections", .list (missing.map .string))]
    let _ ← Task.each missing (markDirty i)
    Op.flush i
  reportLoaded i

/-- Where there is a legacy file a load begins with the migration. -/
theorem continues_run (answers : Answers i server)
    (there : w.directory.entry? Directory.legacyFile = some (.text text)) :
    Op.Continues server (run i) w (migrate i >>= fun _ => readListed i) w := by
  have made : w.directory.ensure = w.directory := by
    cases files : w.directory with
    | none =>
      rw [files] at there
      cases there
    | some entries => rfl
  have file : w.directory.isFile Directory.legacyFile = true := by
    rw [Directory.isFile, there]
  have ensured : (Task.modify fun w => { w with directory := w.directory.ensure } : Op Unit).run
      serve w = (w, .ok ()) := by
    show ({ w with directory := w.directory.ensure }, Except.ok ()) = _
    rw [made]
  have modifies : Op.Works
      (Task.modify fun w => { w with directory := w.directory.ensure }) := fun _ => trivial
  refine (answers.continues modifies ensured).trans ?_
  refine (answers.continues (t := Task.await .work) ⟨rfl, fun _ => trivial⟩ rfl).trans ?_
  exact answers.continues (works_lookAt _) (a := true) (by rw [← file]; rfl)

theorem works_readCollection (i : Nat) (name : String) : Op.Works (readCollection i name) := by
  refine Op.works_bind (works_lookAt _) fun read => ?_
  cases read with
  | ok text =>
    refine Op.works_bind (fun _ => trivial) fun s => ?_
    refine Op.works_bind trivial fun docs => ?_
    exact Op.works_bind (fun _ => trivial) fun _ => trivial
  | error f =>
    cases f with
    | fileNotFound => exact Op.works_bind (fun _ => trivial) fun _ => trivial
    | _ => exact trivial

theorem works_readCollections (i : Nat) (names : List String) :
    Op.Works (readCollections i names) := by
  induction names with
  | nil => exact trivial
  | cons name rest ih =>
    refine Op.works_bind (fun _ => trivial) fun s => ?_
    split
    · exact ih
    · refine Op.works_bind (works_readCollection i name) fun missing => ?_
      exact Op.works_bind ih fun later => trivial

/-- Where all that is listed can be read, memory has got what is stored. -/
theorem run_readListed (answers : Answers i server) (here : i < w.stores.length)
    (reads : ∀ name ∈ w.directory.listed, ∃ docs, w.directory.Reads name docs) :
    (readListed i).Granted server w ∧ ∃ w', (readListed i).run server w = (w', .ok ()) ∧
      w'.directory = w.directory ∧ ∀ name, (w'.store i).memory.collections.lookup name =
        ((w.store i).memory.collections.lookup name).or (w.directory.stored? name) := by
  obtain ⟨m, ran, -, holds⟩ := run_readCollections here reads
  have goes : Op.Continues server (readListed i) w (reportLoaded i)
      (w.setStore i { w.store i with memory := m }) := by
    refine (answers.continues (works_lookAt Directory.listed) rfl).trans ?_
    exact answers.continues (works_readCollections i w.directory.listed) ran
  refine ⟨goes.granted.mpr trivial, _, goes.run, rfl, fun name => ?_⟩
  have same : (w.setStore i { w.store i with memory := m }).store i =
      { w.store i with memory := m } := World.store_of_stores here rfl
  show (((w.setStore i { w.store i with memory := m }).store i).memory.collections.lookup name) = _
  rw [same]
  ext docs
  show m.collections.lookup name = some docs ↔ _
  rw [holds]
  cases (w.store i).memory.collections.lookup name with
  | some old => simp
  | none => simp [Directory.stored?_eq_some]

end Load

end DocStore
