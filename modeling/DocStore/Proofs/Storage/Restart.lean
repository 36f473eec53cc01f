import DocStore.Proofs.Storage.Migration
/-!
A migration that is cut short leaves the legacy file, and the next load goes on from what was written.
-/

namespace DocStore

open CollectionName (Visible fileName)

namespace Directory

/-- A directory as an interrupted migration leaves it: some collections of the legacy file that had no
file of their own have one. Hidden files may have been left. -/
structure Interrupted (legacy : Table (List Value)) (early : Set String) (d d' : Directory) :
    Prop where
  written : ∀ name ∈ early, name ∉ d.listed ∧ ∃ docs indent text,
    legacy.lookup name = some docs ∧ indent.text? = none ∧ fileText indent docs = .ok text ∧
      d'.entry? (fileName name) = some (.text text)
  kept : ∀ file, file.toList.head? ≠ some '.' → (∀ name ∈ early, fileName name ≠ file) →
    d'.entry? file = d.entry? file

variable {text name : String} {legacy : Table (List Value)} {early : Set String} {d d' : Directory}

namespace Interrupted

theorem entry (h : Interrupted legacy early d d') (visible : Visible name) (other : name ∉ early) :
    d'.entry? (fileName name) = d.entry? (fileName name) := by
  refine h.kept _ visible.1 fun another among same => other ?_
  rwa [← CollectionName.fileName_inj same]

theorem hasLegacy (h : Interrupted legacy early d d') (has : d.HasLegacy text legacy) :
    d'.HasLegacy text legacy := by
  refine ⟨(h.kept _ (by decide) fun name among same => ?_).trans has.there, has.holds, has.accepted⟩
  obtain ⟨-, docs, -, -, held, -⟩ := h.written name among
  exact (has.visible held).2 (CollectionName.fileName_inj same)

/-- A collection that was written is read as the legacy file has it. -/
theorem reads (h : Interrupted legacy early d d') (has : d.HasLegacy text legacy)
    (among : name ∈ early) :
    name ∈ d'.listed ∧ ∃ docs, legacy.lookup name = some docs ∧ d'.Reads name docs := by
  obtain ⟨-, docs, indent, text, held, number, made, there⟩ := h.written name among
  refine ⟨mem_listed.mpr ⟨by rw [there]; rfl, has.visible held⟩, docs, held, text,
    read_eq_ok.mpr there, fun path => ?_⟩
  rw [readDocuments_fileText number made, has.form held]

theorem mem_listed (h : Interrupted legacy early d d') (has : d.HasLegacy text legacy) :
    name ∈ d'.listed ↔ name ∈ d.listed ∨ name ∈ early := by
  by_cases among : name ∈ early
  · exact iff_of_true (h.reads has among).1 (.inr among)
  · rw [or_iff_left among, Directory.mem_listed, Directory.mem_listed]
    exact and_congr_left fun visible => by rw [h.entry visible among]

theorem arrays (h : Interrupted legacy early d d') (has : d.HasLegacy text legacy)
    (arrays : ∀ name ∈ d.listed, ∃ docs, d.Reads name docs) :
    ∀ name ∈ d'.listed, ∃ docs, d'.Reads name docs := by
  intro name listed
  by_cases among : name ∈ early
  · obtain ⟨-, docs, -, reads⟩ := h.reads has among
    exact ⟨docs, reads⟩
  · obtain ⟨docs, reads⟩ := arrays name (((h.mem_listed has).mp listed).resolve_right among)
    exact ⟨docs, reads.congr (h.entry (Directory.mem_listed.mp listed).2 among)⟩

theorem stored (h : Interrupted legacy early d d') (has : d.HasLegacy text legacy) (name : String) :
    (d'.stored? name).or (legacy.lookup name) = (d.stored? name).or (legacy.lookup name) := by
  by_cases among : name ∈ early
  · obtain ⟨listed, docs, held, reads⟩ := h.reads has among
    have unlisted : d.stored? name = none := by
      rw [stored?, if_neg (h.written name among).1]
    rw [stored?_eq_some.mpr ⟨listed, reads⟩, unlisted, held]
    rfl
  · congr 1
    ext docs
    rw [stored?_eq_some, stored?_eq_some, h.mem_listed has, or_iff_left among]
    refine and_congr_right fun listed => ?_
    have same := h.entry (Directory.mem_listed.mp listed).2 among
    exact ⟨fun h => h.congr same.symm, fun h => h.congr same⟩

end Interrupted

end Directory

namespace Load

open Writer (Answers serve)

variable {i : Nat} {w w' : World} {server : Task.Server World Request Unit}
  {legacy : Table (List Value)} {text : String} {early : Set String} {d d' : Directory}

theorem Halted.interrupted (h : Halted i legacy w w') (has : d.HasLegacy text legacy)
    (number : (w.store i).indent.text? = none)
    (begun : d.Interrupted legacy early w.directory) :
    ∃ later, early ⊆ later ∧ d.Interrupted legacy later w'.directory := by
  have listed {name : String} : name ∈ w.directory.listed ↔ name ∈ d.listed ∨ name ∈ early :=
    begun.mem_listed has
  let new : Set String := {name | name ∉ w.directory.listed ∧ ∃ docs text,
    legacy.lookup name = some docs ∧ fileText (w.store i).indent docs = .ok text ∧
      w'.directory.entry? (fileName name) = some (.text text)}
  refine ⟨early ∪ new, Set.subset_union_left, fun name among => ?_, fun file shown others => ?_⟩
  · rcases among with among | ⟨unlisted, docs, text, held, made, there⟩
    · obtain ⟨unlisted, docs, indent, text, held, number, made, there⟩ := begun.written name among
      refine ⟨unlisted, docs, indent, text, held, number, made, ?_⟩
      rcases h.entry _ (has.visible held).1 with same | ⟨other, -, -, -, fresh, named, -⟩
      · rw [same, there]
      · obtain rfl := CollectionName.fileName_inj named
        exact absurd (listed.mpr (.inr among)) fresh
    · exact ⟨fun old => unlisted (listed.mpr (.inl old)), docs, _, text, held, number, made, there⟩
  · rcases h.entry file shown with same | ⟨name, docs, text, held, fresh, named, made, there⟩
    · rw [same]
      exact begun.kept file shown fun name among => others name (.inl among)
    · refine absurd named (others name (.inr ⟨fresh, docs, text, held, made, ?_⟩))
      rw [named, there]

/-- A new store loads a directory with a legacy file in which an interrupted migration has written some
of the collections. When all is granted, the legacy file is gone in the end, what was listed is as it
was, every other collection is in a file of its own, and memory is the same whatever was written
before. When a write fails, the load fails, and the legacy file is there for the next one. -/
theorem migration_restarts (has : d.HasLegacy text legacy)
    (arrays : ∀ name ∈ d.listed, ∃ docs, d.Reads name docs)
    (begun : d.Interrupted legacy early d') (answers : Answers i server)
    (here : i < w.stores.length) (fresh : (w.store i).memory = {})
    (number : (w.store i).indent.text? = none) (files : w.directory = d') :
    ((run i).Granted server w → ∃ w', (run i).run server w = (w', .ok ()) ∧
      w'.directory.entry? Directory.legacyFile = none ∧
      (∀ name ∈ d'.listed, w'.directory.entry? (fileName name) = d'.entry? (fileName name)) ∧
      (∀ name docs, legacy.lookup name = some docs → name ∉ d.listed →
        w'.directory.Reads name docs) ∧
      ∀ name, (w'.store i).memory.collections.lookup name =
        (d.stored? name).or (legacy.lookup name)) ∧
    (¬(run i).Granted server w → ∃ w' e, (run i).run server w = (w', .error e) ∧
      w'.directory.entry? Directory.legacyFile = some (.text text) ∧
      ∃ later, early ⊆ later ∧ d.Interrupted legacy later w'.directory) := by
  subst files
  have own := begun.hasLegacy has
  have start := continues_run answers own.there
  rw [start.run, start.granted]
  rcases run_migrate answers here fresh own with
    ⟨granted, w₁, ran, migrated⟩ | ⟨refused, w₁, e, ran, halted⟩
  · have next := Op.continues_bind (f := fun _ => readListed i) ran granted
    have whole := begun.arrays has arrays
    obtain ⟨granted', w₂, ran', directory, holds⟩ :=
      run_readListed answers migrated.here (migrated.arrays own number whole)
    refine ⟨fun _ => ⟨w₂, next.run.trans ran', ?_⟩,
      fun refused => absurd (next.granted.mpr granted') refused⟩
    rw [directory]
    refine ⟨migrated.gone, fun name listed => migrated.unchanged listed, fun name docs held fresh => ?_,
      fun name => ?_⟩
    · by_cases among : name ∈ early
      · obtain ⟨listed, docs', held', reads⟩ := begun.reads has among
        obtain rfl := Option.some.inj (held.symm.trans held')
        exact reads.congr (migrated.unchanged listed)
      · refine migrated.reads own number held fun listed => ?_
        exact ((begun.mem_listed has).mp listed).elim fresh among
    · rw [holds, migrated.stored whole, begun.stored has]
  · refine ⟨fun granted => absurd (Task.granted_bind.mp granted).1 refused, fun _ => ?_⟩
    refine ⟨w₁, e, by rw [Task.run_bind, ran], halted.there.trans own.there, ?_⟩
    exact halted.interrupted has number begun

/-! ## A migration that was cut short after one of its files -/

/-- Fails each flush that has something to write before its first file. -/
def refusing (i : Nat) : Task.Server World Request Unit
  | .serve _ _ .flush, w =>
    match (w.store i).memory.dirty.isEmpty, Writer.startFlush i w with
    | false, .ok (files, w') => Writer.abandonFlush i files.names .system w'
    | _, _ => (Writer.flush i).run Writer.grant w
  | _, w => (w, .ok ())

theorem answers_refusing (i : Nat) : Answers i (refusing i) := by
  refine ⟨fun _ => rfl, fun line w => ?_⟩
  simp only [refusing]
  split
  · next changed started => exact .broken .system changed started .start
  · exact .whole

/-- Two collections in one file. -/
def archive : Table (List Value) := [("users", [.object [("id", .string "a")]]), ("posts", [])]

def archiveText : String := "\x7b\"users\": [\x7b\"id\": \"a\"\x7d], \"posts\": []\x7d"

/-- The legacy file is next to the file of another collection. -/
def mixed : Directory := some [("protodb.json", .text archiveText), ("tags.json", .text "[]\n")]

/-- One of the collections was written before the migration was cut short. -/
def cutShort : World where
  directory := mixed.put "users.json" (.text "[\x7b\"id\": \"a\"\x7d]\n")
  source := ⟨0, 0, 0⟩
  stores := [{ path := "data", indent := .int 2 }]

theorem archive_held (path : String) : readLegacy path archiveText = .ok archive := by
  have text : Json.write (fileStyle none) 1 (.object (archive.map fun e => (e.1, .list e.2))) =
      .ok archiveText.toList := rfl
  have readable : Json.Readable (fileStyle none) := readable_fileStyle (v := .null) rfl rfl
  have blank : Json.IsBlank [] := fun c inside => by cases inside
  have parsed := Json.parse_written readable text blank
  rw [List.append_nil] at parsed
  rw [readLegacy, parsed]
  rfl

theorem archive_accepted :
    ∀ name ∈ Table.names archive, CollectionName.check (.string name) = .ok name := by
  simp only [archive, Table.names, List.map_cons, List.map_nil, List.forall_mem_cons]
  exact ⟨rfl, rfl, fun name none => by cases none⟩

theorem mixed_hasLegacy : mixed.HasLegacy archiveText archive :=
  ⟨rfl, archive_held, archive_accepted⟩

theorem mixed_interrupted : mixed.Interrupted archive {"users"} cutShort.directory := by
  have listed : mixed.listed = ["tags"] := by decide +kernel
  refine ⟨fun name among => ?_, fun file _ others => ?_⟩
  · obtain rfl := Set.mem_singleton_iff.mp among
    refine ⟨by rw [listed]; decide, _, .null, _, rfl, rfl, rfl, ?_⟩
    rfl
  · refine (Directory.entry?_put mixed "users.json" file _).trans (if_neg fun same => ?_)
    exact others "users" rfl same.symm

/-- The next load goes on, unless its writes fail too. -/
theorem cutShort_restarts :
    (∃ w', (run 0).run serve cutShort = (w', .ok ()) ∧
      w'.directory.entry? "protodb.json" = none ∧ w'.directory.Reads "posts" [] ∧
      (w'.store 0).memory.collections.lookup "users" =
        some [.object [("id", .string "a")]]) ∧
    ∃ w' e, (run 0).run (refusing 0) cutShort = (w', .error e) ∧
      w'.directory.entry? "protodb.json" = some (.text archiveText) := by
  have listed : mixed.listed = ["tags"] := by decide +kernel
  have arrays : ∀ name ∈ mixed.listed, ∃ docs, mixed.Reads name docs := by
    rw [listed]
    simp only [List.forall_mem_cons]
    exact ⟨⟨[], "[]\n", rfl, fun path => rfl⟩, fun name none => by cases none⟩
  constructor
  · obtain ⟨ends, -⟩ := migration_restarts mixed_hasLegacy arrays mixed_interrupted
      (Writer.answers_serve 0) (w := cutShort) (by decide) rfl rfl rfl
    obtain ⟨w', ran, gone, -, written, held⟩ := ends (by decide +kernel)
    refine ⟨w', ran, gone, written "posts" [] rfl (by rw [listed]; decide), ?_⟩
    rw [held, Directory.stored?, if_neg (by rw [listed]; decide)]
    rfl
  · obtain ⟨-, fails⟩ := migration_restarts mixed_hasLegacy arrays mixed_interrupted
      (answers_refusing 0) (w := cutShort) (by decide) rfl rfl rfl
    obtain ⟨w', e, ran, there, -⟩ := fails (by decide +kernel)
    exact ⟨w', e, ran, there⟩

end Load

end DocStore
