import DocStore.Proofs.Database.Steady
import DocStore.Proofs.Model.History
import DocStore.Proofs.Store.Uniqueness
/-!
Stores under a rule, which names the unique fields of each collection. As long as every schema that a
collection is opened with has the unique fields that the rule names, no two documents hold one value in
them, whatever is written, and whichever of those schemas the indexes are built for.
-/

namespace DocStore

open Value (IsDocument IsData)

/-- The unique fields of a schema are those that a rule names for a collection. -/
structure Schema.Follows (unique : String → String → Prop) (c : String) (schema : Schema) : Prop where
  names : (Table.names schema).Nodup
  fields : ∀ field, schema.Unique field ↔ unique c field

/-- Documents of data that a collection can hold under a rule: no two hold one value in a unique field. -/
structure Ruled (unique : String → String → Prop) (c : String) (docs : List Value) : Prop where
  valid : Picture.Valid c docs
  apart : ∀ field, unique c field →
    ∀ d ∈ docs, ∀ e ∈ docs, d.under "id" ≠ e.under "id" → ¬d.Clash field e

namespace Ruled

variable {unique : String → String → Prop} {c : String} {docs : List Value} {schema : Schema}

theorem nil (named : CollectionName.check (.string c) = .ok c) : Ruled unique c [] :=
  ⟨⟨named, ⟨by simp, List.nodup_nil⟩, by simp⟩, by simp⟩

/-- Documents under a rule differ in the unique fields of a schema that follows it. -/
theorem distinct (h : Ruled unique c docs) (follows : schema.Follows unique c) : Distinct schema docs :=
  fun field marked => h.apart field ((follows.fields field).mp marked)

/-- No two documents, in whatever places, hold one value in a unique field. -/
theorem pairwise (h : Ruled unique c docs) {field : String} (marked : unique c field) :
    docs.Pairwise fun d e => ¬d.Clash field e :=
  (List.pairwise_map.mp h.valid.kept.distinct).imp_of_mem fun hd he other =>
    h.apart field marked _ hd _ he other

end Ruled

/-! ## Stores -/

namespace Store

/-- A collection that can be written to has indexes. -/
def Watches (c : String) (s : Store) : Prop :=
  s.connected = true → s.memory.holds (.string c) = true → s.indexes.ofCollection (.string c) ≠ []

/-- A store under a rule: its documents are, and the indexes of a collection that has any are exact and
those of a schema that follows the rule. -/
structure Ruled (unique : String → String → Prop) (s : Store) : Prop where
  indent : s.indent.text? = none
  texts : ∀ v ∈ s.memory.dirty, ∃ c, v = .string c
  docs : ∀ c docs, s.memory.collections.lookup c = some docs → DocStore.Ruled unique c docs
  guarded : ∀ c, s.connected = true → s.indexes.ofCollection (.string c) ≠ [] →
    ∃ schema : Schema, schema.Follows unique c ∧ s.Guarded c schema

variable {unique : String → String → Prop} {c : String} {s s' : Store} {op : Operation}

/-- What is held of a collection, if it is held. -/
theorem lookup_of_holds (held : s.memory.holds (.string c) = true) :
    s.memory.collections.lookup c = some (s.memory.documents (.string c)) := by
  rw [Memory.holds_string] at held
  obtain ⟨docs, found⟩ := Option.isSome_iff_exists.mp held
  rw [Memory.documents_string, found]
  rfl

theorem Ruled.documents (h : s.Ruled unique) (held : s.memory.holds (.string c) = true) :
    DocStore.Ruled unique c (s.memory.documents (.string c)) :=
  h.docs c _ (lookup_of_holds held)

/-- A collection that is made is under the rule, whether or not it was held. -/
theorem Ruled.made (h : s.Ruled unique) {m : Memory} (created : s.memory.create (.string c) = .ok (m, c)) :
    DocStore.Ruled unique c (m.documents (.string c)) := by
  cases held : s.memory.holds (.string c) with
  | true =>
    cases (Memory.create_held held).symm.trans created
    exact h.documents held
  | false =>
    rw [Memory.create_fresh held] at created
    split at created
    · next checked =>
      cases created
      rw [Memory.documents_string, Memory.markDirty_collections, Memory.setDocuments_collections,
        Table.lookup_put, if_pos rfl]
      exact .nil (CollectionName.check_string checked ▸ checked)
    · cases created

theorem Watches.alike (h : s.Watches c) (same : Alike c s s') : s'.Watches c := by
  intro connected held
  rw [Memory.holds_string, Table.has, same.collection] at held
  rw [same.indexes]
  exact h (same.connected ▸ connected) held

/-- What is written, and what is reported about writing, does not count. -/
theorem Ruled.alike (h : s.Ruled unique) (same : ∀ c, Alike c s s') (indent : s'.indent = s.indent)
    (texts : ∀ v ∈ s'.memory.dirty, ∃ c, v = .string c) : s'.Ruled unique := by
  refine ⟨indent ▸ h.indent, texts, fun c docs held => ?_, fun c connected indexed => ?_⟩
  · exact h.docs c docs ((same c).collection ▸ held)
  · rw [(same c).indexes] at indexed
    obtain ⟨schema, follows, guarded⟩ := h.guarded c ((same c).connected ▸ connected) indexed
    exact ⟨schema, follows, guarded.alike (same c)⟩

/-- An operation leaves names as they are. -/
theorem texts_effect (op : Operation) (texts : ∀ v ∈ s.memory.dirty, ∃ c, v = .string c) :
    (op.effect s).1.indent = s.indent ∧
      ∀ v ∈ (op.effect s).1.memory.dirty, ∃ c, v = .string c := by
  obtain ⟨act, ⟨indexes, schemas, r, -, same⟩, -⟩ := op.acts s
  have goes : op.effect s = _ := same s.memory.dirty s.line
  rw [goes]
  refine ⟨rfl, fun v there => ?_⟩
  cases act with
  | rests | asks => exact texts v there
  | puts c docs =>
    rcases (Memory.mem_markDirty (m := s.memory.setDocuments c docs) texts c).mp there with old | rfl
    · exact texts v old
    · exact ⟨c, rfl⟩
  | drops c => exact texts v (List.mem_of_mem_filter there)

/-- An operation on a collection keeps the rule if it does there. -/
theorem Ruled.operates (h : s.Ruled unique) (op : Operation)
    (docs : ∀ docs, (op.effect s).1.memory.collections.lookup op.collection = some docs →
      DocStore.Ruled unique op.collection docs)
    (guarded : (op.effect s).1.connected = true →
      (op.effect s).1.indexes.ofCollection (.string op.collection) ≠ [] →
      ∃ schema : Schema, schema.Follows unique op.collection ∧
        (op.effect s).1.Guarded op.collection schema) : (op.effect s).1.Ruled unique := by
  obtain ⟨indent, texts⟩ := texts_effect op h.texts
  refine ⟨indent ▸ h.indent, texts, fun c found held => ?_, fun c connected indexed => ?_⟩
  · by_cases own : c = op.collection
    · subst own
      exact docs found held
    · exact h.docs c found ((op.alike_elsewhere own s).collection ▸ held)
  · by_cases own : c = op.collection
    · subst own
      exact guarded connected indexed
    · have same := op.alike_elsewhere own s
      rw [same.indexes] at indexed
      obtain ⟨schema, follows, guarded⟩ := h.guarded c (same.connected ▸ connected) indexed
      exact ⟨schema, follows, guarded.alike same⟩

end Store

/-! ## Operations -/

namespace Operation

variable {unique : String → String → Prop} {c : String} {s : Store} {op : Operation} {schema : Schema}

def Stores (c : String) : Operation → Prop
  | insert c' doc => c' = c ∧ doc.IsData
  | update c' _ changes => c' = c ∧ changes.IsData
  | delete c' _ | deleteMany c' _ => c' = c
  | create .. | drop _ => False

theorem Stores.writes (h : op.Stores c) : op.Writes c := by
  cases op with
  | insert | update => exact ⟨h.1, h.2.plain⟩
  | delete | deleteMany => exact h
  | create | drop => exact h.elim

theorem Stores.collection (h : op.Stores c) : op.collection = c := by
  cases op with
  | insert | update => exact h.1
  | delete | deleteMany => exact h
  | create | drop => exact h.elim

/-- Only a connected store writes, and only where it holds a collection. -/
theorem Stores.refused (h : op.Stores c)
    (closed : ¬(s.connected = true ∧ s.memory.holds (.string c) = true)) : (op.effect s).1 = s := by
  have failed : ∃ e, Effect.documentsOf s c = .error e := by
    unfold Effect.documentsOf
    split
    · exact ⟨_, rfl⟩
    · next connected =>
      rw [if_neg fun held => closed ⟨by simpa using connected, held⟩]
      exact ⟨_, rfl⟩
  obtain ⟨e, failed⟩ := failed
  cases op with
  | insert | update =>
    obtain ⟨rfl, -⟩ := h
    simp only [effect, Effect.insert, Effect.update, failed, Effect.given]
  | delete | deleteMany =>
    obtain rfl : _ = c := h
    simp only [effect, Effect.delete, Effect.deleteMany, failed, Effect.given]
  | create | drop => exact h.elim

/-- A write of data leaves data. -/
theorem Stores.data (h : op.Stores c) (kept : Kept (s.memory.documents (.string c)))
    (data : ∀ d ∈ s.memory.documents (.string c), d.IsData) :
    ∀ d ∈ (op.effect s).1.memory.documents (.string c), d.IsData := by
  cases op with
  | insert _ doc =>
    obtain ⟨rfl, given⟩ := h
    refine Effect.documents_insert (P := fun docs => ∀ d ∈ docs, d.IsData) data fun d there => ?_
    rcases List.mem_append.mp there with there | there
    · exact data d there
    · exact List.mem_singleton.mp there ▸ given
  | update =>
    obtain ⟨rfl, given⟩ := h
    refine Effect.documents_update (P := fun docs => ∀ d ∈ docs, d.IsData) data ?_
    intro n new hn merged d there
    have old := List.getElem_mem hn
    rcases List.mem_or_eq_of_mem_set there with there | rfl
    · exact data d there
    · exact Value.isData_merged (kept.documents _ old) (data _ old) given merged
  | delete =>
    obtain rfl : _ = c := h
    exact Effect.documents_delete (P := fun docs => ∀ d ∈ docs, d.IsData) data
      fun left sub d there => data d (sub.subset there)
  | deleteMany =>
    obtain rfl : _ = c := h
    exact Effect.documents_deleteMany (P := fun docs => ∀ d ∈ docs, d.IsData) data
      fun left sub d there => data d (sub.subset there)
  | create | drop => exact h.elim

/-- A write of data keeps the rule where a collection that can be written to has indexes. -/
theorem ruled_stores (h : s.Ruled unique) (watches : s.Watches c) (stores : op.Stores c) :
    (op.effect s).1.Ruled unique ∧ ∀ c', s.Watches c' → (op.effect s).1.Watches c' := by
  by_cases ready : s.connected = true ∧ s.memory.holds (.string c) = true
  · obtain ⟨connected, held⟩ := ready
    obtain ⟨schema, follows, guarded⟩ := h.guarded c connected (watches connected held)
    have after := guarded.of_writes follows.names stores.writes
    have ruled := h.documents held
    have own := stores.collection
    refine ⟨h.operates op (fun docs found => ?_) fun _ _ => ?_, fun c' old => ?_⟩
    · rw [own] at found ⊢
      have same : (op.effect s).1.memory.documents (.string c) = docs := by
        rw [Memory.documents_string, found]
        rfl
      rw [← same]
      refine ⟨⟨ruled.valid.named, after.indexed.kept, stores.data ruled.valid.kept ruled.valid.data⟩, ?_⟩
      exact fun field marked => after.distinct field ((follows.fields field).mpr marked)
    · rw [own]
      exact ⟨schema, follows, after⟩
    · by_cases same : c' = c
      · subst same
        exact fun _ _ => after.indexed.indexes_ne_nil
      · exact old.alike (op.alike_elsewhere (own ▸ same) s)
  · rw [stores.refused ready]
    exact ⟨h, fun _ old => old⟩

/-- To open a collection with a schema that follows the rule keeps the rule, and gives the collection
indexes. -/
theorem ruled_create (model : Option Nat) (h : s.Ruled unique) (follows : schema.Follows unique c) :
    ((create c schema model).effect s).1.Ruled unique ∧
      ((create c schema model).effect s).1.Watches c ∧
      ∀ c', s.Watches c' → ((create c schema model).effect s).1.Watches c' := by
  have elsewhere {c' : String} (other : c' ≠ c) (old : s.Watches c') :
      ((create c schema model).effect s).1.Watches c' :=
    old.alike ((create c schema model).alike_elsewhere other s)
  cases connected : s.connected with
  | false =>
    have same : ((create c schema model).effect s).1 = s := by
      simp only [effect, Effect.create, connected, Bool.not_false, if_true]
    rw [same]
    exact ⟨h, fun opened => by simp [connected] at opened, fun _ old => old⟩
  | true =>
    cases created : s.memory.create (.string c) with
    | error e =>
      have same : ((create c schema model).effect s).1 = s := by
        simp only [effect, Effect.create, connected, Bool.not_true, Bool.false_eq_true, if_false, created,
          Effect.given]
      have absent : s.memory.holds (.string c) ≠ true := by
        intro held
        rw [Memory.create_held held] at created
        cases created
      rw [same]
      exact ⟨h, fun _ held => absurd held absent, fun _ old => old⟩
    | ok made =>
      obtain ⟨m, name⟩ := made
      obtain rfl := Memory.create_string created
      have ruled := h.made created
      obtain ⟨s', done, indexed, memory, schemas⟩ := Effect.create_indexed ⟨schema, model⟩ connected
        created ruled.valid.kept
      have after : ((create name schema model).effect s).1 = s' := by rw [effect, done]
      have guarded : s'.Guarded name schema := by
        refine ⟨indexed, ⟨model, ?_⟩, ?_⟩
        · rw [schemas]
          exact (Table.lookup_put ..).trans (if_pos rfl)
        · rw [memory]
          exact ruled.distinct follows
      refine ⟨h.operates _ (fun docs found => ?_) fun _ _ => ?_, ?_, fun c' old => ?_⟩
      · rw [after, memory] at found
        have found : m.collections.lookup name = some docs := found
        have same : m.documents (.string name) = docs := by
          rw [Memory.documents_string, found]
          rfl
        exact same ▸ ruled
      · exact ⟨schema, follows, after ▸ guarded⟩
      · rw [after]
        exact fun _ _ => indexed.indexes_ne_nil
      · by_cases own : c' = name
        · rw [after, own]
          exact fun _ _ => indexed.indexes_ne_nil
        · exact elsewhere own old

end Operation

/-! ## Files -/

section Files

variable {unique : String → String → Prop} {c : String} {d : Directory} {files : Snapshot}

def RuledText (unique : String → String → Prop) (c text : String) : Prop :=
  ∃ docs, (∀ path, readDocuments path text = .ok docs) ∧ Ruled unique c docs

/-- A directory in which nothing stands but files of collections under a rule. -/
def Directory.Ruled (unique : String → String → Prop) (d : Directory) : Prop :=
  ∀ file e, d.entry? file = some e → ∃ c text, file = CollectionName.fileName c ∧ e = .text text ∧
    RuledText unique c text

def Snapshot.Ruled (unique : String → String → Prop) (files : Snapshot) : Prop :=
  ∀ f ∈ files, ∃ c, f.1 = .string c ∧ RuledText unique c f.2

theorem Directory.Ruled.ensure (h : d.Ruled unique) : d.ensure.Ruled unique := fun file e there =>
  h file e (Directory.entry?_ensure d file ▸ there)

theorem Snapshot.Ruled.write (h : files.Ruled unique) (files_ruled : d.Ruled unique) :
    Directory.Ruled unique (files.write d).1 := by
  intro file e there
  rcases Snapshot.write_entry files d file with same | ⟨f, among, own, written⟩
  · exact files_ruled file e (same ▸ there)
  · obtain ⟨c, named, text⟩ := h f among
    rw [written] at there
    rw [named] at own
    exact ⟨c, f.2, own.symm, (Option.some.inj there).symm, text⟩

/-- What a store under a rule writes is under the rule. -/
theorem Store.Ruled.snapshot {s : Store} (h : s.Ruled unique)
    (taken : DocStore.snapshot s.indent s.memory s.memory.pending = .ok files) :
    files.Ruled unique := by
  intro f among
  obtain ⟨names, texts⟩ := mem_snapshot taken
  have pending : f.1 ∈ files.names := List.mem_map_of_mem among
  obtain ⟨marked, held⟩ := Memory.mem_pending.mp (names ▸ pending)
  obtain ⟨c, named⟩ := h.texts f.1 marked
  have text := texts f among
  rw [named] at held text
  have ruled := h.documents held
  refine ⟨c, named, _, fun path => ?_, ruled⟩
  rw [readDocuments_fileText h.indent text path]
  congr 1
  exact (List.map_congr_left fun doc there => (ruled.valid.data doc there).jsonForm).trans (List.map_id _)

/-- There is no file of the layout with all collections in one file. -/
theorem Directory.Ruled.not_legacy (h : d.Ruled unique) : d.isFile Directory.legacyFile = false := by
  unfold Directory.isFile
  cases there : d.entry? Directory.legacyFile with
  | none => rfl
  | some e =>
    obtain ⟨c, text, own, -, docs, -, ruled⟩ := h _ e there
    have visible := CollectionName.visible_of_check ruled.valid.named
    exact absurd (CollectionName.fileName_inj own.symm) visible.2

theorem Directory.Ruled.listed (h : d.Ruled unique) (listed : c ∈ d.listed) :
    CollectionName.check (.string c) = .ok c := by
  obtain ⟨e, there⟩ := Option.isSome_iff_exists.mp (Directory.mem_listed.mp listed).1
  obtain ⟨c', text, own, -, docs, -, ruled⟩ := h _ e there
  obtain rfl := CollectionName.fileName_inj own
  exact ruled.valid.named

theorem Directory.Ruled.read (h : d.Ruled unique) {text : String}
    (got : d.read (CollectionName.fileName c) = .ok text) : RuledText unique c text := by
  obtain ⟨c', text', own, same, ruled⟩ := h _ _ (Directory.read_eq_ok.mp got)
  obtain rfl := CollectionName.fileName_inj own
  cases same
  exact ruled

end Files

end DocStore
