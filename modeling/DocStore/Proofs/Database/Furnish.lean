import DocStore.Proofs.Database.Akin
import DocStore.Proofs.Storage.Restore
import DocStore.Proofs.Store.Act
/-!
Collections that are opened for models, one after the other, in a store that has none of them: they are held
without documents, with the indexes that their schemas ask for and each with its file, in whatever order they
were opened.
-/

namespace DocStore

open CollectionName (fileName fileOf)
open Writer (serve)

/-! ## Indexes over no documents -/

namespace Effect

/-- Indexes of fields among others, over no documents. -/
def blankOver (indexes : List FieldIndex) (fields : List (Value × Value)) : List FieldIndex :=
  fields.foldl (fun indexes e => Indexes.putIndex { field := e.1, unique := e.2 } indexes) indexes

def blankIndexes (schema : Schema) : List FieldIndex := blankOver [] (indexedFields schema)

theorem builds_blank (c : String) {fields : List (Value × Value)}
    (named : ∀ e ∈ fields, ∃ field, e.1 = .string field) (ix : Indexes) :
    ∃ built, inTurn (fields.map fun (field, unique) => build c [] field unique) ix = (built, .ok ()) ∧
      ∀ other, built.ofCollection other =
        if Key.identity other = Key.identity (.string c) then
          blankOver (ix.ofCollection (.string c)) fields
        else ix.ofCollection other := by
  induction fields generalizing ix with
  | nil =>
    refine ⟨ix, rfl, fun other => ?_⟩
    split
    · next same => rw [Indexes.ofCollection, Catalog.get?, same]; rfl
    · rfl
  | cons e rest ih =>
    obtain ⟨field, unique⟩ := e
    obtain ⟨name, rfl⟩ := named (field, unique) (by simp)
    let index : FieldIndex := { field := .string name, unique }
    let put : Indexes := Catalog.put ix (.string c) (Indexes.putIndex index (ix.ofCollection (.string c)))
    have first : build c [] (.string name) unique ix = (put, .ok ()) := rfl
    obtain ⟨built, done, indexes⟩ := ih (fun e he => named e (by simp [he])) put
    refine ⟨built, ?_, fun other => ?_⟩
    · rw [List.map_cons, inTurn]
      simp only [first]
      exact done
    · rw [indexes, Indexes.ofCollection_put, Indexes.ofCollection_put_eq]
      split <;> rfl

/-- A collection that is not held is not opened under a name that none may have. -/
theorem create_refused {s : Store} {c : String} {registered : Registered} {e : Error}
    (connected : s.connected = true) (free : s.memory.holds (.string c) = false)
    (refused : CollectionName.check (.string c) = .error e) : create c registered s = (s, .error e) := by
  simp only [create, connected, Bool.not_true, Bool.false_eq_true, if_false, Memory.create_fresh free,
    refused, given]

/-- A collection that is not held is opened without documents. -/
theorem create_blank {s : Store} {c name : String} {r : Registered}
    (connected : s.connected = true) (free : s.memory.holds (.string c) = false)
    (checked : CollectionName.check (.string c) = .ok name) :
    ∃ s' : Store, create c r s = (s', .ok (some .flush)) ∧ s'.connected = true ∧
      s'.indent = s.indent ∧ s'.memory = (s.memory.setDocuments c []).markDirty (.string c) ∧
      ∀ other, s'.indexes.ofCollection other =
        if Key.identity other = Key.identity (.string c) then blankIndexes r.schema
        else s.indexes.ofCollection other := by
  let memory : Memory := (s.memory.setDocuments c []).markDirty (.string c)
  have documents : memory.documents (.string c) = [] := by
    rw [Memory.documents_string, Memory.markDirty_collections, Memory.setDocuments_collections,
      Table.lookup_put, if_pos rfl]
    rfl
  obtain ⟨built, done, indexes⟩ := builds_blank c (indexedFields_named r.schema)
    (s.indexes.drop (.string c))
  refine ⟨{ declared c r memory s with indexes := built }, ?_, connected, rfl, rfl, fun other => ?_⟩
  · simp only [create, connected, Bool.not_true, Bool.false_eq_true, if_false, Memory.create_fresh free,
      checked, given]
    show reindexed (declared c r memory s) (inTurn ((indexedFields r.schema).map
      fun (field, unique) => build c (memory.documents (.string c)) field unique)) _ = _
    rw [documents, reindexed_ok _ done]
  · rw [indexes, Indexes.ofCollection_drop, Indexes.ofCollection_drop_eq]
    split <;> rfl

end Effect

/-! ## Collections that were opened -/

/-- The names of the collections of models. -/
def Model.homes (models : List Model) : List String := models.map fun m => Memory.textOf m.collection

namespace World

/-- World `u` after the collections of some models were opened; files without documents are of one text. -/
structure Furnished (i : Nat) (u : World) (text : String) (models : List Model) (v : World) : Prop where
  here : i < v.stores.length
  connected : (v.store i).connected = true
  indent : (v.store i).indent = (u.store i).indent
  clean : (v.store i).memory.dirty = []
  docs : ∀ c, (v.store i).memory.collections.lookup c =
    if c ∈ Model.homes models then some [] else (u.store i).memory.collections.lookup c
  indexes : ∀ m ∈ models, (v.store i).indexes.ofCollection (.string (Memory.textOf m.collection)) =
    Effect.blankIndexes m.schema
  others : ∀ c, (∀ name ∈ Model.homes models, Key.identity c ≠ Key.identity (.string name)) →
    (v.store i).indexes.ofCollection c = (u.store i).indexes.ofCollection c
  flat : v.directory.Flat
  files : ∀ file, v.directory.entry? file =
    if file ∈ (Model.homes models).map fileName then some (.text text) else u.directory.entry? file
  source : v.source = u.source

namespace Furnished

variable {i : Nat} {u v v' : World} {text c : String} {models others : List Model} {m : Model}
  {s : Store} {d : Directory}

/-- What is not in the store or its files does not show. -/
theorem aside (h : Furnished i u text models v) (stores : v'.stores = v.stores)
    (directory : v'.directory = v.directory) (source : v'.source = v.source) :
    Furnished i u text models v' := by
  have store : v'.store i = v.store i := by rw [World.store, World.store, stores]
  constructor
  · exact stores ▸ h.here
  · exact store ▸ h.connected
  · exact store ▸ h.indent
  · exact store ▸ h.clean
  · exact store ▸ h.docs
  · exact store ▸ h.indexes
  · exact store ▸ h.others
  · exact directory ▸ h.flat
  · exact directory ▸ h.files
  · exact source.trans h.source

/-- A collection that has no model yet is not held. -/
theorem free (h : Furnished i u text models v) (absent : (u.store i).memory.collections.lookup c = none)
    (new : c ∉ Model.homes models) : (v.store i).memory.holds (.string c) = false := by
  rw [Memory.holds_string, Table.has, h.docs, if_neg new, absent]
  rfl

/-- A collection is not opened under a name that none may have. -/
theorem refuses {schema : Schema} {number : Option Nat} {e : Error} (h : Furnished i u text models v)
    (absent : (u.store i).memory.collections.lookup c = none) (new : c ∉ Model.homes models)
    (refused : CollectionName.check (.string c) = .error e) :
    ∃ v', (Store.createCollection i (.string c) schema number).run serve v = (v', .error e) ∧ v.Keeps v' ∧
      Furnished i u text models v' := by
  have keeps := Op.keeps_createCollection i c schema number v
  have has := Op.has_create c schema number h.here
  rw [Effect.create_refused h.connected (h.free absent new) refused] at has
  obtain ⟨v', stop, becomes⟩ := has
  have ran : (Store.createCollection i (.string c) schema number).run serve v = _ := Task.run_of_done stop
  rw [ran] at keeps
  have same : v'.stores = v.stores := becomes.stores.trans (Writer.set_store_self v i).symm
  exact ⟨v', ran, keeps, h.aside same becomes.directory keeps.source⟩

/-- What a store and its files become when a new collection is opened and written. -/
theorem put (h : Furnished i u text models v) (own : Memory.textOf m.collection = c)
    (stores : v'.stores = v.stores.set i s) (directory : v'.directory = d) (source : v'.source = v.source)
    (connected : s.connected = true) (indent : s.indent = (v.store i).indent) (clean : s.memory.dirty = [])
    (docs : s.memory.collections = Table.put (v.store i).memory.collections c [])
    (indexes : ∀ other, s.indexes.ofCollection other =
      if Key.identity other = Key.identity (.string c) then Effect.blankIndexes m.schema
      else (v.store i).indexes.ofCollection other)
    (new : c ∉ Model.homes models)
    (replaced : v.directory.replace (fileName c) text = .ok d) (flat : d.Flat) :
    Furnished i u text (models ++ [m]) v' := by
  have store : v'.store i = s := store_of_stores h.here stores
  have homes : Model.homes (models ++ [m]) = Model.homes models ++ [c] := by
    rw [Model.homes, List.map_append, List.map_singleton, own]
    rfl
  refine ⟨?_, ?_, ?_, ?_, fun other => ?_, fun l hl => ?_, fun other apart => ?_, ?_, fun file => ?_, ?_⟩
  · rw [stores, List.length_set]
    exact h.here
  · exact store ▸ connected
  · rw [store]
    exact indent.trans h.indent
  · exact store ▸ clean
  · rw [store, docs, Table.lookup_put, h.docs, homes]
    by_cases same : other = c <;> simp [same]
  · rw [store, indexes]
    rcases List.mem_append.mp hl with hl | hl
    · have other : Memory.textOf l.collection ≠ c := fun same => new (same ▸ List.mem_map_of_mem hl)
      rw [if_neg (Indexes.identity_ne other)]
      exact h.indexes l hl
    · rw [List.mem_singleton.mp hl, own, if_pos rfl]
  · rw [homes] at apart
    rw [store, indexes, if_neg (apart c (by simp))]
    exact h.others other fun name there => apart name (by simp [there])
  · exact directory ▸ flat
  · rw [directory, Directory.entry?_replace replaced, h.files, homes]
    by_cases same : file = fileName c <;> simp [same]
  · exact source.trans h.source

/-- A new collection is opened. -/
theorem opens {name : String} (h : Furnished i u text models v)
    (absent : (u.store i).memory.collections.lookup c = none) (own : m.collection = .string c)
    (new : c ∉ Model.homes models) (checked : CollectionName.check (.string c) = .ok name)
    (fits : Directory.Fits (fileName c)) (written : fileText (u.store i).indent [] = .ok text)
    (number : Option Nat) :
    ∃ v', (Store.createCollection i (.string c) m.schema number).run serve v = (v', .ok ()) ∧ v.Keeps v' ∧
      Furnished i u text (models ++ [m]) v' := by
  obtain ⟨s, effect, connected, indent, memory, indexes⟩ :=
    Effect.create_blank (r := ⟨m.schema, number⟩) h.connected (h.free absent new) checked
  obtain ⟨d, replaced, flat⟩ := Directory.replace_ok h.flat fits text
  have keeps := Op.keeps_createCollection i c m.schema number v
  obtain ⟨v', r, ran, awaits⟩ := Op.has_awaits (Op.has_create c m.schema number h.here) h.here
  obtain ⟨line, stores⟩ := awaits.stores
  have directory := awaits.directory
  have outcome := awaits.outcome
  have changed : Writer.OneChanged s c [] := by
    have collections := congrArg Memory.collections memory
    rw [Memory.markDirty_collections, Memory.setDocuments_collections] at collections
    constructor
    · have none : ((v.store i).memory.setDocuments c []).dirty = [] := h.clean
      simp [memory, Memory.markDirty, none]
    · rw [collections, Table.lookup_put, if_pos rfl]
  have saves : v.directory.Saves s.indent c [] d := ⟨text, by rw [indent, h.indent]; exact written, replaced⟩
  have flushed := changed.flushed saves
  simp only [effect, Effect.awaited, Writer.served, flushed] at stores directory outcome
  have done : r = .ok () := by
    cases r with
    | ok _ => rfl
    | error e => cases outcome
  rw [ran] at keeps
  refine ⟨v', by rw [ran, done], keeps, ?_⟩
  refine h.put (congrArg Memory.textOf own) stores directory keeps.source connected indent rfl ?_ indexes new
    replaced flat
  show s.memory.collections = _
  rw [memory, Memory.markDirty_collections, Memory.setDocuments_collections]
  rfl

/-- Collections that were opened in another order. -/
theorem akin (h : Furnished i u text models v) (h' : Furnished i u text others v')
    (permuted : models.Perm others) :
    (v.store i).Akin (v'.store i) ∧ v.directory.Akin v'.directory := by
  have homes (c : String) : c ∈ Model.homes others ↔ c ∈ Model.homes models :=
    (permuted.map _).mem_iff.symm
  have files (file : String) :
      file ∈ (Model.homes others).map fileName ↔ file ∈ (Model.homes models).map fileName :=
    ((permuted.map _).map _).mem_iff.symm
  refine ⟨⟨?_, ?_, ⟨?_, fun c => ?_⟩, fun c => ?_⟩, ?_, fun file => ?_⟩
  · rw [h.connected, h'.connected]
  · rw [h.indent, h'.indent]
  · rw [h.clean, h'.clean]
  · rw [h.docs, h'.docs]
    simp only [homes]
  · by_cases among : ∃ m ∈ models, Key.identity c = Key.identity (.string (Memory.textOf m.collection))
    · obtain ⟨m, hm, same⟩ := among
      have own (ix : Indexes) :
          ix.ofCollection c = ix.ofCollection (.string (Memory.textOf m.collection)) := by
        rw [Indexes.ofCollection, Indexes.ofCollection, Catalog.get?, Catalog.get?, same]
      rw [own, own, h.indexes m hm, h'.indexes m (permuted.mem_iff.mp hm)]
    · have apart : ∀ name ∈ Model.homes models, Key.identity c ≠ Key.identity (.string name) := by
        intro name there same
        obtain ⟨m, hm, rfl⟩ := List.mem_map.mp there
        exact among ⟨m, hm, same⟩
      rw [h.others c apart, h'.others c fun name there => apart name ((homes name).mp there)]
  · rw [h.flat.1, h'.flat.1]
  · rw [h.files, h'.files]
    simp only [files]

end Furnished

end World

end DocStore
