import DocStore.Proofs.Index.Identity
import DocStore.Proofs.Storage.Reload
import DocStore.Proofs.Store.Act
import DocStore.Proofs.Store.Uniqueness
/-!
No two documents of a collection get one id, as long as every insert goes to a collection that was
opened or brings a new id. A collection that was loaded but not opened has no index of ids: it takes
any document.
-/

namespace DocStore

open Indexes

/-! ## Documents by their ids -/

/-- Each document has an id, and no two have one. -/
structure Identified (docs : List Value) : Prop where
  named : ∀ d ∈ docs, ∃ s, d.idText? = some s
  distinct : (docs.map Value.idText?).Nodup

namespace Identified

variable {docs left : List Value} {doc new : Value} {n : Nat} {s : String}

theorem nil : Identified [] := ⟨by simp, List.nodup_nil⟩

theorem sublist (h : Identified docs) (sub : left.Sublist docs) : Identified left :=
  ⟨fun d hd => h.named d (sub.subset hd), h.distinct.sublist (sub.map _)⟩

theorem append (h : Identified docs) (hd : doc.idText? = some s)
    (fresh : ∀ d ∈ docs, d.idText? ≠ some s) : Identified (docs ++ [doc]) := by
  refine ⟨fun d hd' => ?_, ?_⟩
  · rcases List.mem_append.mp hd' with hd' | last
    · exact h.named d hd'
    · exact ⟨s, List.mem_singleton.mp last ▸ hd⟩
  · rw [List.map_append, List.nodup_append]
    refine ⟨h.distinct, List.nodup_singleton _, ?_⟩
    rintro a ha b hb rfl
    obtain ⟨d, there, same⟩ := List.mem_map.mp ha
    rw [List.map_singleton, List.mem_singleton, hd] at hb
    exact fresh d there (same.trans hb)

theorem set (h : Identified docs) (hn : n < docs.length)
    (same : new.idText? = docs[n].idText?) : Identified (docs.set n new) := by
  have ids : (docs.set n new).map Value.idText? = docs.map Value.idText? := by
    have hn' : n < (docs.map Value.idText?).length := by simpa using hn
    have own : docs[n].idText? = (docs.map Value.idText?)[n] := by simp
    rw [List.map_set, same, own, List.set_getElem_self]
  refine ⟨fun d hd => ?_, ids ▸ h.distinct⟩
  rcases List.mem_or_eq_of_mem_set hd with hd | rfl
  · exact h.named d hd
  · exact same ▸ h.named _ (List.getElem_mem hn)

end Identified

namespace Store

variable {docs : List Value}

/-- Among the ids of documents there is the one of each. -/
theorem idsOf_named (h : ∀ d ∈ docs, ∃ s, d.idText? = some s) :
    ∃ ids, idsOf docs = .ok ids ∧ (∀ id ∈ ids, ∃ s, id.text? = some s) ∧
      ∀ d ∈ docs, ∃ id ∈ ids, id.text? = d.idText? := by
  induction docs with
  | nil => exact ⟨[], rfl, by simp, by simp⟩
  | cons doc rest ih =>
    obtain ⟨s, named⟩ := h doc (by simp)
    obtain ⟨ids, hids, texts, all⟩ := ih fun d hd => h d (by simp [hd])
    have own := Value.under_named named
    simp only [idsOf, Value.idOf_named named, bind, Except.bind, Value.hashable_text own,
      Bool.not_true, Bool.false_eq_true, if_false, hids, pure, Except.pure]
    refine ⟨_, rfl, ?_⟩
    split
    · next known =>
      obtain ⟨id, there, same⟩ := List.any_eq_true.mp known
      obtain ⟨t, ht⟩ := texts id there
      rw [Value.isSame_text own ht, beq_iff_eq] at same
      refine ⟨texts, List.forall_mem_cons.mpr ⟨⟨id, there, ?_⟩, all⟩⟩
      rw [ht, named, same]
    · refine ⟨List.forall_mem_cons.mpr ⟨⟨s, own⟩, texts⟩, List.forall_mem_cons.mpr ⟨?_, ?_⟩⟩
      · exact ⟨_, by simp, own.trans named.symm⟩
      · intro d hd
        obtain ⟨id, there, same⟩ := all d hd
        exact ⟨id, by simp [there], same⟩

theorem without_named {ids : List Value} (texts : ∀ id ∈ ids, ∃ s, id.text? = some s)
    (h : ∀ d ∈ docs, ∃ s, d.idText? = some s) :
    ∃ left, without ids docs = .ok left ∧ left.Sublist docs ∧
      ∀ d ∈ left, ∀ id ∈ ids, d.idText? ≠ id.text? := by
  induction docs with
  | nil => exact ⟨[], rfl, .slnil, by simp⟩
  | cons doc rest ih =>
    obtain ⟨s, named⟩ := h doc (by simp)
    obtain ⟨left, hl, sub, apart⟩ := ih fun d hd => h d (by simp [hd])
    have own := Value.under_named named
    simp only [without, Value.idOf_named named, bind, Except.bind, Value.askable_text own,
      Bool.not_true, Bool.false_eq_true, if_false, hl, pure, Except.pure]
    refine ⟨_, rfl, ?_⟩
    split
    · exact ⟨sub.cons doc, apart⟩
    · next fresh =>
      refine ⟨sub.cons_cons doc, List.forall_mem_cons.mpr ⟨fun id there same => fresh ?_, apart⟩⟩
      obtain ⟨t, ht⟩ := texts id there
      rw [named, ht] at same
      refine List.any_eq_true.mpr ⟨id, there, ?_⟩
      rw [Value.isSame_text own ht, Option.some.inj same, beq_self_eq_true]

/-! ## Collections whose ids are known -/

/-- The documents of a collection have ids of their own, and its indexes know them, if it has
indexes. -/
structure Watched (c : String) (s : Store) : Prop where
  identified : Identified (s.memory.documents (.string c))
  known : s.indexes.ofCollection (.string c) = [] ∨
    Guards (s.indexes.ofCollection (.string c)) (· ∈ s.memory.documents (.string c))

theorem Watched.alike {c : String} {s s' : Store} (h : Watched c s) (same : Alike c s s') :
    Watched c s' := by
  have documents : s'.memory.documents (.string c) = s.memory.documents (.string c) := by
    rw [Memory.documents_string, Memory.documents_string, same.collection]
  refine ⟨?_, ?_⟩
  · rw [documents]
    exact h.identified
  · rw [documents, same.indexes]
    exact h.known

end Store

/-- An insert goes to a collection that has indexes, or brings an id that no document there has. -/
def Operation.Fresh (s : Store) : Operation → Prop
  | .insert c doc => s.indexes.ofCollection (.string c) ≠ [] ∨
      ∀ d ∈ s.memory.documents (.string c), d.idText? ≠ doc.idText?
  | _ => True

namespace Effect

open Store (Watched)

variable {c : String} {s : Store} {docs : List Value} {doc id changes filter : Value}

theorem documents_of_documentsOf (h : documentsOf s c = .ok docs) :
    docs = s.memory.documents (.string c) := by
  simp only [documentsOf] at h
  split at h
  · cases h
  · split at h
    · exact (Except.ok.inj h).symm
    · cases h

theorem watched_committed {ix : Indexes} (identified : Identified docs)
    (known : ix.ofCollection (.string c) = [] ∨ Guards (ix.ofCollection (.string c)) (· ∈ docs)) :
    Watched c (committed c docs { s with indexes := ix }).1 := by
  have documents := committed_documents c docs { s with indexes := ix }
  refine ⟨?_, ?_⟩
  · rw [documents]
    exact identified
  · rw [documents]
    exact known

theorem watched_insert (h : Watched c s) (fresh : (Operation.insert c doc).Fresh s) :
    Watched c (insert c doc s).1 := by
  unfold insert
  cases held : documentsOf s c with
  | error e => exact h
  | ok docs =>
    obtain rfl := documents_of_documentsOf held
    simp only [given]
    cases has : Store.hasId doc with
    | error e => exact h
    | ok known =>
      cases known with
      | false => exact h
      | true =>
        obtain ⟨t, named⟩ := Value.idText?_of_hasId has
        simp only [if_true]
        rcases h.known with none | guards
        · rw [reindexed_ok _ (changeAll_none none)]
          refine watched_committed (h.identified.append named fun d there same => ?_) (.inl none)
          exact fresh.resolve_left (fun some => some none) d there (same.trans named.symm)
        · rcases insert_guards guards named with ⟨e, refused⟩ | ⟨new, ix, done, guards⟩
          · rw [reindexed_error _ refused]
            exact h
          · rw [reindexed_ok _ done]
            refine watched_committed (h.identified.append named new) (.inr (guards.mono ?_))
            intro d there
            rwa [List.mem_append, List.mem_singleton] at there

theorem watched_update (h : Watched c s) : Watched c (update c id changes s).1 := by
  unfold update
  cases held : documentsOf s c with
  | error e => exact h
  | ok docs =>
    obtain rfl := documents_of_documentsOf held
    simp only [given]
    cases place : Store.position id (s.memory.documents (.string c)) 0 with
    | error e => exact h
    | ok found =>
      cases found with
      | none => exact h
      | some n =>
        obtain ⟨-, hn, -⟩ := Store.position_spec place
        have hn : n < (s.memory.documents (.string c)).length := hn
        have at_n : (s.memory.documents (.string c)).getD n .null =
            (s.memory.documents (.string c))[n] := by simp [hn]
        simp only [at_n]
        cases merged : Store.merged (s.memory.documents (.string c))[n] changes with
        | error e => exact h
        | ok new =>
          have there := List.getElem_mem hn
          obtain ⟨t, ho⟩ := h.identified.named _ there
          have hn' := Value.idText?_merged ho merged
          have identified := h.identified.set hn (hn'.trans ho.symm)
          simp only
          rcases h.known with none | guards
          · rw [reindexed_ok _ (changeAll_none none)]
            exact watched_committed identified (.inl none)
          · rcases update_guards guards there ho hn' with ⟨e, refused⟩ | ⟨ix, done, guards⟩
            · rw [reindexed_error _ refused]
              exact h
            · rw [reindexed_ok _ done]
              refine watched_committed identified (.inr (guards.mono fun d hd => ?_))
              exact List.mem_or_eq_of_mem_set hd

theorem watched_delete (h : Watched c s) : Watched c (delete c id s).1 := by
  unfold delete
  cases held : documentsOf s c with
  | error e => exact h
  | ok docs =>
    obtain rfl := documents_of_documentsOf held
    simp only [given]
    cases place : Store.position id (s.memory.documents (.string c)) 0 with
    | error e => exact h
    | ok found =>
      cases found with
      | none => exact h
      | some n =>
        obtain ⟨-, hn, -⟩ := Store.position_spec place
        have hn : n < (s.memory.documents (.string c)).length := hn
        have at_n : (s.memory.documents (.string c)).getD n .null =
            (s.memory.documents (.string c))[n] := by simp [hn]
        have left := h.identified.sublist
          (List.eraseIdx_sublist (s.memory.documents (.string c)) n)
        simp only [at_n]
        rcases h.known with none | guards
        · rw [reindexed_ok _ (changeAll_none none)]
          exact watched_committed left (.inl none)
        · obtain ⟨t, named⟩ := h.identified.named _ (List.getElem_mem hn)
          obtain ⟨ix, done, guards⟩ := delete_guards guards h.identified.named named
          rw [reindexed_ok _ done]
          refine watched_committed left (.inr (guards.mono fun d hd => ?_))
          -- the document that is taken out is the only one with its id
          obtain ⟨m, hm, other, rfl⟩ := List.mem_eraseIdx_iff_getElem.mp hd
          refine ⟨List.getElem_mem hm, fun same => other ?_⟩
          have hm' : m < ((s.memory.documents (.string c)).map Value.idText?).length := by
            simpa using hm
          have hn' : n < ((s.memory.documents (.string c)).map Value.idText?).length := by
            simpa using hn
          have ids : ((s.memory.documents (.string c)).map Value.idText?)[m] =
              ((s.memory.documents (.string c)).map Value.idText?)[n] := by simpa using same
          exact h.identified.distinct.getElem_inj_iff.mp ids

/-- Documents that are taken out one after the other; none of the others is forgotten. -/
theorem deletes_guards {stored : Value → Prop} {found : List Value} {ix : Indexes}
    (h : Guards (ix.ofCollection (.string c)) stored)
    (hs : ∀ d, stored d → ∃ s, d.idText? = some s) (hf : ∀ f ∈ found, ∃ s, f.idText? = some s) :
    ∃ ix', inTurn (found.map fun doc => (·.delete (.string c) doc)) ix = (ix', .ok ()) ∧
      Guards (ix'.ofCollection (.string c))
        fun d => stored d ∧ ∀ f ∈ found, d.idText? ≠ f.idText? := by
  induction found generalizing ix stored with
  | nil => exact ⟨ix, rfl, h.mono fun d hd => hd.1⟩
  | cons f rest ih =>
    obtain ⟨s, named⟩ := hf f (by simp)
    obtain ⟨next, done, guards⟩ := delete_guards h hs named
    obtain ⟨last, done', guards'⟩ := ih guards (fun d hd => hs d hd.1)
      fun f hf' => hf f (by simp [hf'])
    refine ⟨last, ?_, guards'.mono ?_⟩
    · simp only [List.map_cons, inTurn, done]
      exact done'
    · rintro d ⟨there, apart⟩
      exact ⟨⟨there, apart f (by simp)⟩, fun g hg => apart g (by simp [hg])⟩

theorem deletes_none {found : List Value} {ix : Indexes}
    (none : ix.ofCollection (.string c) = []) :
    inTurn (found.map fun doc => (·.delete (.string c) doc)) ix = (ix, .ok ()) := by
  induction found with
  | nil => rfl
  | cons f rest ih =>
    have first : ix.delete (.string c) f = (ix, .ok ()) := changeAll_none none
    simp only [List.map_cons, inTurn, first]
    exact ih

/-- Documents that are known by their ids are taken out whatever else they hold. -/
theorem deleteMany_found {found : List Value} (h : Watched c s) (held : documentsOf s c = .ok docs)
    (scan : Query.run { filter } docs = .ok found) (some : found.isEmpty = false) :
    ∃ ix left, deleteMany c filter s = committed c left { s with indexes := ix } ∧ Identified left ∧
      (ix.ofCollection (.string c) = [] ∨ Guards (ix.ofCollection (.string c)) (· ∈ left)) := by
  obtain rfl := documents_of_documentsOf held
  have sub : found.Sublist (s.memory.documents (.string c)) :=
    Filter.run_sublist (Query.run_filter filter _ ▸ scan)
  have named : ∀ f ∈ found, ∃ t, f.idText? = .some t :=
    fun f hf => h.identified.named f (sub.subset hf)
  obtain ⟨ids, hids, texts, all⟩ := Store.idsOf_named named
  obtain ⟨left, hleft, subl, apart⟩ := Store.without_named texts h.identified.named
  simp only [deleteMany, held, given, scan, some, Bool.false_eq_true, if_false, hids, hleft]
  rcases h.known with none | guards
  · exact ⟨s.indexes, left, reindexed_ok _ (deletes_none none), h.identified.sublist subl, .inl none⟩
  · obtain ⟨ix, done, guards⟩ := deletes_guards guards h.identified.named named
    refine ⟨ix, left, reindexed_ok _ done, h.identified.sublist subl, .inr (guards.mono fun d hd => ?_)⟩
    refine ⟨subl.subset hd, fun f hf same => ?_⟩
    obtain ⟨id, there, own⟩ := all f hf
    exact apart d hd id there (same.trans own.symm)

theorem watched_deleteMany (h : Watched c s) : Watched c (deleteMany c filter s).1 := by
  cases held : documentsOf s c with
  | error e =>
    rw [deleteMany, held]
    exact h
  | ok docs =>
    cases scan : Query.run { filter } docs with
    | error e =>
      simp only [deleteMany, held, given, scan]
      exact h
    | ok found =>
      cases empty : found.isEmpty with
      | true =>
        simp only [deleteMany, held, given, scan, empty, if_true]
        exact h
      | false =>
        obtain ⟨ix, left, same, identified, known⟩ := deleteMany_found h held scan empty
        rw [same]
        exact watched_committed identified known

/-! ## Opening and dropping -/

theorem build_string {field : String} {unique : Value} {index : FieldIndex} {ix : Indexes}
    (built : Indexes.build (.string field) unique docs = .ok index)
    (named : index.field = .string field) :
    build c docs (.string field) unique ix = (Catalog.put ix (.string c)
      (putIndex index (ix.ofCollection (.string c))), .ok ()) := by
  rw [build, built]
  exact register_string ix c named

theorem builds_guards {fields : List (Value × Value)} {ix : Indexes}
    (others : ∀ e ∈ fields, ∃ field, e.1 = .string field ∧ field ≠ "id")
    (hd : ∀ d ∈ docs, ∃ s, d.idText? = some s)
    (h : Guards (ix.ofCollection (.string c)) (· ∈ docs)) :
    ∃ ix', inTurn (fields.map fun (field, unique) => build c docs field unique) ix = (ix', .ok ()) ∧
      Guards (ix'.ofCollection (.string c)) (· ∈ docs) := by
  induction fields generalizing ix with
  | nil => exact ⟨ix, rfl, h⟩
  | cons e rest ih =>
    obtain ⟨field, unique⟩ := e
    obtain ⟨field, rfl, other⟩ := others (field, unique) (by simp)
    obtain ⟨index, built, same, -⟩ := fill_named { field := .string field, unique } hd rfl
    have put := h.putIndex same other
    rw [← ofCollection_put ix (.string c) (putIndex index _)] at put
    obtain ⟨last, done, guards⟩ := ih (fun e he => others e (by simp [he])) put
    refine ⟨last, ?_, guards⟩
    simp only [List.map_cons, inTurn, build_string built same]
    exact done

/-- After ids come the other fields that a schema marks. -/
theorem indexedFields_others (schema : Schema) :
    ∀ e ∈ (indexedFields schema).tail, ∃ field, e.1 = .string field ∧ field ≠ "id" := by
  intro e he
  obtain ⟨⟨field, f⟩, hf, rfl⟩ := List.mem_map.mp he
  exact ⟨field, rfl, by simpa using (Bool.and_eq_true_iff.mp (List.mem_filter.mp hf).2).2⟩

/-- Opening a collection over documents with ids makes indexes that know them. -/
theorem indexedFields_guards (schema : Schema) {ix : Indexes}
    (none : ix.ofCollection (.string c) = []) (hd : ∀ d ∈ docs, ∃ s, d.idText? = some s) :
    ∃ ix', inTurn ((indexedFields schema).map fun (field, unique) => build c docs field unique) ix =
        (ix', .ok ()) ∧
      Guards (ix'.ofCollection (.string c)) (· ∈ docs) := by
  obtain ⟨index, built, same, unique, -, filed⟩ :=
    fill_named { field := .string "id", unique := .bool true } hd rfl
  have first : Guards (ofCollection (Catalog.put ix (.string c)
      (putIndex index (ix.ofCollection (.string c)))) (.string c)) (· ∈ docs) := by
    rw [ofCollection_put, none]
    refine ⟨fun i hi => ?_, index, by simp [putIndex], same, by rw [unique]; rfl, filed rfl⟩
    obtain rfl : i = index := by simpa [putIndex] using hi
    exact ⟨"id", same⟩
  obtain ⟨last, done, guards⟩ := builds_guards (indexedFields_others schema) hd first
  refine ⟨last, ?_, guards⟩
  have whole : indexedFields schema =
      (.string "id", .bool true) :: (indexedFields schema).tail := rfl
  rw [whole]
  simp only [List.map_cons, inTurn, build_string built same]
  exact done

theorem watched_create (h : Watched c s) (registered : Registered) :
    Watched c (create c registered s).1 := by
  unfold create
  split
  · exact h
  · cases created : s.memory.create (.string c) with
    | error e => exact h
    | ok entry =>
      obtain ⟨m, name⟩ := entry
      have identified : Identified (m.documents (.string c)) := by
        cases held : s.memory.holds (.string c) with
        | true =>
          cases (Memory.create_held held).symm.trans created
          exact h.identified
        | false =>
          rw [Memory.create_fresh held] at created
          split at created
          · cases created
            rw [Memory.documents_string, Memory.markDirty_collections,
              Memory.setDocuments_collections, Table.lookup_put, if_pos rfl]
            exact .nil
          · cases created
      obtain ⟨ix, done, guards⟩ := indexedFields_guards registered.schema
        (ofCollection_drop s.indexes (.string c)) identified.named
      simp only [given]
      rw [reindexed_ok (s := declared c registered m s) _ done]
      exact ⟨identified, .inr guards⟩

theorem watched_drop (h : Watched c s) : Watched c (drop c s).1 := by
  unfold drop
  split
  · exact h
  · have gone : (s.memory.drop (.string c)).documents (.string c) = [] := by
      rw [Memory.documents_string]
      show ((Table.drop s.memory.collections c).lookup c).getD [] = []
      rw [Table.lookup_drop, if_pos rfl]
      rfl
    refine ⟨?_, .inl (ofCollection_drop s.indexes (.string c))⟩
    rw [gone]
    exact .nil

end Effect

/-- What an operation does at once keeps ids apart in all collections. -/
theorem Operation.watched_effect {s : Store} (h : ∀ c, s.Watched c) {op : Operation}
    (fresh : op.Fresh s) (c : String) : (op.effect s).1.Watched c := by
  by_cases own : c = op.collection
  · subst own
    cases op with
    | insert c doc => exact Effect.watched_insert (h c) fresh
    | update c id changes => exact Effect.watched_update (h c)
    | delete c id => exact Effect.watched_delete (h c)
    | deleteMany c filter => exact Effect.watched_deleteMany (h c)
    | create c schema model => exact Effect.watched_create (h c) ⟨schema, model⟩
    | drop c => exact Effect.watched_drop (h c)
  · exact (h c).alike (op.alike_elsewhere own s)

/-! ## Runs of operations side by side -/

/-- A run of operations on store `i`, one after the other or side by side: an operation begins and does
its part at once, or something happens that leaves what the store holds alone. -/
inductive World.Runs (i : Nat) (allowed : Store → Operation → Prop) (w : World) : World → Prop
  | start : Runs i allowed w w
  | begun {v : World} {op : Operation} (run : Runs i allowed w v) (allow : allowed (v.store i) op) :
      Runs i allowed w ((op.task i).advance v).1
  | aside {v v' : World} (run : Runs i allowed w v) (stores : v.stores.length ≤ v'.stores.length)
      (alike : ∀ c, Store.Alike c (v.store i) (v'.store i)) : Runs i allowed w v'

namespace World

variable {i : Nat} {allowed : Store → Operation → Prop} {w v : World} {c : String}

/-- When an operation has begun, the store holds what its effect left. -/
theorem alike_advance (op : Operation) (here : i < v.stores.length) :
    ((op.task i).advance v).1.stores.length = v.stores.length ∧
      ∀ c, Store.Alike c (op.effect (v.store i)).1 (((op.task i).advance v).1.store i) := by
  have has := op.has_effect here
  have lined {s : Store} (line : Option Nat) {v' : World}
      (stores : v'.stores = v.stores.set i { s with line }) :
      v'.stores.length = v.stores.length ∧ ∀ c, Store.Alike c s (v'.store i) := by
    refine ⟨by rw [stores, List.length_set], fun c => ?_⟩
    rw [store_of_stores here stores]
    exact ⟨rfl, rfl, rfl, rfl⟩
  revert has
  obtain ⟨s, outcome⟩ := op.effect (v.store i)
  intro has
  match outcome with
  | .error e =>
    obtain ⟨v', ends, becomes⟩ := has
    rw [ends]
    exact lined s.line becomes.stores
  | .ok none =>
    obtain ⟨v', a, ends, becomes⟩ := has
    rw [ends]
    exact lined s.line becomes.stores
  | .ok (some kind) =>
    obtain ⟨v', next, waits, asks, -⟩ := has
    rw [waits]
    exact lined _ asks.stores

/-- What an operation does at once holds of a whole run. -/
theorem Runs.invariant {P : Store → Prop} (run : Runs i allowed w v)
    (alike : ∀ s s', P s → (∀ c, Store.Alike c s s') → P s')
    (step : ∀ op s, allowed s op → P s → P (op.effect s).1) (here : i < w.stores.length)
    (start : P (w.store i)) : i < v.stores.length ∧ P (v.store i) := by
  induction run with
  | start => exact ⟨here, start⟩
  | @begun v op _ allow ih =>
    obtain ⟨here, hv⟩ := ih
    obtain ⟨length, same⟩ := alike_advance op here
    exact ⟨length ▸ here, alike _ _ (step op _ allow hv) same⟩
  | aside _ stores same ih => exact ⟨Nat.lt_of_lt_of_le ih.1 stores, alike _ _ ih.2 same⟩

/-- An operation that is awaited begins, and then leaves what the store holds alone. -/
theorem Runs.await (run : Runs i allowed w v) (op : Operation) (here : i < v.stores.length)
    (allow : allowed (v.store i) op) :
    Runs i allowed w ((op.task i).run Writer.serve v).1 := by
  obtain ⟨v', r, ran, awaits⟩ := Op.has_awaits (op.has_effect here) here
  obtain ⟨line, stores⟩ := awaits.stores
  obtain ⟨length, begun⟩ := alike_advance op here
  rw [ran]
  refine (run.begun allow).aside (by rw [length, stores, List.length_set]) fun c => ?_
  rw [store_of_stores here stores]
  have waited := Effect.awaited_alike (op.effect (v.store i)) v.directory c
  have begun := begun c
  exact ⟨waited.connected.trans begun.connected.symm, waited.collection.trans begun.collection.symm,
    waited.indexes.trans begun.indexes.symm, waited.schema.trans begun.schema.symm⟩

end World

/-- An operation neither opens nor closes its store. -/
theorem Operation.connected_effect (op : Operation) (s : Store) :
    (op.effect s).1.connected = s.connected := by
  obtain ⟨act, ⟨indexes, schemas, r, -, same⟩, -⟩ := op.acts s
  have goes : op.effect s = _ := same s.memory.dirty s.line
  rw [goes]
  rfl

namespace Store

variable {i : Nat} {w : World} {c : String} {docs : List Value} {doc : Value}

/-- A collection that is held but was not opened takes any document that has an id. -/
theorem unopened_takes (here : i < w.stores.length) (connected : (w.store i).connected = true)
    (held : (w.store i).memory.collections.lookup c = some docs)
    (unopened : (w.store i).indexes.ofCollection (.string c) = []) (has : hasId doc = .ok true) :
    let after := (insert i (.string c) doc).run Writer.serve w
    (after.1.store i).memory.documents (.string c) = docs ++ [doc] ∧ ¬after.2.IsTaken c := by
  have effect : Effect.insert c doc (w.store i) =
      Effect.committed c (docs ++ [doc]) (w.store i) := by
    have found : Effect.documentsOf (w.store i) c = .ok docs := by
      rw [Effect.documentsOf, connected, Memory.holds_of_lookup held, Memory.documents_string, held]
      rfl
    rw [Effect.insert, found, Effect.given, has, Effect.given, if_pos rfl]
    exact Effect.reindexed_ok _ (changeAll_none unopened)
  have has := Op.has_insert c doc here
  have untaken := isTaken_run_iff (c := c) has here
  obtain ⟨w', r, ran, awaits⟩ := Op.has_awaits has here
  obtain ⟨line, stores⟩ := awaits.stores
  refine ⟨?_, ?_⟩
  · rw [ran, World.store_of_stores here stores]
    have waited := Effect.awaited_alike (Effect.insert c doc (w.store i)) w.directory c
    show ((Effect.insert c doc (w.store i)).awaited w.directory).1.memory.documents (.string c) = _
    rw [Memory.documents_string, waited.collection, ← Memory.documents_string, effect,
      Effect.committed_documents]
  · rw [untaken, effect]
    rintro ⟨field, v, taken⟩
    cases taken

/-- Ids stay apart after a store was opened over files in which they are, however operations begin and
wait beside one another, as long as every insert goes to a collection that was opened or brings a new
id. A collection that was not opened takes any document, whether its id is there or not. -/
theorem ids_stay_apart (here : i < w.stores.length) (closed : (w.store i).connected = false)
    (fresh : (w.store i).memory = {}) (bare : (w.store i).indexes = [])
    (sound : w.directory.Sound)
    (files : ∀ c docs, w.directory.stored? c = some docs → Identified docs) :
    ∃ w₁, (connect i).run Writer.serve w = (w₁, .ok ()) ∧
      (∀ v, World.Runs i (fun s op => op.Fresh s) w₁ v →
        ∀ c, Identified ((v.store i).memory.documents (.string c))) ∧
      ∀ v, World.Runs i (fun _ _ => True) w₁ v → ∀ c docs,
        (v.store i).memory.collections.lookup c = some docs →
        (v.store i).indexes.ofCollection (.string c) = [] → ∀ doc, hasId doc = .ok true →
        let after := (insert i (.string c) doc).run Writer.serve v
        (after.1.store i).memory.documents (.string c) = docs ++ [doc] ∧ ¬after.2.IsTaken c := by
  obtain ⟨m, journal, ran, -, holds⟩ := Load.run_connect here closed fresh sound
  let loaded : Store := { w.store i with memory := m, connected := true }
  let w₁ : World := ({ w with directory := w.directory.ensure, journal } : World).setStore i loaded
  have opened : w₁.store i = loaded := World.store_of_stores (w := w) here rfl
  have length : i < w₁.stores.length := by
    show i < (w.stores.set i loaded).length
    rw [List.length_set]
    exact here
  refine ⟨w₁, ran, ?_, ?_⟩
  · intro v run c
    have start (c : String) : Watched c loaded := by
      refine ⟨?_, .inl ?_⟩
      · show Identified ((m.collections.lookup c).getD [])
        rw [holds]
        cases said : w.directory.stored? c with
        | none => exact .nil
        | some docs => exact files c docs said
      · show (w.store i).indexes.ofCollection (.string c) = []
        rw [bare]
        rfl
    obtain ⟨-, watched⟩ := run.invariant (P := fun s => ∀ c, Watched c s)
      (fun s s' h same c => (h c).alike (same c)) (fun op s fresh h => op.watched_effect h fresh)
      length (opened ▸ start)
    exact (watched c).identified
  · intro v run c docs held unopened doc has
    obtain ⟨there, connected⟩ := run.invariant (P := fun s => s.connected = true)
      (fun s s' h same => (same "").connected.trans h)
      (fun op s _ h => (op.connected_effect s).trans h) length (opened ▸ rfl)
    exact unopened_takes there connected held unopened has

/-! ## A collection that was loaded and not opened -/

/-- A store that is not opened yet, over a collection of one document. -/
def oneUser : World :=
  { directory := some [("users.json", .text "[\x7b\"id\":\"a\"\x7d]")], source := ⟨0, 0, 0⟩
    stores := [{ path := "data", indent := .int 2 }] }

def user (id : String) : Value := .object [("id", .string id)]

theorem oneUser_listed : oneUser.directory.listed = ["users"] := by decide +kernel

theorem oneUser_stored : ∃ docs, oneUser.directory.stored? "users" = some docs ∧
    docs.map Value.idText? = [some "a"] :=
  Option.map_eq_some_iff.mp (by decide +kernel)

theorem oneUser_sound : oneUser.directory.Sound := by
  refine ⟨by decide, fun name listed => ?_⟩
  rw [oneUser_listed, List.mem_singleton] at listed
  subst listed
  obtain ⟨docs, stored, -⟩ := oneUser_stored
  exact ⟨docs, (Directory.stored?_eq_some.mp stored).2⟩

theorem oneUser_identified (c : String) (docs : List Value)
    (stored : oneUser.directory.stored? c = some docs) : Identified docs := by
  have listed := (Directory.stored?_eq_some.mp stored).1
  rw [oneUser_listed, List.mem_singleton] at listed
  subst listed
  obtain ⟨docs', stored', ids⟩ := oneUser_stored
  obtain rfl := Option.some.inj (stored'.symm.trans stored)
  refine ⟨fun d hd => ⟨"a", ?_⟩, by rw [ids]; exact List.nodup_singleton _⟩
  have own : d.idText? ∈ docs'.map Value.idText? := List.mem_map.mpr ⟨d, hd, rfl⟩
  rw [ids] at own
  exact List.mem_singleton.mp own

def openedUser : World := ((connect 0).run Writer.serve oneUser).1

theorem openedUser_run : (connect 0).run Writer.serve oneUser = (openedUser, .ok ()) := by
  obtain ⟨m, journal, ran, -⟩ := Load.run_connect (i := 0) (w := oneUser) (by decide) rfl rfl
    oneUser_sound
  rw [openedUser, ran]

/-- When the store was just opened, the document that is there is taken a second time. -/
theorem user_taken_twice :
    (∀ c docs, oneUser.directory.stored? c = some docs → Identified docs) ∧
      ∃ w, (connect 0).run Writer.serve oneUser = (w, .ok ()) ∧
        ¬∀ v, World.Runs 0 (fun _ _ => True) w v →
          ∀ c, Identified ((v.store 0).memory.documents (.string c)) := by
  refine ⟨oneUser_identified, openedUser, openedUser_run, fun apart => ?_⟩
  have run : World.Runs 0 (fun _ _ => True) openedUser openedUser := .start
  have again := apart _ (run.await (.insert "users" (user "a")) (by decide +kernel) trivial)
    "users"
  have twice : ((((((Operation.insert "users" (user "a")).task 0).run Writer.serve
      openedUser).1.store 0).memory.documents (.string "users")).map Value.idText?) =
        [some "a", some "a"] := by decide +kernel
  have distinct := again.distinct
  rw [twice] at distinct
  exact absurd distinct (by decide)

/-- Once the collection is opened, a new document can come and the old one cannot. -/
theorem user_taken_once :
    let opened := ((Operation.create "users" [] none).task 0).run Writer.serve openedUser
    let added := ((Operation.insert "users" (user "b")).task 0).run Writer.serve opened.1
    let again := ((Operation.insert "users" (user "a")).task 0).run Writer.serve added.1
    Identified ((again.1.store 0).memory.documents (.string "users")) := by
  obtain ⟨w, ran, apart, -⟩ := ids_stay_apart (w := oneUser) (i := 0) (by decide) rfl rfl rfl
    oneUser_sound oneUser_identified
  obtain rfl : openedUser = w := congrArg Prod.fst ran
  have opened : World.Runs 0 (fun s op => op.Fresh s) openedUser _ :=
    World.Runs.await .start (.create "users" [] none) (by decide +kernel) trivial
  have added := opened.await (.insert "users" (user "b")) (by decide +kernel)
    (.inl (by decide +kernel))
  have again := added.await (.insert "users" (user "a")) (by decide +kernel)
    (.inl (by decide +kernel))
  exact apart _ again "users"

end Store

end DocStore
