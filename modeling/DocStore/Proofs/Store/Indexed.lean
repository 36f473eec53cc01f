import DocStore.Proofs.Index.Collection
import DocStore.Proofs.Query.Basic
import DocStore.Proofs.Store.Document
import DocStore.Proofs.Store.Run
/-!
The indexes of a collection agree with its documents, whatever is done to it: each operation makes
its indexes exact for the documents that it leaves, or changes neither.
-/

namespace DocStore

open Indexes
open Value (IsDocument)

/-! ## Indexes and schema -/

/-- Indexes are those that a schema declares. -/
structure Declares (schema : Schema) (shape : List (Value × Value)) : Prop where
  covered : ∀ e ∈ Effect.indexedFields schema, e.1 ∈ shape.map (·.1)
  given : ∀ e ∈ shape, e ∈ Effect.indexedFields schema

namespace Declares

variable {schema : Schema} {shape : List (Value × Value)}

/-- Ids are indexed, and no two documents have one. -/
theorem id_unique (h : Declares schema shape) : (.string "id", .bool true) ∈ shape := by
  obtain ⟨e, he, own⟩ := List.mem_map.mp (h.covered (.string "id", .bool true) (by
    simp [Effect.indexedFields]))
  have declared := h.given e he
  rcases List.mem_cons.mp declared with rfl | later
  · exact he
  · obtain ⟨⟨field, f⟩, hf, rfl⟩ := List.mem_map.mp later
    have named := (List.mem_filter.mp hf).2
    simp only [Value.string.injEq] at own
    simp [own] at named

/-- A field that is marked indexed has an index. -/
theorem indexed (h : Declares schema shape) {field : String} {f : Field}
    (hf : (field, f) ∈ schema) (marked : f.indexed = true) : .string field ∈ shape.map (·.1) := by
  by_cases own : field = "id"
  · subst own
    exact List.mem_map.mpr ⟨_, h.id_unique, rfl⟩
  · refine h.covered (.string field, f.unique) (List.mem_cons_of_mem _ ?_)
    exact List.mem_map.mpr ⟨(field, f), List.mem_filter.mpr ⟨hf, by simp [marked, own]⟩, rfl⟩

end Declares

theorem mem_fields_of_shape {indexes : List FieldIndex} {field : Value} :
    field ∈ (shape indexes).map (·.1) ↔ field ∈ indexes.map (·.field) := by
  rw [shape, List.map_map]
  rfl

/-! ## Collections with exact indexes -/

/-- A collection of a connected store is held, and its indexes are those of its schema, each exact
for its documents. -/
structure Store.Indexed (c : String) (s : Store) : Prop where
  connected : s.connected = true
  held : s.memory.holds (.string c) = true
  kept : Kept (s.memory.documents (.string c))
  exact : AllExact (s.indexes.ofCollection (.string c)) (· ∈ s.memory.documents (.string c))
  registered : ∃ r, s.schemas.lookup c = some r ∧
    Declares r.schema (shape (s.indexes.ofCollection (.string c)))

namespace Store.Indexed

variable {c : String} {s s' : Store}

theorem alike (h : Indexed c s) (same : Alike c s s') : Indexed c s' := by
  have documents : s'.memory.documents (.string c) = s.memory.documents (.string c) := by
    rw [Memory.documents_string, Memory.documents_string, same.collection]
  have held : s'.memory.holds (.string c) = s.memory.holds (.string c) := by
    rw [Memory.holds_string, Memory.holds_string, Table.has, Table.has, same.collection]
  refine ⟨same.connected.trans h.connected, held.trans h.held, ?_, ?_, ?_⟩
  · rw [documents]; exact h.kept
  · rw [documents, same.indexes]; exact h.exact
  · rw [same.indexes, same.schema]; exact h.registered

theorem documentsOf (h : Indexed c s) :
    Effect.documentsOf s c = .ok (s.memory.documents (.string c)) := by
  simp [Effect.documentsOf, h.connected, h.held]

theorem indexes_ne_nil (h : Indexed c s) : s.indexes.ofCollection (.string c) ≠ [] := by
  obtain ⟨r, -, declares⟩ := h.registered
  intro none
  have own := declares.id_unique
  rw [none] at own
  cases own

end Store.Indexed

/-- What an operation on a collection with exact indexes comes to: the indexes are exact again, and
it was refused over a value that is taken, or the collection has new documents. -/
structure Effect.Settles (c : String) (s : Store) (effect : Effect) (taken : Prop)
    (docs : List Value) : Prop where
  indexed : effect.1.Indexed c
  schemas : effect.1.schemas = s.schemas
  outcome : (taken ∧
      effect.1.memory.documents (.string c) = s.memory.documents (.string c) ∧
      ∃ field v, effect.2 = .error (.uniqueConstraint (.string c) field v)) ∨
    ¬taken ∧ effect.1.memory.documents (.string c) = docs ∧ effect.2 = .ok (some .flush)

namespace Effect

variable {c : String} {s : Store} {docs : List Value}

theorem committed_documents (c : String) (docs : List Value) (s : Store) :
    (committed c docs s).1.memory.documents (.string c) = docs := by
  simp [committed, Memory.documents_string, Table.lookup_put]

theorem reindexed_settles {change : Indexes → Indexes × Result Unit} {taken : Prop}
    {stored : Value → Prop} (h : s.Indexed c) (writes : Writes s.indexes c (change s.indexes) taken stored)
    (members : ∀ d, d ∈ docs ↔ stored d) (kept : ¬taken → Kept docs) :
    Settles c s (reindexed s change (committed c docs)) taken docs := by
  rcases writes with ⟨taken, field, v, refused⟩ | ⟨free, ix, done, exact, same⟩
  · rw [reindexed, refused]
    exact ⟨h, rfl, .inl ⟨taken, rfl, field, v, rfl⟩⟩
  · rw [reindexed, done]
    have documents := committed_documents c docs { s with indexes := ix }
    refine ⟨⟨h.connected, ?_, ?_, ?_, ?_⟩, rfl, .inr ⟨free, documents, rfl⟩⟩
    · simp [committed, Memory.holds_string, Table.has_put]
    · rw [documents]; exact kept free
    · rw [documents]; exact exact.congr members
    · obtain ⟨r, hr, declares⟩ := h.registered
      exact ⟨r, hr, same ▸ declares⟩

variable {doc id changes old new : Value} {n : Nat}

/-- When no value that a document claims is taken, its id is new. -/
theorem fresh_of_free (h : s.Indexed c) (hd : IsDocument doc)
    (free : ¬Taken (fun _ => True) (s.indexes.ofCollection (.string c))
      (· ∈ s.memory.documents (.string c)) doc) :
    ∀ d ∈ s.memory.documents (.string c), d.under "id" ≠ doc.under "id" := by
  intro d there same
  obtain ⟨r, -, declares⟩ := h.registered
  obtain ⟨a, ha⟩ := hd.named
  refine free ⟨_, declares.id_unique, trivial, rfl, "id", rfl, d, there, ?_, ?_⟩
  · rw [same, ha]
    exact nofun
  · rw [same, ← Key.ofValue_eq_iff (Value.plain_under hd.plain "id") _
      (Value.plain_under hd.plain "id")]

theorem insert_settles (h : s.Indexed c) (hd : IsDocument doc)
    (known : Store.hasId doc = .ok true) :
    Settles c s (insert c doc s)
      (Taken (fun _ => True) (s.indexes.ofCollection (.string c))
        (· ∈ s.memory.documents (.string c)) doc)
      (s.memory.documents (.string c) ++ [doc]) := by
  rw [insert, h.documentsOf, given, known, given, if_pos rfl]
  have writes := insert_writes h.exact h.indexes_ne_nil h.kept.documents hd
  exact reindexed_settles h writes (fun d => by simp) fun free =>
    h.kept.append hd (fresh_of_free h hd free)

theorem update_at (h : s.Indexed c)
    (place : Store.position id (s.memory.documents (.string c)) 0 = .ok (some n))
    (hn : n < (s.memory.documents (.string c)).length) :
    update c id changes s =
      given s (Store.merged (s.memory.documents (.string c))[n] changes) fun new =>
        reindexed s (·.update (.string c) (s.memory.documents (.string c))[n] new)
          (committed c ((s.memory.documents (.string c)).set n new)) := by
  have at_n : (s.memory.documents (.string c)).getD n .null =
      (s.memory.documents (.string c))[n] := by simp [hn]
  rw [update, h.documentsOf, given, place, given]
  simp only [at_n]

theorem update_settles (h : s.Indexed c)
    (place : Store.position id (s.memory.documents (.string c)) 0 = .ok (some n))
    (hn : n < (s.memory.documents (.string c)).length)
    (merged : Store.merged (s.memory.documents (.string c))[n] changes = .ok new)
    (plain : changes.Plain) :
    Settles c s (update c id changes s)
      (Taken (Moves (s.memory.documents (.string c))[n] new) (s.indexes.ofCollection (.string c))
        (· ∈ s.memory.documents (.string c)) new)
      ((s.memory.documents (.string c)).set n new) := by
  have there := List.getElem_mem hn
  have old := h.kept.documents _ there
  obtain ⟨document, own⟩ := Value.merged_document old plain merged
  rw [update_at h place hn, merged, given]
  have writes := update_writes h.exact h.indexes_ne_nil h.kept.documents there document own
    (h.kept.only there)
  exact reindexed_settles h writes (h.kept.mem_set hn) fun _ => h.kept.set hn document own

theorem delete_settles (h : s.Indexed c)
    (place : Store.position id (s.memory.documents (.string c)) 0 = .ok (some n))
    (hn : n < (s.memory.documents (.string c)).length) :
    Settles c s (delete c id s) False ((s.memory.documents (.string c)).eraseIdx n) := by
  have there := List.getElem_mem hn
  have at_n : (s.memory.documents (.string c)).getD n .null =
      (s.memory.documents (.string c))[n] := by simp [hn]
  rw [delete, h.documentsOf, given, place, given]
  simp only [at_n]
  have writes := delete_writes h.exact h.indexes_ne_nil (h.kept.documents _ there)
    (h.kept.only there)
  exact reindexed_settles h writes (h.kept.mem_eraseIdx hn) fun _ =>
    h.kept.sublist (List.eraseIdx_sublist _ _)

/-- Documents that are taken out of the indexes one after the other. -/
theorem deletes_writes {stored : Value → Prop} {found : List Value} {ix : Indexes}
    (h : AllExact (ix.ofCollection (.string c)) stored)
    (indexed : ix.ofCollection (.string c) ≠ []) (hf : ∀ f ∈ found, IsDocument f)
    (only : ∀ f ∈ found, FieldIndex.Only stored f) :
    Writes ix c (inTurn (found.map fun doc => (·.delete (.string c) doc)) ix) False
      fun d => stored d ∧ ∀ f ∈ found, d.under "id" ≠ f.under "id" := by
  induction found generalizing ix stored with
  | nil => exact .inr ⟨id, ix, rfl, h.congr fun d => by simp, rfl⟩
  | cons f rest ih =>
    rcases delete_writes h indexed (hf f (by simp)) (only f (by simp)) with
      ⟨impossible, -⟩ | ⟨-, next, done, exact, same⟩
    · exact impossible.elim
    · have indexed' : next.ofCollection (.string c) ≠ [] := by
        intro none
        rw [none] at same
        exact indexed (List.map_eq_nil_iff.mp same.symm)
      rcases ih exact indexed' (fun f hf' => hf f (by simp [hf'])) (fun f hf' d there own =>
          only f (by simp [hf']) d there.1 own) with ⟨impossible, -⟩ | ⟨-, last, done', exact', same'⟩
      · exact impossible.elim
      · refine .inr ⟨id, last, ?_, exact'.congr fun d => ?_, same'.trans same⟩
        · simp only [List.map_cons, inTurn, done]
          exact done'
        · simp [and_assoc]

theorem deleteMany_settles {filter : Value} {found : List Value} (h : s.Indexed c)
    (hf : Query.run { filter } (s.memory.documents (.string c)) = .ok found)
    (nonempty : found.isEmpty = false) :
    ∃ left, left.Sublist (s.memory.documents (.string c)) ∧
      Settles c s (deleteMany c filter s) False left := by
  have sub : found.Sublist (s.memory.documents (.string c)) :=
    Filter.run_sublist (Query.run_filter filter _ ▸ hf)
  have documents : ∀ f ∈ found, IsDocument f := fun f hf => h.kept.documents f (sub.subset hf)
  obtain ⟨ids, hids, mem_ids⟩ := Store.idsOf_documents documents
  have texts : ∀ id ∈ ids, ∃ s, id = .string s := by
    intro id hid
    obtain ⟨f, hf, rfl⟩ := (mem_ids id).mp hid
    exact (documents f hf).named
  obtain ⟨left, hleft, sub_left, mem_left⟩ := Store.without_documents texts h.kept.documents
  refine ⟨left, sub_left, ?_⟩
  simp only [deleteMany, h.documentsOf, given, hf, nonempty, Bool.false_eq_true, if_false, hids, hleft]
  have writes := deletes_writes h.exact h.indexes_ne_nil documents fun f hf =>
    h.kept.only (sub.subset hf)
  refine reindexed_settles h writes (fun d => ?_) fun _ => h.kept.sublist sub_left
  rw [mem_left, mem_ids]
  simp only [not_exists, not_and, ne_eq, eq_comm]

/-! ## Opening a collection -/

/-- Indexes that are built one after the other are all exact. -/
theorem builds_exact {fields : List (Value × Value)} {ix : Indexes}
    (named : ∀ e ∈ fields, ∃ field, e.1 = .string field) (hd : ∀ d ∈ docs, IsDocument d)
    (h : AllExact (ix.ofCollection (.string c)) (· ∈ docs)) :
    ∃ ix', inTurn (fields.map fun (field, unique) => build c docs field unique) ix = (ix', .ok ()) ∧
      AllExact (ix'.ofCollection (.string c)) (· ∈ docs) ∧
      (∀ e ∈ shape (ix'.ofCollection (.string c)),
        e ∈ shape (ix.ofCollection (.string c)) ∨ e ∈ fields) ∧
      ∀ field, .string field ∈ (ix.ofCollection (.string c)).map (·.field) ∨
        .string field ∈ fields.map (·.1) →
          .string field ∈ (ix'.ofCollection (.string c)).map (·.field) := by
  induction fields generalizing ix with
  | nil => exact ⟨ix, rfl, h, fun e he => .inl he, fun field => by simp⟩
  | cons e rest ih =>
    obtain ⟨field, unique⟩ := e
    obtain ⟨field, rfl⟩ := named (field, unique) (by simp)
    obtain ⟨index, built, flag, exact⟩ := build_exact field unique hd
    have step : build c docs (.string field) unique ix = (Catalog.put ix (.string c)
        (putIndex index (ix.ofCollection (.string c))), .ok ()) := by
      rw [build, built]
      exact register_string ix c exact.named
    have exact' : AllExact (putIndex index (ix.ofCollection (.string c))) (· ∈ docs) := by
      intro i hi
      rcases mem_putIndex hi with rfl | hi
      · exact ⟨field, exact⟩
      · exact h i hi
    have later : ∀ e ∈ rest, ∃ field, e.1 = .string field := fun e he => named e (by simp [he])
    rw [← ofCollection_put ix (.string c) (putIndex index _)] at exact'
    obtain ⟨last, done, all, given, covered⟩ := ih later exact'
    rw [ofCollection_put] at given covered
    refine ⟨last, ?_, all, fun e he => ?_, fun other => ?_⟩
    · simp only [List.map_cons, inTurn, step]
      exact done
    · rcases given e he with earlier | later
      · obtain ⟨i, hi, hfield, hunique⟩ := mem_shape.mp earlier
        rcases mem_putIndex hi with rfl | hi
        · refine .inr (List.mem_cons.mpr (.inl ?_))
          rw [← exact.named, ← flag, hfield, hunique]
        · exact .inl (mem_shape.mpr ⟨i, hi, hfield, hunique⟩)
      · exact .inr (List.mem_cons_of_mem _ later)
    · intro there
      refine covered other ?_
      rw [fields_putIndex index (fun i hi => (h i hi).imp fun _ e => e.named) ⟨field, exact.named⟩,
        exact.named]
      rw [List.map_cons, List.mem_cons] at there
      rcases there with there | same | later
      · exact .inl (.inr there)
      · exact .inl (.inl same.symm)
      · exact .inr later

/-- A collection that is opened over documents without a common id has exact indexes. -/
theorem create_indexed (registered : Registered) {m : Memory} (connected : s.connected = true)
    (created : s.memory.create (.string c) = .ok (m, c))
    (kept : Kept (m.documents (.string c))) :
    ∃ s', create c registered s = (s', .ok (some .flush)) ∧ s'.Indexed c ∧ s'.memory = m ∧
      s'.schemas = Table.put s.schemas c registered := by
  have none : AllExact ((s.indexes.drop (.string c)).ofCollection (.string c))
      (· ∈ m.documents (.string c)) := by
    rw [ofCollection_drop]
    exact fun index hi => absurd hi List.not_mem_nil
  obtain ⟨ix, built, exact, given, covered⟩ :=
    builds_exact (indexedFields_named registered.schema) kept.documents none
  refine ⟨{ declared c registered m s with indexes := ix }, ?_, ?_, rfl, rfl⟩
  · simp only [create, connected, Bool.not_true, Bool.false_eq_true, if_false, created, Effect.given,
      reindexed, declared]
    rw [built]
  · refine ⟨connected, Memory.create_holds created, kept, exact, registered, ?_, ?_, ?_⟩
    · exact (Table.lookup_put ..).trans (if_pos rfl)
    · intro e he
      obtain ⟨field, named⟩ := indexedFields_named registered.schema e he
      rw [mem_fields_of_shape, named]
      exact covered field (.inr (named ▸ List.mem_map.mpr ⟨e, he, rfl⟩))
    · intro e he
      rcases given e he with earlier | declared
      · rw [ofCollection_drop] at earlier
        cases earlier
      · exact declared

theorem create_memory (registered : Registered) {m : Memory} {name : String}
    (connected : s.connected = true) (created : s.memory.create (.string c) = .ok (m, name)) :
    (create c registered s).1.memory = m := by
  simp only [create, connected, Bool.not_true, Bool.false_eq_true, if_false, created,
    Effect.given, reindexed]
  split <;> rfl

/-- A collection is opened only in a connected store, under a name that it may have. -/
theorem created_of_ok {registered : Registered} {s' : Store} {kind : Option WriteKind}
    (h : create c registered s = (s', .ok kind)) :
    s.connected = true ∧ s.memory.create (.string c) = .ok (s'.memory, c) := by
  cases connected : s.connected with
  | false => simp [create, connected] at h
  | true =>
    refine ⟨rfl, ?_⟩
    cases created : s.memory.create (.string c) with
    | error e => simp [create, connected, created, given] at h
    | ok named =>
      obtain ⟨m, name⟩ := named
      have memory := create_memory registered connected created
      obtain rfl := Memory.create_string created
      rw [h] at memory
      rw [← memory]

end Effect

/-! ## Every operation -/

namespace Operation

/-- A write on a collection with plain data. -/
def Writes (c : String) : Operation → Prop
  | insert c' doc => c' = c ∧ doc.Plain
  | update c' _ changes => c' = c ∧ changes.Plain
  | delete c' _ | deleteMany c' _ => c' = c
  | create .. | drop _ => False

/-- The opening of a collection, whatever its schema. -/
def Opens (c : String) : Operation → Prop
  | create c' _ _ => c' = c
  | _ => False

variable {c : String} {s : Store} {op : Operation}

/-- What a write comes to: nothing changes, or it settles with a document added, one in the place of
another with its id, or some taken out. -/
inductive Change (c : String) (s : Store) (effect : Effect) : Prop
  | nothing (same : effect.1 = s)
  | add (doc : Value) (hd : IsDocument doc)
    (settles : effect.Settles c s
      (Taken (fun _ => True) (s.indexes.ofCollection (.string c))
        (· ∈ s.memory.documents (.string c)) doc)
      (s.memory.documents (.string c) ++ [doc]))
  | replace (n : Nat) (hn : n < (s.memory.documents (.string c)).length) (new : Value)
    (hd : IsDocument new) (own : new.under "id" = (s.memory.documents (.string c))[n].under "id")
    (settles : effect.Settles c s
      (Taken (Moves (s.memory.documents (.string c))[n] new) (s.indexes.ofCollection (.string c))
        (· ∈ s.memory.documents (.string c)) new)
      ((s.memory.documents (.string c)).set n new))
  | remove (left : List Value) (sub : left.Sublist (s.memory.documents (.string c)))
    (settles : effect.Settles c s False left)

theorem change_of_writes (h : s.Indexed c) (writes : op.Writes c) : Change c s (op.effect s) := by
  cases op with
  | insert c' doc =>
    obtain ⟨rfl, plain⟩ := writes
    cases known : Store.hasId doc with
    | error e => exact .nothing (by simp [effect, Effect.insert, h.documentsOf, Effect.given, known])
    | ok known' =>
      cases known' with
      | false =>
        exact .nothing (by simp [effect, Effect.insert, h.documentsOf, Effect.given, known])
      | true =>
        have hd := Store.hasId_document plain known
        exact .add doc hd (Effect.insert_settles h hd known)
  | update c' id changes =>
    obtain ⟨rfl, plain⟩ := writes
    cases place : Store.position id (s.memory.documents (.string c')) 0 with
    | error e =>
      exact .nothing (by simp [effect, Effect.update, h.documentsOf, Effect.given, place])
    | ok n =>
      cases n with
      | none => exact .nothing (by simp [effect, Effect.update, h.documentsOf, Effect.given, place])
      | some n =>
        obtain ⟨-, hn, -⟩ := Store.position_spec place
        cases merged : Store.merged (s.memory.documents (.string c'))[n] changes with
        | error e =>
          exact .nothing (by simp only [effect, Effect.update_at h place hn, merged, Effect.given])
        | ok new =>
          have old := h.kept.documents _ (List.getElem_mem hn)
          obtain ⟨document, own⟩ := Value.merged_document old plain merged
          exact .replace n hn new document own (Effect.update_settles h place hn merged plain)
  | delete c' id =>
    obtain rfl := writes
    cases place : Store.position id (s.memory.documents (.string c')) 0 with
    | error e =>
      exact .nothing (by simp [effect, Effect.delete, h.documentsOf, Effect.given, place])
    | ok n =>
      cases n with
      | none => exact .nothing (by simp [effect, Effect.delete, h.documentsOf, Effect.given, place])
      | some n =>
        obtain ⟨-, hn, -⟩ := Store.position_spec place
        exact .remove _ (List.eraseIdx_sublist _ _) (Effect.delete_settles h place hn)
  | deleteMany c' filter =>
    obtain rfl := writes
    cases hf : Query.run { filter } (s.memory.documents (.string c')) with
    | error e =>
      exact .nothing (by simp [effect, Effect.deleteMany, h.documentsOf, Effect.given, hf])
    | ok found =>
      cases nonempty : found.isEmpty with
      | true =>
        exact .nothing (by
          simp [effect, Effect.deleteMany, h.documentsOf, Effect.given, hf, nonempty])
      | false =>
        obtain ⟨left, sub, settles⟩ := Effect.deleteMany_settles h hf nonempty
        exact .remove left sub settles
  | create | drop => exact writes.elim

/-- Each write leaves indexes exact. -/
theorem indexed_of_writes (h : s.Indexed c) (writes : op.Writes c) : (op.effect s).1.Indexed c := by
  cases change_of_writes h writes with
  | nothing same => rw [same]; exact h
  | add _ _ settles | replace _ _ _ _ _ settles | remove _ _ settles => exact settles.indexed

/-- Opening a collection anew leaves its documents, and builds exact indexes for the new schema. -/
theorem indexed_of_opens (h : s.Indexed c) (opens : op.Opens c) : (op.effect s).1.Indexed c := by
  cases op with
  | create c' schema model =>
    obtain rfl := opens
    obtain ⟨s', done, indexed, -⟩ := Effect.create_indexed ⟨schema, model⟩
      h.connected (Memory.create_held h.held) h.kept
    rw [effect, done]
    exact indexed
  | _ => exact opens.elim

end Operation

namespace Store

variable {i : Nat} {c : String} {schema : Schema} {model : Option Nat} {w w' : World}

theorem lt_of_created {r : Unit}
    (h : (createCollection i (.string c) schema model).run Writer.serve w = (w', .ok r)) :
    i < w.stores.length := by
  by_contra out
  have absent : (w.store i).connected = false := by
    rw [World.store_of_out out]
    rfl
  have refused : (requireConnected i).advance w = (w, .done (.error .adapterNotConnected)) := by
    rw [Op.advance_requireConnected, absent]
    rfl
  have failed : (createCollection i (.string c) schema model).advance w =
      (w, .done (.error .adapterNotConnected)) := Task.advance_bind_failed refused
  cases (Task.run_of_done failed).symm.trans h

/-- A collection that was opened over documents without a common id is indexed. -/
theorem opened_indexed
    (opened : (createCollection i (.string c) schema model).run Writer.serve w = (w', .ok ()))
    (kept : Kept ((w'.store i).memory.documents (.string c))) :
    i < w'.stores.length ∧ (w'.store i).Indexed c ∧
      (w'.store i).schemas.lookup c = some ⟨schema, model⟩ := by
  have hi := lt_of_created opened
  obtain ⟨v, r, ran, awaits⟩ := Op.has_awaits (Op.has_create c schema model hi) hi
  rw [opened] at ran
  cases ran
  obtain ⟨line, stores⟩ := awaits.stores
  obtain ⟨failed, -⟩ := Effect.awaited_outcome (Effect.create c ⟨schema, model⟩ (w.store i))
    w.directory
  have alike : Alike c (Effect.create c ⟨schema, model⟩ (w.store i)).1 (w'.store i) := by
    rw [World.store_of_stores hi stores]
    exact (Effect.awaited_alike _ w.directory c).trans ⟨rfl, rfl, rfl, rfl⟩
  rcases effect : Effect.create c ⟨schema, model⟩ (w.store i) with ⟨s', outcome⟩
  cases outcome with
  | error e =>
    have refused := awaits.outcome.trans (failed e (by rw [effect]))
    cases refused
  | ok kind =>
    obtain ⟨connected, created⟩ := Effect.created_of_ok effect
    have kept' : Kept (s'.memory.documents (.string c)) := by
      rw [effect] at alike
      rwa [Memory.documents_string, alike.collection] at kept
    obtain ⟨s'', done, indexed, -, schemas⟩ := Effect.create_indexed ⟨schema, model⟩
      connected created kept'
    rw [effect] at done
    cases done
    rw [effect] at alike
    refine ⟨by rw [stores, List.length_set]; exact hi, indexed.alike alike, ?_⟩
    rw [alike.schema, schemas]
    exact (Table.lookup_put ..).trans (if_pos rfl)

/-- Indexes agree with a scan, whatever is done to a collection after it was opened over documents
with ids of their own: for the ids and each field that the schema marks, what is found under a value
are the ids of the documents that a scan finds, and no key is kept without an id. -/
theorem find_agrees_with_scan {w₀ w₁ : World}
    (opened : (createCollection i (.string c) schema model).run Writer.serve w₀ = (w₁, .ok ()))
    (kept : Kept ((w₁.store i).memory.documents (.string c)))
    (run : World.Reaches i c (fun op => op.Writes c ∨ op.Opens c) w₁ w) :
    ∃ r, Table.get? (w.store i).schemas c = some r ∧
      (∀ field, (field = "id" ∨
          ∃ f, (field, f) ∈ r.schema ∧ (f.index.truthy = true ∨ f.unique.truthy = true)) →
        ∀ v : Value, v.Plain → v ≠ .null →
        ∃ found, (w.store i).indexes.find (.string c) (.string field) v = .ok found ∧
          (found = none ↔ ¬∃ d ∈ (w.store i).memory.documents (.string c),
            strictEq (d.under field) v = true) ∧
          ∀ ids, found = some ids → ids.Nodup ∧
            ∀ id, id ∈ ids ↔ ∃ d ∈ (w.store i).memory.documents (.string c),
              strictEq (d.under field) v = true ∧ d.under "id" = id) ∧
      ∀ index ∈ (w.store i).indexes.ofCollection (.string c),
        ∀ e ∈ index.entries, e.2 ≠ [] := by
  obtain ⟨hi, indexed, -⟩ := opened_indexed opened kept
  obtain ⟨-, h⟩ := run.invariant (P := Indexed c) (fun s s' h alike => h.alike alike)
    (fun op s allow h => allow.elim (Operation.indexed_of_writes h) (Operation.indexed_of_opens h)) hi indexed
  obtain ⟨r, registered, declares⟩ := h.registered
  refine ⟨r, registered, fun field marked v plain valued => ?_, filled_sets h.exact⟩
  refine find_exact h.exact ?_ h.kept.documents plain valued
  rw [← mem_fields_of_shape]
  rcases marked with rfl | ⟨f, hf, marked⟩
  · exact List.mem_map.mpr ⟨_, declares.id_unique, rfl⟩
  · refine declares.indexed hf ?_
    rw [Field.indexed, Field.indexFlag]
    split
    · assumption
    · next plain => exact marked.resolve_left plain

def note (id : String) (n : Int) : Value := .object [("id", .string id), ("n", .int n)]

theorem note_document (id : String) (n : Int) : IsDocument (note id n) := by
  have distinct : ["id", "n"].Nodup := by decide
  refine ⟨.object distinct fun e he => ?_, id, rfl⟩
  rcases List.mem_pair.mp he with rfl | rfl
  · exact .string id
  · exact .int n

/-- A world of one connected store that holds a collection with one document. -/
def oneNote : World :=
  { source := ⟨0, 0, 0⟩
    stores := [{
      path := "data", indent := .null, connected := true
      memory := { collections := [("notes", [note "a" 1])] } }] }

/-- A schema in which numbers are unique. -/
def noteSchema : Schema := [("n", { type := .number, unique := .bool true })]

def openedNote : World :=
  ((createCollection 0 (.string "notes") noteSchema none).run Writer.serve oneNote).1

theorem kept_openedNote : Kept ((openedNote.store 0).memory.documents (.string "notes")) := by
  have held : (openedNote.store 0).memory.documents (.string "notes") = [note "a" 1] := rfl
  rw [held]
  exact ⟨fun d hd => List.mem_singleton.mp hd ▸ note_document "a" 1, List.nodup_singleton _⟩

/-- What is found after an insert, and after the collection was opened anew without a schema. -/
theorem find_agrees_after_insert :
    let op : Operation := .insert "notes" (note "b" 2)
    let w := ((op.task 0).run Writer.serve openedNote).1
    let w := (((Operation.create "notes" [] none).task 0).run Writer.serve w).1
    ∃ found, (w.store 0).indexes.find (.string "notes") (.string "id") (.string "b") = .ok found ∧
      (found = none ↔ ¬∃ d ∈ (w.store 0).memory.documents (.string "notes"),
        strictEq (d.under "id") (.string "b") = true) := by
  have opened : (createCollection 0 (.string "notes") noteSchema none).run Writer.serve oneNote =
      (openedNote, .ok ()) := rfl
  have inserted : World.Reaches 0 "notes" (fun op => op.Writes "notes" ∨ op.Opens "notes") openedNote
      (((Operation.insert "notes" (note "b" 2)).task 0).run Writer.serve openedNote).1 :=
    .await .start (.inl ⟨rfl, (note_document "b" 2).plain⟩)
  have reopened : (Operation.create "notes" [] none).Writes "notes" ∨
      (Operation.create "notes" [] none).Opens "notes" := .inr rfl
  obtain ⟨r, -, found, -⟩ :=
    find_agrees_with_scan opened kept_openedNote (.await inserted reopened)
  obtain ⟨ids, hf, none, -⟩ := found "id" (.inl rfl) (.string "b") (.string "b") nofun
  exact ⟨ids, hf, none⟩

end Store

end DocStore
