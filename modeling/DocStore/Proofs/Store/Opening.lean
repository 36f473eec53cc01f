import DocStore.Proofs.Index.Reflect
import DocStore.Proofs.Store.Indexed
/-!
Opening a collection: its indexes are then those of the fields that its schema marks, in their order,
each exact for the documents that are held, whatever indexes there were before.
-/

namespace DocStore

open Indexes
open Value (IsDocument)

namespace Indexes

/-- An index of a field that has none comes to the end. -/
theorem putIndex_new {indexes : List FieldIndex} {index : FieldIndex} {field : String}
    (named : index.field = .string field) (texts : ∀ i ∈ indexes, ∃ f, i.field = .string f)
    (fresh : .string field ∉ indexes.map (·.field)) : putIndex index indexes = indexes ++ [index] := by
  induction indexes with
  | nil => rfl
  | cons i rest ih =>
    obtain ⟨f, hf⟩ := texts i (by simp)
    rw [List.map_cons, List.mem_cons, hf, not_or] at fresh
    have other : isSame i.field index.field = false := by
      rw [hf, named, isSame_string]
      exact beq_false_of_ne fun same => fresh.1 (congrArg Value.string same.symm)
    rw [putIndex, other, if_neg Bool.false_ne_true, ih (fun i hi => texts i (by simp [hi])) fresh.2,
      List.cons_append]

end Indexes

namespace Effect

variable {c : String} {s : Store} {docs : List Value} {schema : Schema}

theorem indexedFields_distinct (h : (schema.map (·.1)).Nodup) :
    ((indexedFields schema).map (·.1)).Nodup := by
  rw [indexedFields, List.map_cons, List.map_map, List.nodup_cons]
  constructor
  · intro own
    obtain ⟨⟨field, f⟩, hf, same⟩ := List.mem_map.mp own
    have marked := (List.mem_filter.mp hf).2
    obtain rfl : field = "id" := Value.string.inj same
    simp at marked
  · have apart := (List.pairwise_map.mp h).filter fun e => e.2.indexed && e.1 != "id"
    exact List.pairwise_map.mpr (apart.imp fun other same => other (Value.string.inj same))

/-- Indexes that are built for fields without one come to the end, in the order of the fields. -/
theorem shape_builds {fields : List (Value × Value)} {ix ix' : Indexes}
    (named : ∀ e ∈ fields, ∃ field, e.1 = .string field) (hd : ∀ d ∈ docs, IsDocument d)
    (h : AllExact (ix.ofCollection (.string c)) (· ∈ docs))
    (distinct : ((shape (ix.ofCollection (.string c)) ++ fields).map (·.1)).Nodup)
    (built : inTurn (fields.map fun (field, unique) => build c docs field unique) ix = (ix', .ok ())) :
    shape (ix'.ofCollection (.string c)) = shape (ix.ofCollection (.string c)) ++ fields := by
  induction fields generalizing ix with
  | nil =>
    cases built
    rw [List.append_nil]
  | cons e rest ih =>
    obtain ⟨field, unique⟩ := e
    obtain ⟨field, rfl⟩ := named (field, unique) (by simp)
    obtain ⟨index, made, flag, exact⟩ := build_exact field unique hd
    have step : build c docs (.string field) unique ix = (Catalog.put ix (.string c)
        (putIndex index (ix.ofCollection (.string c))), .ok ()) := by
      rw [build, made]
      exact register_string ix c exact.named
    have texts (i : FieldIndex) (hi : i ∈ ix.ofCollection (.string c)) : ∃ f, i.field = .string f :=
      (h i hi).imp fun _ e => e.named
    have fresh : .string field ∉ (ix.ofCollection (.string c)).map (·.field) := by
      rw [← mem_fields_of_shape]
      rw [List.map_append, List.map_cons] at distinct
      exact fun there => List.disjoint_of_nodup_append distinct there (by simp)
    have placed := putIndex_new exact.named texts fresh
    rw [placed] at step
    have exact' : AllExact (ix.ofCollection (.string c) ++ [index]) (· ∈ docs) := by
      intro i hi
      rcases List.mem_append.mp hi with hi | hi
      · exact h i hi
      · exact ⟨field, List.mem_singleton.mp hi ▸ exact⟩
    have longer : shape (ix.ofCollection (.string c) ++ [index]) =
        shape (ix.ofCollection (.string c)) ++ [(.string field, unique)] := by
      rw [shape, List.map_append, List.map_singleton, exact.named, flag]
      rfl
    simp only [List.map_cons, inTurn, step] at built
    have later := ih (fun e he => named e (by simp [he]))
      (by rw [ofCollection_put]; exact exact')
      (by rw [ofCollection_put, longer, List.append_assoc]; exact distinct) built
    rw [later, ofCollection_put, longer, List.append_assoc, List.singleton_append]

variable {filed : String → Value → Prop} {shapes : String → List (Value × Value)}

/-- A collection that is opened has the indexes that its schema declares, and no other collection has
new ones. -/
theorem create_reflects (registered : Registered) {m : Memory} (h : s.indexes.Reflects filed shapes)
    (distinct : (registered.schema.map (·.1)).Nodup) (connected : s.connected = true)
    (created : s.memory.create (.string c) = .ok (m, c))
    (hd : ∀ d ∈ m.documents (.string c), IsDocument d) :
    ∃ ix, create c registered s =
        ({ declared c registered m s with indexes := ix }, .ok (some .flush)) ∧
      ix.Reflects (Function.update filed c (· ∈ m.documents (.string c)))
        (Function.update shapes c (indexedFields registered.schema)) := by
  have dropped := ofCollection_drop s.indexes (.string c)
  have none : AllExact ((s.indexes.drop (.string c)).ofCollection (.string c))
      (· ∈ m.documents (.string c)) := by
    rw [dropped]
    exact fun index hi => absurd hi List.not_mem_nil
  have named := indexedFields_named registered.schema
  obtain ⟨ix, built, exact, -⟩ := builds_exact named hd none
  have shape := shape_builds named hd none
    (by rw [dropped]; exact indexedFields_distinct distinct) built
  rw [dropped] at shape
  refine ⟨ix, ?_, h.renewed exact shape fun c' other => ?_⟩
  · simp only [create, connected, Bool.not_true, Bool.false_eq_true, if_false, created, given,
      reindexed, declared]
    rw [built]
  · have spares : Spares c' (inTurn ((indexedFields registered.schema).map fun (field, unique) =>
        build c (m.documents (.string c)) field unique)) := by
      apply spares_inTurn
      intro change hc
      obtain ⟨e, -, rfl⟩ := List.mem_map.mp hc
      exact spares_build other _ _ _
    have kept := spares (s.indexes.drop (.string c))
    rw [built] at kept
    exact kept.trans (ofCollection_drop_other other s.indexes)

end Effect

end DocStore
