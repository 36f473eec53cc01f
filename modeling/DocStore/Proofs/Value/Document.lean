import DocStore.Proofs.Value.Key
import DocStore.Store.Document
/-!
Documents of a collection: plain objects with text for an id, and what is put over them.
-/

namespace DocStore

namespace Document

variable {es : Document}

theorem put_eq (es : Document) (key : String) (v : Value) :
    put es key v = Table.put es key v := by
  induction es with
  | nil => rfl
  | cons e rest ih => rw [put, Table.put, ih]

theorem mem_put {e : String × Value} {key : String} {v : Value} (h : e ∈ Table.put es key v) :
    e ∈ es ∨ e = (key, v) := by
  induction es with
  | nil => exact .inr (by simpa [Table.put] using h)
  | cons f rest ih =>
    simp only [Table.put] at h
    split at h
    · next same =>
      rcases List.mem_cons.mp h with rfl | h
      · exact .inr (by rw [same])
      · exact .inl (by simp [h])
    · rcases List.mem_cons.mp h with rfl | h
      · exact .inl (by simp)
      · exact (ih h).imp_left fun h => by simp [h]

theorem keys_put (es : Document) (key : String) (v : Value) :
    keys (Table.put es key v) = if key ∈ keys es then keys es else keys es ++ [key] := by
  induction es with
  | nil => rfl
  | cons e rest ih =>
    simp only [keys, Table.put, List.map_cons, List.mem_cons] at ih ⊢
    by_cases same : e.1 = key
    · simp [same]
    · simp only [same, if_false, List.map_cons, ih, Ne.symm same, false_or]
      by_cases held : key ∈ rest.map (·.1) <;> simp [held]

end Document

namespace Value

/-- The value of a field, null when it is absent. -/
def under (doc : Value) (field : String) : Value := (doc.entry? (.string field)).getD .null

/-- A plain object that has text for an id. -/
structure IsDocument (doc : Value) : Prop where
  plain : doc.Plain
  named : ∃ s, doc.under "id" = .string s

variable {doc old new changes : Value} {es cs : Document}

@[simp] theorem under_object (es : Document) (field : String) :
    (Value.object es).under field = (es.lookup field).getD .null := rfl

theorem IsDocument.object (h : IsDocument doc) : ∃ es, doc = .object es := by
  obtain ⟨s, hs⟩ := h.named
  cases h.plain with
  | object => exact ⟨_, rfl⟩
  | _ => cases hs

theorem plain_under (h : Plain doc) (field : String) : Plain (doc.under field) := by
  cases h with
  | object distinct values =>
    rw [under_object]
    cases held : List.lookup field _ with
    | none => exact .null
    | some v => exact values _ (Table.mem_of_lookup held)
  | _ => exact .null

theorem fieldOf_document (h : IsDocument doc) (field : String) :
    Filter.fieldOf doc (.string field) = .ok (doc.under field) := by
  obtain ⟨es, rfl⟩ := h.object
  rfl

theorem idOf_document (h : IsDocument doc) : idOf doc = .ok (doc.under "id") := by
  obtain ⟨s, hs⟩ := h.named
  obtain ⟨es, rfl⟩ := h.object
  cases held : es.lookup "id" with
  | none => simp [held] at hs
  | some v => simp [idOf, entry?, text?, held]

/-! ## Putting entries over a document -/

theorem plain_put (h : Plain (.object es)) (key : String) {v : Value} (hv : Plain v) :
    Plain (.object (Document.put es key v)) := by
  rw [Document.put_eq]
  cases h with
  | object distinct values =>
    refine .object ?_ fun e he => ?_
    · rw [Document.keys_put]
      exact Table.nodup_added distinct key
    · rcases Document.mem_put he with he | rfl
      · exact values e he
      · exact hv

theorem mergeEntries_object (es cs : Document) :
    (Value.object es).mergeEntries (cs.map fun (k, v) => (.string k, v)) =
      .object (Document.merge es cs) := by
  induction cs generalizing es with
  | nil => rfl
  | cons c rest ih => exact ih (Document.put es c.1 c.2)

theorem plain_merge (h : Plain (.object es)) (hcs : ∀ c ∈ cs, Plain c.2) :
    Plain (.object (Document.merge es cs)) := by
  induction cs generalizing es with
  | nil => exact h
  | cons c rest ih =>
    exact ih (plain_put h c.1 (hcs c (by simp))) fun c hc => hcs c (by simp [hc])

/-- What is put over an object that has an id leaves that. -/
theorem merged_entries (h : Store.merged (.object es) (.object cs) = .ok new) :
    ∃ id, es.lookup "id" = some id ∧
      new = .object (Document.put (Document.merge es cs) "id" id) := by
  cases held : es.lookup "id" with
  | none => simp [Store.merged, entries?, idOf, entry?, text?, held, failWith, bind, Except.bind] at h
  | some id =>
    refine ⟨id, rfl, ?_⟩
    simp only [Store.merged, entries?, idOf, entry?, text?, Option.bind_some, held, mergeEntries_object]
      at h
    exact (Except.ok.inj h).symm

/-- What is put over a document leaves a document with the same id. -/
theorem merged_object (h : IsDocument old) (plain : Plain (.object cs)) :
    ∃ new, Store.merged old (.object cs) = .ok new ∧ IsDocument new ∧
      new.under "id" = old.under "id" := by
  have kept := idOf_document h
  obtain ⟨s, hs⟩ := h.named
  obtain ⟨es, rfl⟩ := h.object
  cases plain with
  | object distinct values =>
    have put : (Value.object (Document.put (Document.merge es cs) "id" (.string s))).under "id" =
        .string s := by
      rw [under_object, Document.put_eq, Table.lookup_put]
      rfl
    refine ⟨.object (Document.put (Document.merge es cs) "id" (.string s)), ?_, ⟨?_, s, put⟩, ?_⟩
    · simp only [Store.merged, entries?, mergeEntries_object, kept, hs]
      rfl
    · exact plain_put (plain_merge h.plain values) "id" (.string s)
    · rw [put, hs]

theorem merged_document (h : IsDocument old) (plain : changes.Plain)
    (hm : Store.merged old changes = .ok new) :
    IsDocument new ∧ new.under "id" = old.under "id" := by
  cases plain with
  | object distinct values =>
    obtain ⟨new', hm', document⟩ := merged_object h (.object distinct values)
    rw [hm] at hm'
    exact Except.ok.inj hm' ▸ document
  | _ => cases hm

end Value

end DocStore
