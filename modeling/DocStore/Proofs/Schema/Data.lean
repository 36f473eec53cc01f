import DocStore.Proofs.Json.Data
import DocStore.Proofs.Schema.Check
/-!
Documents of data: JSON without anything that is not a number. What a schema makes of data is data, and
so is what is put over it.
-/

namespace DocStore

namespace Value

/-- JSON in which all that is of the type of numbers is one. -/
structure IsData (v : Value) : Prop where
  json : v.IsJson
  plain : v.Plain

variable {v doc old new changes : Value} {es cs : Document}

theorem isData_string (s : String) : IsData (.string s) := ⟨.string s, .string s⟩

theorem IsData.jsonForm (h : v.IsData) : v.jsonForm = v := jsonForm_plain h.json h.plain

theorem isData_object :
    IsData (.object es) ↔ es.keys.Nodup ∧ ∀ e ∈ es, e.2.IsData := by
  constructor
  · rintro ⟨json, plain⟩
    cases json with
    | object distinct values =>
      cases plain with
      | object _ plain => exact ⟨distinct, fun e he => ⟨values e he, plain e he⟩⟩
  · rintro ⟨distinct, values⟩
    exact ⟨.object distinct fun e he => (values e he).json,
      .object distinct fun e he => (values e he).plain⟩

theorem IsData.entry {key : Value} (h : doc.IsData) (there : doc.entry? key = some v) : v.IsData := by
  cases h.json with
  | @object es distinct values =>
    obtain ⟨k, -, found⟩ := Option.bind_eq_some_iff.mp there
    exact (isData_object.mp h).2 (k, v) (Table.mem_of_lookup found)
  | _ => cases there

theorem isData_put (h : IsData (.object es)) (key : String) (hv : v.IsData) :
    IsData (.object (Document.put es key v)) := by
  obtain ⟨distinct, values⟩ := isData_object.mp h
  rw [Document.put_eq, isData_object, Document.keys_put]
  refine ⟨Table.nodup_added distinct key, fun e he => ?_⟩
  rcases Document.mem_put he with he | rfl
  · exact values e he
  · exact hv

theorem isData_drop (h : IsData (.object es)) (key : String) :
    IsData (.object (Document.drop es key)) := by
  obtain ⟨distinct, values⟩ := isData_object.mp h
  refine isData_object.mpr ⟨distinct.sublist (List.filter_sublist.map _), fun e he => ?_⟩
  exact values e (List.mem_of_mem_filter he)

theorem isData_merge (h : IsData (.object es)) (hcs : ∀ c ∈ cs, c.2.IsData) :
    IsData (.object (Document.merge es cs)) := by
  induction cs generalizing es with
  | nil => exact h
  | cons c rest ih =>
    exact ih (isData_put h c.1 (hcs c (by simp))) fun c hc => hcs c (by simp [hc])

/-- Data that is put over a document of data makes one. -/
theorem isData_merged (document : IsDocument old) (h : old.IsData) (data : changes.IsData)
    (merged : Store.merged old changes = .ok new) : new.IsData := by
  obtain ⟨s, named⟩ := document.named
  have kept := idOf_document document
  obtain ⟨es, rfl⟩ := document.object
  cases data.json with
  | object distinct values =>
    simp only [Store.merged, entries?, mergeEntries_object, kept, named, bind, Except.bind, pure,
      Except.pure] at merged
    cases merged
    exact isData_put (isData_merge h (isData_object.mp data).2) "id" (isData_string s)
  | _ => cases merged

end Value

namespace Schema

open Value (IsData isData_object)

/-- Fields occur once, and what absent ones get is data. -/
structure Proper (schema : Schema) : Prop where
  distinct : (schema.map (·.1)).Nodup
  defaults : ∀ e ∈ schema, ∀ v, e.2.default = some v → v.made.IsData

variable {schema : Schema} {mode : Mode} {data v : Value} {values doc : Document}

/-- Data is stored as it is. -/
theorem coerce_data (h : v.IsData) (type : FieldType) : coerce type v = .ok v := by
  cases h.json <;> cases type <;> rfl

theorem fieldValues_data (defaults : ∀ e ∈ schema, ∀ v, e.2.default = some v → v.made.IsData)
    (hd : data.IsData) (h : fieldValues mode data schema = .ok values) : ∀ e ∈ values, e.2.IsData := by
  induction schema generalizing values with
  | nil =>
    cases h
    simp
  | cons e rest ih =>
    obtain ⟨g, value, later, hg, hv, hl, rfl⟩ := fieldValues_cons h
    intro e' there
    rcases List.mem_append.mp there with there | there
    · obtain ⟨v, rfl, rfl⟩ : ∃ v, value = some v ∧ (e.1, v) = e' := by simpa using there
      obtain ⟨w, origin, stored⟩ := fieldValue_stored hv
      have given : w.IsData := by
        rw [given_entry hg] at origin
        rcases origin with there | default
        · exact hd.entry there
        · obtain ⟨w', hw, rfl⟩ := Option.map_eq_some_iff.mp default
          exact defaults e (by simp) w' hw
      obtain ⟨-, -, form⟩ := fieldValue_update.mp stored
      rw [coerce_data given] at form
      exact Except.ok.inj form ▸ given
    · exact ih (fun e he => defaults e (by simp [he])) hl e' there

/-- What a schema makes of data is data. -/
theorem validate_data (proper : schema.Proper) (hd : data.IsData)
    (h : schema.validate mode data = .ok doc) : IsData (.object doc) := by
  cases mode with
  | create =>
    have hv := validate_create h
    exact isData_object.mpr ⟨proper.distinct.sublist (keys_fieldValues hv),
      fieldValues_data proper.defaults hd hv⟩
  | update =>
    obtain ⟨es, values, rfl, hv, rfl⟩ := validate_update h
    obtain ⟨distinct, given⟩ := isData_object.mp hd
    refine isData_object.mpr ⟨(keys_validate_update proper.distinct distinct h).1, fun e he => ?_⟩
    rcases List.mem_append.mp he with he | he
    · exact fieldValues_data proper.defaults hd hv e he
    · exact given e (List.mem_of_mem_filter he)

end Schema

end DocStore
