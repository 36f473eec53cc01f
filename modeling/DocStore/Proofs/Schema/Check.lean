import DocStore.Proofs.Result
import DocStore.Proofs.Value.Document
import DocStore.Schema.Validate
/-!
What the check of a schema lets through: where the values of fields come from, and under which keys they
stand.
-/

namespace DocStore.Schema

variable {field : String} {f : Field} {v stored : Value} {mode : Mode} {schema : Schema} {data : Value}
  {values doc : Document}

/-! ## One field -/

/-- A value that is given is tried for its type and for its bounds, and is stored in its form for the
type. -/
theorem fieldValue_some : fieldValue .update field f (some v) =
    match mismatch f.type v with
    | some violation => .error (.validation (.string field) violation)
    | none => checkConstraints field f v >>= fun _ => (coerce f.type v).map some := by
  simp only [fieldValue, reduceCtorEq, decide_false, Bool.false_and, Bool.false_eq_true, if_false]
  cases mismatch f.type v with
  | some violation => rfl
  | none =>
    cases checkConstraints field f v with
    | error e => rfl
    | ok u => cases coerce f.type v <;> rfl

/-- A value that is let through fits the type and the bounds, and is stored in its form for the type. -/
theorem fieldValue_update :
    fieldValue .update field f (some v) = .ok (some stored) ↔
      mismatch f.type v = none ∧ checkConstraints field f v = .ok () ∧ coerce f.type v = .ok stored := by
  rw [fieldValue_some]
  cases mismatch f.type v with
  | some violation => simp
  | none =>
    cases checkConstraints field f v with
    | error e => simp [bind, Except.bind]
    | ok u => cases coerce f.type v <;> simp [bind, Except.bind, Except.map]

/-- What is stored comes of a value that is given, or of the default of a field for which none is. -/
theorem fieldValue_stored {given : Option Value} (h : fieldValue mode field f given = .ok (some stored)) :
    ∃ v, (given = some v ∨ f.default.map Value.made = some v) ∧
      fieldValue .update field f (some v) = .ok (some stored) := by
  unfold fieldValue at h
  extract_lets value goOn at h
  have let_through : goOn ⟨⟩ = .ok (some stored) := by
    split at h
    · cases h
    · exact h
  have chosen (v : Value) (hv : value = some v) : given = some v ∨ f.default.map Value.made = some v := by
    simp only [value] at hv
    split at hv
    · exact .inr hv
    · exact .inl hv
  simp only [goOn] at let_through
  clear_value value
  cases value with
  | none => cases let_through
  | some v => exact ⟨v, chosen v rfl, let_through⟩

/-! ## Schemas -/

theorem given_entry {g : Option Value} (h : given data field = .ok g) :
    g = data.entry? (.string field) := by
  unfold given at h
  split at h
  · exact (Except.ok.inj h).symm
  · exact (Except.ok.inj h).symm
  all_goals cases h

/-- The fields of a schema are taken one after the other. -/
theorem fieldValues_cons (h : fieldValues mode data ((field, f) :: schema) = .ok values) :
    ∃ g value later, given data field = .ok g ∧ fieldValue mode field f g = .ok value ∧
      fieldValues mode data schema = .ok later ∧
      values = (value.map fun v => (field, v)).toList ++ later := by
  obtain ⟨g, hg, h⟩ := Result.of_bind h
  obtain ⟨value, hv, h⟩ := Result.of_bind h
  obtain ⟨later, hl, h⟩ := Result.of_bind h
  refine ⟨g, value, later, hg, hv, hl, ?_⟩
  cases value <;> exact (Except.ok.inj h).symm

theorem keys_fieldValues (h : fieldValues mode data schema = .ok values) :
    values.keys.Sublist (schema.map (·.1)) := by
  induction schema generalizing values with
  | nil =>
    cases h
    exact .slnil
  | cons e rest ih =>
    obtain ⟨g, value, later, -, -, hl, rfl⟩ := fieldValues_cons h
    cases value with
    | none => exact (ih hl).cons e.1
    | some v => exact (ih hl).cons_cons e.1

/-- A new document is the fields of the schema. -/
theorem validate_create (h : schema.validate .create data = .ok doc) :
    fieldValues .create data schema = .ok doc := by
  obtain ⟨values, hv, h⟩ := Result.of_bind h
  obtain rfl := Except.ok.inj h
  exact hv

/-- A change is the fields of the schema, and then what the schema does not name. -/
theorem validate_update (h : schema.validate .update data = .ok doc) :
    ∃ es values, data = .object es ∧ fieldValues .update data schema = .ok values ∧
      doc = values ++ es.filter fun (k, _) => (schema.lookup k).isNone := by
  obtain ⟨values, hv, h⟩ := Result.of_bind h
  obtain ⟨rest, hr, h⟩ := Result.of_bind h
  cases data with
  | object es =>
    obtain rfl := Except.ok.inj hr
    exact ⟨es, values, rfl, hv, (Except.ok.inj h).symm⟩
  | _ => cases hr

/-- The keys of a change are those of fields and those that are given. -/
theorem keys_validate_update (distinct : (schema.map (·.1)).Nodup) {es : Document}
    (given : (Document.keys es).Nodup) (h : schema.validate .update (.object es) = .ok doc) :
    doc.keys.Nodup ∧ ∀ key ∈ doc.keys, key ∈ schema.map (·.1) ∨ key ∈ es.keys := by
  obtain ⟨es', values, same, hv, rfl⟩ := validate_update h
  obtain rfl := Value.object.inj same
  have sub := keys_fieldValues hv
  have kept : (es.filter fun (k, _) => (schema.lookup k).isNone).map (·.1) ⊆ es.keys :=
    List.map_subset _ (List.filter_sublist.subset)
  rw [Document.keys, List.map_append]
  refine ⟨List.nodup_append.mpr ⟨distinct.sublist sub, ?_, ?_⟩, fun key there => ?_⟩
  · exact given.sublist (List.filter_sublist.map _)
  · rintro key inFields _ inRest rfl
    obtain ⟨e, there, rfl⟩ := List.mem_map.mp inRest
    have unnamed : schema.lookup e.1 = none :=
      Option.isNone_iff_eq_none.mp (List.mem_filter.mp there).2
    exact Table.lookup_eq_none_iff.mp unnamed (sub.subset inFields)
  · exact (List.mem_append.mp there).imp (sub.subset ·) (kept ·)

end DocStore.Schema
