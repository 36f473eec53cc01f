import DocStore.Proofs.Calendar.Iso
import DocStore.Proofs.Schema.Check
/-!
The form in which values are stored. What a check has let through, in the form in which it is stored,
passes the same check again and stays as it is.
-/

namespace DocStore

namespace Schema

variable {type : FieldType} {field : String} {f : Field} {v stored : Value} {mode : Mode}

/-! ## Stored forms -/

/-- Options that a field of days and times can have: texts alone, of which the stored forms of its values
may be some. -/
def TextOptions (f : Field) : Prop :=
  f.type = .date → ∀ options, f.options = some options → ∀ o ∈ options, o.text?.isSome = true

theorem strictEq_text_of_date {o : Value} (text : o.text?.isSome = true) :
    (∀ d, strictEq (.date d) o = false) ∧ ∀ t, strictEq (.dateTime t) o = false := by
  cases o with
  | string | fieldType => exact ⟨fun _ => rfl, fun _ => rfl⟩
  | _ => cases text

/-- A day or a time is refused by options that are texts. -/
theorem options_of_date (date : f.type = .date) (texts : TextOptions f)
    (h : ∀ o : Value, o.text?.isSome = true → strictEq v o = false)
    (allowed : checkOptions field f v = .ok ()) : f.options = none := by
  cases options : f.options with
  | none => rfl
  | some options' =>
    have refused : options'.any (strictEq v) = false := by
      rw [List.any_eq_false]
      intro o there
      simp [h o (texts date options' options o there)]
    simp [checkOptions, options, refused] at allowed

/-- The form for a type is the value itself but for days, times and tuples. -/
theorem coerce_cases (h : coerce type v = .ok stored) :
    stored = v ∨
    (type = .date ∧ (∃ t u, v = .dateTime t ∧ t.toUtc = some u ∧
      stored = .string (String.ofList (Iso.timestampText u)))) ∨
    (type = .date ∧ ∃ d, v = .date d ∧ stored = .string (String.ofList (Iso.dateText d))) ∨
    (type = .array ∧ ∃ xs, v = .tuple xs ∧ stored = .list xs) := by
  unfold coerce at h
  split at h
  · next t =>
    cases utc : t.toUtc with
    | none => simp [Iso.timestamp?, utc, failWith] at h
    | some u =>
      simp only [Iso.timestamp?, utc, Option.map_some] at h
      exact .inr (.inl ⟨rfl, t, u, rfl, utc, (Except.ok.inj h).symm⟩)
  · next d => exact .inr (.inr (.inl ⟨rfl, d, rfl, (Except.ok.inj h).symm⟩))
  · next xs => exact .inr (.inr (.inr ⟨rfl, xs, rfl, (Except.ok.inj h).symm⟩))
  · exact .inl (Except.ok.inj h).symm

/-- Text that can be read as a day or a time is in its stored form, and only options can refuse it. -/
theorem readable_again {s : String} (date : f.type = .date) (readable : (Iso.parse? s).isSome = true) :
    fieldValue .update field f (some (.string s)) =
      (checkOptions field f (.string s)).map fun _ => some (.string s) := by
  have fits : mismatch .date (.string s) = none := by simp [mismatch, readable]
  rw [fieldValue_some, checkConstraints, date, fits]
  cases checkOptions field f (.string s) <;> rfl

theorem readable_stored {s : String} (date : f.type = .date) (options : f.options = none)
    (readable : (Iso.parse? s).isSome = true) :
    fieldValue .update field f (some (.string s)) = .ok (some (.string s)) := by
  rw [readable_again date readable, checkOptions, options]
  rfl

/-- Options do not tell a tuple from a list. -/
theorem strictEq_tuple (xs : List Value) : strictEq (.tuple xs) = strictEq (.list xs) := by
  funext o
  rw [strictEq, strictEq]

/-- A tuple that is let through is let through as a list. -/
theorem tuple_again {xs : List Value} (array : f.type = .array)
    (h : fieldValue .update field f (some (.tuple xs)) = .ok (some (.list xs))) :
    fieldValue .update field f (some (.list xs)) = .ok (some (.list xs)) := by
  obtain ⟨-, allowed, -⟩ := fieldValue_update.mp h
  refine fieldValue_update.mpr ⟨?_, ?_, ?_⟩
  · simp [mismatch, array]
  · simpa [checkConstraints, checkOptions, array, strictEq_tuple, bind, Except.bind, pure, Except.pure]
      using allowed
  · simp [coerce, array]

/-- A stored form is let through again and stays as it is. -/
theorem fieldValue_again (texts : TextOptions f) (days : ∀ d, v = .date d → d.Valid)
    (h : fieldValue .update field f (some v) = .ok (some stored)) :
    fieldValue .update field f (some stored) = .ok (some stored) := by
  obtain ⟨fits, allowed, form⟩ := fieldValue_update.mp h
  rcases coerce_cases form with rfl | ⟨date, t, u, rfl, utc, rfl⟩ | ⟨date, d, rfl, rfl⟩ |
    ⟨array, xs, rfl, rfl⟩
  · exact h
  · have allowed : checkOptions field f (.dateTime t) = .ok () := by
      simpa [checkConstraints, date, bind, Except.bind, pure, Except.pure] using allowed
    refine readable_stored date (options_of_date date texts (fun o text => ?_) allowed) ?_
    · exact (strictEq_text_of_date text).2 t
    · rw [Iso.parse?_timestampText (DateTime.ofInstant_valid utc)]
      rfl
  · have allowed : checkOptions field f (.date d) = .ok () := by
      simpa [checkConstraints, date, bind, Except.bind, pure, Except.pure] using allowed
    refine readable_stored date (options_of_date date texts (fun o text => ?_) allowed) ?_
    · exact (strictEq_text_of_date text).1 d
    · rw [Iso.parse?_dateText (days d rfl)]
      rfl
  · exact tuple_again array h

/-! ## Schemas -/

variable {schema : Schema} {data : Value} {values doc es : Document} {e : String × Value}

/-- A schema whose fields occur once, with texts alone for the options of days and times, and with days of
the calendar for what defaults make. -/
structure Settled (schema : Schema) : Prop where
  distinct : (schema.map (·.1)).Nodup
  texts : ∀ e ∈ schema, TextOptions e.2
  days : ∀ e ∈ schema, ∀ d, e.2.default.map Value.made = some (.date d) → d.Valid

/-- The days under the keys of a value are days of the calendar. -/
def Dated (data : Value) : Prop :=
  ∀ key d, data.entry? (.string key) = some (.date d) → d.Valid

theorem dated_object (h : ∀ e ∈ es, ∀ d, e.2 = .date d → d.Valid) : Dated (.object es) :=
  fun key d held => h (key, .date d) (Table.mem_of_lookup held) d rfl

/-- An entry under the name of a field is in the form in which that field is stored. -/
def Fits (schema : Schema) (e : String × Value) : Prop :=
  ∀ f, (e.1, f) ∈ schema → fieldValue .update e.1 f (some e.2) = .ok (some e.2)

theorem fits_other (other : e.1 ∉ schema.map (·.1)) : schema.Fits e :=
  fun _ there => absurd (List.mem_map.mpr ⟨_, there, rfl⟩) other

/-- The fields of what is given are stored in their forms. -/
theorem fieldValues_stored (texts : ∀ e ∈ schema, TextOptions e.2)
    (days : ∀ e ∈ schema, ∀ d, e.2.default.map Value.made = some (.date d) → d.Valid) (dated : Dated data)
    (h : fieldValues mode data schema = .ok values) :
    ∀ e ∈ values, ∃ f, (e.1, f) ∈ schema ∧ fieldValue .update e.1 f (some e.2) = .ok (some e.2) := by
  induction schema generalizing values with
  | nil =>
    cases h
    simp
  | cons e rest ih =>
    obtain ⟨field, f⟩ := e
    obtain ⟨g, value, later, hg, hv, hl, rfl⟩ := fieldValues_cons h
    intro e there
    rcases List.mem_append.mp there with there | there
    · obtain ⟨v, rfl, rfl⟩ : ∃ v, value = some v ∧ (field, v) = e := by simpa using there
      obtain ⟨w, origin, stored⟩ := fieldValue_stored hv
      refine ⟨f, by simp, fieldValue_again (texts (field, f) (by simp)) (fun d hd => ?_) stored⟩
      rw [given_entry hg] at origin
      rcases origin with given | default
      · exact dated field d (hd ▸ given)
      · exact days (field, f) (by simp) d (default.trans (congrArg some hd))
    · obtain ⟨f', named, fits⟩ := ih (fun e he => texts e (by simp [he]))
        (fun e he => days e (by simp [he])) hl e there
      exact ⟨f', by simp [named], fits⟩

/-- What a check lets through is in stored form. -/
theorem validate_fits (settled : schema.Settled) (dated : Dated data)
    (h : schema.validate mode data = .ok doc) : ∀ e ∈ doc, schema.Fits e := by
  have fields {values : Document} (hv : fieldValues mode data schema = .ok values)
      (e : String × Value) (there : e ∈ values) : schema.Fits e := by
    intro f named
    obtain ⟨f', named', fits⟩ := fieldValues_stored settled.texts settled.days dated hv e there
    have same := Table.lookup_of_mem settled.distinct named
    rw [Table.lookup_of_mem settled.distinct named'] at same
    exact Option.some.inj same ▸ fits
  cases mode with
  | create => exact fields (validate_create h)
  | update =>
    obtain ⟨es, values, rfl, hv, rfl⟩ := validate_update h
    intro e there
    rcases List.mem_append.mp there with there | there
    · exact fields hv e there
    · exact fits_other (Table.lookup_eq_none_iff.mp
        (Option.isNone_iff_eq_none.mp (List.mem_filter.mp there).2))

/-! ## Documents -/

/-- A document that is in stored form for a schema. -/
structure Conforms (schema : Schema) (es : Document) : Prop where
  distinct : es.keys.Nodup
  fits : ∀ e ∈ es, schema.Fits e

theorem conforms_put {key : String} {v : Value} (h : schema.Conforms es) (fits : schema.Fits (key, v)) :
    schema.Conforms (Document.put es key v) := by
  rw [Document.put_eq]
  refine ⟨?_, fun e there => ?_⟩
  · rw [Document.keys_put]
    exact Table.nodup_added h.distinct key
  · rcases Document.mem_put there with there | rfl
    · exact h.fits e there
    · exact fits

theorem conforms_merge {cs : Document} (h : schema.Conforms es) (fits : ∀ c ∈ cs, schema.Fits c) :
    schema.Conforms (Document.merge es cs) := by
  induction cs generalizing es with
  | nil => exact h
  | cons c rest ih =>
    exact ih (conforms_put h (fits c (by simp))) fun c there => fits c (by simp [there])

/-- Each field of a document in stored form is let through as it is. -/
theorem fieldValues_conforms {fields : Schema} (sub : ∀ e ∈ fields, e ∈ schema)
    (h : schema.Conforms es) :
    fieldValues .update (.object es) fields =
      .ok (fields.filterMap fun e => (es.lookup e.1).map fun v => (e.1, v)) := by
  induction fields with
  | nil => rfl
  | cons e rest ih =>
    obtain ⟨field, f⟩ := e
    have later := ih fun e there => sub e (by simp [there])
    cases held : es.lookup field with
    | none =>
      have absent : fieldValue .update field f none = .ok none := rfl
      simp [fieldValues, given, Value.entry?, Value.text?, held, absent, later, bind, Except.bind,
        pure, Except.pure]
    | some v =>
      have fits := h.fits (field, v) (Table.mem_of_lookup held) f (sub _ (by simp))
      simp only at fits
      simp [fieldValues, given, Value.entry?, Value.text?, held, fits, later, bind, Except.bind,
        pure, Except.pure]

/-- A document in stored form passes the check of changes, which gives the document again. -/
theorem validate_conforms (names : (schema.map (·.1)).Nodup) (h : schema.Conforms es) :
    ∃ r, schema.validate .update (.object es) = .ok r ∧ r.Perm es := by
  let fields : Document := schema.filterMap fun e => (es.lookup e.1).map fun v => (e.1, v)
  let rest : Document := es.filter fun e => (schema.lookup e.1).isNone
  have values := fieldValues_conforms (List.Subset.refl schema) h
  refine ⟨fields ++ rest, by simp only [validate, values, others]; rfl, ?_⟩
  have mem_fields (e : String × Value) :
      e ∈ fields ↔ e.1 ∈ schema.map (·.1) ∧ e ∈ es := by
    simp only [fields, List.mem_filterMap, Option.map_eq_some_iff]
    constructor
    · rintro ⟨named, there, v, held, rfl⟩
      exact ⟨List.mem_map.mpr ⟨named, there, rfl⟩, Table.mem_of_lookup held⟩
    · rintro ⟨named, there⟩
      obtain ⟨field, hf, same⟩ := List.mem_map.mp named
      exact ⟨field, hf, e.2, same ▸ Table.lookup_of_mem h.distinct there, by rw [same]⟩
  have mem_rest (e : String × Value) : e ∈ rest ↔ e.1 ∉ schema.map (·.1) ∧ e ∈ es := by
    simp only [rest, List.mem_filter, Option.isNone_iff_eq_none, Table.lookup_eq_none_iff, Table.names]
    exact and_comm
  have once : es.Nodup := h.distinct.of_map _
  refine (List.perm_ext_iff_of_nodup (List.nodup_append.mpr ⟨?_, ?_, ?_⟩) once).mpr fun e => ?_
  · have keys := keys_fieldValues values
    exact (names.sublist keys).of_map _
  · exact once.sublist List.filter_sublist
  · rintro e inFields _ inRest rfl
    exact ((mem_rest e).mp inRest).1 ((mem_fields e).mp inFields).1
  · rw [List.mem_append, mem_fields, mem_rest]
    tauto

end Schema

end DocStore
