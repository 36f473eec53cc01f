import DocStore.Filter.Basic
import DocStore.Index
import DocStore.Proofs.Value.Document
/-!
The entries of any object, whatever its keys are: what a document holds under a key, and what putting an
entry over it changes.
-/

namespace DocStore

/-- Only a text is told from other names by its characters. -/
theorem Key.identity_eq_string {key : Value} {s : String} :
    Key.identity key = .string s ↔ key.text? = some s := by
  cases key with
  | float x => cases x <;> simp [identity, Value.text?]
  | _ => simp [identity, Value.text?]

namespace Value

variable {doc key name v : Value} {es : Document} {cs : Catalog Value}

/-! ## What a document holds -/

/-- The value under a key of any type, null when it is absent. -/
def field (doc key : Value) : Value := (doc.entry? key).getD .null

theorem fieldOf_object (object : doc.entries?.isSome = true) (hashable : key.isHashable = true) :
    Filter.fieldOf doc key = .ok (doc.field key) := by
  cases doc with
  | object | mapping => exact if_pos hashable
  | _ => cases object

theorem hashable_of_fieldOf (h : Filter.fieldOf doc key = .ok v) : key.isHashable = true := by
  cases hashable : key.isHashable with
  | true => rfl
  | false => cases doc <;> simp [Filter.fieldOf, hashable, failWith] at h

theorem object_of_entry (h : doc.entry? key = some v) : doc.entries?.isSome = true := by
  cases doc with
  | object | mapping => rfl
  | _ => cases h

theorem idOf_eq_ok : idOf doc = .ok v ↔ doc.entry? (.string "id") = some v := by
  cases doc with
  | object | mapping =>
    simp only [idOf]
    split <;> simp_all [failWith]
  | _ => simp [idOf, entry?, failWith]

/-! ## Putting an entry over a document -/

theorem get?_strings (es : Document) (key : Value) :
    Catalog.get? (es.map fun (k, v) => (.string k, v)) key = key.text?.bind (es.lookup ·) := by
  induction es with
  | nil => cases key.text? <;> rfl
  | cons e rest ih =>
    obtain ⟨k, v⟩ := e
    simp only [Catalog.get?, List.map_cons, List.find?_cons] at ih ⊢
    by_cases same : key.text? = some k
    · simp [Key.identity_eq_string.mpr same, same, Key.identity]
    · have other : Key.identity (.string k) ≠ Key.identity key := by
        simp only [Key.identity]
        exact fun h => same (Key.identity_eq_string.mp h.symm)
      rw [beq_false_of_ne other, ih]
      cases text : key.text? with
      | none => rfl
      | some t =>
        have other : t ≠ k := fun h => same (text.trans (congrArg some h))
        rw [Option.bind_some, Option.bind_some, List.lookup_cons, beq_false_of_ne other]

theorem entry?_of_entries (h : doc.entries? = some cs) (key : Value) :
    doc.entry? key = Catalog.get? cs key := by
  cases doc with
  | object es =>
    cases h
    exact (get?_strings es key).symm
  | mapping es =>
    cases h
    rfl
  | _ => cases h

theorem entries?_ofEntries (cs : Catalog Value) : (ofEntries cs).entries? = some cs := by
  have strings {cs : Catalog Value} {plain : Document} (h : plainEntries? cs = some plain) :
      (plain.map fun (k, v) => (Value.string k, v)) = cs := by
    induction cs generalizing plain with
    | nil => cases h; rfl
    | cons c rest ih =>
      obtain ⟨k, v⟩ := c
      cases k with
      | string k =>
        obtain ⟨later, hl, rfl⟩ := Option.map_eq_some_iff.mp h
        rw [List.map_cons, ih hl]
      | _ => cases h
  unfold ofEntries
  split
  · next plain h => exact congrArg some (strings h)
  · rfl

theorem truthy_of_entries {c : Value × Value} (h : doc.entries? = some (c :: cs)) :
    doc.truthy = true := by
  cases doc with
  | object es =>
    cases es with
    | nil => cases h
    | cons => rfl
  | mapping es =>
    cases h
    rfl
  | _ => cases h

/-- Of an object's entries only the one that is put changes. -/
theorem entry?_putEntry (object : doc.entries?.isSome = true) (name v key : Value) :
    Value.entry? (doc.putEntry name v) key =
      if Key.identity key = Key.identity name then some v else doc.entry? key := by
  unfold putEntry
  split
  · next es k =>
    simp only [Value.entry?, Key.identity, Key.identity_eq_string, Document.put_eq]
    cases key.text? with
    | none => simp
    | some t =>
      simp only [Option.bind_some, Table.lookup_put, Option.some.injEq]
  · obtain ⟨cs, hcs⟩ := Option.isSome_iff_exists.mp object
    rw [hcs]
    dsimp only
    rw [entry?_of_entries (entries?_ofEntries _), Catalog.get?_put, entry?_of_entries hcs]

theorem entries_putEntry (object : doc.entries?.isSome = true) (name v : Value) :
    (doc.putEntry name v).entries?.isSome = true := by
  unfold putEntry
  split
  · rfl
  · obtain ⟨cs, hcs⟩ := Option.isSome_iff_exists.mp object
    rw [hcs]
    dsimp only
    rw [entries?_ofEntries]
    rfl

end Value

end DocStore
