import DocStore.Proofs.Json.RoundTrip
/-!
JSON data: values that JSON has a text for. Each can be written, and what is read back is the value
itself, but that occurrences of what is not a number cannot be told apart.
-/

namespace DocStore

namespace Value

/-- What JSON has: integers of no more digits than can be read, doubles as they are stored, and
objects in which a key occurs once. -/
inductive IsJson : Value → Prop where
  | null : IsJson .null
  | bool (b : Bool) : IsJson (.bool b)
  | int {n : Int} (short : (Nat.toDigits 10 n.natAbs).length ≤ Whole.maxDigits) : IsJson (.int n)
  | float {x : Double} (stored : x.Canonical) : IsJson (.float x)
  | string (s : String) : IsJson (.string s)
  | list {xs : List Value} (items : ∀ x ∈ xs, IsJson x) : IsJson (.list xs)
  | object {es : Document} (distinct : es.keys.Nodup) (values : ∀ e ∈ es, IsJson e.2) :
      IsJson (.object es)

/-! ## What is not a number -/

mutual

/-- A value of JSON in which all that is not a number is one double. -/
def unmarked : Value → Value
  | .float (.nan _) => .float (.nan 0)
  | .list xs => .list (unmarkeds xs)
  | .object es => .object (unmarkedEntries es)
  | v => v

def unmarkeds : List Value → List Value
  | [] => []
  | x :: xs => unmarked x :: unmarkeds xs

def unmarkedEntries : Document → Document
  | [] => []
  | (k, v) :: es => (k, unmarked v) :: unmarkedEntries es

end

theorem unmarkeds_eq_map (xs : List Value) : unmarkeds xs = xs.map unmarked := by
  induction xs with
  | nil => rfl
  | cons x rest ih => rw [unmarkeds, ih, List.map_cons]

theorem unmarkedEntries_eq_map (es : Document) :
    unmarkedEntries es = es.map fun e => (e.1, e.2.unmarked) := by
  induction es with
  | nil => rfl
  | cons e rest ih => rw [unmarkedEntries, ih, List.map_cons]

theorem entryForms_eq_map (es : Document) : entryForms es = es.map fun e => (e.1, e.2.jsonForm) := by
  induction es with
  | nil => rfl
  | cons e rest ih => rw [entryForms, ih, List.map_cons]

theorem jsonForm_object {es : Document} (distinct : es.keys.Nodup) :
    (Value.object es).jsonForm = .object (es.map fun e => (e.1, e.2.jsonForm)) := by
  have keys : Document.keys ([] ++ entryForms es) = es.keys := by
    simp [entryForms_eq_map, Document.keys, Function.comp_def]
  rw [jsonForm, Document.merge_fresh (keys ▸ distinct), List.nil_append, entryForms_eq_map]

/-- An object that is its own form has each key once, and values that are their own forms. -/
theorem settled_of_form {es : Document} (form : (Value.object es).jsonForm = .object es) :
    es.Settled := by
  have distinct (doc changes : Document) (h : doc.keys.Nodup) : (doc.merge changes).keys.Nodup := by
    induction changes generalizing doc with
    | nil => exact h
    | cons e rest ih =>
      refine ih (doc.put e.1 e.2) ?_
      rw [Document.put_eq, Document.keys_put]
      exact Table.nodup_added h e.1
  have same : Document.merge [] (entryForms es) = es := Value.object.inj form
  have once : es.keys.Nodup := same ▸ distinct [] _ List.nodup_nil
  refine ⟨once, fun e he => ?_⟩
  rw [jsonForm_object once] at form
  have each := List.map_inj_left.mp ((Value.object.inj form).trans (List.map_id es).symm) e he
  exact congrArg Prod.snd each

/-- What is read back is the value that was written, up to what is not a number. -/
theorem unmarked_jsonForm {v : Value} (h : v.IsJson) : v.jsonForm.unmarked = v.unmarked := by
  induction h with
  | null | bool | int | string => rfl
  | @float x stored =>
    rw [jsonForm]
    rcases Double.reread_canonical stored with same | ⟨mark, rfl⟩
    · rw [same]
    · rfl
  | @list xs items ih =>
    rw [jsonForm, unmarked, unmarked, jsonForms_eq_map, unmarkeds_eq_map, unmarkeds_eq_map,
      List.map_map]
    exact congrArg Value.list (List.map_congr_left ih)
  | @object es distinct values ih =>
    rw [jsonForm_object distinct, unmarked, unmarked, unmarkedEntries_eq_map,
      unmarkedEntries_eq_map, List.map_map]
    exact congrArg Value.object (List.map_congr_left fun e he => by rw [Function.comp, ih e he])

/-- Without any of them nothing is lost at all. -/
theorem jsonForm_plain {v : Value} (h : v.IsJson) (plain : v.Plain) : v.jsonForm = v := by
  induction h with
  | null | bool | int | string => rfl
  | @float x stored =>
    cases plain with
    | float number =>
      rw [jsonForm, (Double.reread_canonical stored).resolve_right fun ⟨mark, h⟩ => number mark h]
  | @list xs items ih =>
    cases plain with
    | list plain =>
      have same : xs.map jsonForm = xs.map id :=
        List.map_congr_left fun x hx => ih x hx (plain x hx)
      rw [jsonForm, jsonForms_eq_map, same, List.map_id]
  | @object es distinct values ih =>
    cases plain with
    | object _ plain =>
      exact Document.Settled.jsonForm ⟨distinct, fun e he => ih e he (plain e he)⟩

end Value

namespace Json

open Value (IsJson)

variable {style : Style}

theorem writeItems_ok {xs : List Value} {level : Nat}
    (h : ∀ x ∈ xs, ∃ text, write style level x = .ok text) :
    ∃ texts, writeItems style level xs = .ok texts := by
  induction xs with
  | nil => exact ⟨[], rfl⟩
  | cons x rest ih =>
    obtain ⟨text, first⟩ := h x (by simp)
    obtain ⟨texts, later⟩ := ih fun y hy => h y (by simp [hy])
    exact ⟨text :: texts, by rw [writeItems, first]; simp only [bind, Except.bind, later]; rfl⟩

theorem writeEntries_ok {es : Document} {level : Nat}
    (h : ∀ e ∈ es, ∃ text, write style level e.2 = .ok text) :
    ∃ entries, writeEntries style level es = .ok entries := by
  induction es with
  | nil => exact ⟨[], rfl⟩
  | cons e rest ih =>
    obtain ⟨k, v⟩ := e
    obtain ⟨text, first⟩ := h (k, v) (by simp)
    obtain ⟨entries, later⟩ := ih fun e he => h e (by simp [he])
    refine ⟨(k, text) :: entries, ?_⟩
    rw [writeEntries, first]
    simp only [bind, Except.bind, later]
    rfl

/-- JSON data can be written in any style. -/
theorem write_ok (style : Style) {v : Value} (h : v.IsJson) (level : Nat) :
    ∃ text, write style level v = .ok text := by
  induction h generalizing level with
  | null => exact ⟨_, rfl⟩
  | bool b => cases b <;> exact ⟨_, rfl⟩
  | int short => exact ⟨_, by rw [write, intText, if_neg (Nat.not_lt.mpr short)]⟩
  | float => exact ⟨_, rfl⟩
  | string => exact ⟨_, rfl⟩
  | list items ih =>
    obtain ⟨texts, written⟩ := writeItems_ok fun x hx => ih x hx (level + 1)
    exact ⟨_, by rw [write, written]; rfl⟩
  | object distinct values ih =>
    obtain ⟨entries, written⟩ := writeEntries_ok fun e he => ih e he (level + 1)
    exact ⟨_, by rw [write, written]; rfl⟩

end Json

/-- Documents of JSON data have a file text under every indent that can be asked for. -/
theorem fileText_ok {indent : Value} {blanks : Option (List Char)} {docs : List Value}
    (asked : Json.indentOf indent = .ok blanks) (data : ∀ doc ∈ docs, doc.IsJson) :
    ∃ text, fileText indent docs = .ok text := by
  obtain ⟨cs, written⟩ := Json.write_ok (fileStyle blanks) (.list data) 1
  refine ⟨String.ofList cs ++ "\n", ?_⟩
  simp only [fileText, asked, Json.text, written, bind, Except.bind]
  rfl

/-- A snapshot of JSON data can be taken. -/
theorem snapshot_ok {indent : Value} {blanks : Option (List Char)} {m : Memory}
    {names : List Value} (asked : Json.indentOf indent = .ok blanks)
    (data : ∀ name ∈ names, ∀ doc ∈ m.documents name, doc.IsJson) :
    ∃ files, snapshot indent m names = .ok files := by
  induction names with
  | nil => exact ⟨[], rfl⟩
  | cons name rest ih =>
    obtain ⟨text, first⟩ := fileText_ok asked (data name (by simp))
    obtain ⟨files, later⟩ := ih fun other h => data other (by simp [h])
    refine ⟨(name, text) :: files, ?_⟩
    simp only [snapshot, first, later, bind, Except.bind]
    rfl

end DocStore
