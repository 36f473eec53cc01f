import DocStore.Proofs.Json.Number
import DocStore.Proofs.Value.Document
import DocStore.Storage.Memory
/-!
The JSON form of a value: what is read where the value was written. What was read from JSON is its own
form, so nothing is lost when it is written and read again.
-/

namespace DocStore

namespace Value

mutual

/-- What is read where a value was written: sequences and sets as lists, days and times as text, and
keys as text, a later one in the place of an earlier. -/
def jsonForm : Value → Value
  | .float x => .float x.reread
  | .fieldType t => .string t.name
  | .list xs | .tuple xs | .set xs => .list (jsonForms xs)
  | .object es => .object (Document.merge [] (entryForms es))
  | .mapping es => .object (Document.merge [] (pairForms es))
  | .date d => .string (String.ofList (Iso.dateText d))
  | .dateTime t => .string (String.ofList ((Iso.timestamp? t).getD []))
  | v => v

def jsonForms : List Value → List Value
  | [] => []
  | x :: xs => jsonForm x :: jsonForms xs

def entryForms : Document → Document
  | [] => []
  | (k, v) :: es => (k, jsonForm v) :: entryForms es

def pairForms : List (Value × Value) → Document
  | [] => []
  | (k, v) :: es =>
    (match Json.keyText k with
      | .ok key => key
      | .error _ => "", jsonForm v) :: pairForms es

end

theorem jsonForms_eq_map (xs : List Value) : jsonForms xs = xs.map jsonForm := by
  induction xs with
  | nil => rfl
  | cons x rest ih => rw [jsonForms, ih, List.map_cons]

end Value

namespace Json

theorem ok_of_bind {α β : Type} {x : Except Fault α} {f : α → Except Fault β} {b : β}
    (h : (x >>= f) = .ok b) : ∃ a, x = .ok a ∧ f a = .ok b := by
  cases x with
  | error e => cases h
  | ok a => exact ⟨a, rfl, h⟩

end Json

/-! ## What is read -/

namespace Document

/-- Entries as they are read: keys occur once, and the values are as they would be read again. -/
structure Settled (es : Document) : Prop where
  distinct : es.keys.Nodup
  forms : ∀ e ∈ es, e.2.jsonForm = e.2

theorem merge_fresh {doc es : Document} (h : (doc ++ es).keys.Nodup) : doc.merge es = doc ++ es := by
  induction es generalizing doc with
  | nil => simp [merge]
  | cons e rest ih =>
    have fresh : e.1 ∉ doc.keys := by
      simp only [keys, List.map_append, List.map_cons, List.nodup_append] at h
      exact fun held => h.2.2 _ held _ (by simp) rfl
    have added : doc.put e.1 e.2 = doc ++ [e] := by
      clear h ih
      induction doc with
      | nil => rfl
      | cons f later ih =>
        simp only [keys, List.map_cons, List.mem_cons, not_or] at fresh
        simp only [put, Ne.symm fresh.1, if_false, List.cons_append, ih fresh.2]
    show (doc.put e.1 e.2).merge rest = _
    rw [added, ih (by simpa using h), List.append_assoc]
    rfl

theorem Settled.put {es : Document} (h : Settled es) (key : String) {v : Value}
    (hv : v.jsonForm = v) : Settled (es.put key v) := by
  rw [put_eq]
  refine ⟨?_, fun e he => ?_⟩
  · rw [keys_put]
    exact Table.nodup_added h.distinct key
  · rcases mem_put he with he | rfl
    · exact h.forms e he
    · exact hv

theorem Settled.jsonForm {es : Document} (h : Settled es) :
    (Value.object es).jsonForm = .object es := by
  have same (es : Document) (h : ∀ e ∈ es, e.2.jsonForm = e.2) : Value.entryForms es = es := by
    induction es with
    | nil => rfl
    | cons e rest ih =>
      rw [Value.entryForms, h e (by simp), ih fun e he => h e (by simp [he])]
  rw [Value.jsonForm, same es h.forms, merge_fresh (by simpa using h.distinct)]
  rfl

end Document

namespace Json

theorem readRest_form {negative : Bool} {whole tail rest : List Char} {v : Value}
    (h : readRest negative whole tail = .ok (v, rest)) : v.jsonForm = v := by
  have double (digits : Nat) (exponent : Int) :
      (Value.float (.ofDecimal negative digits exponent)).jsonForm =
        .float (.ofDecimal negative digits exponent) := by
    rw [Value.jsonForm, Double.reread_ofDecimal]
  simp only [readRest] at h
  split at h
  · cases h
    exact double _ _
  · split at h
    · cases h
      exact double _ _
    · split at h
      · cases h
      · cases h
        rfl

theorem readUnsigned_form {negative : Bool} {cs rest : List Char} {v : Value}
    (h : readUnsigned negative cs = .ok (v, rest)) : v.jsonForm = v := by
  unfold readUnsigned at h
  split at h
  dsimp only at h
  split at h
  · cases h
  · next whole tail _ _ =>
    have h : readRest negative whole tail = .ok (v, rest) := h
    exact readRest_form h

theorem word_form {w : String} {known v : Value} {cs rest : List Char}
    (form : known.jsonForm = known)
    (h : (match after? w cs with
      | some rest => .ok (known, rest)
      | none => .error .malformedJson) = (.ok (v, rest) : Except Fault (Value × List Char))) :
    v.jsonForm = v := by
  split at h
  · cases h
    exact form
  · cases h

theorem readScalar_form {cs rest : List Char} {v : Value}
    (h : readScalar cs = .ok (v, rest)) : v.jsonForm = v := by
  unfold readScalar at h
  dsimp only at h
  split at h
  · cases h
  all_goals first
    | exact word_form rfl h
    | exact readUnsigned_form h

/-- What is read is its own JSON form. -/
theorem read_forms (fuel : Nat) :
    (∀ {cs v rest}, readValue fuel cs = .ok (v, rest) → v.jsonForm = v) ∧
      (∀ {cs vs rest}, readItems fuel cs = .ok (vs, rest) → ∀ v ∈ vs, v.jsonForm = v) ∧
      ∀ {doc cs es rest}, readEntries fuel doc cs = .ok (es, rest) → doc.Settled → es.Settled := by
  induction fuel with
  | zero =>
    refine ⟨fun h => ?_, fun h => ?_, fun h => ?_⟩
    · cases h
    · cases h
    · cases h
  | succ fuel ih =>
    obtain ⟨value, items, entries⟩ := ih
    refine ⟨fun {cs v rest} h => ?_, fun {cs vs rest} h => ?_, fun {doc cs es rest} h settled => ?_⟩
    · rw [readValue.eq_def] at h
      dsimp only at h
      split at h
      · obtain ⟨⟨s, rest⟩, -, h⟩ := ok_of_bind h
        cases h
        rfl
      · split at h
        · cases h
          rfl
        · obtain ⟨⟨vs, rest⟩, hvs, h⟩ := ok_of_bind h
          cases h
          rw [Value.jsonForm, Value.jsonForms_eq_map, List.map_congr_left (items hvs), List.map_id']
      · split at h
        · cases h
          rfl
        · obtain ⟨⟨es, rest⟩, hes, h⟩ := ok_of_bind h
          cases h
          exact (entries hes ⟨List.nodup_nil, by simp⟩).jsonForm
      · exact readScalar_form h
    · obtain ⟨⟨v, rest'⟩, hv, h⟩ := ok_of_bind h
      have form := value hv
      dsimp only at h
      split at h
      · cases h
        simpa using form
      · obtain ⟨⟨vs', rest''⟩, hvs, h⟩ := ok_of_bind h
        cases h
        simpa using ⟨form, items hvs⟩
      · cases h
    · rw [readEntries.eq_def] at h
      dsimp only at h
      split at h
      · obtain ⟨⟨key, rest'⟩, -, h⟩ := ok_of_bind h
        dsimp only at h
        split at h
        · obtain ⟨⟨v, rest''⟩, hv, h⟩ := ok_of_bind h
          have put := settled.put key (value hv)
          dsimp only at h
          split at h
          · cases h
            exact put
          · exact entries h put
          · cases h
        · cases h
      · cases h

theorem parse_form {cs : List Char} {v : Value} (h : parse cs = .ok v) : v.jsonForm = v := by
  obtain ⟨⟨v', rest⟩, hv, h⟩ := ok_of_bind h
  dsimp only at h
  split at h
  · cases h
    exact (read_forms _).1 hv
  · cases h

end Json

theorem readDocuments_form {path text : String} {docs : List Value}
    (h : readDocuments path text = .ok docs) : docs.map Value.jsonForm = docs := by
  cases parsed : Json.parse text.toList with
  | error e =>
    rw [readDocuments, parsed] at h
    cases h
  | ok v =>
    have form := Json.parse_form parsed
    rw [readDocuments, parsed] at h
    cases v with
    | list vs =>
      cases h
      rw [Value.jsonForm, Value.jsonForms_eq_map] at form
      exact Value.list.inj form
    | _ => cases h

end DocStore
