import DocStore.Proofs.Calendar.Text
import DocStore.Proofs.Number.Extended
import DocStore.Proofs.Value.Equality
import DocStore.Value.Key
/-!
Values and their keys. A key keeps the text of a time, so two values have one key exactly when they are equal
with each time just the other; on plain data, which has no times, when they are strictly equal, so that an
index finds what a scan would.
-/

namespace DocStore

namespace Value

/-- What JSON has, but for what is not a number. -/
inductive Plain : Value → Prop where
  | null : Plain .null
  | bool (b : Bool) : Plain (.bool b)
  | int (n : Int) : Plain (.int n)
  | float {x : Double} (number : ∀ mark, x ≠ .nan mark) : Plain (.float x)
  | string (s : String) : Plain (.string s)
  | list {xs : List Value} (items : ∀ x ∈ xs, Plain x) : Plain (.list xs)
  | object {es : Document} (distinct : es.keys.Nodup) (values : ∀ e ∈ es, Plain e.2) :
      Plain (.object es)

end Value

namespace Json

variable {α : Type}

theorem escaped_mark {c : Char} (h : Iso.IsMark c) : escaped true c = [c] := by
  rcases h with digit | mark
  · have other {mark : Char} (h : mark.isDigit = false) : (c == mark) = false :=
      Iso.beq_of_isDigit digit h
    have range : 48 ≤ c.toNat ∧ c.toNat ≤ 57 := by
      simp only [Char.isDigit, Bool.and_eq_true, decide_eq_true_eq, UInt32.le_iff_toNat_le, ge_iff_le]
        at digit
      exact digit
    have low : ¬ c.toNat < 0x20 := by omega
    have high : c.toNat < 0x7f := by omega
    have ascii : (!true || decide (c.toNat < 0x7f)) = true := decide_eq_true high
    simp only [escaped, other (show '\x22'.isDigit = false by decide),
      other (show '\\'.isDigit = false by decide), other (show '\n'.isDigit = false by decide),
      other (show '\r'.isDigit = false by decide), other (show '\t'.isDigit = false by decide),
      other (show '\x08'.isDigit = false by decide), other (show '\x0c'.isDigit = false by decide),
      low, ascii, Bool.false_eq_true, if_false, if_true]
  · simp only [List.mem_cons, List.not_mem_nil, or_false] at mark
    rcases mark with rfl | rfl | rfl | rfl | rfl <;> decide

/-- Digits and the marks between them are written as they are. -/
theorem string_marks {cs : List Char} (h : ∀ c ∈ cs, Iso.IsMark c) :
    string true (String.ofList cs) = '\x22' :: (cs ++ ['\x22']) := by
  have plain : cs.flatMap (escaped true) = cs := by
    induction cs with
    | nil => rfl
    | cons c rest ih =>
      obtain ⟨first, later⟩ := List.forall_mem_cons.mp h
      rw [List.flatMap_cons, escaped_mark first, ih later]
      rfl
  rw [string, String.toList_ofList, plain]

theorem insertByKey_perm (entry : String × α) (es : List (String × α)) :
    (insertByKey entry es).Perm (entry :: es) := by
  induction es with
  | nil => exact .refl _
  | cons e rest ih =>
    simp only [insertByKey]
    split
    · exact .refl _
    · exact (ih.cons e).trans (.swap entry e rest)

theorem sortByKey_perm (es : List (String × α)) : (sortByKey es).Perm es := by
  have run : ∀ (es sorted : List (String × α)),
      (es.foldl (fun sorted e => insertByKey e sorted) sorted).Perm (es ++ sorted) := by
    intro es
    induction es with
    | nil => exact fun sorted => .refl _
    | cons e rest ih =>
      intro sorted
      have placed := (ih (insertByKey e sorted)).trans ((insertByKey_perm e sorted).append_left rest)
      exact placed.trans List.perm_middle
  simpa [sortByKey] using run es []

def Ascending (es : List (String × α)) : Prop := es.Pairwise fun a b => a.1 ≤ b.1

theorem insertByKey_ascending (entry : String × α) {es : List (String × α)} (h : Ascending es) :
    Ascending (insertByKey entry es) := by
  induction es with
  | nil => exact List.pairwise_singleton _ _
  | cons e rest ih =>
    obtain ⟨first, later⟩ := List.pairwise_cons.mp h
    simp only [insertByKey]
    split
    · next less =>
      refine List.pairwise_cons.mpr ⟨fun b hb => ?_, h⟩
      have le : entry.1 ≤ e.1 := String.not_lt.mp (String.lt_asymm less)
      rcases List.mem_cons.mp hb with rfl | hb
      · exact le
      · exact String.le_trans le (first b hb)
    · next notLess =>
      refine List.pairwise_cons.mpr ⟨fun b hb => ?_, ih later⟩
      rcases List.mem_cons.mp ((insertByKey_perm entry rest).mem_iff.mp hb) with rfl | hb
      · exact String.not_lt.mp notLess
      · exact first b hb

theorem sortByKey_ascending (es : List (String × α)) : Ascending (sortByKey es) := by
  have run : ∀ (es sorted : List (String × α)), Ascending sorted →
      Ascending (es.foldl (fun sorted e => insertByKey e sorted) sorted) := by
    intro es
    induction es with
    | nil => exact fun _ h => h
    | cons e rest ih => exact fun sorted h => ih _ (insertByKey_ascending e h)
  exact run es [] List.Pairwise.nil

/-- Sorting forgets the order of entries under distinct keys, and nothing else. -/
theorem sortByKey_eq_iff {es fs : List (String × α)} (h : (es.map (·.1)).Nodup) :
    sortByKey es = sortByKey fs ↔ es.Perm fs := by
  constructor
  · intro same
    exact (sortByKey_perm es).symm.trans (same ▸ sortByKey_perm fs)
  · intro perm
    have sorted : (sortByKey es).Perm (sortByKey fs) :=
      ((sortByKey_perm es).trans perm).trans (sortByKey_perm fs).symm
    refine sorted.eq_of_pairwise (fun a b ha hb hab hba => ?_) (sortByKey_ascending es)
      (sortByKey_ascending fs)
    have ha := (sortByKey_perm es).mem_iff.mp ha
    have hb := perm.mem_iff.mpr ((sortByKey_perm fs).mem_iff.mp hb)
    exact List.inj_on_of_nodup_map h ha hb (String.le_antisymm hab hba)

end Json

namespace Key

open Value (EqualBy Ordinary Plain)

variable {v w : Value} {xs ys : List Value} {es fs : Document}

/-! ## Keys of parts -/

theorem ofValues_eq_map (xs : List Value) : ofValues xs = xs.map ofValue := by
  induction xs with
  | nil => rfl
  | cons x rest ih => rw [ofValues, ih, List.map_cons]

theorem ofEntries_eq_map (es : Document) : ofEntries es = es.map fun e => (e.1, ofValue e.2) := by
  induction es with
  | nil => rfl
  | cons e rest ih => rw [ofEntries, ih, List.map_cons]

theorem ofEntries_keys (es : Document) : (ofEntries es).map (·.1) = es.keys := by
  rw [ofEntries_eq_map, List.map_map]
  rfl

theorem ofValues_eq_iff :
    ofValues xs = ofValues ys ↔ xs.length = ys.length ∧
      ∀ (n : Nat) (x y : Value), xs[n]? = some x → ys[n]? = some y → ofValue x = ofValue y := by
  rw [ofValues_eq_map, ofValues_eq_map]
  constructor
  · intro same
    refine ⟨by simpa using congrArg List.length same, fun n x y hx hy => ?_⟩
    have placed := congrArg (·[n]?) same
    simpa [hx, hy] using placed
  · rintro ⟨length, all⟩
    exact Value.map_eq_of_items length all

/-- Entries under distinct keys have keys that are each other's order exactly when they are as many
and each has one of its key. -/
theorem ofEntries_perm_iff (distinct : es.keys.Nodup) (distinct' : fs.keys.Nodup) :
    (ofEntries es).Perm (ofEntries fs) ↔
      es.length = fs.length ∧ ∀ e ∈ es, ∃ w, fs.lookup e.1 = some w ∧ ofValue e.2 = ofValue w := by
  rw [ofEntries_eq_map, ofEntries_eq_map]
  constructor
  · intro perm
    refine ⟨by simpa using perm.length_eq, fun e he => ?_⟩
    have placed := perm.mem_iff.mp (List.mem_map.mpr ⟨e, he, rfl⟩)
    obtain ⟨f, hf, same⟩ := List.mem_map.mp placed
    obtain ⟨hk, hv⟩ := Prod.mk.inj same
    exact ⟨f.2, hk ▸ Table.lookup_of_mem distinct' hf, hv.symm⟩
  · rintro ⟨length, entries⟩
    have nodup : (es.map fun e => (e.1, ofValue e.2)).Nodup := by
      refine List.Nodup.of_map (·.1) ?_
      rw [List.map_map]
      exact distinct
    refine (nodup.subperm fun e' he' => ?_).perm_of_length_le (by simp [length])
    obtain ⟨e, he, rfl⟩ := List.mem_map.mp he'
    obtain ⟨w, held, same⟩ := entries e he
    exact List.mem_map.mpr ⟨(e.1, w), Table.mem_of_lookup held, by rw [same]⟩

/-! ## Keys of numbers, days and times -/

/-- The key of a number is where it lies. -/
theorem ofValue_float {x : Double} (number : ∀ mark, x ≠ .nan mark) :
    ofValue (.float x) = .number (Extended.ofDouble x).normal := by
  cases x with
  | nan mark => exact absurd rfl (number mark)
  | infinity negative => rfl
  | finite negative m e => rfl

def quoted (cs : List Char) : String := String.ofList ('\x22' :: (cs ++ ['\x22']))

theorem ofValue_date (d : Date) : ofValue (.date d) = .other (quoted (Iso.dateText d)) := by
  rw [quoted, ← Json.string_marks (Iso.dateText_marks d)]
  rfl

theorem ofValue_dateTime (t : DateTime) :
    ofValue (.dateTime t) = .other (quoted (Iso.dateTimeText ' ' t)) := by
  rw [quoted, ← Json.string_marks (Iso.dateTimeText_marks t)]
  rfl

theorem quoted_inj {cs ds : List Char} (same : quoted cs = quoted ds) : cs = ds :=
  List.append_cancel_right (List.cons.inj (String.ofList_injective same)).2

theorem quoted_ne_null {cs : List Char} : quoted cs ≠ "null" := by
  intro same
  have chars : '\x22' :: (cs ++ ['\x22']) = "null".toList := by
    rw [← same, quoted, String.toList_ofList]
  exact absurd (List.cons.inj chars).1 (by decide)

/-! ## Values of one key -/

/-- Ordinary values have one key exactly when they are equal with each time just the other. -/
theorem ofValue_eq_iff_equalBy (hv : Ordinary v) :
    ∀ w, Ordinary w → (ofValue v = ofValue w ↔ EqualBy (· = ·) v w) := by
  have defined (n : Int) : Extended.ofInt n ≠ .undefined := nofun
  have null : ofValue .null = .other "null" := rfl
  -- Null, days and times share one kind of key, so they alone have to be told apart by their texts.
  induction hv with
  | null =>
    intro w hw
    rw [Value.equalBy_rigid_iff rfl, null]
    cases hw with
    | null => simp [null]
    | float number => simp [ofValue_float number]
    | date => simp [ofValue_date, quoted_ne_null.symm]
    | dateTime => simp [ofValue_dateTime, quoted_ne_null.symm]
    | _ => simp [ofValue]
  | bool | string =>
    intro w hw
    rw [Value.equalBy_rigid_iff rfl, ofValue]
    cases hw with
    | float number => simp [ofValue_float number]
    | _ => simp [ofValue]
  | date valid =>
    intro w hw
    rw [Value.equalBy_rigid_iff rfl, ofValue_date]
    cases hw with
    | null => simp [null, quoted_ne_null]
    | float number => simp [ofValue_float number]
    | date valid' =>
      simp only [ofValue_date, other.injEq, Value.date.injEq]
      exact ⟨fun same => Iso.dateText_inj valid valid' (quoted_inj same), fun same => by rw [same]⟩
    | dateTime valid' =>
      simp only [ofValue_dateTime, other.injEq, reduceCtorEq, iff_false]
      exact fun same => Iso.dateText_ne_dateTimeText valid valid' (quoted_inj same)
    | _ => simp [ofValue]
  | int n =>
    intro w hw
    rw [Value.equalBy_number_iff rfl, ofValue]
    cases hw with
    | int m => simp [ofValue, Value.number?, Extended.normal_eq_iff (defined n) (defined m)]
    | float number =>
      rw [ofValue_float number]
      simp [Value.number?, Extended.normal_eq_iff (defined n) (Extended.ofDouble_defined number)]
    | _ => simp [ofValue, Value.number?]
  | float number =>
    intro w hw
    rw [Value.equalBy_number_iff rfl, ofValue_float number]
    cases hw with
    | int m =>
      simp [ofValue, Value.number?, Extended.normal_eq_iff (Extended.ofDouble_defined number) (defined m)]
    | float number' =>
      rw [ofValue_float number']
      simp [Value.number?,
        Extended.normal_eq_iff (Extended.ofDouble_defined number) (Extended.ofDouble_defined number')]
    | _ => simp [ofValue, Value.number?]
  | dateTime valid =>
    intro w hw
    rw [Value.equalBy_dateTime_iff, ofValue_dateTime]
    cases hw with
    | null => simp [null, quoted_ne_null]
    | float number => simp [ofValue_float number]
    | date valid' =>
      simp only [ofValue_date, other.injEq, reduceCtorEq, false_and, exists_false, iff_false]
      exact fun same => Iso.dateText_ne_dateTimeText valid' valid (quoted_inj same).symm
    | dateTime valid' =>
      simp only [ofValue_dateTime, other.injEq, Value.dateTime.injEq, exists_eq_left']
      exact ⟨fun same => Iso.dateTimeText_inj valid valid' (quoted_inj same), fun same => by rw [same]⟩
    | _ => simp [ofValue]
  | list _ ih | tuple _ ih =>
    intro w hw
    rw [Value.equalBy_sequence_iff rfl, ofValue]
    cases hw with
    | float number => simp [ofValue_float number, Value.sequence?]
    | list items' | tuple items' =>
      simp only [ofValue, array.injEq, ofValues_eq_iff, Value.sequence?, Option.some.injEq,
        exists_eq_left']
      exact and_congr_right fun _ => Value.items_congr fun x hx y hy => ih x hx y (items' y hy)
    | _ => simp [ofValue, Value.sequence?]
  | object distinct _ ih =>
    intro w hw
    rw [Value.equalBy_object_iff, ofValue]
    cases hw with
    | float number => simp [ofValue_float number]
    | object distinct' values' =>
      simp only [ofValue, object.injEq, Value.object.injEq, exists_eq_left']
      rw [Json.sortByKey_eq_iff (by rw [ofEntries_keys]; exact distinct),
        ofEntries_perm_iff distinct distinct',
        Value.entries_iff (S := fun v w => ofValue v = ofValue w) distinct distinct']
      exact and_congr_right fun _ => Value.values_congr fun e he f hf => ih e he f.2 (values' f hf)
    | _ => simp [ofValue]

end Key

namespace Value

theorem Plain.ordinary {v : Value} (h : Plain v) : Ordinary v := by
  induction h with
  | null => exact .null
  | bool b => exact .bool b
  | int n => exact .int n
  | float number => exact .float number
  | string s => exact .string s
  | list _ ih => exact .list ih
  | object distinct _ ih => exact .object distinct ih

/-- Plain values have no times to be compared. -/
theorem EqualBy.of_plain {R S : DateTime → DateTime → Prop} {v w : Value} (hv : Plain v)
    (h : EqualBy R v w) : EqualBy S v w := by
  induction h with
  | null => exact .null
  | bool b => exact .bool b
  | number left right same => exact .number left right same
  | string s => exact .string s
  | date => cases hv
  | dateTime => cases hv
  | sequence left right length _ ih =>
    cases hv with
    | list items =>
      cases left
      refine .sequence rfl right length fun n x y hx hy => ih n x y hx hy ?_
      exact items x (List.mem_of_getElem? hx)
    | _ => cases left
  | object keys _ ih =>
    cases hv with
    | object _ values =>
      exact .object keys fun k v w hv hw => ih k v w hv hw (values (k, v) (Table.mem_of_lookup hv))

end Value

namespace Key

open Value (Plain)

/-- Plain values have one key exactly when they are strictly equal. -/
theorem ofValue_eq_iff {v : Value} (hv : Plain v) :
    ∀ w, Plain w → (ofValue v = ofValue w ↔ strictEq v w = true) := by
  intro w hw
  rw [ofValue_eq_iff_equalBy hv.ordinary w hw.ordinary, Value.strictEq_iff hv.ordinary w hw.ordinary]
  exact ⟨.of_plain hv, .of_plain hv⟩

/-- No plain value but null has the key of null. -/
theorem ofValue_null_iff {v : Value} (h : Plain v) : ofValue v = ofValue .null ↔ v = .null := by
  rw [ofValue_eq_iff h .null .null]
  cases h <;> simp [strictEq, Value.sameScalar, Value.number?, Value.sameAtom, Value.sequence?]

end Key

/-! ## Texts -/

theorem isSame_string (a b : String) : isSame (.string a) (.string b) = (a == b) := by
  simp [isSame, Value.sameLoose, Value.looseNumber?, Value.number?, Value.text?]

/-- What a text is the same as has this text. -/
theorem text_of_isSame {c : String} {x : Value} (h : isSame (.string c) x = true) :
    x.text? = some c := by
  cases x <;> simp_all [isSame, Value.sameLoose, Value.looseNumber?, Value.number?, Value.text?,
    Value.sameAtom]

/-- What is the same as a text has this text. -/
theorem text_of_same {x : Value} {s : String} (h : isSame x (.string s) = true) : x.text? = some s := by
  cases x <;> simp_all [isSame, Value.sameLoose, Value.looseNumber?, Value.number?, Value.text?,
    Value.sameAtom]

/-- Among texts only the text itself is the same as one. -/
theorem any_isSame {vs : List Value} (texts : ∀ v ∈ vs, ∃ s, v = .string s) (s : String) :
    vs.any (isSame (.string s)) = true ↔ .string s ∈ vs := by
  rw [List.any_eq_true]
  constructor
  · rintro ⟨v, hv, same⟩
    obtain ⟨t, rfl⟩ := texts v hv
    rw [isSame_string, beq_iff_eq] at same
    exact same ▸ hv
  · exact fun hv => ⟨_, hv, by rw [isSame_string, beq_iff_eq]⟩

/-! ## Strict equality with a text -/

theorem strictEq_string {v : Value} {s : String} : strictEq v (.string s) = true ↔ v = .string s := by
  cases v <;> simp [strictEq, Value.sameScalar, Value.sequence?, Value.number?, Value.sameAtom]

theorem string_strictEq {v : Value} {s : String} : strictEq (.string s) v = true ↔ v = .string s := by
  cases v with
  | string t =>
    simp only [strictEq, Value.sameScalar, beq_iff_eq, Value.string.injEq]
    exact eq_comm
  | _ => simp [strictEq, Value.sameScalar, Value.number?, Value.sameAtom]

/-- The index key of a text is that of no other value but a type of this name. -/
theorem Key.text_of_ofValue {v : Value} {s : String} (h : Key.ofValue v = .string s) :
    v = .string s ∨ ∃ t, v = .fieldType t ∧ t.name = s := by
  cases v with
  | string a => exact .inl (congrArg _ (Key.string.inj h))
  | fieldType t => exact .inr ⟨t, rfl, Key.string.inj h⟩
  | float x => cases x <;> cases h
  | _ => cases h

end DocStore
