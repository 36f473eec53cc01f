import DocStore.Proofs.Calendar.Date
import DocStore.Proofs.Value.Key
/-!
Keys beside strict equality: a key keeps the offset of each time, which strict equality looks through to the
instant. Values that are strictly equal have one key unless two of their times are written from different
offsets.
-/

namespace DocStore

namespace DateTime

/-- Times at one offset that show the same are one. -/
theorem eq_of_localMicros {t u : DateTime} (ht : t.Valid) (hu : u.Valid)
    (shown : t.localMicros = u.localMicros) (offset : t.offset = u.offset) : t = u := by
  obtain ⟨date, hour, minute, second, micro, -⟩ := ht
  obtain ⟨date', hour', minute', second', micro', -⟩ := hu
  have day : microsPerDay = 86400000000 := rfl
  simp only [localMicros, day] at shown
  have dates : t.date = u.date := by
    rcases Date.before_or_eq_or_before t.date u.date with before | same | after
    · have less := before.ordinal_lt date date'
      omega
    · exact same
    · have less := after.ordinal_lt date' date
      omega
  rw [dates] at shown
  cases t
  cases u
  simp only [mk.injEq] at *
  refine ⟨dates, ?_, ?_, ?_, ?_, offset⟩ <;> omega

end DateTime

namespace Value

mutual

/-- Whether the times that two values have in the same places have the same offsets. -/
def sameOffsets : Value → Value → Bool
  | .dateTime t, .dateTime u => t.offset == u.offset
  | .list xs, w | .tuple xs, w =>
    match w.sequence? with
    | some ys => sameOffsetsAll xs ys
    | none => true
  | .object es, .object fs => sameOffsetsEntries es fs
  | _, _ => true

def sameOffsetsAll : List Value → List Value → Bool
  | x :: xs, y :: ys => sameOffsets x y && sameOffsetsAll xs ys
  | _, _ => true

def sameOffsetsEntries : Document → Document → Bool
  | [], _ => true
  | (k, v) :: es, fs =>
    (match fs.lookup k with
      | some w => sameOffsets v w
      | none => true) && sameOffsetsEntries es fs

end

variable {v w : Value} {xs ys : List Value} {es fs : Document}

theorem sameOffsetsAll_iff :
    sameOffsetsAll xs ys = true ↔
      ∀ (n : Nat) (x y : Value), xs[n]? = some x → ys[n]? = some y → sameOffsets x y = true := by
  induction xs generalizing ys with
  | nil => simp [sameOffsetsAll]
  | cons x xs ih =>
    cases ys with
    | nil => simp [sameOffsetsAll]
    | cons y ys =>
      rw [sameOffsetsAll, Bool.and_eq_true, ih, items_cons (S := fun x y => sameOffsets x y = true)]

theorem sameOffsetsEntries_iff (distinct : es.keys.Nodup) :
    sameOffsetsEntries es fs = true ↔
      ∀ k v w, es.lookup k = some v → fs.lookup k = some w → sameOffsets v w = true := by
  have entries : sameOffsetsEntries es fs = true ↔
      ∀ e ∈ es, ∀ w, fs.lookup e.1 = some w → sameOffsets e.2 w = true := by
    clear distinct
    induction es with
    | nil => simp [sameOffsetsEntries]
    | cons e rest ih =>
      rw [sameOffsetsEntries, Bool.and_eq_true, ih, List.forall_mem_cons]
      cases fs.lookup e.1 <;> simp
  rw [entries]
  constructor
  · exact fun all k v w hv hw => all (k, v) (Table.mem_of_lookup hv) w hw
  · exact fun all e he w hw => all e.1 e.2 w (Table.lookup_of_mem distinct he) hw

/-- Two times are one when they are one instant at one offset. -/
theorem eq_iff_sameInstant {t u : DateTime} (ht : t.Valid) (hu : u.Valid) :
    t = u ↔ t.sameInstant u = true ∧ t.offset = u.offset := by
  rw [sameInstant_iff]
  constructor
  · rintro rfl
    exact ⟨⟨rfl, rfl⟩, rfl⟩
  · rintro ⟨⟨-, instants⟩, offsets⟩
    apply DateTime.eq_of_localMicros ht hu _ offsets
    simp only [DateTime.instant, offsets] at instants
    omega

/-- Values are equal with each time just the other exactly when they are strictly equal and their times have
the same offsets. -/
theorem equalBy_eq_iff (hv : Ordinary v) :
    ∀ w, Ordinary w → (EqualBy (· = ·) v w ↔ Equal v w ∧ sameOffsets v w = true) := by
  -- Offsets matter in the places of times alone, and values of two kinds are equal in neither sense.
  induction hv with
  | null | bool | string | date =>
    intro w _
    rw [Equal, equalBy_rigid_iff rfl, equalBy_rigid_iff rfl]
    simp [sameOffsets]
  | int | float =>
    intro w _
    rw [Equal, equalBy_number_iff rfl, equalBy_number_iff rfl]
    simp [sameOffsets]
  | dateTime valid =>
    intro w hw
    rw [Equal, equalBy_dateTime_iff, equalBy_dateTime_iff]
    cases hw with
    | dateTime valid' =>
      simp only [dateTime.injEq, exists_eq_left', sameOffsets, beq_iff_eq]
      exact eq_iff_sameInstant valid valid'
    | _ => simp
  | list items ih | tuple items ih =>
    intro w hw
    rw [Equal, equalBy_sequence_iff rfl, equalBy_sequence_iff rfl]
    cases hw with
    | list items' | tuple items' =>
      simp only [sequence?, Option.some.injEq, exists_eq_left', sameOffsets, sameOffsetsAll_iff]
      rw [items_congr fun x hx y hy => ih x hx y (items' y hy)]
      simp only [imp_and, forall_and, and_assoc]
    | _ => simp [sequence?]
  | object distinct values ih =>
    intro w hw
    rw [Equal, equalBy_object_iff, equalBy_object_iff]
    cases hw with
    | object distinct' values' =>
      simp only [object.injEq, exists_eq_left', sameOffsets, sameOffsetsEntries_iff distinct]
      rw [values_congr (T := fun v w => Equal v w ∧ sameOffsets v w = true)
        fun e he f hf => ih e he f.2 (values' f hf)]
      simp only [imp_and, forall_and, and_assoc]
    | _ => simp

end Value

namespace Key

open Value (Ordinary sameOffsets)

/-- Ordinary values have one key exactly when they are strictly equal and their times have the same
offsets, which are fixed: times in zones with folds are left out. -/
theorem keys_coincide {v w : Value} (hv : Ordinary v) (hw : Ordinary w) :
    ofValue v = ofValue w ↔ strictEq v w = true ∧ sameOffsets v w = true := by
  rw [ofValue_eq_iff_equalBy hv w hw, Value.equalBy_eq_iff hv w hw, Value.strictEq_iff hv w hw]

def noon : DateTime := ⟨⟨2024, 1, 1⟩, 12, 0, 0, 0, some 0⟩

/-- The same instant as it is written an hour to the east. -/
def noonEast : DateTime := ⟨⟨2024, 1, 1⟩, 13, 0, 0, 0, some 3600000000⟩

/-- In a list they are as equal as the list and a tuple, but their keys are not. -/
theorem noon_keys_coincide :
    ofValue (.list [.dateTime noon]) = ofValue (.tuple [.dateTime noon]) ∧
      ofValue (.list [.dateTime noon]) ≠ ofValue (.tuple [.dateTime noonEast]) := by
  have valid : noon.Valid := by decide
  have valid' : noonEast.Valid := by decide
  have list : Ordinary (.list [.dateTime noon]) := .list (List.forall_mem_singleton.mpr (.dateTime valid))
  have tuple {t : DateTime} (h : t.Valid) : Ordinary (.tuple [.dateTime t]) :=
    .tuple (List.forall_mem_singleton.mpr (.dateTime h))
  constructor
  · exact (keys_coincide list (tuple valid)).mpr ⟨by decide, by decide⟩
  · intro same
    exact absurd ((keys_coincide list (tuple valid')).mp same).2 (by decide)

/-- One instant, strictly equal to itself, has two keys. -/
theorem noon_has_two_keys :
    strictEq (.dateTime noon) (.dateTime noonEast) = true ∧
      ofValue (.dateTime noon) ≠ ofValue (.dateTime noonEast) := by
  decide +kernel

end Key

end DocStore
