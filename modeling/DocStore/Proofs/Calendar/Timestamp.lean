import DocStore.Proofs.Calendar.Iso
/-!
Timestamps of times with any offset: of a fixed width, read again as the time in UTC cut down to
milliseconds, and in the order of the instants.
-/

namespace DocStore

namespace Iso

theorem length_of_fits {fs cs : List Char} (h : fits fs cs = true) : cs.length = fs.length := by
  induction fs generalizing cs with
  | nil =>
    cases cs with
    | nil => rfl
    | cons => cases h
  | cons f fs ih =>
    cases cs with
    | nil => cases h
    | cons c cs =>
      rw [fits, Bool.and_eq_true] at h
      rw [List.length_cons, List.length_cons, ih h.2]

end Iso

namespace DateTime

variable {t u : DateTime} {micros : Int}

/-! ## Instants and times in UTC -/

theorem instant_ofInstant (h : ofInstant micros = some t) : t.instant = micros := by
  simp only [ofInstant] at h
  split at h
  · cases h
  · next inside =>
    obtain rfl := Option.some.inj h
    have day : (Date.ofOrdinal (micros / microsPerDay).toNat).ordinal =
        (micros / microsPerDay).toNat := Date.ordinal_ofOrdinal (by omega)
    simp only [instant, localMicros, day, Option.getD_some]
    simp only [microsPerDay] at inside ⊢
    omega

theorem offset_ofInstant (h : ofInstant micros = some t) : t.offset = some 0 := by
  simp only [ofInstant] at h
  split at h
  · cases h
  · obtain rfl := Option.some.inj h
    rfl

/-- A time in UTC, cut down to whole milliseconds. -/
def cut (t : DateTime) : DateTime := { t with micro := t.micro / 1000 * 1000, offset := some 0 }

theorem cut_valid (valid : t.Valid) : t.cut.Valid := by
  obtain ⟨date, hour, minute, second, micro, -⟩ := valid
  refine ⟨date, hour, minute, second, ?_, ?_⟩
  · show t.micro / 1000 * 1000 < 1000000
    omega
  · simp [cut, microsPerDay]

theorem instant_cut (utc : t.offset = some 0) : t.cut.instant = t.instant / 1000 * 1000 := by
  simp only [instant, localMicros, cut, utc, Option.getD_some, microsPerDay]
  omega

/-! ## Texts of instants -/

/-- A text of 24 characters that ends in `Z` and is read as the time in UTC at an instant, cut down to
whole milliseconds. -/
structure Stamps (s : String) (micros : Int) : Prop where
  width : s.length = 24
  zulu : s.toList.getLast? = some 'Z'
  reads : ∃ u, Iso.parse? s = some (.time u) ∧ u.Valid ∧ u.offset = some 0 ∧
    u.instant = micros / 1000 * 1000

theorem stamps_ofInstant (h : ofInstant micros = some t) :
    Stamps (String.ofList (Iso.timestampText t)) micros := by
  have valid := ofInstant_valid h
  refine ⟨?_, ?_, t.cut, Iso.parse?_timestampText valid, cut_valid valid, rfl, ?_⟩
  · have form := Iso.length_of_fits (Iso.isTimestamp_timestampText valid)
    rwa [String.length_toList, String.length_toList] at form
  · rw [String.toList_ofList, Iso.timestampText_eq, ← List.cons_append, ← List.append_assoc,
      List.getLast?_concat]
  · rw [instant_cut (offset_ofInstant h), instant_ofInstant h]

/-- Texts of instants that differ in their milliseconds differ. -/
theorem Stamps.apart {s s' : String} {later : Int} (h : Stamps s micros) (h' : Stamps s' later)
    (differ : micros / 1000 ≠ later / 1000) : s ≠ s' := by
  rintro rfl
  obtain ⟨u, read, -, -, at_u⟩ := h.reads
  obtain ⟨v, again, -, -, at_v⟩ := h'.reads
  obtain rfl := Iso.Stamp.time.inj (Option.some.inj (read.symm.trans again))
  omega

theorem timestamp?_inCalendar (inside : InCalendar t.instant) :
    ∃ u, ofInstant t.instant = some u ∧ Iso.timestamp? t = some (Iso.timestampText u) := by
  obtain ⟨u, hu⟩ := ofInstant_inCalendar inside
  exact ⟨u, hu, by rw [Iso.timestamp?, toUtc, hu, Option.map_some]⟩

/-- Every time whose instant lies in the calendar has a timestamp, which is read again as its time in UTC
up to milliseconds, and timestamps come in the order of the instants. -/
theorem timestamps_in_order (inside : InCalendar t.instant) (inside' : InCalendar u.instant) :
    ∃ s s' : String, (Iso.timestamp? t).map String.ofList = some s ∧
      (Iso.timestamp? u).map String.ofList = some s' ∧ Stamps s t.instant ∧ Stamps s' u.instant ∧
      (t.instant ≤ u.instant → s ≤ s' ∧ (t.instant / 1000 ≠ u.instant / 1000 → s < s')) := by
  obtain ⟨v, hv, text⟩ := timestamp?_inCalendar inside
  obtain ⟨v', hv', text'⟩ := timestamp?_inCalendar inside'
  have stamps := stamps_ofInstant hv
  have stamps' := stamps_ofInstant hv'
  refine ⟨_, _, by rw [text]; rfl, by rw [text']; rfl, stamps, stamps', fun le => ?_⟩
  have order := timestamp_mono le hv hv'
  refine ⟨order, fun differ => String.not_le.mp fun back => ?_⟩
  exact stamps.apart stamps' differ (String.le_antisymm order back)

/-! ## A night in February -/

def leapNight : DateTime := ⟨⟨2024, 2, 29⟩, 23, 59, 59, 999999, some (-3600000000)⟩

def earlyMarch : DateTime := ⟨⟨2024, 3, 1⟩, 1, 0, 0, 0, none⟩

theorem leapNight_in_order : InCalendar leapNight.instant ∧ InCalendar earlyMarch.instant ∧
    ∃ s s' : String, (Iso.timestamp? leapNight).map String.ofList = some s ∧
      (Iso.timestamp? earlyMarch).map String.ofList = some s' ∧ Stamps s leapNight.instant ∧
      Stamps s' earlyMarch.instant ∧ s < s' := by
  have inside : InCalendar leapNight.instant := ⟨by decide, by decide⟩
  have inside' : InCalendar earlyMarch.instant := ⟨by decide, by decide⟩
  obtain ⟨s, s', text, text', stamps, stamps', order⟩ := timestamps_in_order inside inside'
  exact ⟨inside, inside', s, s', text, text', stamps, stamps', (order (by decide)).2 (by decide)⟩

end DateTime

end DocStore
