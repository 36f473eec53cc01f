import DocStore.Calendar.Date
/-!
Days and their numbers: the day with a number is a day of the calendar that has this number, and later
days have greater numbers.
-/

namespace DocStore.Date

/-! ## Years -/

theorem isLeap_iff (year : Nat) :
    isLeap year = true ↔ 4 ∣ year ∧ (¬100 ∣ year ∨ 400 ∣ year) := by
  simp [isLeap, Nat.dvd_iff_mod_eq_zero]

def daysInYear (year : Nat) : Nat := if isLeap year then 366 else 365

theorem daysInYear_bounds (year : Nat) : 365 ≤ daysInYear year ∧ daysInYear year ≤ 366 := by
  unfold daysInYear
  split <;> decide

/-- Every fourth year is longer, but of every hundredth only each fourth. -/
theorem daysInYear_add (year : Nat) : daysInYear year + (if 100 ∣ year then 1 else 0) =
    365 + (if 4 ∣ year then 1 else 0) + (if 400 ∣ year then 1 else 0) := by
  have hundreds : 100 ∣ year → 4 ∣ year := Nat.dvd_trans (by decide)
  have periods : 400 ∣ year → 100 ∣ year := Nat.dvd_trans (by decide)
  simp only [daysInYear, isLeap_iff]
  by_cases hundred : 100 ∣ year
  · by_cases period : 400 ∣ year <;> simp [hundred, period, hundreds hundred]
  · have period : ¬400 ∣ year := fun period => hundred (periods period)
    by_cases four : 4 ∣ year <;> simp [hundred, period, four]

theorem daysBeforeYear_succ {year : Nat} (some : 1 ≤ year) :
    daysBeforeYear (year + 1) = daysBeforeYear year + daysInYear year := by
  obtain ⟨y, rfl⟩ : ∃ y, year = y + 1 := ⟨year - 1, by omega⟩
  have length := daysInYear_add (y + 1)
  have few : (y + 1) / 100 ≤ (y + 1) / 4 := Nat.div_le_div_left (by decide) (by decide)
  simp only [daysBeforeYear, Nat.add_sub_cancel, Nat.succ_div] at few ⊢
  omega

theorem daysBeforeYear_mono {year later : Nat} (some : 1 ≤ year) (le : year ≤ later) :
    daysBeforeYear year ≤ daysBeforeYear later := by
  induction le with
  | refl => exact Nat.le_refl _
  | step le ih =>
    rw [daysBeforeYear_succ (Nat.le_trans some le)]
    exact Nat.le_add_right_of_le ih

/-- A day falls into a period of 400 years, one of 100 years in it, one of 4 years in that, and a year in
that; only the last of the longer periods has the day that the others lack. -/
theorem yearAndRest_periods (n : Nat) : ∃ c4 c q y rest,
    yearAndRest n = (c4 * 400 + c * 100 + q * 4 + y, rest) ∧
      n = c4 * 146097 + c * 36524 + q * 1461 + y * 365 + rest ∧ c ≤ 3 ∧ q ≤ 24 ∧ y ≤ 3 ∧
      rest ≤ 365 ∧ (rest = 365 → y = 3 ∧ (q = 24 → c = 3)) := by
  refine ⟨_, _, _, _, _, rfl, ?_⟩
  have inFour : n = n / 146097 * 146097 + n % 146097 ∧ n % 146097 < 146097 := by omega
  generalize n % 146097 = m at inFour ⊢
  generalize n / 146097 = c4 at inFour ⊢
  have inHundred : ∃ c k, c = min (m / 36524) 3 ∧ k = m - c * 36524 ∧ m = c * 36524 + k ∧ c ≤ 3 ∧
      k ≤ 36524 ∧ (k = 36524 → c = 3) := ⟨_, _, rfl, rfl, by omega, by omega, by omega, by omega⟩
  obtain ⟨c, k, hc, hk, hundreds, three, hundred, longer⟩ := inHundred
  rw [← hc, ← hk]
  have inSingle : k = k / 1461 * 1461 + k % 1461 ∧ k % 1461 ≤ 1460 := by omega
  generalize k % 1461 = r at inSingle ⊢
  generalize k / 1461 = q at inSingle ⊢
  have inYear : ∃ y rest, y = min (r / 365) 3 ∧ rest = r - y * 365 ∧ r = y * 365 + rest ∧ y ≤ 3 ∧
      rest ≤ 365 ∧ (rest = 365 → y = 3) := ⟨_, _, rfl, rfl, by omega, by omega, by omega, by omega⟩
  obtain ⟨y, rest, hy, hrest, years, four, year, last⟩ := inYear
  rw [← hy, ← hrest]
  clear hc hk hy hrest
  exact ⟨by omega, three, by omega, four, year, fun is => ⟨last is, by omega⟩⟩

/-- A day falls into its year, at its place. -/
theorem yearAndRest_spec (n : Nat) :
    daysBeforeYear ((yearAndRest n).1 + 1) + (yearAndRest n).2 = n ∧
      (yearAndRest n).2 < daysInYear ((yearAndRest n).1 + 1) := by
  obtain ⟨c4, c, q, y, rest, parts, number, hc, hq, hy, hrest, last⟩ := yearAndRest_periods n
  rw [parts]
  constructor
  · have fours : (c4 * 400 + c * 100 + q * 4 + y) / 4 = c4 * 100 + c * 25 + q := by omega
    have hundreds : (c4 * 400 + c * 100 + q * 4 + y) / 100 = c4 * 4 + c := by omega
    have periods : (c4 * 400 + c * 100 + q * 4 + y) / 400 = c4 := by omega
    simp only [daysBeforeYear, Nat.add_sub_cancel, fours, hundreds, periods]
    clear fours hundreds periods
    omega
  · rcases Nat.lt_or_eq_of_le hrest with short | rfl
    · exact Nat.lt_of_lt_of_le short (daysInYear_bounds _).1
    · obtain ⟨rfl, century⟩ := last rfl
      have leap : isLeap (c4 * 400 + c * 100 + q * 4 + 3 + 1) = true := by
        clear number
        refine (isLeap_iff _).mpr ⟨by omega, ?_⟩
        by_cases full : q = 24
        · exact .inr (by have := century full; omega)
        · exact .inl (by omega)
      rw [daysInYear, if_pos leap]
      exact Nat.lt_succ_self 365

/-! ## Months -/

theorem daysBeforeMonth_succ (year : Nat) {month : Nat} (some : 1 ≤ month) :
    daysBeforeMonth year (month + 1) = daysBeforeMonth year month + daysInMonth year month := by
  have more : (List.range (month + 1)).drop 1 = (List.range month).drop 1 ++ [month] := by
    rw [List.range_succ, List.drop_append_of_le_length (by simpa using some)]
  simp only [daysBeforeMonth, more, List.foldl_append, List.foldl_cons, List.foldl_nil]

theorem daysBeforeMonth_mono (year : Nat) {month later : Nat} (some : 1 ≤ month)
    (le : month ≤ later) : daysBeforeMonth year month ≤ daysBeforeMonth year later := by
  induction le with
  | refl => exact Nat.le_refl _
  | step le ih =>
    rw [daysBeforeMonth_succ year (Nat.le_trans some le)]
    exact Nat.le_add_right_of_le ih

/-- After December all days of the year are over. -/
theorem daysBeforeMonth_end (year : Nat) : daysBeforeMonth year 13 = daysInYear year := by
  cases leap : isLeap year <;> simp [daysBeforeMonth, daysInYear, List.range, List.range.loop,
    daysInMonth, leap]

/-- A day that lies before the end of the year falls into a month, at its place. -/
theorem monthAndDay_spec (year fuel month n : Nat) (some : 1 ≤ month)
    (months : fuel + month = 13) (inYear : daysBeforeMonth year month + n < daysInYear year) :
    let (m, d) := monthAndDay year fuel month n
    1 ≤ m ∧ m ≤ 12 ∧ 1 ≤ d ∧ d ≤ daysInMonth year m ∧
      daysBeforeMonth year m + d = daysBeforeMonth year month + n + 1 := by
  induction fuel generalizing month n with
  | zero =>
    obtain rfl : month = 13 := by omega
    rw [daysBeforeMonth_end] at inYear
    omega
  | succ fuel ih =>
    rw [monthAndDay]
    by_cases inMonth : n < daysInMonth year month
    · rw [if_pos inMonth]
      exact ⟨some, by omega, by omega, by omega, by omega⟩
    · have next := daysBeforeMonth_succ year some
      have later := ih (month + 1) (n - daysInMonth year month) (by omega) (by omega) (by omega)
      rw [if_neg inMonth]
      revert later
      generalize monthAndDay year fuel (month + 1) (n - daysInMonth year month) = found
      obtain ⟨m, d⟩ := found
      rintro ⟨first, last, one, length, place⟩
      exact ⟨first, last, one, length, by omega⟩

/-! ## Days and their numbers -/

theorem ofOrdinal_spec {n : Nat} (some : 1 ≤ n) :
    (ofOrdinal n).ordinal = n ∧ 1 ≤ (ofOrdinal n).year ∧ 1 ≤ (ofOrdinal n).month ∧
      (ofOrdinal n).month ≤ 12 ∧ 1 ≤ (ofOrdinal n).day ∧
      (ofOrdinal n).day ≤ daysInMonth (ofOrdinal n).year (ofOrdinal n).month := by
  obtain ⟨number, inYear⟩ := yearAndRest_spec (n - 1)
  unfold ofOrdinal
  revert number inYear
  generalize yearAndRest (n - 1) = place
  obtain ⟨y, rest⟩ := place
  intro number inYear
  have first : daysBeforeMonth (y + 1) 1 = 0 := rfl
  have found := monthAndDay_spec (y + 1) 12 1 rest (by omega) rfl
    (by rw [first]; simpa using inYear)
  dsimp only
  revert found
  generalize monthAndDay (y + 1) 12 1 rest = found
  obtain ⟨m, d⟩ := found
  rintro ⟨month, year, day, length, there⟩
  refine ⟨?_, Nat.le_add_left 1 y, month, year, day, length⟩
  simp only [ordinal] at number ⊢
  omega

theorem ordinal_ofOrdinal {n : Nat} (some : 1 ≤ n) : (ofOrdinal n).ordinal = n :=
  (ofOrdinal_spec some).1

/-- No day of a year comes after the year. -/
theorem ordinal_le {d : Date} (some : 1 ≤ d.month) (month : d.month ≤ 12)
    (day : d.day ≤ daysInMonth d.year d.month) (year : 1 ≤ d.year) :
    d.ordinal ≤ daysBeforeYear (d.year + 1) := by
  have next := daysBeforeMonth_succ d.year some
  have inYear := daysBeforeMonth_mono d.year (show 1 ≤ d.month + 1 by omega)
    (show d.month + 1 ≤ 13 by omega)
  rw [daysBeforeMonth_end] at inYear
  rw [daysBeforeYear_succ year, ordinal]
  omega

theorem ofOrdinal_valid {n : Nat} (some : 1 ≤ n) (few : n ≤ maxOrdinal) : (ofOrdinal n).Valid := by
  obtain ⟨number, year, first, last, day, length⟩ := ofOrdinal_spec some
  refine ⟨year, ?_, first, last, day, length⟩
  -- a day of a later year comes after all the days before year 10000
  refine Nat.le_of_not_lt fun late => ?_
  have later := daysBeforeYear_mono (show 1 ≤ 10000 by decide)
    (show 10000 ≤ (ofOrdinal n).year from late)
  have all : daysBeforeYear 10000 = maxOrdinal := rfl
  have place : daysBeforeYear (ofOrdinal n).year < (ofOrdinal n).ordinal := by
    rw [ordinal]
    omega
  omega

/-- One day comes before another one by year, month and day in this order. -/
def Before (d later : Date) : Prop :=
  d.year < later.year ∨ d.year = later.year ∧
    (d.month < later.month ∨ d.month = later.month ∧ d.day < later.day)

theorem before_or_eq_or_before (d d' : Date) : d.Before d' ∨ d = d' ∨ d'.Before d := by
  obtain ⟨y, m, n⟩ := d
  obtain ⟨y', m', n'⟩ := d'
  simp only [Before, Date.mk.injEq]
  omega

/-- A day that comes before another one has a smaller number. -/
theorem Before.ordinal_lt {d later : Date} (before : d.Before later) (valid : d.Valid)
    (valid' : later.Valid) : d.ordinal < later.ordinal := by
  obtain ⟨year, -, some, month, -, day⟩ := valid
  obtain ⟨-, -, some', -, some'', -⟩ := valid'
  rcases before with earlier | ⟨same, earlier | ⟨same', earlier⟩⟩
  · have inYear := ordinal_le some month day year
    have years := daysBeforeYear_mono (show 1 ≤ d.year + 1 by omega) earlier
    have place : daysBeforeYear later.year < later.ordinal := by
      rw [ordinal]
      omega
    omega
  · have next := daysBeforeMonth_succ d.year some
    have months := daysBeforeMonth_mono d.year (show 1 ≤ d.month + 1 by omega) earlier
    simp only [ordinal, ← same]
    omega
  · simp only [ordinal, ← same, ← same']
    omega

/-- Days come in the order of their numbers. -/
theorem ofOrdinal_mono (n later : Nat) (some : 1 ≤ n) (le : n ≤ later) (few : later ≤ maxOrdinal) :
    ofOrdinal n = ofOrdinal later ∨ (ofOrdinal n).Before (ofOrdinal later) := by
  have valid := ofOrdinal_valid some (Nat.le_trans le few)
  have valid' := ofOrdinal_valid (Nat.le_trans some le) few
  rcases before_or_eq_or_before (ofOrdinal n) (ofOrdinal later) with before | same | after
  · exact .inr before
  · exact .inl same
  · have less := after.ordinal_lt valid' valid
    rw [ordinal_ofOrdinal some, ordinal_ofOrdinal (Nat.le_trans some le)] at less
    omega

end DocStore.Date
