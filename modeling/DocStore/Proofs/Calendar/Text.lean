import DocStore.Proofs.Calendar.Iso
/-!
The texts of days and times tell them apart: each field is written at its own width or after a mark of its
own, so from a text the fields are known one after the other, and what follows them.
-/

namespace DocStore.Iso

variable {as bs : List Char}

theorem padded_append_inj {k n m : Nat} (some : 0 < k) (small : n < 10 ^ k) (small' : m < 10 ^ k)
    (same : padded k n ++ as = padded k m ++ bs) : n = m ∧ as = bs := by
  have read := digits_padded some small 0 as
  rw [same, digits_padded some small' 0 bs, Nat.zero_mul, Nat.zero_add, Nat.zero_add] at read
  obtain ⟨number, rest⟩ := Prod.mk.inj (Option.some.inj read)
  exact ⟨number.symm, rest.symm⟩

theorem dateText_append_inj {d e : Date} (hd : d.Valid) (he : e.Valid)
    (same : dateText d ++ as = dateText e ++ bs) : d = e ∧ as = bs := by
  obtain ⟨year, month, day⟩ := narrow_date hd
  obtain ⟨year', month', day'⟩ := narrow_date he
  simp only [dateText, List.append_assoc, List.cons_append] at same
  obtain ⟨years, same⟩ := padded_append_inj (by decide) year year' same
  obtain ⟨months, same⟩ := padded_append_inj (by decide) month month' (List.cons.inj same).2
  obtain ⟨days, same⟩ := padded_append_inj (by decide) day day' (List.cons.inj same).2
  exact ⟨by cases d; cases e; simp_all, same⟩

theorem clockText_append_inj {t u : DateTime} (ht : Narrow t) (hu : Narrow u)
    (same : clockText t ++ as = clockText u ++ bs) :
    (t.hour = u.hour ∧ t.minute = u.minute ∧ t.second = u.second) ∧ as = bs := by
  simp only [clockText, List.append_assoc, List.cons_append] at same
  obtain ⟨hours, same⟩ := padded_append_inj (by decide) ht.hour hu.hour same
  obtain ⟨minutes, same⟩ := padded_append_inj (by decide) ht.minute hu.minute (List.cons.inj same).2
  obtain ⟨seconds, same⟩ := padded_append_inj (by decide) ht.second hu.second (List.cons.inj same).2
  exact ⟨⟨hours, minutes, seconds⟩, same⟩

/-! ## Parts of a second -/

/-- Microseconds after a point, when there are any. -/
def microText (n : Nat) : List Char := if n = 0 then [] else '.' :: padded 6 n

theorem microText_append_inj {n m : Nat} (small : n < 10 ^ 6) (small' : m < 10 ^ 6)
    (ha : as.head? ≠ some '.') (hb : bs.head? ≠ some '.')
    (same : microText n ++ as = microText m ++ bs) : n = m ∧ as = bs := by
  unfold microText at same
  split at same
  · next hn =>
    split at same
    · next hm => exact ⟨hn.trans hm.symm, same⟩
    · exact absurd (congrArg List.head? same) ha
  · split at same
    · exact absurd (congrArg List.head? same.symm) hb
    · exact padded_append_inj (by decide) small small' (List.cons.inj same).2

/-! ## Offsets -/

/-- What is written of an offset after its minutes. -/
def secondsText (n : Nat) : List Char :=
  if n % 60000000 = 0 then [] else ':' :: (padded 2 (n / 1000000 % 60) ++ microText (n % 1000000))

theorem offsetText_eq (o : Int) :
    offsetText o = (if o < 0 then '-' else '+') ::
      (padded 2 (o.natAbs / 3600000000) ++
        ':' :: (padded 2 (o.natAbs / 60000000 % 60) ++ secondsText o.natAbs)) := by
  have tail (n : Nat) : secondsText n =
      if n % 1000000 ≠ 0 then ':' :: (padded 2 (n / 1000000 % 60) ++ '.' :: padded 6 (n % 1000000))
      else if n / 1000000 % 60 ≠ 0 then ':' :: padded 2 (n / 1000000 % 60) else [] := by
    unfold secondsText microText
    by_cases fraction : n % 1000000 = 0
    · by_cases seconds : n / 1000000 % 60 = 0
      · have whole : n % 60000000 = 0 := by omega
        simp [fraction, seconds, whole]
      · have part : n % 60000000 ≠ 0 := by omega
        simp [fraction, seconds, part]
    · have part : n % 60000000 ≠ 0 := by omega
      simp [fraction, part]
  rw [tail]
  rfl

theorem secondsText_inj {n m : Nat} (same : secondsText n = secondsText m) :
    n % 60000000 = m % 60000000 := by
  unfold secondsText at same
  split at same
  · next hn =>
    split at same
    · next hm => exact hn.trans hm.symm
    · cases same
  · split at same
    · cases same
    · obtain ⟨seconds, same⟩ := padded_append_inj (by decide) (by omega) (by omega) (List.cons.inj same).2
      have last : ([] : List Char).head? ≠ some '.' := by simp
      rw [← List.append_nil (microText (n % _)), ← List.append_nil (microText (m % _))] at same
      obtain ⟨micros, -⟩ := microText_append_inj (by omega) (by omega) last last same
      omega

theorem offsetText_inj {o p : Int} (ho : -DateTime.microsPerDay < o ∧ o < DateTime.microsPerDay)
    (hp : -DateTime.microsPerDay < p ∧ p < DateTime.microsPerDay) (same : offsetText o = offsetText p) :
    o = p := by
  have day : DateTime.microsPerDay = 86400000000 := rfl
  rw [day] at ho hp
  rw [offsetText_eq, offsetText_eq] at same
  obtain ⟨signs, same⟩ := List.cons.inj same
  obtain ⟨hours, same⟩ := padded_append_inj (by decide) (by omega) (by omega) same
  obtain ⟨minutes, same⟩ := padded_append_inj (by decide) (by omega) (by omega) (List.cons.inj same).2
  have seconds := secondsText_inj same
  have sizes : o.natAbs = p.natAbs := by omega
  split at signs <;> split at signs
  · omega
  · cases signs
  · cases signs
  · omega

def zoneText : Option Int → List Char
  | none => []
  | some o => offsetText o

theorem zoneText_head (o : Option Int) : (zoneText o).head? ≠ some '.' := by
  cases o with
  | none => simp [zoneText]
  | some o =>
    rw [zoneText, offsetText_eq, List.head?_cons]
    split <;> decide

theorem zoneText_inj {o p : Option Int}
    (ho : ∀ n ∈ o, -DateTime.microsPerDay < n ∧ n < DateTime.microsPerDay)
    (hp : ∀ n ∈ p, -DateTime.microsPerDay < n ∧ n < DateTime.microsPerDay)
    (same : zoneText o = zoneText p) : o = p := by
  cases o with
  | none =>
    cases p with
    | none => rfl
    | some p => cases same
  | some o =>
    cases p with
    | none => cases same
    | some p => rw [offsetText_inj (ho o rfl) (hp p rfl) same]

/-! ## Times -/

theorem dateTimeText_eq (separator : Char) (t : DateTime) :
    dateTimeText separator t =
      dateText t.date ++ separator :: (clockText t ++ (microText t.micro ++ zoneText t.offset)) := by
  rw [← List.append_assoc (clockText t)]
  cases offset : t.offset <;> simp only [dateTimeText, microText, zoneText, offset]

/-- Times with one text are one time, offset included. -/
theorem dateTimeText_inj {separator : Char} {t u : DateTime} (ht : t.Valid) (hu : u.Valid)
    (same : dateTimeText separator t = dateTimeText separator u) : t = u := by
  have narrow_t := narrow ht
  have narrow_u := narrow hu
  obtain ⟨date, -, -, -, micro, offset⟩ := ht
  obtain ⟨date', -, -, -, micro', offset'⟩ := hu
  rw [dateTimeText_eq, dateTimeText_eq] at same
  obtain ⟨dates, same⟩ := dateText_append_inj date date' same
  obtain ⟨clocks, same⟩ := clockText_append_inj narrow_t narrow_u (List.cons.inj same).2
  obtain ⟨micros, same⟩ := microText_append_inj micro micro' (zoneText_head _) (zoneText_head _) same
  have offsets := zoneText_inj offset offset' same
  cases t
  cases u
  simp_all

theorem dateText_inj {d e : Date} (hd : d.Valid) (he : e.Valid) (same : dateText d = dateText e) :
    d = e := by
  rw [← List.append_nil (dateText d), ← List.append_nil (dateText e)] at same
  exact (dateText_append_inj hd he same).1

/-- No text of a day is that of a time. -/
theorem dateText_ne_dateTimeText {separator : Char} {d : Date} {t : DateTime} (hd : d.Valid)
    (ht : t.Valid) : dateText d ≠ dateTimeText separator t := by
  intro same
  have lengths := congrArg List.length same
  rw [dateTimeText_eq, List.length_append, length_dateText hd, length_dateText ht.1, List.length_cons]
    at lengths
  omega

/-! ## Characters -/

/-- The characters of the texts of days and times. -/
def IsMark (c : Char) : Prop := c.isDigit = true ∨ c ∈ ['-', ':', '.', ' ', '+']

theorem padded_marks {k n : Nat} : ∀ c ∈ padded k n, IsMark c := fun c hc => .inl (isDigit_padded c hc)

theorem dateText_marks (d : Date) : ∀ c ∈ dateText d, IsMark c := by
  intro c hc
  exact (dateText_chars d c hc).imp id fun mark => by simp_all

theorem clockText_marks (t : DateTime) : ∀ c ∈ clockText t, IsMark c := by
  intro c hc
  exact (clockText_chars t c hc).imp id fun mark => by simp_all

theorem microText_marks (n : Nat) : ∀ c ∈ microText n, IsMark c := by
  intro c hc
  unfold microText at hc
  split at hc
  · cases hc
  · rcases List.mem_cons.mp hc with rfl | digit
    · exact .inr (by decide)
    · exact padded_marks c digit

theorem zoneText_marks (o : Option Int) : ∀ c ∈ zoneText o, IsMark c := by
  intro c hc
  cases o with
  | none => cases hc
  | some o =>
    simp only [zoneText, offsetText_eq, secondsText, List.mem_cons, List.mem_append] at hc
    rcases hc with sign | digit | rfl | digit | rest
    · rw [sign]
      split <;> exact .inr (by decide)
    · exact padded_marks c digit
    · exact .inr (by decide)
    · exact padded_marks c digit
    · split at rest
      · cases rest
      · simp only [List.mem_cons, List.mem_append] at rest
        rcases rest with rfl | digit | micro
        · exact .inr (by decide)
        · exact padded_marks c digit
        · exact microText_marks _ c micro

theorem dateTimeText_marks (t : DateTime) : ∀ c ∈ dateTimeText ' ' t, IsMark c := by
  intro c hc
  simp only [dateTimeText_eq, List.mem_cons, List.mem_append] at hc
  rcases hc with date | rfl | clock | micro | zone
  · exact dateText_marks _ c date
  · exact .inr (by decide)
  · exact clockText_marks _ c clock
  · exact microText_marks _ c micro
  · exact zoneText_marks _ c zone

end DocStore.Iso
