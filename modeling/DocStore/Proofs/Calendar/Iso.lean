import DocStore.Calendar.Clock
import DocStore.Proofs.Calendar.Date
import Mathlib.Algebra.Group.Nat.Defs
import Mathlib.Data.List.GetD
/-!
The text of days and timestamps: its form, that it is read again as what was written, and that later
times have later texts.
-/

namespace DocStore.Iso

/-! ## Padded numbers -/

theorem digit?_digitChar {n : Nat} (small : n < 10) : digit? (Nat.digitChar n) = some n := by
  have all : ∀ d : Fin 10, digit? (Nat.digitChar d) = some d.val := by decide
  exact all ⟨n, small⟩

theorem digitChar_lt {n m : Nat} (lt : n < m) (small : m < 10) :
    Nat.digitChar n < Nat.digitChar m := by
  have all : ∀ d e : Fin 10, d < e → Nat.digitChar d < Nat.digitChar e := by decide
  exact all ⟨n, by omega⟩ ⟨m, small⟩ lt

theorem padded_one {n : Nat} (small : n < 10) : padded 1 n = [Nat.digitChar n] := by
  rw [padded, Nat.toDigits_of_lt_base small]
  rfl

/-- The last digit of a padded number stands behind the number of the other ones. -/
theorem padded_succ {k n : Nat} (some : 0 < k) :
    padded (k + 1) n = padded k (n / 10) ++ [Nat.digitChar (n % 10)] := by
  unfold padded
  by_cases small : n < 10
  · obtain ⟨w, rfl⟩ : ∃ w, k = w + 1 := ⟨k - 1, by omega⟩
    rw [Nat.toDigits_of_lt_base small, Nat.div_eq_of_lt small, Nat.mod_eq_of_lt small,
      Nat.toDigits_of_lt_base (by decide)]
    have zeros : List.replicate (w + 1) '0' = List.replicate w '0' ++ ['0'] :=
      List.replicate_succ'
    exact congrArg (· ++ [Nat.digitChar n]) zeros
  · have digits := Nat.toDigits_eq_if (b := 10) (n := n) (by decide)
    rw [if_neg small] at digits
    simp only [digits, List.length_append, List.length_singleton, Nat.add_sub_add_right,
      List.append_assoc]

theorem length_padded {k n : Nat} (some : 0 < k) (small : n < 10 ^ k) :
    (padded k n).length = k := by
  have few := (Nat.length_toDigits_le_iff (b := 10) (by decide) some).mpr small
  rw [padded, List.length_append, List.length_replicate]
  omega

theorem isDigit_padded {k n : Nat} : ∀ c ∈ padded k n, c.isDigit = true := by
  intro c hc
  rcases List.mem_append.mp hc with zero | digit
  · rw [List.eq_of_mem_replicate zero]
    rfl
  · exact Nat.isDigit_of_mem_toDigits (by decide) (by decide) digit

/-- Digits are read in two goes. -/
theorem digits_add (a b before : Nat) (cs : List Char) :
    digits (a + b) before cs = (digits a before cs).bind fun r => digits b r.1 r.2 := by
  induction a generalizing before cs with
  | zero =>
    rw [Nat.zero_add]
    rfl
  | succ a ih =>
    rw [Nat.succ_add]
    cases cs with
    | nil => rfl
    | cons c cs =>
      cases digit : digit? c with
      | none => simp [digits, digit]
      | some d => simp [digits, digit, ih]

/-- A padded number is read again. -/
theorem digits_padded {k n : Nat} (some : 0 < k) (small : n < 10 ^ k) (before : Nat)
    (rest : List Char) :
    digits k before (padded k n ++ rest) = .some (before * 10 ^ k + n, rest) := by
  obtain ⟨w, rfl⟩ : ∃ w, k = w + 1 := ⟨k - 1, by omega⟩
  clear some
  induction w generalizing n rest with
  | zero =>
    have one : n < 10 := small
    simp [padded_one one, digits, digit?_digitChar one]
  | succ w ih =>
    have last := Nat.mod_lt n (show 0 < 10 by decide)
    rw [padded_succ (show 0 < w + 1 from Nat.succ_pos w), List.append_assoc, digits_add (w + 1) 1,
      ih _ (by rw [Nat.pow_succ] at small; omega)]
    simp only [Option.bind_some, List.cons_append, List.nil_append, digits, digit?_digitChar last]
    have number : (before * 10 ^ (w + 1) + n / 10) * 10 + n % 10 = before * 10 ^ (w + 1 + 1) + n := by
      rw [Nat.pow_succ 10 (w + 1), ← Nat.mul_assoc]
      omega
    exact congrArg (fun k => Option.some (k, rest)) number

/-! ## The form of a text -/

/-- Whether a text has a form: a digit where that has a zero, and else the same characters. -/
def fits : List Char → List Char → Bool
  | [], [] => true
  | f :: fs, c :: cs => (if f == '0' then c.isDigit else c == f) && fits fs cs
  | _, _ => false

theorem fits_append {fs gs cs ds : List Char} (h : fits fs cs = true) (h' : fits gs ds = true) :
    fits (fs ++ gs) (cs ++ ds) = true := by
  induction fs generalizing cs with
  | nil =>
    cases cs with
    | nil => exact h'
    | cons => cases h
  | cons f fs ih =>
    cases cs with
    | nil => cases h
    | cons c cs =>
      simp only [fits, Bool.and_eq_true] at h
      simp only [List.cons_append, fits, Bool.and_eq_true]
      exact ⟨h.1, ih h.2⟩

theorem fits_cons {f : Char} {fs cs : List Char} (mark : (f == '0') = false) (h : fits fs cs = true) :
    fits (f :: fs) (f :: cs) = true := by
  simp [fits, mark, h]

theorem fits_padded {k n : Nat} (some : 0 < k) (small : n < 10 ^ k) :
    fits (List.replicate k '0') (padded k n) = true := by
  have digits (cs : List Char) (h : ∀ c ∈ cs, c.isDigit = true) :
      fits (List.replicate cs.length '0') cs = true := by
    induction cs with
    | nil => rfl
    | cons c cs ih =>
      rw [List.length_cons, List.replicate_succ]
      simp only [fits, beq_self_eq_true, if_true, h c (by simp), Bool.true_and]
      exact ih fun d hd => h d (by simp [hd])
  have fit := digits (padded k n) isDigit_padded
  rwa [length_padded some small] at fit

def isTimestamp (s : String) : Bool := fits "0000-00-00T00:00:00.000Z".toList s.toList

/-! ## Reading what was written -/

/-- The fields of a time of the calendar have as many digits as they are given. -/
structure Narrow (t : DateTime) : Prop where
  year : t.date.year < 10 ^ 4
  month : t.date.month < 10 ^ 2
  day : t.date.day < 10 ^ 2
  hour : t.hour < 10 ^ 2
  minute : t.minute < 10 ^ 2
  second : t.second < 10 ^ 2
  milli : t.micro / 1000 < 10 ^ 3

theorem narrow_date {d : Date} (valid : d.Valid) :
    d.year < 10 ^ 4 ∧ d.month < 10 ^ 2 ∧ d.day < 10 ^ 2 := by
  obtain ⟨-, year, -, month, -, day⟩ := valid
  have long : Date.daysInMonth d.year d.month ≤ 31 := by
    unfold Date.daysInMonth
    split <;> (try split) <;> omega
  omega

theorem narrow {t : DateTime} (valid : t.Valid) : Narrow t := by
  obtain ⟨date, hour, minute, second, micro, -⟩ := valid
  obtain ⟨year, month, day⟩ := narrow_date date
  exact ⟨year, month, day, by omega, by omega, by omega, by omega⟩

/-- The first character of a padded number is a digit. -/
theorem peek_padded {k n : Nat} (some : 0 < k) (small : n < 10 ^ k)
    (rest : List Char) : (peek (padded k n ++ rest)).isDigit = true := by
  cases cs : padded k n with
  | nil =>
    have length := length_padded some small
    rw [cs, List.length_nil] at length
    omega
  | cons c cs' => exact isDigit_padded c (by rw [cs]; exact List.mem_cons_self)

theorem beq_of_isDigit {c mark : Char} (digit : c.isDigit = true) (other : mark.isDigit = false) :
    (c == mark) = false := by
  refine beq_false_of_ne fun same => ?_
  rw [same, other] at digit
  cases digit

theorem length_dateText {d : Date} (valid : d.Valid) : (dateText d).length = 10 := by
  obtain ⟨year, month, day⟩ := narrow_date valid
  simp [dateText, length_padded (k := 4) (by decide) year,
    length_padded (k := 2) (by decide) month, length_padded (k := 2) (by decide) day]

theorem readDay_dateText {d : Date} (valid : d.Valid) (length : Nat) (rest : List Char) :
    readDay length (dateText d ++ rest) = some d := by
  obtain ⟨year, month, day⟩ := narrow_date valid
  have week : (peek (padded 2 d.month ++ '-' :: (padded 2 d.day ++ rest)) == 'W') = false :=
    beq_of_isDigit (peek_padded (by decide) month _) (by decide)
  have dash (cs : List Char) : (peek ('-' :: cs) == '-') = true := rfl
  simp only [readDay, dateText, List.append_assoc, List.cons_append,
    digits_padded (show 0 < 4 by decide) year, digits_padded (show 0 < 2 by decide) month,
    digits_padded (show 0 < 2 by decide) day, dash, week, bind, Option.bind, if_true,
    List.drop_succ_cons, List.drop_zero, Bool.false_eq_true, if_false, Nat.zero_mul, Nat.zero_add,
    bne, Bool.true_and, Bool.not_true]
  exact if_pos valid

/-- The day of a text ends after ten characters if it is written with dashes. -/
theorem dayLength_dateText {d : Date} (valid : d.Valid) (rest : List Char) :
    dayLength (dateText d ++ rest) = some 10 := by
  obtain ⟨year, month, day⟩ := narrow_date valid
  have length := length_padded (k := 4) (by decide) year
  have digit := peek_padded (k := 2) (by decide) month ('-' :: (padded 2 d.day ++ rest))
  have long : (dateText d ++ rest).length ≠ 7 := by
    rw [List.length_append, length_dateText valid]
    omega
  have marks : dateText d ++ rest =
      padded 4 d.year ++ '-' :: (padded 2 d.month ++ '-' :: (padded 2 d.day ++ rest)) := by
    simp [dateText]
  have dash : (dateText d ++ rest).getD 4 '\x00' = '-' := by
    rw [marks, List.getD_append_right _ _ _ _ (by omega), length]
    rfl
  have fifth : (dateText d ++ rest).getD 5 '\x00' =
      peek (padded 2 d.month ++ '-' :: (padded 2 d.day ++ rest)) := by
    rw [marks, List.getD_append_right _ _ _ _ (by omega), length]
    simp only [peek, List.headD_eq_head?_getD, List.getD_eq_getElem?_getD, List.head?_eq_getElem?]
    rfl
  have noWeek := beq_of_isDigit digit (show 'W'.isDigit = false by decide)
  simp only [dayLength, if_neg long, dash, beq_self_eq_true, if_true, fifth, noWeek,
    Bool.false_eq_true, if_false]

/-- A text without a mark for UTC is not expanded. -/
theorem expandZulu_append {cs : List Char} (plain : ∀ c ∈ cs, (c == 'Z') = false) (rest : List Char) :
    expandZulu (cs ++ rest) = cs ++ expandZulu rest := by
  induction cs with
  | nil => rfl
  | cons c cs ih =>
    rw [List.cons_append, expandZulu, plain c (by simp), if_neg (by decide),
      ih fun d hd => plain d (by simp [hd])]
    rfl

/-- A text of digits and other marks. -/
theorem plain_of_digits {marks : List Char} {mark : Char} (other : mark.isDigit = false)
    (none : marks.all (· != mark) = true) {cs : List Char}
    (h : ∀ c ∈ cs, c.isDigit = true ∨ c ∈ marks) : ∀ c ∈ cs, (c == mark) = false := by
  intro c hc
  rcases h c hc with digit | known
  · exact beq_of_isDigit digit other
  · simpa using List.all_eq_true.mp none c known

theorem dateText_chars (d : Date) : ∀ c ∈ dateText d, c.isDigit = true ∨ c ∈ ['-'] := by
  intro c hc
  simp only [dateText, List.mem_append, List.mem_cons] at hc
  rcases hc with digit | rfl | digit | rfl | digit
  · exact .inl (isDigit_padded c digit)
  · exact .inr (by simp)
  · exact .inl (isDigit_padded c digit)
  · exact .inr (by simp)
  · exact .inl (isDigit_padded c digit)

/-- A written day is read as the start of it. -/
theorem parse?_dateText {d : Date} (valid : d.Valid) :
    parse? (String.ofList (dateText d)) = some (.time ⟨d, 0, 0, 0, 0, none⟩) := by
  have plain := expandZulu_append (plain_of_digits (show 'Z'.isDigit = false by decide) (by decide)
    (dateText_chars d)) []
  have day := readDay_dateText valid 10 []
  have ends := dayLength_dateText valid []
  rw [List.append_nil] at plain day ends
  have length := length_dateText valid
  have valid : (⟨d, 0, 0, 0, 0, none⟩ : DateTime).Valid :=
    ⟨valid, Nat.zero_lt_succ _, Nat.zero_lt_succ _, Nat.zero_lt_succ _, Nat.zero_lt_succ _, by simp⟩
  have read : readDateTime (dateText d) = some ⟨d, 0, 0, 0, 0, none⟩ := by
    have rest : (dateText d).drop 10 = [] := List.drop_eq_nil_of_le (by omega)
    simp only [readDateTime, length, ends, day, rest, bind, Option.bind]
    exact if_pos valid
  rw [parse?, String.toList_ofList, plain]
  simp only [expandZulu, List.append_nil, read]

theorem clockText_chars (t : DateTime) : ∀ c ∈ clockText t, c.isDigit = true ∨ c ∈ [':'] := by
  intro c hc
  simp only [clockText, List.mem_append, List.mem_cons] at hc
  rcases hc with digit | rfl | digit | rfl | digit
  · exact .inl (isDigit_padded c digit)
  · exact .inr (by simp)
  · exact .inl (isDigit_padded c digit)
  · exact .inr (by simp)
  · exact .inl (isDigit_padded c digit)

def milliText (t : DateTime) : List Char := clockText t ++ '.' :: padded 3 (t.micro / 1000)

theorem milliText_chars (t : DateTime) : ∀ c ∈ milliText t, c.isDigit = true ∨ c ∈ [':', '.'] := by
  intro c hc
  simp only [milliText, List.mem_append, List.mem_cons] at hc
  rcases hc with clock | rfl | digit
  · rcases clockText_chars t c clock with digit | colon
    · exact .inl digit
    · exact .inr (by simp [List.mem_singleton.mp colon])
  · exact .inr (by simp)
  · exact .inl (isDigit_padded c digit)

theorem timestampText_eq (t : DateTime) :
    timestampText t = dateText t.date ++ 'T' :: (milliText t ++ ['Z']) := by
  simp [timestampText, milliText]

section Pairs

variable {fuel n : Nat} {values : List Nat} {c : Char} {rest : List Char}

theorem digits_pair (small : n < 10 ^ 2) (rest : List Char) :
    digits 2 0 (padded 2 n ++ rest) = some (n, rest) := by
  rw [digits_padded (by decide) small, Nat.zero_mul, Nat.zero_add]

/-- A pair before a colon is one of several. -/
theorem readPairs_colon (small : n < 10 ^ 2) :
    readPairs (fuel + 1) true values (padded 2 n ++ ':' :: c :: rest) =
      readPairs fuel true (values ++ [n]) (c :: rest) := by
  have colons : (if values.isEmpty then ':' == ':' else true) = true := by split <;> rfl
  simp only [readPairs, digits_pair small, bind, Option.bind, peek, List.headD_cons, colons]
  rfl

/-- A pair before a point is the last one before a fraction. -/
theorem readPairs_point (small : n < 10 ^ 2) :
    readPairs (fuel + 1) true values (padded 2 n ++ '.' :: c :: rest) =
      readFraction (values ++ [n]) (c :: rest) := by
  simp only [readPairs, digits_pair small, bind, Option.bind, peek, List.headD_cons]
  cases values <;> rfl

end Pairs

/-- A time of day is read up to its milliseconds. -/
theorem readClock_milliText {t : DateTime} (h : Narrow t) :
    readClock (milliText t) =
      some ⟨t.hour, t.minute, t.second, t.micro / 1000 * 1000, true⟩ := by
  have begins {k n : Nat} (some : 0 < k) (small : n < 10 ^ k) (rest : List Char) :
      ∃ c cs, padded k n ++ rest = c :: cs := by
    cases text : padded k n with
    | nil =>
      have length := length_padded some small
      rw [text, List.length_nil] at length
      omega
    | cons c cs => exact ⟨c, cs ++ rest, rfl⟩
  have fraction : digits 3 0 (padded 3 (t.micro / 1000)) = some (t.micro / 1000, []) := by
    have read := digits_padded (k := 3) (by decide) h.milli 0 []
    rwa [List.append_nil, Nat.zero_mul, Nat.zero_add] at read
  obtain ⟨m, ms, minutes⟩ := begins (k := 2) (by decide) h.minute
    (':' :: (padded 2 t.second ++ '.' :: padded 3 (t.micro / 1000)))
  obtain ⟨s, ss, seconds⟩ := begins (k := 2) (by decide) h.second
    ('.' :: padded 3 (t.micro / 1000))
  obtain ⟨f, fs, millis⟩ := begins (k := 3) (by decide) h.milli []
  rw [List.append_nil] at millis
  simp only [readClock, milliText, clockText, List.append_assoc, List.cons_append]
  rw [minutes, readPairs_colon h.hour, ← minutes, seconds, readPairs_colon h.minute, ← seconds, millis,
    readPairs_point h.second, ← millis]
  simp only [readFraction, length_padded (k := 3) (by decide) h.milli,
    show min 3 6 = 3 from rfl, fraction, bind, Option.bind]
  rfl

/-- A timestamp is read as the time it was written for, cut down to milliseconds. -/
theorem parse?_timestampText {t : DateTime} (valid : t.Valid) :
    parse? (String.ofList (timestampText t)) =
      some (.time { t with micro := t.micro / 1000 * 1000, offset := some 0 }) := by
  have h := narrow valid
  have plain : ∀ c ∈ dateText t.date ++ 'T' :: milliText t, (c == 'Z') = false := by
    refine plain_of_digits (by decide) (show ['-', 'T', ':', '.'].all (· != 'Z') = true by decide)
      fun c hc => ?_
    simp only [List.mem_append, List.mem_cons] at hc
    rcases hc with day | rfl | clock
    · exact (dateText_chars t.date c day).imp_right fun mark => by simp_all
    · exact .inr (by simp)
    · exact (milliText_chars t c clock).imp_right fun mark => by
        rcases List.mem_cons.mp mark with rfl | mark
        · simp
        · simp_all
  have expanded : expandZulu (timestampText t) =
      dateText t.date ++ 'T' :: (milliText t ++ '+' :: ['0', '0', ':', '0', '0']) := by
    have text : timestampText t = (dateText t.date ++ 'T' :: milliText t) ++ ['Z'] := by
      simp [timestampText_eq]
    rw [text, expandZulu_append plain, List.append_assoc]
    rfl
  have beside : ∀ c ∈ milliText t, (!startsOffset c) = true := by
    intro c hc
    rcases milliText_chars t c hc with digit | mark
    · simp [startsOffset, beq_of_isDigit digit]
    · simp only [List.mem_cons, List.not_mem_nil, or_false] at mark
      rcases mark with rfl | rfl <;> rfl
  have time : readTime (milliText t ++ '+' :: ['0', '0', ':', '0', '0']) =
      some (⟨t.hour, t.minute, t.second, t.micro / 1000 * 1000, true⟩, some 0) := by
    have zone : readClock ['0', '0', ':', '0', '0'] = some ⟨0, 0, 0, 0, true⟩ := by decide
    have sign : (!startsOffset '+') = false := rfl
    rw [readTime, List.takeWhile_append_of_pos beside, List.dropWhile_append_of_pos beside,
      List.takeWhile_cons_of_neg (by simp [sign]), List.dropWhile_cons_of_neg (by simp [sign]),
      List.append_nil, readClock_milliText h]
    simp [zone, Clock.micros]
  have valid' : ({ t with micro := t.micro / 1000 * 1000, offset := some 0 } : DateTime).Valid := by
    obtain ⟨date, hour, minute, second, micro, -⟩ := valid
    refine ⟨date, hour, minute, second, ?_, ?_⟩
    · show t.micro / 1000 * 1000 < 1000000
      omega
    · simp [DateTime.microsPerDay]
  have read : readDateTime (dateText t.date ++ 'T' :: (milliText t ++ '+' :: ['0', '0', ':', '0', '0'])) =
      some { t with micro := t.micro / 1000 * 1000, offset := some 0 } := by
    have long : ¬(dateText t.date ++ 'T' :: (milliText t ++ '+' :: ['0', '0', ':', '0', '0'])).length < 7 := by
      rw [List.length_append, length_dateText valid.1]
      omega
    have left : (dateText t.date ++ 'T' :: (milliText t ++ '+' :: ['0', '0', ':', '0', '0'])).drop 10 =
        'T' :: (milliText t ++ '+' :: ['0', '0', ':', '0', '0']) := List.drop_left' (length_dateText valid.1)
    simp only [readDateTime, if_neg long, dayLength_dateText valid.1, readDay_dateText valid.1, left,
      time, bind, Option.bind]
    exact if_pos valid'
  rw [parse?, String.toList_ofList, expanded, read]

/-- A timestamp has the form of one. -/
theorem isTimestamp_timestampText {t : DateTime} (valid : t.Valid) :
    isTimestamp (String.ofList (timestampText t)) = true := by
  have h := narrow valid
  have form : "0000-00-00T00:00:00.000Z".toList =
      List.replicate 4 '0' ++ '-' :: (List.replicate 2 '0' ++ '-' :: (List.replicate 2 '0' ++
        'T' :: (List.replicate 2 '0' ++ ':' :: (List.replicate 2 '0' ++ ':' :: (List.replicate 2 '0' ++
          '.' :: (List.replicate 3 '0' ++ ['Z'])))))) := by decide
  unfold isTimestamp
  rw [form, String.toList_ofList, timestampText, dateText, clockText]
  simp only [List.append_assoc, List.cons_append]
  refine fits_append (fits_padded (by decide) h.year) (fits_cons rfl ?_)
  refine fits_append (fits_padded (by decide) h.month) (fits_cons rfl ?_)
  refine fits_append (fits_padded (by decide) h.day) (fits_cons rfl ?_)
  refine fits_append (fits_padded (by decide) h.hour) (fits_cons rfl ?_)
  refine fits_append (fits_padded (by decide) h.minute) (fits_cons rfl ?_)
  refine fits_append (fits_padded (by decide) h.second) (fits_cons rfl ?_)
  exact fits_append (fits_padded (by decide) h.milli) rfl

/-! ## The order of texts -/

theorem append_lt {xs ys : List Char} (lt : xs < ys) (same : xs.length = ys.length)
    (as bs : List Char) : xs ++ as < ys ++ bs := by
  induction xs generalizing ys with
  | nil =>
    cases ys with
    | nil => exact absurd lt (List.lt_irrefl [])
    | cons => cases same
  | cons x xs ih =>
    cases ys with
    | nil => cases same
    | cons y ys =>
      rw [List.cons_append, List.cons_append, List.cons_lt_cons_iff]
      rcases List.cons_lt_cons_iff.mp lt with first | ⟨equal, rest⟩
      · exact .inl first
      · exact .inr ⟨equal, ih rest (Nat.succ.inj same)⟩

/-- Padded numbers come in their own order. -/
theorem padded_lt {k n m : Nat} (some : 0 < k) (lt : n < m) (small : m < 10 ^ k) :
    padded k n < padded k m := by
  obtain ⟨w, rfl⟩ : ∃ w, k = w + 1 := ⟨k - 1, by omega⟩
  clear some
  induction w generalizing n m with
  | zero =>
    have one : m < 10 := small
    rw [padded_one (by omega), padded_one one]
    exact List.cons_lt_cons_iff.mpr (.inl (digitChar_lt lt one))
  | succ w ih =>
    have some : 0 < w + 1 := Nat.succ_pos w
    have fewer : m / 10 < 10 ^ (w + 1) := by
      rw [Nat.pow_succ] at small
      omega
    rw [padded_succ some, padded_succ some]
    by_cases front : n / 10 < m / 10
    · refine append_lt (ih front fewer) ?_ _ _
      rw [length_padded some (by omega), length_padded some fewer]
    · have same : n / 10 = m / 10 := by omega
      rw [same]
      refine List.append_left_lt (List.cons_lt_cons_iff.mpr (.inl (digitChar_lt ?_ ?_))) <;> omega

/-- A padded number in front decides the order of two texts, unless it is the same in both. -/
theorem padded_append_le {k n m : Nat} {as bs : List Char} (some : 0 < k)
    (small : n < 10 ^ k) (small' : m < 10 ^ k) (le : n < m ∨ n = m ∧ as.le bs) :
    (padded k n ++ as).le (padded k m ++ bs) := by
  rcases le with lt | ⟨rfl, le⟩
  · have first := append_lt (padded_lt some lt small') (by rw [length_padded some small,
      length_padded some small']) as bs
    exact List.le_iff_lt_or_eq.mpr (.inl first)
  · exact List.append_left_le le

theorem mark_le {mark : Char} {as bs : List Char} (le : as.le bs) : (mark :: as).le (mark :: bs) :=
  List.cons_le_cons_iff.mpr (.inr ⟨rfl, le⟩)

/-- A text that comes later in the order of its fields. -/
theorem timestampText_le {t u : DateTime} (ht : Narrow t) (hu : Narrow u)
    (le : t.date.Before u.date ∨ t.date = u.date ∧ (t.hour < u.hour ∨ t.hour = u.hour ∧
      (t.minute < u.minute ∨ t.minute = u.minute ∧ (t.second < u.second ∨ t.second = u.second ∧
        t.micro / 1000 ≤ u.micro / 1000)))) :
    (timestampText t).le (timestampText u) := by
  have two : 0 < 2 := by decide
  simp only [timestampText, dateText, clockText, List.append_assoc, List.cons_append]
  have fields : t.date.year < u.date.year ∨ t.date.year = u.date.year ∧
      (t.date.month < u.date.month ∨ t.date.month = u.date.month ∧
        (t.date.day < u.date.day ∨ t.date.day = u.date.day ∧ (t.hour < u.hour ∨ t.hour = u.hour ∧
          (t.minute < u.minute ∨ t.minute = u.minute ∧ (t.second < u.second ∨ t.second = u.second ∧
            t.micro / 1000 ≤ u.micro / 1000))))) := by
    rcases le with (year | ⟨year, month | ⟨month, day⟩⟩) | ⟨same, time⟩
    · exact .inl year
    · exact .inr ⟨year, .inl month⟩
    · exact .inr ⟨year, .inr ⟨month, .inl day⟩⟩
    · rw [same]
      exact .inr ⟨rfl, .inr ⟨rfl, .inr ⟨rfl, time⟩⟩⟩
  refine padded_append_le (by decide) ht.year hu.year (fields.imp_right fun ⟨same, fields⟩ =>
    ⟨same, mark_le ?_⟩)
  refine padded_append_le two ht.month hu.month (fields.imp_right fun ⟨same, fields⟩ =>
    ⟨same, mark_le ?_⟩)
  refine padded_append_le two ht.day hu.day (fields.imp_right fun ⟨same, fields⟩ =>
    ⟨same, mark_le ?_⟩)
  refine padded_append_le two ht.hour hu.hour (fields.imp_right fun ⟨same, fields⟩ =>
    ⟨same, mark_le ?_⟩)
  refine padded_append_le two ht.minute hu.minute (fields.imp_right fun ⟨same, fields⟩ =>
    ⟨same, mark_le ?_⟩)
  refine padded_append_le two ht.second hu.second (fields.imp_right fun ⟨same, fields⟩ =>
    ⟨same, mark_le ?_⟩)
  exact padded_append_le (by decide) ht.milli hu.milli
    ((Nat.lt_or_eq_of_le fields).imp_right fun same => ⟨same, List.le_refl _⟩)

end DocStore.Iso

namespace DocStore

/-! ## Instants -/

def DateTime.lastInstant : Int := (Date.maxOrdinal + 1) * DateTime.microsPerDay - 1

def DateTime.InCalendar (micros : Int) : Prop :=
  DateTime.microsPerDay ≤ micros ∧ micros ≤ DateTime.lastInstant

namespace DateTime

theorem ofInstant_valid {micros : Int} {t : DateTime} (h : ofInstant micros = some t) : t.Valid := by
  simp only [ofInstant] at h
  split at h
  · cases h
  · next inside =>
    obtain rfl := Option.some.inj h
    have rest : (micros % microsPerDay).toNat < 86400000000 := by
      simp only [microsPerDay]
      omega
    refine ⟨Date.ofOrdinal_valid (by omega) (by omega), ?_, ?_, ?_, ?_, ?_⟩
    · dsimp only
      omega
    · dsimp only
      omega
    · dsimp only
      omega
    · dsimp only
      omega
    · simp [microsPerDay]

/-- There is a time of each instant of the calendar. -/
theorem ofInstant_inCalendar {micros : Int} (inside : InCalendar micros) :
    ∃ t, ofInstant micros = some t := by
  obtain ⟨first, last⟩ := inside
  simp only [microsPerDay, lastInstant] at first last
  have day : ¬(micros / microsPerDay < 1 ∨ (Date.maxOrdinal : Int) < micros / microsPerDay) := by
    simp only [microsPerDay]
    omega
  exact ⟨_, by rw [ofInstant, if_neg day]⟩

theorem timestampText_mono {micros later : Int} {t u : DateTime} (le : micros ≤ later)
    (ht : ofInstant micros = some t) (hu : ofInstant later = some u) :
    (Iso.timestampText t).le (Iso.timestampText u) := by
  have narrow := Iso.narrow (ofInstant_valid ht)
  have narrow' := Iso.narrow (ofInstant_valid hu)
  simp only [ofInstant] at ht hu
  split at ht
  · cases ht
  split at hu
  · cases hu
  next inside inside' =>
  obtain rfl := Option.some.inj ht
  obtain rfl := Option.some.inj hu
  refine Iso.timestampText_le narrow narrow' ?_
  have days : micros / microsPerDay ≤ later / microsPerDay := Int.ediv_le_ediv (by decide) le
  dsimp only
  rcases Date.ofOrdinal_mono (micros / microsPerDay).toNat
    (later / microsPerDay).toNat (by omega) (by omega) (by omega) with same | before
  · have number := congrArg Date.ordinal same
    rw [Date.ordinal_ofOrdinal (by omega), Date.ordinal_ofOrdinal (by omega)] at number
    refine .inr ⟨same, ?_⟩
    have rest : (micros % microsPerDay).toNat ≤ (later % microsPerDay).toNat := by
      have day : micros / microsPerDay = later / microsPerDay := by omega
      simp only [microsPerDay] at day ⊢
      omega
    generalize (micros % microsPerDay).toNat = r at rest ⊢
    generalize (later % microsPerDay).toNat = r' at rest ⊢
    clear number days same inside inside' narrow narrow' le
    omega
  · exact .inl before

/-- Later instants have later timestamps. -/
theorem timestamp_mono {micros later : Int} {t u : DateTime} (le : micros ≤ later)
    (ht : ofInstant micros = some t) (hu : ofInstant later = some u) :
    String.ofList (Iso.timestampText t) ≤ String.ofList (Iso.timestampText u) := by
  refine String.not_lt.mp fun lt => ?_
  rw [String.lt_iff, String.toList_ofList, String.toList_ofList] at lt
  exact timestampText_mono le ht hu lt

end DateTime

namespace Source

/-- The text of an instant of the calendar is a timestamp. -/
theorem isTimestamp_stamp {micros : Int} (inside : DateTime.InCalendar micros) :
    Iso.isTimestamp (stamp micros) = true := by
  obtain ⟨t, ht⟩ := DateTime.ofInstant_inCalendar inside
  rw [stamp, ht]
  exact Iso.isTimestamp_timestampText (DateTime.ofInstant_valid ht)

/-- Later instants have later texts. -/
theorem stamp_mono {micros later : Int} (le : micros ≤ later) (inside : DateTime.InCalendar micros)
    (inside' : DateTime.InCalendar later) : (stamp micros).le (stamp later) := by
  obtain ⟨t, ht⟩ := DateTime.ofInstant_inCalendar inside
  obtain ⟨u, hu⟩ := DateTime.ofInstant_inCalendar inside'
  rw [stamp, stamp, ht, hu]
  exact DateTime.timestamp_mono le ht hu

end Source

end DocStore
