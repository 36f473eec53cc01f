/-!
Days of the proleptic Gregorian calendar, and times of day with an optional offset from UTC. A time that is
aware of its place is a wall time with a fixed offset: zones whose offset depends on the day are left out,
and with them the wall times that come twice (folds) or never.
-/

namespace DocStore

structure Date where
  year : Nat
  month : Nat
  day : Nat
deriving DecidableEq, Repr, Inhabited

namespace Date

def isLeap (year : Nat) : Bool := year % 4 = 0 && (year % 100 ≠ 0 || year % 400 = 0)

def daysInMonth (year month : Nat) : Nat :=
  match month with
  | 2 => if isLeap year then 29 else 28
  | 4 | 6 | 9 | 11 => 30
  | _ => 31

/-- Days before the first of January, counted from the first of January of year 1. -/
def daysBeforeYear (year : Nat) : Nat :=
  let y := year - 1
  y * 365 + y / 4 - y / 100 + y / 400

def daysBeforeMonth (year month : Nat) : Nat :=
  ((List.range month).drop 1).foldl (fun n m => n + daysInMonth year m) 0

/-- A day of years 1 to 9999. -/
def Valid (d : Date) : Prop :=
  1 ≤ d.year ∧ d.year ≤ 9999 ∧ 1 ≤ d.month ∧ d.month ≤ 12 ∧ 1 ≤ d.day
    ∧ d.day ≤ daysInMonth d.year d.month

instance (d : Date) : Decidable d.Valid := by unfold Valid; infer_instance

/-- The number of the day; the first of January of year 1 has number 1. -/
def ordinal (d : Date) : Nat :=
  daysBeforeYear d.year + daysBeforeMonth d.year d.month + d.day

/-- The year that holds a day and the days before it in that year, both counted from zero:
400, 100, 4 and 1 years at a time, the last day of a longer period belonging to its last year. -/
def yearAndRest (n : Nat) : Nat × Nat :=
  let c4 := n / 146097
  let n := n % 146097
  let c := min (n / 36524) 3
  let n := n - c * 36524
  let q := n / 1461
  let n := n % 1461
  let y := min (n / 365) 3
  (c4 * 400 + c * 100 + q * 4 + y, n - y * 365)

/-- Finds the month of a day of the year, counting months from `month`. -/
def monthAndDay (year : Nat) : Nat → Nat → Nat → Nat × Nat
  | 0, month, n => (month, n + 1)
  | fuel + 1, month, n =>
    let length := daysInMonth year month
    if n < length then (month, n + 1) else monthAndDay year fuel (month + 1) (n - length)

def ofOrdinal (n : Nat) : Date :=
  let (y, rest) := yearAndRest (n - 1)
  let (month, day) := monthAndDay (y + 1) 12 1 rest
  ⟨y + 1, month, day⟩

def maxOrdinal : Nat := 3652059

/-- Days since Monday. -/
def weekday (d : Date) : Nat := (d.ordinal + 6) % 7

/-- Number of the Monday that starts the first week: the week with the first Thursday. -/
def firstMonday (year : Nat) : Nat :=
  let first := ordinal ⟨year, 1, 1⟩
  let day := (first + 6) % 7
  if 3 < day then first - day + 7 else first - day

/-- A year has 53 weeks when it starts on a Thursday, or on a Wednesday and is a leap year. -/
def hasLongYear (year : Nat) : Bool :=
  let day := weekday ⟨year, 1, 1⟩
  day = 3 || (day = 2 && isLeap year)

/-- The day given by a year, a week and a day of the week; both of the latter start at 1. -/
def ofWeek (year week day : Nat) : Option Date :=
  if year = 0 ∨ week = 0 ∨ 53 < week ∨ (week = 53 ∧ !hasLongYear year) ∨ day = 0 ∨ 7 < day then none
  else
    let n := firstMonday year + (week - 1) * 7 + day - 1
    if n = 0 ∨ maxOrdinal < n then none else some (ofOrdinal n)

end Date

/-- A day and a time of day; `offset` is how far local time runs ahead of UTC, in microseconds. -/
structure DateTime where
  date : Date
  hour : Nat
  minute : Nat
  second : Nat
  micro : Nat
  offset : Option Int
deriving DecidableEq, Repr, Inhabited

namespace DateTime

def microsPerDay : Int := 86400000000

/-- A time on a day of the calendar, with an offset of less than a day. -/
def Valid (t : DateTime) : Prop :=
  t.date.Valid ∧ t.hour < 24 ∧ t.minute < 60 ∧ t.second < 60 ∧ t.micro < 1000000
    ∧ ∀ o ∈ t.offset, -microsPerDay < o ∧ o < microsPerDay

instance (t : DateTime) : Decidable t.Valid := by unfold Valid; infer_instance

def localMicros (t : DateTime) : Int :=
  t.date.ordinal * microsPerDay
    + (((t.hour * 60 + t.minute) * 60 + t.second) * 1000000 + t.micro : Nat)

/-- The instant; a time without offset is taken as UTC. -/
def instant (t : DateTime) : Int := t.localMicros - t.offset.getD 0

/-- The time of day in UTC at an instant, when its day lies in years 1 to 9999. -/
def ofInstant (micros : Int) : Option DateTime :=
  let day := micros / microsPerDay
  let rest := (micros % microsPerDay).toNat
  if day < 1 ∨ (Date.maxOrdinal : Int) < day then none
  else some {
    date := Date.ofOrdinal day.toNat
    hour := rest / 3600000000
    minute := rest / 60000000 % 60
    second := rest / 1000000 % 60
    micro := rest % 1000000
    offset := some 0 }

def toUtc (t : DateTime) : Option DateTime := ofInstant t.instant

/-- Two times are equal when both or neither have an offset and they name the same instant. -/
def sameInstant (a b : DateTime) : Bool :=
  a.offset.isSome == b.offset.isSome && a.instant == b.instant

end DateTime

end DocStore
