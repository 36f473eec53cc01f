import DocStore.Calendar.Date
/-!
ISO 8601 text of days and times. Writing is fixed width; reading accepts the basic and extended
forms, week dates, any one character between day and time, and an offset that is only bounded as a
whole.
-/

namespace DocStore.Iso

/-- The decimal digits of `n`, padded with zeros to `width`. -/
def padded (width n : Nat) : List Char :=
  let ds := Nat.toDigits 10 n
  List.replicate (width - ds.length) '0' ++ ds

def dateText (d : Date) : List Char :=
  padded 4 d.year ++ '-' :: (padded 2 d.month ++ '-' :: padded 2 d.day)

def clockText (t : DateTime) : List Char :=
  padded 2 t.hour ++ ':' :: (padded 2 t.minute ++ ':' :: padded 2 t.second)

/-- `+HH:MM`, with seconds and microseconds only when there are any. -/
def offsetText (micros : Int) : List Char :=
  let sign := if micros < 0 then '-' else '+'
  let n := micros.natAbs
  let seconds := n / 1000000 % 60
  let fraction := n % 1000000
  let tail := if fraction ≠ 0 then ':' :: (padded 2 seconds ++ '.' :: padded 6 fraction)
    else if seconds ≠ 0 then ':' :: padded 2 seconds else []
  sign :: (padded 2 (n / 3600000000) ++ ':' :: (padded 2 (n / 60000000 % 60) ++ tail))

/-- Day, separator, time, fraction when there is one, and offset when there is one. -/
def dateTimeText (separator : Char) (t : DateTime) : List Char :=
  dateText t.date ++ separator :: (clockText t
    ++ (if t.micro = 0 then [] else '.' :: padded 6 t.micro)
    ++ (match t.offset with | none => [] | some o => offsetText o))

/-- A timestamp: UTC, cut down to milliseconds, ending in `Z`. -/
def timestampText (t : DateTime) : List Char :=
  dateText t.date ++ 'T' :: (clockText t ++ '.' :: (padded 3 (t.micro / 1000) ++ ['Z']))

/-- The timestamp of a time; there is none when its instant in UTC leaves the calendar. -/
def timestamp? (t : DateTime) : Option (List Char) := t.toUtc.map timestampText

/-- What was read: a day alone, or a time. -/
inductive Stamp where
  | day (date : Date)
  | time (moment : DateTime)
deriving DecidableEq, Repr

def digit? (c : Char) : Option Nat := if c.isDigit then some (c.toNat - '0'.toNat) else none

def digits : Nat → Nat → List Char → Option (Nat × List Char)
  | 0, n, cs => some (n, cs)
  | _ + 1, _, [] => none
  | count + 1, n, c :: cs => do digits count (n * 10 + (← digit? c)) cs

/-- The next character, or NUL when the text is over. -/
def peek (cs : List Char) : Char := cs.headD '\x00'

/-- Reads a day from the front of `cs`; `length` is where the day is known to end, which decides
whether a week date carries its own day. -/
def readDay (length : Nat) (cs : List Char) : Option Date := do
  let (year, r) ← digits 4 0 cs
  let dashed := peek r == '-'
  let r := if dashed then r.drop 1 else r
  if peek r == 'W' then
    let (week, r) ← digits 2 0 (r.drop 1)
    if (if dashed then 8 else 7) < length then
      if dashed && peek r != '-' then none
      else
        let (day, _) ← digits 1 0 (if dashed then r.drop 1 else r)
        Date.ofWeek year week day
    else Date.ofWeek year week 1
  else
    let (month, r) ← digits 2 0 r
    if dashed && peek r != '-' then none
    else
      let (day, _) ← digits 2 0 (if dashed then r.drop 1 else r)
      let date : Date := ⟨year, month, day⟩
      if date.Valid then some date else none

/-- A time of day as read, not yet bounded; `clean` says that the whole text was used. -/
structure Clock where
  hour : Nat
  minute : Nat
  second : Nat
  micro : Nat
  clean : Bool
deriving DecidableEq, Repr

/-- Scales a fraction of fewer than six digits to microseconds. -/
def scale (count n : Nat) : Nat := n * Nat.pow 10 (6 - count)

/-- Reads a fraction: at most six digits count, more digits are skipped, what follows is junk. -/
def readFraction (values : List Nat) (cs : List Char) : Option Clock := do
  let count := min cs.length 6
  let (n, r) ← digits count 0 cs
  some {
    hour := values.getD 0 0
    minute := values.getD 1 0
    second := values.getD 2 0
    micro := scale count n
    clean := peek (r.dropWhile Char.isDigit) == '\x00' }

/-- Reads up to three pairs of digits. The character after the first pair decides whether colons
separate them; a point or comma starts the fraction, and so does whatever follows the third pair. -/
def readPairs : Nat → Bool → List Nat → List Char → Option Clock
  | 0, _, values, cs => readFraction values cs
  | fuel + 1, colons, values, cs => do
    let (n, r) ← digits 2 0 cs
    let c := peek r
    let colons := if values.isEmpty then c == ':' else colons
    let values := values ++ [n]
    if 0x7f < c.toNat then none
    else match r.drop 1 with
    | [] =>
      some { hour := values.getD 0 0, minute := values.getD 1 0, second := values.getD 2 0,
             micro := 0, clean := c == '\x00' }
    | rest =>
      if colons && c == ':' then readPairs fuel colons values rest
      else if c == '.' || c == ',' then readFraction values rest
      else if colons then none
      else readPairs fuel colons values r

def readClock (cs : List Char) : Option Clock := readPairs 3 true [] cs

def Clock.micros (c : Clock) : Int :=
  (((c.hour * 60 + c.minute) * 60 + c.second) * 1000000 + c.micro : Nat)

def startsOffset (c : Char) : Bool := c == '+' || c == '-' || c == 'Z'

/-- Reads a time of day with its offset; an offset of no whole second is UTC. -/
def readTime (cs : List Char) : Option (Clock × Option Int) := do
  let clock ← readClock (cs.takeWhile (!startsOffset ·))
  match cs.dropWhile (!startsOffset ·) with
  | [] => if clock.clean then some (clock, none) else none
  | 'Z' :: rest => if peek rest == '\x00' then some (clock, some 0) else none
  | sign :: rest =>
    let shift ← readClock rest
    if !shift.clean then none
    else if shift.micros / 1000000 = 0 then some (clock, some 0)
    else some (clock, some (if sign == '-' then -shift.micros else shift.micros))

/-- Where the day ends, told from the fifth and sixth characters; in a week date without dashes the
digits that follow come in pairs unless one of them is the day. -/
def dayLength (cs : List Char) : Option Nat :=
  let length := cs.length
  let char (i : Nat) : Char := cs.getD i '\x00'
  if length = 7 then some 7
  else if char 4 == '-' then
    if char 5 == 'W' then
      if 8 < length && char 8 == '-' then
        if length = 9 then none
        else if 10 < length && (char 10).isDigit then some 8 else some 10
      else some 8
    else some 10
  else if char 4 == 'W' then
    let stop := 7 + ((cs.drop 7).takeWhile Char.isDigit).length
    if stop < 9 then some stop else if stop % 2 = 0 then some 7 else some 8
  else some 8

/-- Reads a time, or a day as the start of that day. -/
def readDateTime (cs : List Char) : Option DateTime := do
  if cs.length < 7 then none
  let length ← dayLength cs
  let date ← readDay length cs
  let (clock, offset) ←
    match cs.drop length with
    | [] => some (⟨0, 0, 0, 0, true⟩, none)
    | _ :: rest => readTime rest
  let t : DateTime :=
    { date, hour := clock.hour, minute := clock.minute, second := clock.second,
      micro := clock.micro, offset }
  if t.Valid then some t else none

/-- Reads a day alone from a text of the length of a day, counted in bytes. -/
def readDate (s : String) : Option Date :=
  let length := s.utf8ByteSize
  if length = 7 ∨ length = 8 ∨ length = 10 then readDay length s.toList else none

/-- Every `Z` stands for a zero offset. -/
def expandZulu : List Char → List Char
  | [] => []
  | c :: cs => if c == 'Z' then "+00:00".toList ++ expandZulu cs else c :: expandZulu cs

/-- Reads a date or a time; a time is tried first. -/
def parse? (s : String) : Option Stamp :=
  match readDateTime (expandZulu s.toList) with
  | some t => some (.time t)
  | none => (readDate s).map .day

end DocStore.Iso
