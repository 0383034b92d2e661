/-!
# Instants

* `Instant`, seconds since the start of 1970 in UTC and nanoseconds into the second; a leap second
  has nanoseconds of a billion and more;
* `Instant.ofMillis`, `Instant.since`, the nanoseconds between two instants, and
  `Instant.leapSecond`, the leap second that counts between them;
* `Date`, the calendar date of a number of days since 1970, and back, and `Instant.date`.

The calendar is the Gregorian one, extended to all years.
-/

namespace CodeCoach

/-- A moment in UTC. -/
structure Instant where
  second : Int
  nano : Nat
  deriving DecidableEq, Repr

/-- The nanoseconds of a second. -/
def nanosPerSecond : Nat := 1000000000

namespace Instant

/-- The instant a number of milliseconds after the start of 1970. -/
def ofMillis (ms : Int) : Instant := ⟨ms.fdiv 1000, (ms.fmod 1000).toNat * 1000000⟩

/-- Whether the instant lies in a leap second. -/
def isLeap (t : Instant) : Bool := nanosPerSecond ≤ t.nano

/-- The second of the day. A leap second has that of the second before it. -/
def secondOfDay (t : Instant) : Int := t.second.fmod 86400

/-- The leap second that counts from `s` to `t`. Days have none, and between the times of day the one
at the earlier time counts, if there is one. -/
def leapSecond (t s : Instant) : Int :=
  if s.secondOfDay < t.secondOfDay && s.isLeap then 1
  else if t.secondOfDay < s.secondOfDay && t.isLeap then -1
  else 0

/-- The nanoseconds from `s` to `t`. -/
def since (t s : Instant) : Int :=
  (t.second - s.second + t.leapSecond s) * nanosPerSecond + (t.nano - s.nano)

/-- The first and the last second of the years that instants are given for. -/
def firstSecond : Int := -8334601228800

def lastSecond : Int := 8210266876799

/-- Whether the instant lies in the range that instants are given for. -/
def inRange (t : Instant) : Bool := firstSecond ≤ t.second && t.second ≤ lastSecond

end Instant

/-! ### Dates -/

/-- A calendar date. -/
structure Date where
  year : Int
  month : Nat
  day : Nat
  deriving DecidableEq, Repr

/-- The days of a period of 400 years. -/
def daysPerEra : Int := 146097

namespace Date

def isLeap (year : Int) : Bool :=
  year % 4 == 0 && (year % 100 != 0 || year % 400 == 0)

/-- The number of days of a month. -/
def monthLength (year : Int) (month : Nat) : Nat :=
  if month == 2 then (if isLeap year then 29 else 28)
  else if month == 4 || month == 6 || month == 9 || month == 11 then 30
  else 31

/-- Whether the month has the day. -/
def isValid (d : Date) : Bool :=
  1 ≤ d.month && d.month ≤ 12 && 1 ≤ d.day && d.day ≤ monthLength d.year d.month

/-- The days from the start of 1970 to a date. Years are taken to begin in March, so that the leap
day ends the year. -/
def toDays (d : Date) : Int :=
  let year := if d.month ≤ 2 then d.year - 1 else d.year
  let era := year.fdiv 400
  let yearOfEra := year - era * 400
  let shifted : Int := if d.month ≤ 2 then (d.month : Int) + 9 else (d.month : Int) - 3
  let dayOfYear := (153 * shifted + 2) / 5 + d.day - 1
  let dayOfEra := yearOfEra * 365 + yearOfEra / 4 - yearOfEra / 100 + dayOfYear
  era * daysPerEra + dayOfEra - 719468

/-- The date a number of days after the start of 1970. -/
def ofDays (days : Int) : Date :=
  let z := days + 719468
  let era := z.fdiv daysPerEra
  let dayOfEra := z - era * daysPerEra
  let yearOfEra :=
    (dayOfEra - dayOfEra / 1460 + dayOfEra / 36524 - dayOfEra / 146096) / 365
  let dayOfYear := dayOfEra - (365 * yearOfEra + yearOfEra / 4 - yearOfEra / 100)
  let shifted := (5 * dayOfYear + 2) / 153
  let day := dayOfYear - (153 * shifted + 2) / 5 + 1
  let month := if shifted < 10 then shifted + 3 else shifted - 9
  let year := yearOfEra + era * 400 + (if month ≤ 2 then 1 else 0)
  ⟨year, month.toNat, day.toNat⟩

end Date

/-- The date of an instant. -/
def Instant.date (t : Instant) : Date := Date.ofDays (t.second.fdiv 86400)

end CodeCoach
