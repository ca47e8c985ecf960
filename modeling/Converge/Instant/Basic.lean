/-!
# Instants

Points in time in the proleptic Gregorian calendar, counted in UTC, and the calendar dates of days.

A leap second has no second of its own in the count: it is the second before it, with a billion
nanoseconds or more.
-/

namespace Converge

/-- A date of the Gregorian calendar. -/
structure Date where
  year : Int
  month : Nat
  day : Nat
deriving DecidableEq, Repr

namespace Date

def isLeapYear (year : Int) : Bool := year % 4 = 0 && (year % 100 != 0 || year % 400 = 0)

def daysInMonth (year : Int) (month : Nat) : Nat :=
  match month with
  | 4 | 6 | 9 | 11 => 30
  | 2 => if isLeapYear year then 29 else 28
  | _ => 31

/-- The first and last year that dates may lie in. -/
def firstYear : Int := -262143

def lastYear : Int := 262142

/-- Whether the date exists. -/
def isValid (date : Date) : Bool :=
  firstYear ≤ date.year && date.year ≤ lastYear &&
  1 ≤ date.month && date.month ≤ 12 && 1 ≤ date.day && date.day ≤ daysInMonth date.year date.month

/-- The number of days from the first of January 1970. Years are taken to begin in March, so that a
leap day is the last of its year. -/
def toDays (date : Date) : Int :=
  let year : Int := if date.month ≤ 2 then date.year - 1 else date.year
  let era := year / 400
  let yearOfEra := year % 400
  let month : Int := if date.month ≤ 2 then date.month + 9 else (date.month : Int) - 3
  let dayOfYear := (153 * month + 2) / 5 + date.day - 1
  let dayOfEra := yearOfEra * 365 + yearOfEra / 4 - yearOfEra / 100 + dayOfYear
  era * 146097 + dayOfEra - 719468

/-- The date of the day with a given number. -/
def ofDays (days : Int) : Date :=
  let shifted := days + 719468
  let era := shifted / 146097
  let dayOfEra := shifted % 146097
  let yearOfEra := (dayOfEra - dayOfEra / 1460 + dayOfEra / 36524 - dayOfEra / 146096) / 365
  let dayOfYear := dayOfEra - (365 * yearOfEra + yearOfEra / 4 - yearOfEra / 100)
  let month := (5 * dayOfYear + 2) / 153
  let day := (dayOfYear - (153 * month + 2) / 5 + 1).toNat
  let month := (if month < 10 then month + 3 else month - 9).toNat
  let year := yearOfEra + era * 400
  ⟨if month ≤ 2 then year + 1 else year, month, day⟩

end Date

/-- A point in time. -/
structure Instant where
  /-- Seconds since the beginning of 1970. -/
  seconds : Int
  /-- Nanoseconds into the second, a billion more in a leap second. -/
  nanos : Nat := 0
deriving DecidableEq, Repr, Inhabited

namespace Instant

def nanosPerSecond : Nat := 1000000000

def secondsPerDay : Int := 86400

/-- Whether `a` is later than `b`. -/
def isAfter (a b : Instant) : Bool :=
  b.seconds < a.seconds || (a.seconds = b.seconds && b.nanos < a.nanos)

def addSeconds (a : Instant) (seconds : Int) : Instant := { a with seconds := a.seconds + seconds }

/-- The nanosecond that follows, which begins a new second where this one ends. -/
def next (a : Instant) : Instant :=
  if a.nanos + 1 < nanosPerSecond then { a with nanos := a.nanos + 1 } else ⟨a.seconds + 1, 0⟩

theorem next_isAfter (a : Instant) : a.next.isAfter a := by
  unfold next isAfter
  split
  · simp
  · have later : a.seconds < a.seconds + 1 := by omega
    simp [later]

/-- The number of the day. -/
def dayNumber (a : Instant) : Int := a.seconds / secondsPerDay

/-- The second of the day. -/
def secondOfDay (a : Instant) : Int := a.seconds % secondsPerDay

/-- The nanoseconds from `b` to `a`. Leap seconds that lie between them in the course of a day
count. -/
def nanosSince (a b : Instant) : Int :=
  let adjust : Int :=
    if b.secondOfDay < a.secondOfDay then if nanosPerSecond ≤ b.nanos then 1 else 0
    else if a.secondOfDay < b.secondOfDay then if nanosPerSecond ≤ a.nanos then -1 else 0
    else 0
  (a.seconds - b.seconds + adjust) * nanosPerSecond + a.nanos - b.nanos

/-- The whole seconds from `b` to `a`, without what is left over. -/
def secondsSince (a b : Instant) : Int := (a.nanosSince b).tdiv nanosPerSecond

end Instant

end Converge
