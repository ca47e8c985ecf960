import Converge.Instant.Basic
import Converge.Json.Decode
import Converge.Text.Blank
import Converge.Text.Integer

/-!
# Instants as text

Instants are written in UTC, with no, three, six or nine digits after the second: the fewest that
are exact. Reading is more liberal: blanks may stand between the parts, numbers may be shorter, any
number of digits may follow the second, and the offset may be any.
-/

namespace Converge.Instant

/-! ## Writing -/

/-- A natural with at least the given number of digits. -/
def padded (width n : Nat) : String :=
  let digits := toString n
  String.ofList (List.replicate (width - digits.length) '0') ++ digits

/-- A year: four digits, or a sign and at least four. -/
def renderYear (year : Int) : String :=
  if 0 ≤ year ∧ year ≤ 9999 then padded 4 year.toNat
  else (if year < 0 then "-" else "+") ++ padded 4 year.natAbs

def renderDate (a : Instant) : String :=
  let date := Date.ofDays a.dayNumber
  s!"{renderYear date.year}-{padded 2 date.month}-{padded 2 date.day}"

/-- Hour and minute. -/
def renderMinute (a : Instant) : String :=
  let second := a.secondOfDay.toNat
  s!"{padded 2 (second / 3600)}:{padded 2 (second / 60 % 60)}"

/-- The digits after the second. -/
def renderFraction (nanos : Nat) : String :=
  if nanos = 0 then ""
  else if nanos % 1000000 = 0 then "." ++ padded 3 (nanos / 1000000)
  else if nanos % 1000 = 0 then "." ++ padded 6 (nanos / 1000)
  else "." ++ padded 9 nanos

/-- The time of day. A leap second is the sixtieth of its minute. -/
def renderTime (a : Instant) : String :=
  let second := a.secondOfDay.toNat % 60
  if nanosPerSecond ≤ a.nanos then
    s!"{a.renderMinute}:{padded 2 (second + 1)}{renderFraction (a.nanos - nanosPerSecond)}"
  else s!"{a.renderMinute}:{padded 2 second}{renderFraction a.nanos}"

/-- The form that documents use. -/
def render (a : Instant) : String := s!"{a.renderDate}T{a.renderTime}Z"

/-- The form with a numeric offset. -/
def renderOffset (a : Instant) : String := s!"{a.renderDate}T{a.renderTime}+00:00"

/-- The form for reading by people. -/
def renderPlain (a : Instant) : String := s!"{a.renderDate} {a.renderTime} UTC"

/-- The form for table columns. -/
def renderShort (a : Instant) : String := s!"{a.renderDate} {a.renderMinute}"

/-! ## Reading -/

/-- Reads a number of up to `width` digits after blanks. -/
def readNumber? (width : Nat) (cs : List Char) : Option (Nat × List Char) :=
  let cs := cs.dropWhile Text.isBlank
  let digits := (cs.take width).takeWhile Text.isDigit
  (Text.readDigits? 10 digits).map fun value => (value, cs.drop digits.length)

/-- Reads a year: up to four digits, or any number of them after a sign. -/
def readYear? (cs : List Char) : Option (Int × List Char) :=
  let cs := cs.dropWhile Text.isBlank
  let signed (cs : List Char) : Option (Nat × List Char) :=
    let digits := cs.takeWhile Text.isDigit
    (Text.readDigits? 10 digits).map fun value => (value, cs.drop digits.length)
  match cs with
  | '-' :: rest => (signed rest).map fun (value, rest) => (-(value : Int), rest)
  | '+' :: rest => (signed rest).map fun (value, rest) => ((value : Int), rest)
  | _ => (readNumber? 4 cs).map fun (value, rest) => ((value : Int), rest)

/-- Steps over a separator, before which blanks may stand. -/
def readSeparator? (separator : Char) (cs : List Char) : Option (List Char) :=
  match cs.dropWhile Text.isBlank with
  | c :: rest => if c = separator then some rest else none
  | [] => none

/-- Reads the digits after the second, if a point follows, as nanoseconds. -/
def readFraction? (cs : List Char) : Option (Nat × List Char) :=
  match cs with
  | '.' :: rest =>
    let digits := (rest.take 9).takeWhile Text.isDigit
    (Text.readDigits? 10 digits).map fun value =>
      (value * Nat.pow 10 (9 - digits.length), rest.dropWhile Text.isDigit)
  | _ => some (0, cs)

/-- Reads the offset from UTC in seconds. -/
def readOffset? (cs : List Char) : Option (Int × List Char) := do
  match cs with
  | 'Z' :: rest | 'z' :: rest => return (0, rest)
  | _ =>
    if (String.ofList (cs.take 3)).toLower = "utc" then return (0, cs.drop 3)
    let (sign, rest) : Int × List Char ←
      match cs with
      | '+' :: rest => some (1, rest)
      | '-' :: rest => some (-1, rest)
      | '−' :: rest => some (-1, rest)
      | _ => none
    let two (cs : List Char) : Option Nat :=
      if (cs.take 2).length = 2 then Text.readDigits? 10 (cs.take 2) else none
    let hours ← two rest
    let rest := (rest.drop 2).dropWhile fun c => c = ':' || Text.isBlank c
    let minutes ← (two rest).filter (· < 60)
    if 23 < hours then none
    return (sign * (hours * 3600 + minutes * 60), rest.drop 2)

/-- Reads an instant. -/
def read? (text : String) : Option Instant := do
  let (year, cs) ← readYear? text.toList
  let cs ← readSeparator? '-' cs
  let (month, cs) ← readNumber? 2 cs
  let cs ← readSeparator? '-' cs
  let (day, cs) ← readNumber? 2 cs
  let cs ←
    match cs with
    | 'T' :: cs | 't' :: cs | ' ' :: cs => some cs
    | _ => none
  let (hour, cs) ← readNumber? 2 cs
  let cs ← readSeparator? ':' cs
  let (minute, cs) ← readNumber? 2 cs
  let cs ← readSeparator? ':' cs
  let (second, cs) ← readNumber? 2 cs
  let (nanos, cs) ← readFraction? cs
  let (offset, cs) ← readOffset? (cs.dropWhile Text.isBlank)
  let date : Date := ⟨year, month, day⟩
  let inRange := date.isValid && hour ≤ 23 && minute ≤ 59 && second ≤ 60 && cs.all Text.isBlank
  if !inRange then none
  let localSeconds : Int := date.toDays * 86400 + hour * 3600 + minute * 60 + min second 59
  let instant : Instant :=
    ⟨localSeconds - offset, if second = 60 then nanos + nanosPerSecond else nanos⟩
  if (Date.ofDays instant.dayNumber).isValid then return instant else none

def toJson (a : Instant) : Json := .string a.render

def ofJson (value : Json) : Decode Instant := do
  match read? (← value.asString) with
  | some instant => return instant
  | none => throw .mismatch

end Converge.Instant
