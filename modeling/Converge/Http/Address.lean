import Converge.Text.Integer

/-!
# Addresses of hosts

Numeric addresses as they are written in URLs: four bytes with points between them, of which the
last may take the place of several, and eight groups of digits with colons between them, of which a
run of zeros may be left out.
-/

namespace Converge.Address

/-! ## Four bytes -/

/-- A number with the mark of its radix: `0x` for sixteen, `0` for eight. The outer result is
nothing if it is no number, the inner one if it is too great. -/
def readPart? (text : List Char) : Option (Option Nat) :=
  let (radix, digits) : Nat × List Char :=
    match text with
    | '0' :: 'x' :: rest | '0' :: 'X' :: rest => (16, rest)
    | '0' :: d :: rest => (8, d :: rest)
    | _ => (10, text)
  if text.isEmpty then none
  else if digits.isEmpty then some (some 0)
  else (Text.readDigits? radix digits).map fun n => if n < Nat.pow 2 32 then some n else none

/-- The parts of a name between its points. -/
def parts (name : String) : List String :=
  let all := name.splitOn "."
  if all.getLast? = some "" then all.dropLast else all

/-- Whether the last part of a name is a number, so that the name has to be an address. -/
def endsInNumber (name : String) : Bool :=
  match (parts name).getLast? with
  | none => false
  | some last =>
    (!last.isEmpty && last.toList.all Text.isDigit) || (readPart? last.toList).isSome

/-- Reads an address of four bytes. -/
def readFour? (name : String) : Option Nat := do
  let numbers ← (parts name).mapM fun part => do (← readPart? part.toList)
  let last ← numbers.getLast?
  let front := numbers.dropLast
  if 3 < front.length || front.any (255 < ·) || Nat.pow 256 (4 - front.length) ≤ last then none
  return front.foldl (fun n part => 256 * n + part) 0 * Nat.pow 256 (4 - front.length) + last

/-- Writes an address of four bytes. -/
def renderFour (n : Nat) : String :=
  String.intercalate "." ([24, 16, 8, 0].map fun shift => toString (n >>> shift % 256))

/-! ## Eight groups -/

/-- A byte in decimal digits, without zeros in front. -/
def readByte? (text : String) : Option Nat :=
  match text.toList with
  | [] => none
  | ['0'] => some 0
  | '0' :: _ => none
  | digits => (Text.readDigits? 10 digits).filter (· < 256)

/-- A group of up to four digits of radix sixteen. -/
def readGroup? (text : String) : Option Nat :=
  if text.length ≤ 4 then Text.readDigits? 16 text.toList else none

/-- Reads groups between colons. The last may be an address of four bytes, which makes two. -/
def readGroups? (isLast : Bool) (text : String) : Option (List Nat) :=
  if text.isEmpty then some []
  else do
    let groups := text.splitOn ":"
    let last ← groups.getLast?
    if isLast && last.contains '.' then
      let front ← groups.dropLast.mapM readGroup?
      match ← (last.splitOn ".").mapM readByte? with
      | [a, b, c, d] => return front ++ [256 * a + b, 256 * c + d]
      | _ => none
    else groups.mapM readGroup?

/-- Reads an address of eight groups. Two colons in a row stand for one group of zeros or more. -/
def readEight? (text : String) : Option (List Nat) := do
  match text.splitOn "::" with
  | [whole] => (← readGroups? true whole) |> fun groups => if groups.length = 8 then some groups else none
  | [front, back] =>
    let front ← readGroups? false front
    let back ← readGroups? true back
    let missing := 8 - (front.length + back.length)
    if missing = 0 then none
    return front ++ List.replicate missing 0 ++ back
  | _ => none

/-- A group in digits of radix sixteen. -/
def renderGroup (n : Nat) : String := String.ofList (Nat.toDigits 16 n)

/-- The length of the run of zeros at the front. -/
def zeros (groups : List Nat) : Nat := (groups.takeWhile (· = 0)).length

/-- The place of the longest run of zeros, the first of several. -/
def longestRun (groups : List Nat) : Nat × Nat :=
  (List.range groups.length).foldl
    (fun best i => if best.2 < zeros (groups.drop i) then (i, zeros (groups.drop i)) else best) (0, 0)

/-- Writes an address of eight groups, without the longest run of zeros if it is longer than one. -/
def renderEight (groups : List Nat) : String :=
  let render (groups : List Nat) := String.intercalate ":" (groups.map renderGroup)
  let (start, length) := longestRun groups
  if length < 2 then render groups
  else render (groups.take start) ++ "::" ++ render (groups.drop (start + length))

end Converge.Address
