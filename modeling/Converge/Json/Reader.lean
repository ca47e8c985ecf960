import Converge.Json
import Converge.Text.Integer

/-!
# Reading documents

A reader for JSON text. It keeps the fields of objects in the order of the text. Arrays and
objects nest at most 127 levels deep.

A number without fraction and exponent is an integer where it fits sixty-four bits. Any other
number is read as a sixty-four bit significand, the leading digits that fit, times a power of ten:
both factors and their product are rounded to binary64. What is out of range reads as an infinity,
which no finite value contains (`Json.isFinite`).
-/

namespace Converge.Json

/-- Characters that may stand between the parts of a document. -/
def isSpace (c : Char) : Bool := c = ' ' || c = '\n' || c = '\r' || c = '\t'

def skipSpace (cs : List Char) : List Char := cs.dropWhile isSpace

/-! ## Numbers -/

/-- The parts of the text of a number. -/
structure NumberText where
  negative : Bool
  whole : List Char
  /-- The digits after the point, if there is a point. -/
  fraction : Option (List Char)
  /-- The exponent, if there is one. -/
  exponent : Option Int

/-- Splits digits off the front. -/
def takeDigits (cs : List Char) : List Char × List Char :=
  (cs.takeWhile Text.isDigit, cs.dropWhile Text.isDigit)

/-- The digits before the point: a single zero, or no zero at the front. -/
def takeWhole? (cs : List Char) : Option (List Char × List Char) :=
  match cs with
  | '0' :: rest => if (rest.head?.map Text.isDigit).getD false then none else some (['0'], rest)
  | _ =>
    let (digits, rest) := takeDigits cs
    if digits.isEmpty then none else some (digits, rest)

/-- The digits after a point, if a point follows. -/
def takeFraction? (cs : List Char) : Option (Option (List Char) × List Char) :=
  match cs with
  | '.' :: rest =>
    let (digits, rest) := takeDigits rest
    if digits.isEmpty then none else some (some digits, rest)
  | _ => some (none, cs)

/-- The exponent, if an `e` follows. -/
def takeExponent? (cs : List Char) : Option (Option Int × List Char) :=
  match cs with
  | 'e' :: rest | 'E' :: rest =>
    let (negative, rest) := match rest with
      | '+' :: rest => (false, rest)
      | '-' :: rest => (true, rest)
      | _ => (false, rest)
    let (digits, rest) := takeDigits rest
    (Text.readDigits? 10 digits).map fun value =>
      (some (if negative then -(value : Int) else value), rest)
  | _ => some (none, cs)

/-- Splits the text of a number off the front. -/
def takeNumber? (cs : List Char) : Option (NumberText × List Char) := do
  let (negative, cs) := match cs with
    | '-' :: rest => (true, rest)
    | _ => (false, cs)
  let (whole, cs) ← takeWhole? cs
  let (fraction, cs) ← takeFraction? cs
  let (exponent, cs) ← takeExponent? cs
  return (⟨negative, whole, fraction, exponent⟩, cs)

/-- Takes digits into a significand as long as it fits sixty-four bits, and returns the digits
left over. -/
def takeSignificand (significand : Nat) : List Char → Nat × List Char
  | [] => (significand, [])
  | c :: rest =>
    let next := 10 * significand + (c.toNat - '0'.toNat)
    if next ≤ Number.maxUnsigned 64 then takeSignificand next rest else (significand, c :: rest)

/-- `f · 10^exponent`, each factor and each product rounded. Below `10^-308` the power itself is
taken in two factors; below `10^-616` nothing but zero is left. -/
def scaleDecimal (f : Double) (exponent : Int) : Double :=
  let power (n : Nat) : Double := Double.ofDecimal false 1 n
  if f.isZero then f
  else if exponent > 308 then Double.infinity f.isNegative
  else if exponent ≥ 0 then f.mul (power exponent.toNat)
  else if exponent ≥ -308 then f.div (power (-exponent).toNat)
  else if exponent ≥ -616 then (f.div (power 308)).div (power (-exponent - 308).toNat)
  else Double.ofMagnitude f.isNegative 0

/-- The number that a text stands for. -/
def NumberText.value (text : NumberText) : Number :=
  let (significand, dropped) := takeSignificand 0 text.whole
  let integral := text.fraction.isNone && text.exponent.isNone && dropped.isEmpty
  if integral && !text.negative then .integer significand
  else if integral && 0 < significand && significand ≤ Nat.pow 2 63 then .integer (-(significand : Int))
  else
    let digits := text.fraction.getD []
    let (significand, unread) := takeSignificand significand digits
    let exponent : Int :=
      (dropped.length : Int) - ((digits.length : Int) - (unread.length : Int)) + text.exponent.getD 0
    let magnitude := scaleDecimal (Double.ofNat significand) exponent
    .double (if text.negative then magnitude.negate else magnitude)

/-! ## Strings -/

/-- The code unit written by four hexadecimal digits. -/
def codeUnit? (a b c d : Char) : Option Nat := Text.readDigits? 16 [a, b, c, d]

/-- The character of an escape that is one letter long. -/
def shortEscape? : Char → Option Char
  | '"' => some '"'
  | '\\' => some '\\'
  | '/' => some '/'
  | 'b' => some '\x08'
  | 'f' => some '\x0c'
  | 'n' => some '\n'
  | 'r' => some '\r'
  | 't' => some '\t'
  | _ => none

/-- The character after the backslash of an escape. Code units of a surrogate pair stand together,
the high one first; one alone is no character. -/
def takeEscape? : List Char → Option (Char × List Char)
  | 'u' :: a :: b :: c :: d :: rest => do
    let unit ← codeUnit? a b c d
    if 0xDC00 ≤ unit ∧ unit < 0xE000 then none
    else if 0xD800 ≤ unit ∧ unit < 0xDC00 then
      match rest with
      | '\\' :: 'u' :: e :: f :: g :: h :: rest =>
        let low ← codeUnit? e f g h
        if 0xDC00 ≤ low ∧ low < 0xE000 then
          some (Char.ofNat (0x10000 + (unit - 0xD800) * 0x400 + (low - 0xDC00)), rest)
        else none
      | _ => none
    else some (Char.ofNat unit, rest)
  | c :: rest => (shortEscape? c).map (·, rest)
  | [] => none

/-- The rest of a quoted text, its characters collected in reverse. -/
def takeQuoted? : (fuel : Nat) → (collected : List Char) → List Char → Option (String × List Char)
  | 0, _, _ => none
  | fuel + 1, collected, cs =>
    match cs with
    | [] => none
    | '"' :: rest => some (String.ofList collected.reverse, rest)
    | '\\' :: rest =>
      match takeEscape? rest with
      | some (c, rest) => takeQuoted? fuel (c :: collected) rest
      | none => none
    | c :: rest => if c.toNat < 0x20 then none else takeQuoted? fuel (c :: collected) rest

/-! ## Values -/

/-- Removes the given word from the front. -/
def takeWord? (word : String) (cs : List Char) : Option (List Char) :=
  if word.toList.isPrefixOf cs then some (cs.drop word.toList.length) else none

/-- The greatest number of arrays and objects around a value. -/
def maxDepth : Nat := 127

mutual

/-- Splits a value off the front. `depth` is the number of levels that may still be opened. -/
def takeValue? : (fuel depth : Nat) → List Char → Option (Json × List Char)
  | 0, _, _ => none
  | fuel + 1, depth, cs =>
    match skipSpace cs with
    | '"' :: rest => (takeQuoted? (rest.length + 1) [] rest).map fun (s, rest) => (.string s, rest)
    | '[' :: rest =>
      match depth with
      | 0 => none
      | depth + 1 =>
        match skipSpace rest with
        | ']' :: rest => some (.array [], rest)
        | rest => takeItems? fuel depth [] rest
    | '\x7b' :: rest =>
      match depth with
      | 0 => none
      | depth + 1 =>
        match skipSpace rest with
        | '\x7d' :: rest => some (.object [], rest)
        | rest => takeFields? fuel depth [] rest
    | 'n' :: rest => (takeWord? "ull" rest).map (.null, ·)
    | 't' :: rest => (takeWord? "rue" rest).map (.bool true, ·)
    | 'f' :: rest => (takeWord? "alse" rest).map (.bool false, ·)
    | cs => (takeNumber? cs).map fun (text, rest) => (.number text.value, rest)

/-- The rest of an array, its items collected in reverse. -/
def takeItems? : (fuel depth : Nat) → List Json → List Char → Option (Json × List Char)
  | 0, _, _, _ => none
  | fuel + 1, depth, items, cs =>
    match takeValue? fuel depth cs with
    | none => none
    | some (item, rest) =>
      match skipSpace rest with
      | ',' :: rest => takeItems? fuel depth (item :: items) rest
      | ']' :: rest => some (.array (item :: items).reverse, rest)
      | _ => none

/-- The rest of an object, its fields collected in reverse. -/
def takeFields? :
    (fuel depth : Nat) → List (String × Json) → List Char → Option (Json × List Char)
  | 0, _, _, _ => none
  | fuel + 1, depth, fields, cs =>
    match skipSpace cs with
    | '"' :: rest =>
      match takeQuoted? (rest.length + 1) [] rest with
      | none => none
      | some (name, rest) =>
        match skipSpace rest with
        | ':' :: rest =>
          match takeValue? fuel depth rest with
          | none => none
          | some (value, rest) =>
            match skipSpace rest with
            | ',' :: rest => takeFields? fuel depth ((name, value) :: fields) rest
            | '\x7d' :: rest => some (.object ((name, value) :: fields).reverse, rest)
            | _ => none
        | _ => none
    | _ => none

end

/-- The value written by a text, of which nothing but space may be left. -/
def read? (text : String) : Option Json :=
  let cs := text.toList
  match takeValue? (2 * cs.length + 2) maxDepth cs with
  | some (value, rest) => if (skipSpace rest).isEmpty then some value else none
  | none => none

end Converge.Json
