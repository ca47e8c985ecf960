import Converge.Json
import Converge.Text.Integer

/-!
# Meaning of plain scalars

Plain text in YAML stands for nothing, a truth value, a number, or itself. Integers may be decimal,
without a zero at the front, or carry the prefix of another radix.
-/

namespace Converge.Yaml

/-- The words for nothing. -/
def isNullWord (text : String) : Bool := ["null", "Null", "NULL", "~"].contains text

/-- The truth value that a word stands for. -/
def truthWord? (text : String) : Option Bool :=
  if ["true", "True", "TRUE"].contains text then some true
  else if ["false", "False", "FALSE"].contains text then some false
  else none

/-- A text without the given characters at its front, if it begins with them. -/
def dropFront? (front : List Char) (text : List Char) : Option (List Char) :=
  if front.isPrefixOf text then some (text.drop front.length) else none

/-- Digits with a zero at the front, which are no number, perhaps after a sign. -/
def isPaddedNumber (text : List Char) : Bool :=
  let digits := match text with
    | '-' :: rest | '+' :: rest => rest
    | _ => text
  1 < digits.length && digits.head? = some '0' && digits.all Text.isDigit

/-- The prefixes of radices other than ten. -/
def radixPrefixes : List (String × Nat) := [("0x", 16), ("0o", 8), ("0b", 2)]

/-- An integer of at most `limit` behind the prefix of a radix. -/
def prefixed? (limit : Nat) (text : List Char) : Option Nat :=
  radixPrefixes.findSome? fun (front, radix) => do
    let digits ← dropFront? front.toList text
    (Text.readDigits? radix digits).filter (· ≤ limit)

/-- An integer of at most `limit`, with an optional plus sign. -/
def unsigned? (limit : Nat) (text : List Char) : Option Nat :=
  let digits := match text with
    | '+' :: rest => rest
    | _ => text
  match prefixed? limit digits with
  | some value => some value
  | none =>
    if isPaddedNumber text then none else (Text.readDigits? 10 digits).filter (· ≤ limit)

/-- The absolute value of an integer with a minus sign, of at most `limit`. -/
def negative? (limit : Nat) (text : List Char) : Option Nat := do
  let digits ← dropFront? ['-'] text
  match prefixed? limit digits with
  | some value => some value
  | none =>
    if isPaddedNumber text then none else (Text.readDigits? 10 digits).filter (· ≤ limit)

/-- The integer that a text stands for. One that fits 128 bits and not 64 is refused. -/
def integer? (text : List Char) : Except Unit (Option Int) :=
  match unsigned? (Nat.pow 2 64 - 1) text, negative? (Nat.pow 2 63) text with
  | some value, _ => .ok (some value)
  | none, some value => .ok (some (-(value : Int)))
  | none, none =>
    if (unsigned? (Nat.pow 2 128 - 1) text).isSome || (negative? (Nat.pow 2 127) text).isSome then .error ()
    else .ok none

/-- A finite decimal number without sign: digits with an optional point and exponent. -/
def decimal? (negative : Bool) (text : List Char) : Option Double := do
  let whole := text.takeWhile Text.isDigit
  let rest := text.dropWhile Text.isDigit
  let (fraction, rest) := match rest with
    | '.' :: rest => (rest.takeWhile Text.isDigit, rest.dropWhile Text.isDigit)
    | _ => ([], rest)
  let digits ← Text.readDigits? 10 (whole ++ fraction)
  let exponent : Int ←
    match rest with
    | [] => some 0
    | 'e' :: rest | 'E' :: rest =>
      match rest with
      | '-' :: rest => (Text.readDigits? 10 rest).map fun n => -(n : Int)
      | '+' :: rest => (Text.readDigits? 10 rest).map Int.ofNat
      | _ => (Text.readDigits? 10 rest).map Int.ofNat
    | _ => none
  (some (Double.ofDecimal negative digits (exponent - fraction.length))).filter (·.isFinite)

/-- The binary64 number that a text stands for. -/
def double? (text : String) : Option Double :=
  let (signed, negative, rest) := match text.toList with
    | '+' :: rest => (true, false, rest)
    | '-' :: rest => (true, true, rest)
    | cs => (false, false, cs)
  if [".inf", ".Inf", ".INF"].contains (String.ofList rest) then some (Double.infinity negative)
  else if !signed && [".nan", ".NaN", ".NAN"].contains text then some Double.notANumber
  else decimal? negative rest

/-- What a plain scalar stands for; `Except` refuses integers of more than 64 bits. -/
def plainValue (text : String) : Except Unit Json :=
  if text.isEmpty || isNullWord text then .ok .null
  else
    match truthWord? text with
    | some value => .ok (.bool value)
    | none => do
      match ← integer? text.toList with
      | some value => return .integer value
      | none =>
        if isPaddedNumber text.toList then return .string text
        match double? text with
        | some value => return .number (.double value)
        | none => return .string text

end Converge.Yaml
