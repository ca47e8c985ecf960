/-!
# Integers as text

Reading of natural numbers in a radix up to thirty-six. The digits are those of ASCII.
-/

namespace Converge.Text

/-- The value of a digit, if it is one in the given radix. -/
def digitValue? (radix : Nat) (c : Char) : Option Nat :=
  let value :=
    if '0' ≤ c ∧ c ≤ '9' then some (c.toNat - '0'.toNat)
    else if 'a' ≤ c ∧ c ≤ 'z' then some (c.toNat - 'a'.toNat + 10)
    else if 'A' ≤ c ∧ c ≤ 'Z' then some (c.toNat - 'A'.toNat + 10)
    else none
  value.filter (· < radix)

/-- The natural written by a list of digits, of which there has to be one at least. -/
def readDigits? (radix : Nat) : List Char → Option Nat
  | [] => none
  | digits => digits.foldlM (fun value c => (digitValue? radix c).map (radix * value + ·)) 0

/-- A natural of at most `limit`, with an optional plus sign before its digits. -/
def readUnsigned? (radix limit : Nat) (cs : List Char) : Option Nat :=
  let digits := match cs with
    | '+' :: rest => rest
    | _ => cs
  (readDigits? radix digits).filter (· ≤ limit)

/-- Whether a character is a decimal digit of ASCII. -/
def isDigit (c : Char) : Bool := '0' ≤ c && c ≤ '9'

end Converge.Text
