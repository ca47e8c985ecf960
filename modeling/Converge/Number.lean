import Converge.Number.Double
import Converge.Number.Shortest

/-!
# Numbers of a document

A number in a document is either an integer of sixty-four bits, signed or unsigned, or a binary64
number. An integer never equals a binary64 number, even of the same value, and prints differently.
-/

namespace Converge

/-- A number as documents carry it. -/
inductive Number where
  /-- An integer between `-2^63` and `2^64 - 1`. -/
  | integer (value : Int)
  | double (value : Double)
deriving DecidableEq

namespace Number

/-- Largest value of an unsigned integer of `width` bits. -/
def maxUnsigned (width : Nat) : Nat := Nat.pow 2 width - 1

/-- Whether an integer fits sixty-four bits, signed or unsigned. -/
def fits (value : Int) : Bool := -(Nat.pow 2 63 : Int) ≤ value && value < (Nat.pow 2 64 : Int)

/-- Equality of numbers: integers by value, binary64 numbers numerically. -/
def agrees : Number → Number → Bool
  | .integer a, .integer b => a = b
  | .double a, .double b => a.numEq b
  | _, _ => false

def isFinite : Number → Bool
  | .integer _ => true
  | .double x => x.isFinite

/-- The text of a number. What is not finite has none of its own and is written as `null`. -/
def render : Number → String
  | .integer value => toString value
  | .double x => if x.isFinite then x.render else "null"

end Number

end Converge
