/-!
# Binary64 numbers

A `Double` is a 64-bit pattern. Its finite values are `± m · 2^q` with natural `m` and integral
`q`, and every operation here works on that pair in exact natural-number arithmetic and rounds
once, to the nearest value and to the even one on a tie.
-/

namespace Converge

/-- A binary64 number, by its bit pattern: sign, eleven exponent bits, fifty-two fraction bits. -/
structure Double where
  bits : UInt64
deriving DecidableEq

namespace Double

/-- The bits without the sign. -/
def magnitudeBits (x : Double) : Nat := x.bits.toNat % Nat.pow 2 63

/-- Whether the sign bit is set; also of a negative zero. -/
def isNegative (x : Double) : Bool := Nat.pow 2 63 ≤ x.bits.toNat

/-- The pattern of infinity without its sign: all exponent bits set and no fraction. -/
def infinityBits : Nat := 0x7FF0000000000000

def isFinite (x : Double) : Bool := x.magnitudeBits < infinityBits

def isNaN (x : Double) : Bool := infinityBits < x.magnitudeBits

def isZero (x : Double) : Bool := x.magnitudeBits = 0

/-- The number with the given sign and pattern of the other bits. -/
def ofMagnitude (negative : Bool) (magnitude : Nat) : Double :=
  ⟨UInt64.ofNat (if negative then Nat.pow 2 63 + magnitude else magnitude)⟩

def zero : Double := ofMagnitude false 0

def infinity (negative : Bool) : Double := ofMagnitude negative infinityBits

/-- The quiet not-a-number with an empty payload. -/
def notANumber : Double := ofMagnitude false (infinityBits + Nat.pow 2 51)

def negate (x : Double) : Double := ofMagnitude (!x.isNegative) x.magnitudeBits

/-- The pair `(m, q)` with `|x| = m · 2^q`, for finite `x`. -/
def scaled (x : Double) : Nat × Int :=
  let field : Nat := x.magnitudeBits / Nat.pow 2 52
  let fraction : Nat := x.magnitudeBits % Nat.pow 2 52
  if field = 0 then (fraction, -1074) else (Nat.pow 2 52 + fraction, (field : Int) - 1075)

/-! ## Rounding -/

/-- The quotient `num / den` rounded to the nearest natural, a half to the even one. -/
def roundDiv (num den : Nat) : Nat :=
  let floor := num / den
  let twice := 2 * (num % den)
  if twice < den ∨ (twice = den ∧ floor % 2 = 0) then floor else floor + 1

/-- `num / den · 2^-q`, as a fraction of naturals. -/
def shiftFraction (num den : Nat) (q : Int) : Nat × Nat :=
  if q < 0 then (num * Nat.pow 2 (-q).toNat, den) else (num, den * Nat.pow 2 q.toNat)

/-- The exponent `q ≥ -1074` for which `num / den · 2^-q` has fifty-three bits before the point. -/
def exponentOf (num den : Nat) : Int :=
  let low : Int := (Nat.log2 num : Int) - (Nat.log2 den : Int) - 53
  let (a, b) := shiftFraction num den low
  max (if a / b < Nat.pow 2 53 then low else low + 1) (-1074)

/-- The number nearest to `± num / den`; beyond the greatest finite one it is an infinity. -/
def ofRatio (negative : Bool) (num den : Nat) : Double :=
  if num = 0 ∨ den = 0 then ofMagnitude negative 0
  else
    let q := exponentOf num den
    let (a, b) := shiftFraction num den q
    let magnitude := (q + 1074).toNat * Nat.pow 2 52 + roundDiv a b
    ofMagnitude negative (min magnitude infinityBits)

/-- The number nearest to `± digits · 10^exponent`. Exponents that settle the answer by
themselves are told apart first, so that no huge power is computed. -/
def ofDecimal (negative : Bool) (digits : Nat) (exponent : Int) : Double :=
  if digits = 0 then ofMagnitude negative 0
  else if exponent > 310 then infinity negative
  else if (Nat.log2 digits : Int) + 1 + 3 * exponent < -1080 then ofMagnitude negative 0
  else if exponent < 0 then ofRatio negative digits (Nat.pow 10 (-exponent).toNat)
  else ofRatio negative (digits * Nat.pow 10 exponent.toNat) 1

/-- The number nearest to a natural. -/
def ofNat (n : Nat) : Double := ofRatio false n 1

/-- The power of two `2^q` as a fraction of naturals. -/
def powerFraction (q : Int) : Nat × Nat :=
  if q < 0 then (1, Nat.pow 2 (-q).toNat) else (Nat.pow 2 q.toNat, 1)

/-- The rounded product of two finite numbers. -/
def mul (x y : Double) : Double :=
  let (m, q) := x.scaled
  let (n, r) := y.scaled
  let (a, b) := powerFraction (q + r)
  ofRatio (x.isNegative != y.isNegative) (m * n * a) b

/-- The rounded quotient of two finite numbers, the second not zero. -/
def div (x y : Double) : Double :=
  let (m, q) := x.scaled
  let (n, r) := y.scaled
  let (a, b) := powerFraction (q - r)
  ofRatio (x.isNegative != y.isNegative) (m * a) (n * b)

/-! ## Comparison -/

/-- Numeric equality of numbers that stand in documents, none of which is not-a-number: the two
zeros are equal. -/
def numEq (x y : Double) : Bool := x.bits = y.bits || (x.isZero && y.isZero)

/-- A key that orders all numbers but not-a-number as their values. -/
def orderKey (x : Double) : Int :=
  if x.isNegative then -(x.magnitudeBits : Int) else x.magnitudeBits

/-- Numeric order; false as soon as one side is not a number. -/
def le (x y : Double) : Bool := !x.isNaN && !y.isNaN && x.orderKey ≤ y.orderKey

end Double

end Converge
