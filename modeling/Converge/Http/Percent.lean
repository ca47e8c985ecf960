import Converge.Text.Integer

/-!
# Percent-encoding

Characters that may not stand in a part of a URL are written as the bytes of their UTF-8 form, each
as a percent sign and two digits. Which characters these are depends on the part.
-/

namespace Converge.Percent

/-- A digit of radix sixteen in upper case. -/
def upperDigit (n : Nat) : Char := Char.ofNat (if n < 10 then 0x30 + n else 0x41 + n - 10)

/-- A byte as a percent sign and two digits. -/
def encodeByte (b : UInt8) : List Char :=
  ['%', upperDigit (b.toNat / 16), upperDigit (b.toNat % 16)]

/-- Encodes the characters that may not stand in a part. -/
def encode (isEncoded : Char → Bool) (cs : List Char) : String :=
  String.ofList (cs.flatMap fun c =>
    if isEncoded c then (String.singleton c).toUTF8.toList.flatMap encodeByte else [c])

/-! ## What is encoded -/

/-- Control characters, and everything beyond ASCII. -/
def inOpaque (c : Char) : Bool := c.toNat < 0x20 || 0x7F ≤ c.toNat

def inFragment (c : Char) : Bool := inOpaque c || [' ', '"', '<', '>', '\x60'].contains c

def inQuery (isSpecial : Bool) (c : Char) : Bool :=
  inOpaque c || [' ', '"', '#', '<', '>'].contains c || (isSpecial && c = '\x27')

def inPath (c : Char) : Bool := inFragment c || ['#', '?', '\x7b', '\x7d'].contains c

/-- One segment of a path, in which strokes and percent signs are encoded as well. -/
def inSegment (isSpecial : Bool) (c : Char) : Bool :=
  inPath c || c = '/' || c = '%' || (isSpecial && c = '\\')

def inUserInfo (c : Char) : Bool :=
  inPath c || ['/', ':', ';', '=', '@', '[', '\\', ']', '^', '|'].contains c

/-! ## Decoding -/

/-- The bytes of a text with those in place that it has encoded. -/
def decode : List Char → List UInt8
  | [] => []
  | '%' :: a :: b :: rest =>
    match Text.digitValue? 16 a, Text.digitValue? 16 b with
    | some high, some low => UInt8.ofNat (16 * high + low) :: decode rest
    | _, _ => '%'.toUInt8 :: decode (a :: b :: rest)
  | c :: rest => (String.singleton c).toUTF8.toList ++ decode rest

end Converge.Percent
