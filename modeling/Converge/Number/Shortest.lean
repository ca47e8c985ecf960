import Converge.Number.Double

/-!
# Shortest decimal digits

The fewest decimal digits that read back as a given binary64 number. The reals that round to
`m · 2^q` form an interval around it. On each decimal grid, from coarse to fine, the two
neighbours of the number are tested for being in that interval; the first grid with a hit gives
the fewest digits, and of two hits the nearer one is taken.
-/

namespace Converge.Double

/-- The reals that round to a positive number, in units of which the number itself is `4 · m`. -/
structure Interval where
  low : Nat
  middle : Nat
  high : Nat
  /-- Whether the two ends belong to the interval, as they do for an even `m`. -/
  closed : Bool
  /-- The unit, as a fraction of naturals. -/
  unit : Nat × Nat

/-- The interval of `m · 2^q`. Below a power of two the next number is only half as far away. -/
def interval (m : Nat) (q : Int) : Interval where
  low := if m = Nat.pow 2 52 ∧ q > -1074 then 4 * m - 1 else 4 * m - 2
  middle := 4 * m
  high := 4 * m + 2
  closed := m % 2 = 0
  unit := powerFraction (q - 2)

/-- `10^e` as a fraction of naturals. -/
def decimalGrid (e : Int) : Nat × Nat :=
  if e < 0 then (1, Nat.pow 10 (-e).toNat) else (Nat.pow 10 e.toNat, 1)

/-- The digits and exponent of the decimal on the grid `10^e` that stands for the number, if one
of its two neighbours there does. -/
def Interval.onGrid? (i : Interval) (e : Int) : Option (Nat × Int) :=
  let (un, ud) := i.unit
  let (gn, gd) := decimalGrid e
  -- A candidate `d` lies at `d · step` and the middle at `middle · width`, on one scale.
  let step := gn * ud
  let width := un * gd
  let below := i.middle * width / step
  let inside (d : Nat) : Bool :=
    let place := d * step
    if i.closed then i.low * width ≤ place && place ≤ i.high * width
    else i.low * width < place && place < i.high * width
  let gapBelow := i.middle * width - below * step
  let gapAbove := (below + 1) * step - i.middle * width
  match inside below, inside (below + 1) with
  | true, true =>
    if gapBelow < gapAbove ∨ (gapBelow = gapAbove ∧ below % 2 = 0) then some (below, e)
    else some (below + 1, e)
  | true, false => some (below, e)
  | false, true => some (below + 1, e)
  | false, false => none

/-- Tries `count` grids, from `10^e` downwards. -/
def Interval.search (i : Interval) : (count : Nat) → (e : Int) → Nat × Int
  | 0, e => (0, e)
  | count + 1, e =>
    match i.onGrid? e with
    | some found => found
    | none => i.search count (e - 1)

/-- Digits and decimal exponent of a positive finite number. The search starts at a power of ten
above the number, and a grid of seventeen digits always has a hit. -/
def shortest (x : Double) : Nat × Int :=
  let (m, q) := x.scaled
  let above : Int := ((Nat.log2 m : Int) + q) * 30103 / 100000 + 2
  (interval m q).search 24 above

/-! ## Notation -/

/-- Text of decimal digits times a power of ten: positional with at least one digit after the
point from `10^-5` up to below `10^16`, and otherwise with an exponent that shows its sign. -/
def positionalOrScientific (digits : Nat) (e : Int) : String :=
  let text := toString digits
  let scientific : Int := (text.length : Int) - 1 + e
  if -5 ≤ scientific ∧ scientific < 16 then
    if 0 ≤ e then text ++ String.ofList (List.replicate e.toNat '0') ++ ".0"
    else if 0 ≤ scientific then
      let whole := (scientific + 1).toNat
      String.ofList (text.toList.take whole) ++ "." ++ String.ofList (text.toList.drop whole)
    else "0." ++ String.ofList (List.replicate (-scientific - 1).toNat '0') ++ text
  else
    let mantissa := match text.toList with
      | [] => ""
      | [digit] => String.singleton digit
      | digit :: rest => String.singleton digit ++ "." ++ String.ofList rest
    let sign := if scientific < 0 then "-" else "+"
    mantissa ++ "e" ++ sign ++ toString scientific.natAbs

/-- The shortest text of a finite number that reads back as it. -/
def render (x : Double) : String :=
  let sign := if x.isNegative then "-" else ""
  if x.isZero then sign ++ "0.0"
  else
    let (digits, e) := x.shortest
    sign ++ positionalOrScientific digits e

end Converge.Double
