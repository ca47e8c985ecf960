import Converge.Text.Integer

/-!
# Names of hosts

A name is looked up in ASCII. A label with other characters is written as its ASCII characters, then
as the steps that put the others into their places, smallest first, each step a number of variable
length. Before that the characters of a name are folded: capitals of the common scripts to small
letters, wide forms to plain ones, and some that cannot be seen are left out.
-/

namespace Converge.HostName

/-! ## Folding -/

/-- Characters that a name is read without. -/
def isIgnored (c : Char) : Bool :=
  ['\u00ad', '\u200b', '\u2060', '\u2064', '\ufeff'].contains c || ('\ufe00' ≤ c && c ≤ '\ufe0f')

/-- Blanks and control characters beyond ASCII, and characters without a meaning of their own. -/
def isRefused (c : Char) : Bool :=
  ('\x80' ≤ c && c ≤ '\u00a0') || ('\u2000' ≤ c && c ≤ '\u200a') ||
  ('\u2028' ≤ c && c ≤ '\u202f') || c = '\u3000' || ('\ue000' ≤ c && c ≤ '\uf8ff') ||
  ('\ufff0' ≤ c && c ≤ '\uffff')

/-- The capitals of the common scripts: the first, the last and how far on the small letters are. -/
def capitals : List (Char × Char × Nat) :=
  [('A', 'Z', 32), ('À', 'Ö', 32), ('Ø', 'Þ', 32), ('Α', 'Ρ', 32), ('Σ', 'Ϋ', 32), ('Ѐ', 'Џ', 80),
   ('А', 'Я', 32)]

/-- A capital as its small letter. -/
def lower (c : Char) : Char :=
  match capitals.find? fun (first, last, _) => first ≤ c && c ≤ last with
  | some (_, _, distance) => Char.ofNat (c.toNat + distance)
  | none => c

/-- A wide form as the plain character. -/
def narrow (c : Char) : Char :=
  if c = '\u3002' || c = '\uff61' then '.'
  else if '\uff01' ≤ c && c ≤ '\uff5e' then Char.ofNat (c.toNat - 0xFEE0)
  else c

/-- The characters of a name as they are compared. -/
def fold (cs : List Char) : List Char :=
  (cs.filter (!isIgnored ·)).map fun c => lower (narrow c)

/-! ## Numbers of variable length -/

/-- A digit of radix thirty-six, letters first. -/
def digit (n : Nat) : Char := Char.ofNat (if n < 26 then 0x61 + n else 0x30 + n - 26)

/-- The least value at a place after which the number goes on. -/
def threshold (bias place : Nat) : Nat := min 26 (max 1 (place - bias))

theorem threshold_pos (bias place : Nat) : 0 < threshold bias place := by
  unfold threshold; omega

/-- Writes a number from the place on. -/
def writeFrom (bias place n : Nat) : List Char :=
  let t := threshold bias place
  if n < t then [digit n]
  else digit (t + (n - t) % (36 - t)) :: writeFrom bias (place + 36) ((n - t) / (36 - t))
termination_by n
decreasing_by
  have := threshold_pos bias place
  have := Nat.div_le_self (n - threshold bias place) (36 - threshold bias place)
  omega

/-- How a bias grows with the size of a step. -/
def growth (n : Nat) : Nat :=
  if 455 < n then 36 + growth (n / 35) else 36 * n / (n + 38)
termination_by n
decreasing_by omega

/-! ## Labels -/

def isPlain (c : Char) : Bool := c.toNat < 0x80

/-- A label of which some characters are in place. -/
structure Progress where
  written : List Char := []
  /-- How many characters are in place. -/
  placed : Nat
  /-- The step to the next character. -/
  step : Nat := 0
  bias : Nat := 72
  isFirst : Bool := true
deriving Repr

/-- Passes one character of the label while those equal to `next` are put into place. -/
def Progress.pass (next : Char) (p : Progress) (c : Char) : Progress :=
  if c < next then { p with step := p.step + 1 }
  else if c = next then
    let size := p.step / (if p.isFirst then 700 else 2)
    { written := p.written ++ writeFrom p.bias 36 p.step
      placed := p.placed + 1
      bias := growth (size + size / (p.placed + 1))
      isFirst := false }
  else p

/-- Puts the characters into place that are not below `least`. -/
def Progress.place (label : List Char) (p : Progress) (least : Nat) : List Char → Progress
  | [] => p
  | next :: rest =>
    let p := { p with step := p.step + (next.toNat - least) * (p.placed + 1) }
    let p := label.foldl (Progress.pass next) p
    Progress.place label { p with step := p.step + 1 } (next.toNat + 1) rest

/-- A label in ASCII. -/
def encodeLabel (label : List Char) : List Char :=
  let plain := label.filter isPlain
  let others := (label.filter (!isPlain ·)).eraseDups.mergeSort (· ≤ ·)
  if others.isEmpty then label
  else
    let p := Progress.place label { placed := plain.length } 0x80 others
    "xn--".toList ++ plain ++ (if plain.isEmpty then [] else ['-']) ++ p.written

/-- A name in ASCII, if its characters may stand in one. -/
def encode? (cs : List Char) : Option String :=
  let name := fold cs
  let labels := ((String.ofList name).splitOn ".").map (encodeLabel ·.toList)
  if name.any isRefused || labels.contains "xn--".toList then none
  else some (String.intercalate "." (labels.map String.ofList))

end Converge.HostName
