import Converge.Yaml.Token

/-!
# Scalars of YAML

The three ways to write text: plain, between quotes, and as an indented block. Lines of plain and
quoted text are folded: a single line break counts as a space, and of several all but the first
stay.
-/

namespace Converge.Yaml

/-- Blanks and breaks between two words of a scalar. -/
structure Gap where
  /-- Blanks on the line of the first word. -/
  blanks : String := ""
  /-- Whether a line has been broken. -/
  broken : Bool := false
  /-- The first break. -/
  first : String := ""
  /-- The further breaks. -/
  more : String := ""

namespace Gap

/-- What a gap adds to the text of the scalar. -/
def text (gap : Gap) : String :=
  if gap.broken then
    if gap.first = "\n" then (if gap.more.isEmpty then " " else gap.more)
    else gap.first ++ gap.more
  else gap.blanks

/-- Reads on over blanks and breaks. Where `minColumn` is given, a tab left of that column is
refused at the beginning of a line. -/
def scan (minColumn : Option Nat) : (fuel : Nat) → Cursor → Gap → Except Fault (Gap × Cursor)
  | 0, c, gap => .ok (gap, c)
  | fuel + 1, c, gap =>
    match c.peek? 0 with
    | none => .ok (gap, c)
    | some char =>
      if isBlank char then
        if gap.broken && char = '\t' && c.column < minColumn.getD 0 then .error .tab
        else
          let blanks := if gap.broken then gap.blanks else gap.blanks.push char
          scan minColumn fuel (c.advance 1) { gap with blanks }
      else if isBreak char then
        let (text, c) := c.takeBreak
        if gap.broken then scan minColumn fuel c { gap with more := gap.more ++ text }
        else scan minColumn fuel c { gap with blanks := "", broken := true, first := text }
      else .ok (gap, c)

end Gap

/-! ## Quoted text -/

/-- The character that a letter after a backslash stands for. -/
def escaped? : Char → Option Char
  | '0' => some '\x00'
  | 'a' => some '\x07'
  | 'b' => some '\x08'
  | 't' => some '\t'
  | '\t' => some '\t'
  | 'n' => some '\n'
  | 'v' => some '\x0b'
  | 'f' => some '\x0c'
  | 'r' => some '\r'
  | 'e' => some '\x1b'
  | ' ' => some ' '
  | '"' => some '"'
  | '/' => some '/'
  | '\\' => some '\\'
  | 'N' => some '\u0085'
  | '_' => some '\u00a0'
  | 'L' => some '\u2028'
  | 'P' => some '\u2029'
  | _ => none

/-- The number of hexadecimal digits that follow a letter after a backslash. -/
def escapeWidth? : Char → Option Nat
  | 'x' => some 2
  | 'u' => some 4
  | 'U' => some 8
  | _ => none

/-- Reads an escape sequence after its backslash. -/
def scanEscape (c : Cursor) : Except Fault (Char × Cursor) :=
  match c.peek? 0 with
  | none => .error .escape
  | some letter =>
    match escaped? letter, escapeWidth? letter with
    | some char, _ => .ok (char, c.advance 1)
    | none, none => .error .escape
    | none, some width =>
      let digits := (c.rest.drop 1).take width
      if digits.length < width then .error .escape
      else
        match Text.readDigits? 16 digits with
        | some value =>
          if value.isValidChar then .ok (Char.ofNat value, c.advance (1 + width))
          else .error .escape
        | none => .error .escape

/-- Reads the characters of a quoted scalar up to a blank, a break, the closing quote or the end.
The last answer is whether an escaped break has been stepped over. -/
def scanQuotedWord (single : Bool) : (fuel : Nat) → Cursor → String →
    Except Fault (String × Cursor × Bool)
  | 0, c, out => .ok (out, c, false)
  | fuel + 1, c, out =>
    match c.peek? 0 with
    | none => .ok (out, c, false)
    | some char =>
      if isBlank char || isBreak char then .ok (out, c, false)
      else if single then
        if char = '\x27' then
          if c.sees 1 '\x27' then scanQuotedWord single fuel (c.advance 2) (out.push '\x27')
          else .ok (out, c, false)
        else scanQuotedWord single fuel (c.advance 1) (out.push char)
      else if char = '"' then .ok (out, c, false)
      else if char = '\\' then
        if c.seesSome 1 isBreak then .ok (out, (c.advance 1).skipBreak, true)
        else do
          let (char, c) ← scanEscape (c.advance 1)
          scanQuotedWord single fuel c (out.push char)
      else scanQuotedWord single fuel (c.advance 1) (out.push char)

/-- Reads a quoted scalar after its opening quote, word by word. -/
def scanQuotedWords (single : Bool) : (fuel : Nat) → Cursor → String →
    Except Fault (String × Cursor)
  | 0, _, _ => .error .unclosedQuote
  | fuel + 1, c, out => do
    if c.atDocumentMark '-' || c.atDocumentMark '.' then throw .documentIndicator
    if c.atEnd then throw .unclosedQuote
    let (out, c, broken) ← scanQuotedWord single (c.rest.length + 1) c out
    if c.sees 0 (if single then '\x27' else '"') then return (out, c.advance 1)
    let (gap, c) ← Gap.scan none (c.rest.length + 1) c { broken }
    scanQuotedWords single fuel c (out ++ gap.text)

/-- Reads a quoted scalar. -/
def scanQuoted (single : Bool) (c : Cursor) : Except Fault (String × Cursor) :=
  scanQuotedWords single (c.rest.length + 1) (c.advance 1) ""

/-! ## Plain text -/

/-- Reads a word of a plain scalar, up to a blank, a break or an indicator that ends it. -/
def scanPlainWord (inFlow : Bool) : (fuel : Nat) → Cursor → String → Except Fault (String × Cursor)
  | 0, c, out => .ok (out, c)
  | fuel + 1, c, out =>
    match c.peek? 0 with
    | none => .ok (out, c)
    | some char =>
      if isBlank char || isBreak char then .ok (out, c)
      else if inFlow && char = ':' && c.seesSome 1 (fun d => isFlowIndicator d || d = '?') then
        .error .unexpectedColon
      else if (char = ':' && c.blankOrEnd 1) || (inFlow && isFlowIndicator char) then .ok (out, c)
      else scanPlainWord inFlow fuel (c.advance 1) (out.push char)

/-- Reads a plain scalar word by word; `gap` precedes the next word. The last answer is whether
the scalar has been left at the beginning of a line. -/
def scanPlainWords (inFlow : Bool) (minColumn : Nat) : (fuel : Nat) → Cursor → Gap → String →
    Except Fault (String × Cursor × Bool)
  | 0, c, gap, out => .ok (out, c, gap.broken)
  | fuel + 1, c, gap, out => do
    if c.atDocumentMark '-' || c.atDocumentMark '.' || c.sees 0 '#' then
      return (out, c, gap.broken)
    let (word, c) ← scanPlainWord inFlow (c.rest.length + 1) c ""
    let out := if word.isEmpty then out else out ++ gap.text ++ word
    let before := if word.isEmpty then gap else {}
    if !(c.atBlank || c.atBreak) then return (out, c, before.broken)
    let (gap, c) ← Gap.scan (some minColumn) (c.rest.length + 1) c before
    if !inFlow && c.column < minColumn then return (out, c, gap.broken)
    scanPlainWords inFlow minColumn fuel c gap out

/-- Reads a plain scalar, whose lines after the first begin at `minColumn` or to the right. -/
def scanPlain (inFlow : Bool) (minColumn : Nat) (c : Cursor) :
    Except Fault (String × Cursor × Bool) :=
  scanPlainWords inFlow minColumn (c.rest.length + 1) c {} ""

/-! ## Blocks -/

/-- What becomes of the breaks at the end of a block. -/
inductive Chomping where
  /-- All are dropped. -/
  | strip
  /-- One stays. -/
  | clip
  /-- All stay. -/
  | keep
deriving DecidableEq, Repr

/-- Reads the header of a block: chomping and indentation, in either order. -/
def scanBlockHeader (c : Cursor) : Except Fault (Chomping × Option Nat × Cursor) := do
  let chomping (c : Cursor) : Option Chomping × Cursor :=
    if c.sees 0 '+' then (some .keep, c.advance 1)
    else if c.sees 0 '-' then (some .strip, c.advance 1)
    else (none, c)
  let increment (c : Cursor) : Except Fault (Option Nat × Cursor) :=
    match c.peek? 0 with
    | some char =>
      if char = '0' then .error .indentationIndicator
      else if Text.isDigit char then .ok (Text.digitValue? 10 char, c.advance 1)
      else .ok (none, c)
    | none => .ok (none, c)
  let (first, c) := chomping c
  let (indent, c) ← increment c
  let (second, c) := if first.isNone && indent.isSome then chomping c else (none, c)
  let c ← c.endLine .lineBreakMissing
  return ((first.or second).getD .clip, indent, c)

/-- Steps over the indentation and over empty lines, whose breaks it collects. Without a known
indentation the widest found so far is returned. -/
def scanIndentation (indent : Option Nat) : (fuel : Nat) → Cursor → (widest : Nat) → String →
    Except Fault (Nat × String × Cursor)
  | 0, c, widest, breaks => .ok (widest, breaks, c)
  | fuel + 1, c, widest, breaks =>
    let inside (c : Cursor) : Bool := (indent.map fun n => decide (c.column < n)).getD true
    let spaces := (c.rest.takeWhile (· = ' ')).length
    let c := c.advance ((indent.map fun n => min spaces (n - c.column)).getD spaces)
    let widest := max widest c.column
    if inside c && c.sees 0 '\t' then .error .tab
    else if c.atBreak then
      let (text, c) := c.takeBreak
      scanIndentation indent fuel c widest (breaks ++ text)
    else .ok (widest, breaks, c)

/-- Reads the lines of a block. `lineBreak` ended the line before, which began with a blank if
`leadingBlank` says so, and `breaks` are those of empty lines since. -/
def scanBlockLines (folded : Bool) (indent : Nat) : (fuel : Nat) → Cursor →
    (lineBreak breaks : String) → (leadingBlank : Bool) → String →
    Except Fault (String × String × String × Cursor)
  | 0, c, lineBreak, breaks, _, out => .ok (out, lineBreak, breaks, c)
  | fuel + 1, c, lineBreak, breaks, leadingBlank, out =>
    if c.column = indent && !c.atEnd then do
      let joined :=
        if folded && lineBreak = "\n" && !leadingBlank && !c.atBlank then
          if breaks.isEmpty then " " else ""
        else lineBreak
      let (text, after) := c.takeWhile (!isBreak ·)
      let (nextBreak, after) := after.takeBreak
      let (_, nextBreaks, after) ←
        scanIndentation (some indent) (after.rest.length + 1) after 0 ""
      scanBlockLines folded indent fuel after nextBreak nextBreaks c.atBlank
        (out ++ joined ++ breaks ++ String.ofList text)
    else .ok (out, lineBreak, breaks, c)

/-- Reads a block scalar inside a collection at column `parentIndent`, if there is one. -/
def scanBlock (folded : Bool) (parentIndent : Option Nat) (c : Cursor) :
    Except Fault (String × Cursor) := do
  let (chomping, increment, c) ← scanBlockHeader (c.advance 1)
  let least := (parentIndent.map (· + 1)).getD 0
  let known := increment.map fun n => (parentIndent.map (· + n)).getD n
  let (widest, breaks, c) ← scanIndentation known (c.rest.length + 1) c 0 ""
  let indent := known.getD (max (max widest least) 1)
  let (out, lineBreak, breaks, c) ←
    scanBlockLines folded indent (c.rest.length + 1) c "" breaks false ""
  let tail := match chomping with
    | .strip => ""
    | .clip => lineBreak
    | .keep => lineBreak ++ breaks
  return (out ++ tail, c)

end Converge.Yaml
