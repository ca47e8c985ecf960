import Converge.Text.Integer

/-!
# Reading YAML text

The classes of characters that YAML tells apart, the place of a reader in a text, and the faults
that a text can have.
-/

namespace Converge.Yaml

/-- Why a text is not a YAML document. -/
inductive Fault where
  | controlCharacter
  | colonMissing
  | entryMisplaced
  | keyMisplaced
  | valueMisplaced
  | unexpectedCharacter
  | unexpectedColon
  | directive
  | anchor
  | tag
  | undefinedTagHandle
  | escape
  | tab
  | indentationIndicator
  | lineBreakMissing
  | unclosedQuote
  | documentIndicator
  | documentStart
  | nodeMissing
  | collectionEntry
  | unknownAnchor
  | documentCount
  | nesting
  | repetition
  | value
deriving DecidableEq, Repr

namespace Fault

def message : Fault → String
  | .controlCharacter => "control characters are not allowed"
  | .colonMissing => "could not find expected ':'"
  | .entryMisplaced => "block sequence entries are not allowed in this context"
  | .keyMisplaced => "mapping keys are not allowed in this context"
  | .valueMisplaced => "mapping values are not allowed in this context"
  | .unexpectedCharacter => "found character that cannot start any token"
  | .unexpectedColon => "found unexpected ':'"
  | .directive => "found an invalid directive"
  | .anchor => "did not find expected alphabetic or numeric character"
  | .tag => "found an invalid tag"
  | .undefinedTagHandle => "found undefined tag handle"
  | .escape => "found an invalid escape sequence"
  | .tab => "found a tab character where indentation is expected"
  | .indentationIndicator => "found an indentation indicator equal to 0"
  | .lineBreakMissing => "did not find expected comment or line break"
  | .unclosedQuote => "found unexpected end of stream"
  | .documentIndicator => "found unexpected document indicator"
  | .documentStart => "did not find expected <document start>"
  | .nodeMissing => "did not find expected node content"
  | .collectionEntry => "did not find expected entry or end of a collection"
  | .unknownAnchor => "unknown anchor"
  | .documentCount => "expected a single document"
  | .nesting => "recursion limit exceeded"
  | .repetition => "repetition limit exceeded"
  | .value => "invalid value"

end Fault

/-! ## Characters -/

/-- The characters that may occur in a text at all. -/
def isPrintable (c : Char) : Bool :=
  let n := c.toNat
  n = 0x9 || n = 0xA || n = 0xD || (0x20 ≤ n && n ≤ 0x7E) || n = 0x85 ||
  (0xA0 ≤ n && n ≤ 0xD7FF) || (0xE000 ≤ n && n ≤ 0xFFFD) || 0x10000 ≤ n

/-- A space or a tab. -/
def isBlank (c : Char) : Bool := c = ' ' || c = '\t'

/-- A character that ends a line. -/
def isBreak (c : Char) : Bool :=
  c = '\n' || c = '\r' || c = '\u0085' || c = '\u2028' || c = '\u2029'

/-- Letters, digits, low lines and hyphens, of which names are made. -/
def isWordChar (c : Char) : Bool := c.isAlphanum || c = '_' || c = '-'

/-- The indicators that structure flow collections. -/
def isFlowIndicator (c : Char) : Bool := c = ',' || c = '[' || c = ']' || c = '\x7b' || c = '\x7d'

/-! ## Place -/

/-- The place of a reader: what is left of the text, and where that begins. -/
structure Cursor where
  rest : List Char
  /-- Number of characters read. -/
  index : Nat := 0
  line : Nat := 0
  column : Nat := 0

namespace Cursor

def start (text : String) : Cursor := { rest := text.toList }

/-- The character `k` places ahead. -/
def peek? (c : Cursor) (k : Nat) : Option Char := c.rest[k]?

/-- Whether the text goes on with `char` in `k` places. -/
def sees (c : Cursor) (k : Nat) (char : Char) : Bool := c.peek? k == some char

/-- Whether the character `k` places ahead is of a class. -/
def seesSome (c : Cursor) (k : Nat) (test : Char → Bool) : Bool := ((c.peek? k).map test).getD false

def atEnd (c : Cursor) : Bool := c.rest.isEmpty

def atBlank (c : Cursor) : Bool := c.seesSome 0 isBlank

def atBreak (c : Cursor) : Bool := c.seesSome 0 isBreak

/-- Whether a break or the end of the text is `k` places ahead. -/
def breakOrEnd (c : Cursor) (k : Nat) : Bool := ((c.peek? k).map isBreak).getD true

/-- Whether a blank, a break or the end of the text is `k` places ahead. -/
def blankOrEnd (c : Cursor) (k : Nat) : Bool :=
  ((c.peek? k).map fun char => isBlank char || isBreak char).getD true

/-- Steps over `count` characters of a line. -/
def advance (c : Cursor) (count : Nat) : Cursor :=
  { c with rest := c.rest.drop count, index := c.index + count, column := c.column + count }

/-- Steps over the characters of a class, none of which ends a line. -/
def skipWhile (c : Cursor) (test : Char → Bool) : Cursor :=
  c.advance (c.rest.takeWhile test).length

/-- The characters of a class ahead, and the place after them. -/
def takeWhile (c : Cursor) (test : Char → Bool) : List Char × Cursor :=
  let taken := c.rest.takeWhile test
  (taken, c.advance taken.length)

/-- Steps over a line break, of which a carriage return and a line feed together are one. -/
def skipBreak (c : Cursor) : Cursor :=
  let count := if c.sees 0 '\r' && c.sees 1 '\n' then 2 else 1
  { rest := c.rest.drop count, index := c.index + count, line := c.line + 1, column := 0 }

/-- Steps over a line break and gives its text: a line feed, or the separator itself. At the end
of the text nothing happens. -/
def takeBreak (c : Cursor) : String × Cursor :=
  match c.peek? 0 with
  | some char =>
    if isBreak char then
      (if char = '\u2028' || char = '\u2029' then String.singleton char else "\n", c.skipBreak)
    else ("", c)
  | none => ("", c)

/-- Steps over the blanks and the comment at the end of a line. -/
def skipComment (c : Cursor) : Cursor :=
  let c := c.skipWhile isBlank
  if c.sees 0 '#' then c.skipWhile (!isBreak ·) else c

/-- Ends a line on which nothing but blanks and a comment may follow. -/
def endLine (c : Cursor) (fault : Fault) : Except Fault Cursor :=
  let c := c.skipComment
  if c.breakOrEnd 0 then .ok (if c.atBreak then c.skipBreak else c) else .error fault

/-- Whether a line begins here with three marks of a document's start or end. -/
def atDocumentMark (c : Cursor) (mark : Char) : Bool :=
  c.column = 0 && c.sees 0 mark && c.sees 1 mark && c.sees 2 mark && c.blankOrEnd 3

end Cursor

end Converge.Yaml
