/-!
# Paths

Paths as texts whose parts are separated by strokes, read without looking at any file. A part that
is empty or a single point does not count, except for a point at the very beginning.
-/

namespace Converge.Path

/-- Whether a path begins at the root. -/
def isAbsolute (path : String) : Bool := path.startsWith "/"

/-- The path `name` as seen from `base`. -/
def join (base name : String) : String :=
  if isAbsolute name || base.isEmpty then name
  else if base.endsWith "/" then base ++ name
  else base ++ "/" ++ name

/-- Takes everything off the end of a reversed path that does not count. The point at the beginning
of a path counts. -/
def trimEnd : List Char → List Char
  | '/' :: [] => ['/']
  | '/' :: rest => trimEnd rest
  | '.' :: '/' :: rest => trimEnd ('/' :: rest)
  | reversed => reversed

/-- The path of the directory that holds the last part; nothing for the root and the empty path. -/
def parent? (path : String) : Option String :=
  match trimEnd path.toList.reverse with
  | [] => none
  | ['/'] => none
  | reversed => some (String.ofList (trimEnd (reversed.dropWhile (· != '/'))).reverse)

/-- The parts of a path between strokes. -/
def split (path : String) : List String := (path.toList.splitOn '/').map String.ofList

/-- One part further: a point stays, two points go back. -/
def step (parts : List String) (part : String) : List String :=
  if part = "" || part = "." then parts
  else if part = ".." then parts.dropLast
  else parts ++ [part]

/-- The parts that a path leads along, beginning at the directory `base`. -/
def resolve (base : List String) (path : String) : List String :=
  (split path).foldl step (if isAbsolute path then [] else base)

end Converge.Path
