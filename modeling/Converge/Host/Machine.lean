import Converge.Host.Basic
import Converge.Host.Path
import Converge.Table
import Converge.Text.Lines

/-!
# A machine in memory

A host whose files, environment and streams are values, so that what a program does to a host can
be computed and reasoned about. Its clock goes on by a nanosecond whenever it is looked at, and it
is connected to nothing: an object store refuses every request, and no exchange comes about.
-/

namespace Converge

/-- A machine held in memory. -/
structure Machine where
  /-- The contents of files, by their paths from the root. -/
  files : Table String := .empty
  /-- Directories that have been created, by their paths from the root. -/
  directories : Table Unit := .empty
  /-- The parts of the path to the working directory, which exists. -/
  workingDirectory : List String := []
  environment : Table String := .empty
  clock : Instant
  hostName : String := "localhost"
  processId : Nat := 1
  /-- How many unique ids have been given out. -/
  idsGiven : Nat := 0
  /-- The lines of input that have not been read. -/
  input : List String := []
  /-- What has been printed. -/
  output : String := ""
  /-- What has been printed on the stream for errors. -/
  errors : String := ""

namespace Machine

/-- The key of the file that lies at the end of a list of parts. -/
def keyOf (parts : List String) : String := String.intercalate "/" parts

def locate (m : Machine) (path : String) : List String := Path.resolve m.workingDirectory path

def isFile (m : Machine) (parts : List String) : Bool := m.files.contains (keyOf parts)

/-- Whether a list of parts leads to a directory: to the root or the working directory, to a
directory that has been created, or on the way to any of them or to a file. -/
def isDirectory (m : Machine) (parts : List String) : Bool :=
  let inside := keyOf parts ++ "/"
  parts.isEmpty || parts.isPrefixOf m.workingDirectory || m.directories.contains (keyOf parts) ||
  m.directories.names.any (·.startsWith inside) || m.files.names.any (·.startsWith inside)

/-- Whether a file stands on the way to where a list of parts leads. -/
def isBlocked (m : Machine) (parts : List String) : Bool :=
  (List.range parts.length).any fun n => m.isFile (parts.take n)

/-- Why there is no file to be found. -/
def absence (m : Machine) (parts : List String) : FileFault :=
  if m.isBlocked parts then .notDirectory else .missing

/-- Why a file cannot be put where a list of parts leads, if it cannot. -/
def obstacle? (m : Machine) (parts : List String) : Option FileFault :=
  if m.isDirectory parts then some .isDirectory
  else if m.isDirectory parts.dropLast then none
  else some (m.absence parts)

def readFile (m : Machine) (path : String) : Except FileFault String :=
  let parts := m.locate path
  match m.files.get? (keyOf parts) with
  | some content => .ok content
  | none => .error (if m.isDirectory parts then .isDirectory else m.absence parts)

def writeFile (m : Machine) (path content : String) : Except FileFault Unit × Machine :=
  let parts := m.locate path
  match m.obstacle? parts with
  | some fault => (.error fault, m)
  | none => (.ok (), { m with files := m.files.insert (keyOf parts) content })

def appendFile (m : Machine) (path content : String) : Except FileFault Unit × Machine :=
  match m.readFile path with
  | .error fault => (.error fault, m)
  | .ok held => m.writeFile path (held ++ content)

def removeFile (m : Machine) (path : String) : Except FileFault Unit × Machine :=
  match m.readFile path with
  | .error fault => (.error fault, m)
  | .ok _ =>
    let parts := m.locate path
    (.ok (), { m with
      files := m.files.erase (keyOf parts)
      directories := m.directories.insert (keyOf parts.dropLast) () })

def renameFile (m : Machine) (source target : String) : Except FileFault Unit × Machine :=
  match m.readFile source with
  | .error fault => (.error fault, m)
  | .ok content =>
    match m.writeFile target content with
    | (.error fault, m) => (.error fault, m)
    | (.ok (), written) =>
      if m.locate source = m.locate target then (.ok (), written) else written.removeFile source

def pathExists (m : Machine) (path : String) : Bool :=
  m.isFile (m.locate path) || m.isDirectory (m.locate path)

def createDirectories (m : Machine) (path : String) : Except FileFault Unit × Machine :=
  let parts := m.locate path
  if m.isDirectory parts then (.ok (), m)
  else if m.isFile parts then (.error .exists, m)
  else if m.isBlocked parts then (.error .notDirectory, m)
  else (.ok (), { m with directories := m.directories.insert (keyOf parts) () })

/-- The machine with a file put at a path, and all directories that lead to it. -/
def withFile (m : Machine) (path content : String) : Machine :=
  let parts := m.locate path
  { m with
    files := m.files.insert (keyOf parts) content
    directories := m.directories.insert (keyOf parts.dropLast) () }

/-- The content of the file at a path. -/
def fileAt? (m : Machine) (path : String) : Option String := m.files.get? (keyOf (m.locate path))

/-- The paths of all files in the working directory, as seen from there. -/
def localPaths (m : Machine) : List String :=
  let start := keyOf m.workingDirectory ++ "/"
  (m.files.names.filter (·.startsWith start)).map fun name => (name.drop start.length).toString

/-- A unique id in groups of digits of radix sixteen, the last of which is a number. -/
def renderId (n : Nat) : String :=
  let digits := (Nat.toDigits 16 n)
  let padded := List.replicate (12 - digits.length) '0' ++ digits
  "00000000-0000-4000-8000-" ++ String.ofList padded

def uniqueId (m : Machine) : String × Machine :=
  (renderId m.idsGiven, { m with idsGiven := m.idsGiven + 1 })

/-- The machine with a text to be read as input. -/
def withInput (m : Machine) (text : String) : Machine :=
  { m with input := (Text.splitLines text.toList).map String.ofList }

def readLine (m : Machine) : String × Machine :=
  match m.input with
  | [] => ("", m)
  | line :: rest => (line, { m with input := rest })

/-- Answers requests to the host. -/
def answer : (request : Host.Request) → StateM Machine (Host.Answer request)
  | .readFile path => fun m => (m.readFile path, m)
  | .writeFile path content => fun m => m.writeFile path content
  | .appendFile path content => fun m => m.appendFile path content
  | .removeFile path => fun m => m.removeFile path
  | .renameFile source target => fun m => m.renameFile source target
  | .pathExists path => fun m => (m.pathExists path, m)
  | .createDirectories path => fun m => m.createDirectories path
  | .now => fun m => (m.clock, { m with clock := m.clock.next })
  | .uniqueId => fun m => m.uniqueId
  | .hostName => fun m => (m.hostName, m)
  | .processId => fun m => (m.processId, m)
  | .variable name => fun m => (m.environment.get? name, m)
  | .print text => fun m => ((), { m with output := m.output ++ text })
  | .printError text => fun m => ((), { m with errors := m.errors ++ text })
  | .readLine => fun m => let (line, m) := m.readLine; (.ok line, m)
  | .object _ _ _ => fun m => (.error "dispatch failure", m)
  | .exchange request => fun m => (.error s!"error sending request for url ({request.url})", m)
  | .pause _ => fun m => ((), m)

end Machine

end Converge
