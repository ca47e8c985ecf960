import Converge.Command.Shell
import Std.Time.DateTime.Timestamp

/-!
# The program

Answers the requests of the command line by the machine that the program runs on. Object stores and
services are out of its reach.
-/

open Converge

namespace Converge.Outside

/-- The fault that an error of the machine stands for. -/
def faultOf : IO.Error → FileFault
  | .noFileOrDirectory .. => .missing
  | .alreadyExists .. => .exists
  | .inappropriateType _ 20 _ => .notDirectory
  | .inappropriateType .. => .isDirectory
  | e => .other (toString e)

def attempt {α : Type} (action : IO α) : IO (Except FileFault α) := do
  match ← action.toBaseIO with
  | .ok value => return .ok value
  | .error e => return .error (faultOf e)

def readText (path : String) : IO (Except FileFault String) := do
  match ← attempt (IO.FS.readBinFile path) with
  | .error fault => return .error fault
  | .ok bytes =>
    match String.fromUTF8? bytes with
    | some text => return .ok text
    | none => return .error .notText

/-- Writes on at the end of a file that is there. -/
def appendText (path text : String) : IO Unit := do
  let _ ← IO.FS.Handle.mk path .readWrite
  let handle ← IO.FS.Handle.mk path .append
  handle.putStr text

def isThere (path : String) : IO Bool := do
  match ← attempt (IO.FS.Handle.mk path .read) with
  | .ok _ => return true
  | .error fault => return !fault.isAbsence

def instantNow : IO Instant := do
  let sinceEpoch := (← Std.Time.Timestamp.now).val
  return ⟨sinceEpoch.second.val, sinceEpoch.nano.val.toNat⟩

/-- A random id in groups of digits of radix sixteen, two of which say that it is random. -/
def randomId : IO String := do
  let bytes ← IO.getRandomBytes 16
  let random := bytes.toList.flatMap fun b =>
    [Json.hexDigit (b.toNat / 16), Json.hexDigit (b.toNat % 16)]
  let digits := (random.set 12 '4').set 16 '8'
  let group (first size : Nat) := String.ofList ((digits.drop first).take size)
  return String.intercalate "-" [group 0 8, group 8 4, group 12 4, group 16 4, group 20 12]

/-- The number of the process, which the system tells at the beginning of a file. -/
def processNumber : IO Nat := do
  match ← readText "/proc/self/stat" with
  | .ok text => return ((text.splitOn " ").head?.bind String.toNat?).getD 0
  | .error _ => return 0

def machineName : IO String := do
  match ← readText "/etc/hostname" with
  | .ok text => return Text.trim text
  | .error _ => return "localhost"

def nextLine : IO (Except FileFault String) := do
  let input ← IO.getStdin
  attempt input.getLine

def printOn (stream : IO.FS.Stream) (text : String) : IO Unit := do
  stream.putStr text
  stream.flush

/-- Answers a request to the host. -/
def answer : (request : Host.Request) → IO (Host.Answer request)
  | .readFile path => readText path
  | .writeFile path content => attempt (IO.FS.writeFile path content)
  | .appendFile path content => attempt (appendText path content)
  | .removeFile path => attempt (IO.FS.removeFile path)
  | .renameFile source target => attempt (IO.FS.rename source target)
  | .pathExists path => isThere path
  | .createDirectories path => attempt (IO.FS.createDirAll path)
  | .now => instantNow
  | .uniqueId => randomId
  | .hostName => machineName
  | .processId => processNumber
  | .variable name => IO.getEnv name
  | .print text => do printOn (← IO.getStdout) text
  | .printError text => do printOn (← IO.getStderr) text
  | .readLine => nextLine
  | .object _ _ _ => return .error "object stores cannot be reached"
  | .exchange _ => return .error "services cannot be reached"
  | .pause milliseconds => IO.sleep milliseconds.toUInt32

end Converge.Outside

def main (words : List String) : IO UInt32 := do
  return ((← (commandLine words).interpret Outside.answer).toUInt32)
