import Converge.Host.Basic
import Converge.Host.Path
import Converge.Stack.Basic
import Converge.State.Store

/-!
# Where state is kept

A location is a directory of the host or a bucket of an object store, and either is a medium. A
state is written to a file of its own that then takes the place of the old one.
-/

namespace Converge

/-- Where the documents of a stack are kept. -/
inductive Location where
  | directory (path : String)
  /-- The keys in the bucket begin with `keyPrefix`. -/
  | bucket (name keyPrefix : String)
deriving DecidableEq, Repr

namespace Location

/-- The directory of state beside a declaration. -/
def defaultDirectory : String := ".stackplan"

def backend : Location → Backend
  | .directory _ => .local
  | .bucket _ _ => .s3

/-- The name of a document's file. -/
def fileName : Medium.Document → String
  | .state => "state.json"
  | .lock => "state.lock"

/-- The name of the file that a state is written to first. -/
def temporaryName : String := "state.tmp"

/-- A name for a holder: the host, the process, and the beginning of a unique id. -/
def holderName : Program Host.calls String := do
  let host ← Host.hostName
  let process ← Host.processId
  let id ← Host.uniqueId
  return s!"{host}-{process}-{(id.take 8).toString}"

/-! ## Directories -/

/-- An operation that fails with a fault of a file, its failure put into words by `cause`. -/
def attempt {α : Type} (cause : String → StateError) (what : String)
    (operation : Program Host.calls (Except FileFault α)) :
    ExceptT StateError (Program Host.calls) α := do
  match ← (operation : Program Host.calls _) with
  | .ok value => return value
  | .error fault => throw (cause s!"{what}: {fault.text}")

/-- Creates the directory if it is not there. -/
def ensureDirectory (path : String) : ExceptT StateError (Program Host.calls) Unit := do
  if !(← Host.pathExists path) then
    attempt .writeFailed "Failed to create state directory" (Host.createDirectories path)

def readFile (directory : String) (document : Medium.Document) :
    Program Host.calls (Except StateError (Option String)) := do
  match ← Host.readFile (Path.join directory (fileName document)) with
  | .ok text => return .ok (some text)
  | .error fault =>
    if fault.isAbsence then return .ok none
    else
      match document with
      | .state => return .error (.corrupted s!"Failed to read state file: {fault.text}")
      | .lock => return .error (.corrupted s!"Failed to read lock file: {fault.text}")

def writeFile (directory : String) (document : Medium.Document) (text : String) :
    ExceptT StateError (Program Host.calls) Unit := do
  ensureDirectory directory
  let path := Path.join directory (fileName document)
  match document with
  | .state =>
    let temporary := Path.join directory temporaryName
    attempt .writeFailed "Failed to create temp state file" (Host.writeFile temporary text)
    attempt .writeFailed "Failed to rename state file" (Host.renameFile temporary path)
  | .lock => attempt .lockFailed "Failed to create lock file" (Host.writeFile path text)

def removeFile (directory : String) (document : Medium.Document) :
    Program Host.calls (Except StateError Unit) := do
  match ← Host.removeFile (Path.join directory (fileName document)) with
  | .ok () => return .ok ()
  | .error fault =>
    if fault.isAbsence then return .ok ()
    else
      match document with
      | .state => return .error (.writeFailed s!"Failed to delete state file: {fault.text}")
      | .lock => return .error (.lockFailed s!"Failed to delete lock file: {fault.text}")

/-- Answers requests to a medium by the files of a directory. -/
def inDirectory (path : String) : (request : Medium.Request) → Program Host.calls (Medium.Answer request)
  | .read document => readFile path document
  | .write document text => writeFile path document text
  | .remove document => removeFile path document
  | .has document => Except.ok <$> Host.pathExists (Path.join path (fileName document))
  | .now => Host.now
  | .uniqueId => Host.uniqueId
  | .holderName => holderName

/-! ## Buckets -/

/-- A text without the strokes at both ends. -/
def trimStrokes (text : String) : String :=
  String.ofList (((text.toList.dropWhile (· = '/')).reverse.dropWhile (· = '/')).reverse)

/-- The key of a document. -/
def keyOf (keyPrefix : String) (document : Medium.Document) : String :=
  let trimmed := trimStrokes keyPrefix
  if trimmed.isEmpty then fileName document else s!"{trimmed}/{fileName document}"

/-- Asks the object store for one of its actions. -/
def askBucket (bucket keyPrefix : String) (document : Medium.Document) (action : ObjectAction)
    (what : String) : ExceptT StateError (Program Host.calls) ObjectAnswer := do
  match ← (Host.object bucket (keyOf keyPrefix document) action : Program Host.calls _) with
  | .ok answer => return answer
  | .error fault => throw (.objectStore s!"S3 {what} error: {fault}")

def getObject (bucket keyPrefix : String) (document : Medium.Document) :
    ExceptT StateError (Program Host.calls) (Option String) := do
  match ← askBucket bucket keyPrefix document .get "get" with
  | .content bytes =>
    match String.fromUTF8? bytes with
    | some text => return some text
    | none => throw (.corrupted "Invalid UTF-8 in S3 object")
  | .done | .missing => return none

def hasObject (bucket keyPrefix : String) (document : Medium.Document) :
    ExceptT StateError (Program Host.calls) Bool := do
  match ← askBucket bucket keyPrefix document .head "head" with
  | .missing => return false
  | .done | .content _ => return true

/-- Answers requests to a medium by the objects of a bucket. -/
def inBucket (bucket keyPrefix : String) :
    (request : Medium.Request) → Program Host.calls (Medium.Answer request)
  | .read document => getObject bucket keyPrefix document
  | .write document text =>
    ((do let _ ← askBucket bucket keyPrefix document (.put text) "put") :
      ExceptT StateError (Program Host.calls) Unit)
  | .remove document =>
    ((do let _ ← askBucket bucket keyPrefix document .delete "delete") :
      ExceptT StateError (Program Host.calls) Unit)
  | .has document => hasObject bucket keyPrefix document
  | .now => Host.now
  | .uniqueId => Host.uniqueId
  | .holderName => holderName

/-- Answers requests to a medium by what is kept at a location. -/
def answer : Location → (request : Medium.Request) → Program Host.calls (Medium.Answer request)
  | .directory path => inDirectory path
  | .bucket name keyPrefix => inBucket name keyPrefix

/-- Answers requests to a store by what is kept at a location. -/
def store (location : Location) (request : Store.Request) :
    Program Host.calls (Store.Answer request) :=
  (Store.onMedium request).interpret location.answer

end Location

namespace Stack

/-- Where the state of a stack is kept whose declaration lies in the directory `base`. -/
def stateLocation (s : Stack) (base : String) : Except ConfigError Location :=
  match s.state.backend with
  | .local => .ok (.directory (Path.join base (s.state.path.getD Location.defaultDirectory)))
  | .s3 =>
    match s.state.bucket with
    | none => .error (.validation "S3 backend requires a bucket" (some "state.bucket"))
    | some bucket =>
      let keyPrefix := Location.trimStrokes (s.state.keyPrefix.getD "")
      .ok (.bucket bucket (if keyPrefix.isEmpty then s.stateKey else s!"{keyPrefix}/{s.stateKey}"))

end Stack

end Converge
