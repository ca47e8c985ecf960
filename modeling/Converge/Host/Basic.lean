import Converge.Instant.Basic
import Converge.Program

/-!
# The host

What a program that keeps state and talks to people can ask of the machine it runs on: files, the
clock, the environment, standard streams, an object store, and an exchange over HTTP.
-/

namespace Converge

/-- Why a request on a file failed. -/
inductive FileFault where
  | missing
  /-- Something on the way to the file is no directory. -/
  | notDirectory
  | isDirectory
  | exists
  /-- The file does not hold text. -/
  | notText
  | other (text : String)
deriving DecidableEq, Repr

/-- A message of HTTP to a server. -/
structure HttpRequest where
  method : String
  url : String
  headers : List (String × String)
  body : Option String
  timeoutSecs : Nat
deriving DecidableEq, Repr

/-- The answer of a server. -/
structure HttpResponse where
  status : Nat
  body : String
deriving DecidableEq, Repr

/-- What can be asked of an object store. -/
inductive ObjectAction where
  | get
  | put (content : String)
  | delete
  /-- Asks whether the object is there. -/
  | head
deriving DecidableEq, Repr

/-- What an object store answers when it does not fail. -/
inductive ObjectAnswer where
  | done
  | missing
  | content (bytes : ByteArray)

namespace FileFault

def text : FileFault → String
  | .missing => "No such file or directory (os error 2)"
  | .notDirectory => "Not a directory (os error 20)"
  | .isDirectory => "Is a directory (os error 21)"
  | .exists => "File exists (os error 17)"
  | .notText => "stream did not contain valid UTF-8"
  | .other text => text

/-- Whether there is nothing at the path. -/
def isAbsence : FileFault → Bool
  | .missing | .notDirectory => true
  | _ => false

end FileFault

namespace Host

/-- What is asked of the host. -/
inductive Request where
  | readFile (path : String)
  /-- Writes a file anew. -/
  | writeFile (path content : String)
  /-- Writes on at the end of a file. -/
  | appendFile (path content : String)
  | removeFile (path : String)
  | renameFile (source target : String)
  /-- Whether there is a file or directory at the path. -/
  | pathExists (path : String)
  /-- Creates a directory and all that lead to it. -/
  | createDirectories (path : String)
  | now
  /-- An id that nobody else has. -/
  | uniqueId
  | hostName
  | processId
  | variable (name : String)
  | print (text : String)
  | printError (text : String)
  /-- The next line of input with its end; empty when there is none. -/
  | readLine
  | object (bucket key : String) (action : ObjectAction)
  | exchange (request : HttpRequest)
  /-- Lets a number of milliseconds pass. -/
  | pause (milliseconds : Nat)

/-- What is answered. -/
abbrev Answer : Request → Type
  | .readFile _ => Except FileFault String
  | .writeFile _ _ | .appendFile _ _ | .removeFile _ | .renameFile _ _ | .createDirectories _ =>
    Except FileFault Unit
  | .pathExists _ => Bool
  | .now => Instant
  | .uniqueId | .hostName => String
  | .processId => Nat
  | .variable _ => Option String
  | .print _ | .printError _ | .pause _ => Unit
  | .readLine => Except FileFault String
  | .object _ _ _ => Except String ObjectAnswer
  | .exchange _ => Except String HttpResponse

/-- The requests to the host. -/
abbrev calls : Interface := ⟨Request, Answer⟩

def readFile (path : String) : Program calls (Except FileFault String) :=
  Program.request (I := calls) (.readFile path)

def writeFile (path content : String) : Program calls (Except FileFault Unit) :=
  Program.request (I := calls) (.writeFile path content)

def appendFile (path content : String) : Program calls (Except FileFault Unit) :=
  Program.request (I := calls) (.appendFile path content)

def removeFile (path : String) : Program calls (Except FileFault Unit) :=
  Program.request (I := calls) (.removeFile path)

def renameFile (source target : String) : Program calls (Except FileFault Unit) :=
  Program.request (I := calls) (.renameFile source target)

def pathExists (path : String) : Program calls Bool :=
  Program.request (I := calls) (.pathExists path)

def createDirectories (path : String) : Program calls (Except FileFault Unit) :=
  Program.request (I := calls) (.createDirectories path)

def now : Program calls Instant := Program.request (I := calls) .now

def uniqueId : Program calls String := Program.request (I := calls) .uniqueId

def hostName : Program calls String := Program.request (I := calls) .hostName

def processId : Program calls Nat := Program.request (I := calls) .processId

def lookUp (name : String) : Program calls (Option String) :=
  Program.request (I := calls) (.variable name)

def print (text : String) : Program calls Unit := Program.request (I := calls) (.print text)

def printError (text : String) : Program calls Unit :=
  Program.request (I := calls) (.printError text)

def readLine : Program calls (Except FileFault String) := Program.request (I := calls) .readLine

def object (bucket key : String) (action : ObjectAction) :
    Program calls (Except String ObjectAnswer) :=
  Program.request (I := calls) (.object bucket key action)

def exchange (request : HttpRequest) : Program calls (Except String HttpResponse) :=
  Program.request (I := calls) (.exchange request)

def pause (milliseconds : Nat) : Program calls Unit :=
  Program.request (I := calls) (.pause milliseconds)

end Host

end Converge
