import Converge.Error
import Converge.Instant.Basic
import Converge.Program

/-!
# Media

A medium keeps two documents: the state of a stack, and the lock on it. Each of its operations is
one step that nothing can come between.
-/

namespace Converge.Medium

/-- One of the documents of a medium. -/
inductive Document where
  | state
  | lock
deriving DecidableEq, Repr

/-- What is asked of a medium. -/
inductive Request where
  | read (document : Document)
  | write (document : Document) (text : String)
  | remove (document : Document)
  /-- Whether the document is there. -/
  | has (document : Document)
  | now
  /-- An id that nobody else has. -/
  | uniqueId
  /-- A name for a holder of a lock who gives none. -/
  | holderName

/-- What is answered. A document that is not there is read as nothing, and removing it does
nothing. -/
abbrev Answer : Request → Type
  | .read _ => Except StateError (Option String)
  | .write _ _ | .remove _ => Except StateError Unit
  | .has _ => Except StateError Bool
  | .now => Instant
  | .uniqueId | .holderName => String

/-- The operations of media. -/
abbrev calls : Interface := ⟨Request, Answer⟩

/-- A program on a medium, which may fail. -/
abbrev Action (α : Type) := ExceptT StateError (Program calls) α

def read (document : Document) : Action (Option String) :=
  Program.request (I := calls) (.read document)

def write (document : Document) (text : String) : Action Unit :=
  Program.request (I := calls) (.write document text)

def remove (document : Document) : Action Unit := Program.request (I := calls) (.remove document)

def has (document : Document) : Action Bool := Program.request (I := calls) (.has document)

def now : Program calls Instant := Program.request (I := calls) .now

def uniqueId : Program calls String := Program.request (I := calls) .uniqueId

def holderName : Program calls String := Program.request (I := calls) .holderName

end Converge.Medium
