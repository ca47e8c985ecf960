import Converge.Error
import Converge.Instant.Text
import Converge.Json.Reader
import Converge.Json.Writer

/-!
# Locks on a state

A lock names who works on a state, and lasts for a limited time. Whoever finds an expired lock may
put another in its place.
-/

namespace Converge

/-- A lock on a state. -/
structure Lock where
  lockId : String
  holder : String
  acquiredAt : Instant
  expiresAt : Instant
deriving DecidableEq, Repr

namespace Lock

/-- How many seconds a lock lasts. -/
def lifetimeSecs : Int := 300

/-- A lock that is acquired now. -/
def new (lockId holder : String) (now : Instant) : Lock :=
  { lockId, holder, acquiredAt := now, expiresAt := now.addSeconds lifetimeSecs }

def isExpired (lock : Lock) (now : Instant) : Bool := now.isAfter lock.expiresAt

/-- How many seconds a lock still lasts. -/
def remainingSecs (lock : Lock) (now : Instant) : Int := max (lock.expiresAt.secondsSince now) 0

/-- Why nobody else can acquire the lock before it expires. -/
def refusal (lock : Lock) : StateError := .lockedByOther lock.holder lock.acquiredAt.renderOffset

/-! ## Documents -/

def toJson (lock : Lock) : Json :=
  .object [
    ("lock_id", .string lock.lockId),
    ("holder", .string lock.holder),
    ("acquired_at", lock.acquiredAt.toJson),
    ("expires_at", lock.expiresAt.toJson)]

def ofJson (value : Json) : Decode Lock := do
  let fields ← value.asRecord
  let acquiredAt ← Decode.field? fields "acquired_at" Instant.ofJson
  let expiresAt ← Decode.field? fields "expires_at" Instant.ofJson
  let holder ← Decode.field? fields "holder" Json.asString
  let lockId ← Decode.field? fields "lock_id" Json.asString
  return {
    lockId := ← Decode.need lockId
    holder := ← Decode.need holder
    acquiredAt := ← Decode.need acquiredAt
    expiresAt := ← Decode.need expiresAt }

/-- The document of a lock. -/
def encode (lock : Lock) : String := lock.toJson.pretty

/-- Reads the document of a lock. -/
def decode (text : String) : Except StateError Lock :=
  let corrupted (cause : String) : StateError := .corrupted s!"Failed to parse lock: {cause}"
  match Json.read? text with
  | none => .error (corrupted "not a document")
  | some value =>
    match ofJson value with
    | .ok lock => .ok lock
    | .error _ => .error (corrupted "not a lock")

end Lock

end Converge
