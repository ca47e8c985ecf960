import Converge.State.Document
import Converge.State.Lock
import Converge.State.Medium

/-!
# Stores

A store keeps the state of a stack on a medium, and lets one holder at a time lock it. Acquiring a
lock reads the lock that is there and then writes one; releasing a lock reads it and then removes
it, if it is the one to be released.
-/

namespace Converge.Store

/-- What is asked of a store. -/
inductive Request where
  | load
  | save (state : State)
  /-- Removes the state and the lock. -/
  | delete
  /-- Whether there is a state. -/
  | exists
  /-- Locks the state. A holder without a name is given one. -/
  | acquire (holder : String)
  /-- Removes the lock of a given id, if it is there. -/
  | release (lockId : String)
  /-- The lock that is there, expired or not. -/
  | lock

/-- What is answered. -/
abbrev Answer : Request → Type
  | .load => Except StateError (Option State)
  | .save _ | .delete | .release _ => Except StateError Unit
  | .exists => Except StateError Bool
  | .acquire _ => Except StateError Lock
  | .lock => Except StateError (Option Lock)

/-- The operations of stores. -/
abbrev calls : Interface := ⟨Request, Answer⟩

/-! ## On a medium -/

def load : Medium.Action (Option State) := do
  match ← Medium.read .state with
  | none => return none
  | some text => return some (← State.decode text)

def save (state : State) : Medium.Action Unit := Medium.write .state state.encode

def delete : Medium.Action Unit := do
  Medium.remove .state
  Medium.remove .lock

def hasState : Medium.Action Bool := Medium.has .state

/-- The lock that is there, expired or not. -/
def currentLock : Medium.Action (Option Lock) := do
  match ← Medium.read .lock with
  | none => return none
  | some text => return some (← Lock.decode text)

/-- Refuses if a lock is there that has not expired. -/
def checkFree : Medium.Action Unit := do
  if let some held ← currentLock then
    if !held.isExpired (← Medium.now) then throw held.refusal

def acquire (holder : String) : Medium.Action Lock := do
  checkFree
  let holder ← if holder.isEmpty then Medium.holderName else pure holder
  let now ← Medium.now
  let lock := Lock.new (← Medium.uniqueId) holder now
  Medium.write .lock lock.encode
  return lock

def release (lockId : String) : Medium.Action Unit := do
  if let some held ← currentLock then
    if held.lockId = lockId then Medium.remove .lock

/-- Answers requests to a store by what a medium keeps. -/
def onMedium : (request : Request) → Program Medium.calls (Answer request)
  | .load => load
  | .save state => save state
  | .delete => delete
  | .exists => hasState
  | .acquire holder => acquire holder
  | .release lockId => release lockId
  | .lock => currentLock

end Converge.Store
