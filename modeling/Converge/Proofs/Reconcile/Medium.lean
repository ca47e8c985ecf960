import Converge.Proofs.Execution.Moment
import Converge.Proofs.State.Location
import Converge.Reconcile.Basic

/-!
# Reconciling on a medium

How the requests of reconciling are answered where the store is on a medium, or at a location of a
host, and each of its operations is one step; and what is left of a call once it has tried to
acquire the lock.

Main statements: `Reconcile.drives_onMedium` and `Reconcile.locked_eq`.
-/

namespace Converge.Reconcile

open Program

/-- What is answered to a plan: the report of an execution of it, or that there is none. -/
def Carries (plan : Plan) (answer : Except ApplyError Report) : Prop :=
  ∀ report, answer = .ok report →
    ∃ settings trace m, Execution settings plan trace m ∧ report = m.coordinator.report

/-- How requests are answered where the store is on a medium. -/
def Responds (clock : Clock) (faults : Prop) (world : Medium.World) :
    (request : Request) → Answer request → Medium.World → Prop
  | .store request, answer, after => ∃ exchanges,
    Drives (Medium.Responds clock faults) (Store.onMedium request) world exchanges answer after
  | .now, now, after => clock.Shows now ∧ after = world
  | .execute plan, answer, after => after = world ∧ Carries plan answer

/-- How requests are answered where the store is at a location of a host. -/
def RespondsAt (location : Location) (clock : Clock) (faults : Prop) (world : Host.World) :
    (request : Request) → Answer request → Host.World → Prop
  | .store request, answer, after => ∃ exchanges,
    Drives (Host.Responds clock faults) (location.store request) world exchanges answer after
  | .now, now, after => clock.Shows now ∧ after = world
  | .execute plan, answer, after => after = world ∧ Carries plan answer

/-- A program goes at a location as it does on a medium that keeps the same. -/
theorem drives_onMedium {location : Location} {clock : Clock} {faults : Prop} {α : Type}
    {p : Program calls α} {world after : Host.World} {exchanges : List (Exchange calls)} {value : α}
    (h : Drives (RespondsAt location clock faults) p world exchanges value after) : ∃ kept,
      Drives (Responds clock faults) p (location.view world) exchanges value kept ∧
        location.Mirrors after kept := by
  refine h.simulate (fun {world kept request answer after} hlike answered => ?_)
    (location.mirrors_view world)
  match request with
  | .store request =>
    obtain ⟨_, hdrives⟩ := answered
    obtain ⟨kept', exchanges, hdrives', hlike'⟩ := hlike.store hdrives
    exact ⟨kept', ⟨exchanges, hdrives'⟩, hlike'⟩
  | .now =>
    obtain ⟨shown, rfl⟩ := answered
    exact ⟨kept, ⟨shown, rfl⟩, hlike⟩
  | .execute plan =>
    obtain ⟨rfl, hcarries⟩ := answered
    exact ⟨kept, ⟨rfl, hcarries⟩, hlike⟩

/-- A value is gone on with; a failure is the result. -/
theorem drives_bindOfExcept_iff {World α β : Type}
    {responds : World → (request : Request) → Answer request → World → Prop} {world after : World}
    {exchanges : List (Exchange calls)} {value : Except Error α} {f : α → Action β}
    {result : Except Error β} :
    Drives responds (ofExcept value >>= f).run world exchanges result after ↔
      (∃ cause, value = .error cause ∧ exchanges = [] ∧ after = world ∧ result = .error cause) ∨
        ∃ found, value = .ok found ∧ Drives responds (f found).run world exchanges result after := by
  cases value with
  | error cause =>
    constructor
    · intro h
      obtain ⟨rfl, hresult, rfl⟩ := drives_done_iff.1 h
      exact .inl ⟨cause, rfl, rfl, rfl, hresult.symm⟩
    · rintro (⟨cause, ⟨⟩, rfl, rfl, rfl⟩ | ⟨found, hfound, -⟩)
      · exact .done _ _
      · cases hfound
  | ok found =>
    constructor
    · exact fun h => .inr ⟨found, rfl, h⟩
    · rintro (⟨cause, hcause, -⟩ | ⟨found, ⟨⟩, h⟩)
      · cases hcause
      · exact h

/-- A lock that is in the store is gone once it has been released, if that does not fail. -/
theorem drives_release_own {clock : Clock} {faults : Prop} {world after : Medium.World}
    {lock : Lock} {exchanges : List (Exchange calls)} (legible : lock.Legible)
    (hlock : world.lock = some lock.encode)
    (h : Drives (Responds clock faults) (release lock.lockId) world exchanges () after) :
    ∃ answer, exchanges = [⟨.store (.release lock.lockId), answer⟩] ∧
      (answer = .ok () → after = world.put .lock none) := by
  obtain ⟨answer, mid, rest, rfl, ⟨_, hrelease⟩, h⟩ := drives_ask_iff.1 h
  obtain ⟨rfl, -, rfl⟩ := drives_done_iff.1 h
  refine ⟨answer, rfl, fun hanswer => ?_⟩
  have hheld := Medium.World.holding?_of_decode hlock (Lock.decode_encode legible)
  rcases Store.drives_release hrelease with ⟨-, hother⟩ | ⟨held, -, -, rfl⟩
  · exact (hother hanswer lock hheld rfl).elim
  · rfl

/-- The lock that is acquired by an exchange. -/
def granted? : Exchange calls → Option Lock
  | ⟨.store (.acquire _), .ok lock⟩ => some lock
  | _ => none

/-- What comes of trying to acquire a lock. -/
def begun (stack : Stack) (reviewed : Option Plan) (operation : Operation) :
    Except StateError Lock → Program calls (Except Error Reconciliation)
  | .error cause => .done (.error (.state cause))
  | .ok lock => do
    let result ← (run stack reviewed operation).run
    release lock.lockId
    return result

/-- A call begins with trying to acquire a lock. -/
theorem locked_eq (stack : Stack) (holder : String) (reviewed : Option Plan)
    (operation : Operation) : locked stack holder reviewed operation =
      .ask (.store (.acquire holder)) (begun stack reviewed operation) := by
  refine ask_congr fun answer => ?_
  cases answer <;> rfl

end Converge.Reconcile
