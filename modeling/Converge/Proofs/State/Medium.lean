import Converge.Proofs.Program
import Converge.Proofs.State.Lock
import Converge.State.Store

/-!
# Stores on a medium

What the operations of a store do to the two documents of a medium, and what they answer.

Main statements: `Store.drives_acquire`, `Store.drives_release` and `Store.drives_delete`.
-/

namespace Converge

open Program

/-- The times that a clock shows. The end of a lock that is acquired at one of them is a time that
can be written. -/
structure Clock where
  Shows : Instant → Prop
  legible : ∀ {now}, Shows now → now.Legible
  lasts : ∀ {now}, Shows now → (now.addSeconds Lock.lifetimeSecs).Legible

theorem Clock.legible_new (clock : Clock) {now : Instant} (shown : clock.Shows now)
    (lockId holder : String) : (Lock.new lockId holder now).Legible :=
  ⟨clock.legible shown, clock.lasts shown⟩

namespace Medium

/-- What a medium keeps, and the ids that it has given out. -/
structure World where
  state : Option String
  lock : Option String
  issued : List String := []

namespace World

/-- The text of a document. -/
def text? (world : World) : Document → Option String
  | .state => world.state
  | .lock => world.lock

/-- The world with another text of a document, or without the document. -/
def put (world : World) : Document → Option String → World
  | .state, text => { world with state := text }
  | .lock, text => { world with lock := text }

@[simp] theorem text?_put_self (world : World) (document : Document) (text : Option String) :
    (world.put document text).text? document = text := by
  cases document <;> rfl

theorem text?_put_of_ne (world : World) {document other : Document} (text : Option String)
    (h : other ≠ document) : (world.put document text).text? other = world.text? other := by
  cases document <;> cases other <;> first | rfl | exact absurd rfl h

@[simp] theorem issued_put (world : World) (document : Document) (text : Option String) :
    (world.put document text).issued = world.issued := by
  cases document <;> rfl

/-- The lock that there is, if the document of the lock can be read. -/
def holding? (world : World) : Option Lock :=
  world.lock.bind fun text => (Lock.decode text).toOption

theorem holding?_of_decode {world : World} {text : String} {lock : Lock}
    (h : world.lock = some text) (hdecode : Lock.decode text = .ok lock) :
    world.holding? = some lock := by
  simp [holding?, h, hdecode, Except.toOption]

end World

/-- How a medium answers, where `faults` says whether changes may fail. Looking at a document may
always fail, as what is there need not be text. No id is given out twice. -/
def Responds (clock : Clock) (faults : Prop) (world : World) :
    (request : Request) → Answer request → World → Prop
  | .read document, answer, after => Finds (world.text? document) answer ∧ after = world
  | .write document text, answer, after =>
    Attempts faults world (world.put document (some text)) answer after
  | .remove document, answer, after => Attempts faults world (world.put document none) answer after
  | .has document, answer, after =>
    (∀ found, answer = .ok found → (world.text? document).isSome → found = true) ∧ after = world
  | .now, now, after => clock.Shows now ∧ after = world
  | .uniqueId, id, after =>
    id ∉ world.issued ∧ after = { world with issued := id :: world.issued }
  | .holderName, _, after => after = world

end Medium

namespace Store

open Medium

variable {clock : Clock} {faults : Prop} {world after : World}
  {exchanges : List (Exchange Medium.calls)}

/-! ## Looking at the lock -/

/-- What an answer says about the lock. -/
def lockIn : Except StateError (Option String) → Except StateError (Option Lock)
  | .error cause => .error cause
  | .ok none => .ok none
  | .ok (some text) => some <$> Lock.decode text

theorem lockIn_encode {lock : Lock} (h : lock.Legible) :
    lockIn (.ok (some lock.encode)) = .ok (some lock) := by
  rw [lockIn, Lock.decode_encode h]
  rfl

theorem currentLock_run :
    currentLock.run = .ask (.read .lock) fun answer => .done (lockIn answer) := by
  refine ask_congr fun answer => ?_
  match answer with
  | .error cause => rfl
  | .ok none => rfl
  | .ok (some text) =>
    show (do return some (← Lock.decode text) : Medium.Action (Option Lock)).run =
      .done (some <$> Lock.decode text)
    cases Lock.decode text <;> rfl

/-- What is found when the lock is looked up. -/
theorem drives_currentLock {result : Except StateError (Option Lock)}
    (h : Drives (Responds clock faults) currentLock.run world exchanges result after) :
    after = world ∧ ∀ found, result = .ok found →
      world.holding? = found ∧ (found = none → world.lock = none) := by
  rw [currentLock_run, drives_ask_iff] at h
  obtain ⟨answer, mid, rest, rfl, ⟨hread, rfl⟩, h⟩ := h
  obtain ⟨-, rfl, rfl⟩ := drives_done_iff.1 h
  refine ⟨rfl, ?_⟩
  rw [World.holding?]
  rcases hread with rfl | ⟨cause, rfl⟩
  · rw [World.text?]
    cases after.lock with
    | none => simp [lockIn]
    | some text =>
      cases hdecode : Lock.decode text <;>
        simp [lockIn, hdecode, Except.toOption, Functor.map, Except.map]
  · nofun

/-- Nothing stands in the way of a new lock: there is none, or one that has expired. -/
def Free (clock : Clock) (world : World) : Prop :=
  world.lock = none ∨
    ∃ held now, world.holding? = some held ∧ clock.Shows now ∧ held.isExpired now = true

theorem drives_checkFree {result : Except StateError Unit}
    (h : Drives (Responds clock faults) checkFree.run world exchanges result after) :
    after = world ∧ (result = .ok () → Free clock world) := by
  rw [checkFree, drives_bindExcept_iff] at h
  rcases h with ⟨cause, h, rfl⟩ | ⟨found, mid, first, second, rfl, hlook, hrest⟩
  · exact ⟨(drives_currentLock h).1, nofun⟩
  obtain ⟨rfl, hfound⟩ := drives_currentLock hlook
  obtain ⟨hholding, hnone⟩ := hfound found rfl
  cases found with
  | none =>
    obtain ⟨-, -, rfl⟩ := drives_done_iff.1 hrest
    exact ⟨rfl, fun _ => .inl (hnone rfl)⟩
  | some held =>
    obtain ⟨now, mid, _, _, rfl, hnow, hjudged⟩ := drives_bindLift_iff.1 hrest
    obtain ⟨-, shown, rfl⟩ := drives_request_iff.1 hnow
    cases hexpired : held.isExpired now with
    | true =>
      rw [hexpired] at hjudged
      obtain ⟨-, -, rfl⟩ := drives_done_iff.1 hjudged
      exact ⟨rfl, fun _ => .inr ⟨held, now, hholding, shown, hexpired⟩⟩
    | false =>
      rw [hexpired] at hjudged
      obtain ⟨-, rfl, rfl⟩ := drives_done_iff.1 hjudged
      exact ⟨rfl, nofun⟩

/-! ## Acquiring -/

/-- The name of a holder, which is made up for a holder without one. -/
def nameFor (holder : String) : Program Medium.calls String :=
  if holder.isEmpty then Medium.holderName else pure holder

/-- Writes a lock without looking at the one that is there. -/
def claim (holder : String) : Medium.Action Lock := do
  let now ← Medium.now
  let lock := Lock.new (← Medium.uniqueId) holder now
  Medium.write .lock lock.encode
  return lock

theorem acquire_eq (holder : String) :
    acquire holder = (do checkFree; let holder ← nameFor holder; claim holder) := by
  unfold acquire nameFor
  cases holder.isEmpty <;> rfl

/-- Whether the documents are the same, and no id has been taken back. -/
structure Untouched (world after : World) : Prop where
  lock : after.lock = world.lock
  state : after.state = world.state
  issued : world.issued ⊆ after.issued

theorem Untouched.refl (world : World) : Untouched world world := ⟨rfl, rfl, List.Subset.refl _⟩

/-- What acquiring a lock brings about: the document is the lock's, with an id that is new, and
before there was no lock or one that had expired. -/
structure Grants (clock : Clock) (world : World) (lock : Lock) (after : World) : Prop where
  legible : lock.Legible
  fresh : lock.lockId ∉ world.issued
  issued : after.issued = lock.lockId :: world.issued
  lock : after.lock = some lock.encode
  state : after.state = world.state
  free : Free clock world

theorem drives_nameFor {holder name : String}
    (h : Drives (Responds clock faults) (nameFor holder) world exchanges name after) :
    after = world := by
  unfold nameFor at h
  cases hempty : holder.isEmpty with
  | true =>
    rw [hempty] at h
    exact (drives_request_iff.1 h).2
  | false =>
    rw [hempty] at h
    exact (drives_done_iff.1 h).2.2

theorem drives_claim {holder : String} {result : Except StateError Lock}
    (h : Drives (Responds clock faults) (claim holder).run world exchanges result after) :
    (∀ cause, result = .error cause → Untouched world after) ∧
      ∀ lock, result = .ok lock → lock.Legible ∧ lock.lockId ∉ world.issued ∧
        after = { world with lock := some lock.encode, issued := lock.lockId :: world.issued } := by
  obtain ⟨now, mid, _, _, rfl, hnow, hrest⟩ := drives_bindLift_iff.1 h
  obtain ⟨-, shown, rfl⟩ := drives_request_iff.1 hnow
  obtain ⟨id, mid', _, _, rfl, hid, hrest⟩ := drives_bindLift_iff.1 hrest
  obtain ⟨-, fresh, rfl⟩ := drives_request_iff.1 hid
  rcases drives_bindExcept_iff.1 hrest with
    ⟨cause, hwrite, rfl⟩ | ⟨⟨⟩, mid', _, _, rfl, hwrite, hrest⟩
  · obtain ⟨-, ⟨⟨⟩, -⟩ | ⟨-, -, rfl⟩⟩ := drives_request_iff.1 hwrite
    exact ⟨fun _ _ => ⟨rfl, rfl, List.subset_cons_self ..⟩, nofun⟩
  · obtain ⟨-, ⟨-, rfl⟩ | ⟨-, ⟨_, ⟨⟩⟩, -⟩⟩ := drives_request_iff.1 hwrite
    obtain ⟨-, rfl, rfl⟩ := drives_done_iff.1 hrest
    refine ⟨nofun, ?_⟩
    rintro lock ⟨⟩
    exact ⟨clock.legible_new shown id holder, fresh, rfl⟩

theorem drives_acquire {holder : String} {result : Except StateError Lock}
    (h : Drives (Responds clock faults) (acquire holder).run world exchanges result after) :
    (∀ cause, result = .error cause → Untouched world after) ∧
      ∀ lock, result = .ok lock → Grants clock world lock after := by
  rw [acquire_eq, drives_bindExcept_iff] at h
  rcases h with ⟨cause, h, rfl⟩ | ⟨⟨⟩, mid, first, second, rfl, hfree, h⟩
  · obtain ⟨rfl, -⟩ := drives_checkFree h
    exact ⟨fun _ _ => .refl _, nofun⟩
  obtain ⟨rfl, hfree⟩ := drives_checkFree hfree
  obtain ⟨name, mid', _, _, rfl, hname, hclaim⟩ := drives_bindLift_iff.1 h
  cases drives_nameFor hname
  obtain ⟨herror, hok⟩ := drives_claim hclaim
  refine ⟨herror, fun lock hlock => ?_⟩
  obtain ⟨legible, fresh, rfl⟩ := hok lock hlock
  exact ⟨legible, fresh, rfl, rfl, rfl, hfree rfl⟩

section successes

variable {W : Type} {responds : W → (request : Medium.Request) → Medium.Answer request → W → Prop}
  {before mid final : W} {answer : Except StateError (Option String)} {found : Option Lock}

theorem drives_currentLock_of_read (hread : responds before (.read .lock) answer before) :
    Drives responds currentLock.run before [⟨.read .lock, answer⟩] (lockIn answer) before := by
  rw [currentLock_run]
  exact .ask hread (.done _ _)

theorem exists_drives_checkFree (hread : responds before (.read .lock) answer before)
    (hfound : lockIn answer = .ok found) (hfree : ∀ held, found = some held →
      ∃ now, responds before .now now before ∧ held.isExpired now = true) :
    ∃ exchanges, Drives responds checkFree.run before exchanges (.ok ()) before := by
  have hlook := drives_currentLock_of_read hread
  rw [hfound] at hlook
  cases found with
  | none => exact ⟨_, drives_bindExcept_iff.2 (.inr ⟨none, before, _, [], rfl, hlook, .done _ _⟩)⟩
  | some held =>
    obtain ⟨now, responded, hexpired⟩ := hfree held rfl
    refine ⟨_, drives_bindExcept_iff.2 (.inr ⟨some held, before, _, [⟨.now, now⟩], rfl, hlook,
      drives_bindLift_iff.2 ⟨now, before, [⟨.now, now⟩], [], rfl,
        drives_request_iff.2 ⟨rfl, responded⟩, ?_⟩⟩)⟩
    rw [hexpired]
    exact .done _ _

/-- Nothing keeps a holder with a name from acquiring a lock if there is none, or one that has
expired. -/
theorem exists_drives_acquire {holder id : String} {now : Instant}
    (hholder : holder.isEmpty = false) (hread : responds before (.read .lock) answer before)
    (hfound : lockIn answer = .ok found) (hfree : ∀ held, found = some held →
      ∃ now, responds before .now now before ∧ held.isExpired now = true)
    (hnow : responds before .now now before) (hid : responds before .uniqueId id mid)
    (hwrite : responds mid (.write .lock (Lock.new id holder now).encode) (.ok ()) final) :
    ∃ exchanges, Drives responds (acquire holder).run before exchanges (.ok (.new id holder now))
      final := by
  obtain ⟨first, hcheck⟩ := exists_drives_checkFree hread hfound hfree
  have hname : Drives responds (nameFor holder) before [] holder before := by
    rw [nameFor, hholder]
    exact .done _ _
  have hclaim : Drives responds (claim holder).run before _ (.ok (.new id holder now)) final :=
    .ask hnow (.ask hid (.ask hwrite (.done _ _)))
  rw [acquire_eq]
  exact ⟨_, drives_bindExcept_iff.2 (.inr ⟨(), before, first, _, rfl, hcheck,
    drives_bindLift_iff.2 ⟨holder, before, [], _, rfl, hname, hclaim⟩⟩)⟩

/-- The lock that is there can be released by its id. -/
theorem exists_drives_release {held : Lock} (hread : responds before (.read .lock) answer before)
    (hfound : lockIn answer = .ok (some held))
    (hremove : responds before (.remove .lock) (.ok ()) final) :
    ∃ exchanges, Drives responds (release held.lockId).run before exchanges (.ok ()) final := by
  have hlook := drives_currentLock_of_read hread
  rw [hfound] at hlook
  refine ⟨_, drives_bindExcept_iff.2 (.inr ⟨some held, before, _, [⟨.remove .lock, .ok ()⟩], rfl,
    hlook, ?_⟩)⟩
  simp only [if_true]
  exact drives_request_iff.2 ⟨rfl, hremove⟩

end successes

theorem lockIn_of_holding? {held : Lock} (h : world.holding? = some held) :
    lockIn (.ok (world.text? .lock)) = .ok (some held) := by
  rw [World.holding?, Option.bind_eq_some_iff] at h
  obtain ⟨text, hlock, h⟩ := h
  rw [World.text?, hlock, lockIn]
  cases hdecode : Lock.decode text with
  | error cause =>
    rw [hdecode] at h
    cases h
  | ok lock =>
    rw [hdecode] at h
    cases h
    rfl

theorem drives_acquire_of_free (faults : Prop) (holder : String) {id : String} {now : Instant}
    (hfree : Free clock world) (hholder : holder.isEmpty = false) (shown : clock.Shows now)
    (fresh : id ∉ world.issued) :
    ∃ exchanges, Drives (Responds clock faults) (acquire holder).run world exchanges
      (.ok (.new id holder now)) { world with
        lock := some (Lock.new id holder now).encode
        issued := id :: world.issued } := by
  rcases hfree with hnone | ⟨held, seen, hheld, shown', hexpired⟩
  · have hfound : lockIn (.ok (world.text? .lock)) = .ok none := by
      rw [World.text?, hnone, lockIn]
    exact exists_drives_acquire hholder ⟨.inl rfl, rfl⟩ hfound nofun ⟨shown, rfl⟩ ⟨fresh, rfl⟩
      (.inl ⟨rfl, rfl⟩)
  · refine exists_drives_acquire hholder ⟨.inl rfl, rfl⟩ (lockIn_of_holding? hheld) ?_ ⟨shown, rfl⟩
      ⟨fresh, rfl⟩ (.inl ⟨rfl, rfl⟩)
    rintro held ⟨⟩
    exact ⟨seen, ⟨shown', rfl⟩, hexpired⟩

/-! ## The other operations -/

/-- Releasing a lock removes the lock that is there if it has the id, and does nothing else. It
fails, or there is no lock with the id. -/
theorem drives_release {lockId : String} {result : Except StateError Unit}
    (h : Drives (Responds clock faults) (release lockId).run world exchanges result after) :
    after = world ∧ (result = .ok () → ∀ held, world.holding? = some held → held.lockId ≠ lockId) ∨
      ∃ held, world.holding? = some held ∧ held.lockId = lockId ∧ after = world.put .lock none := by
  rw [release, drives_bindExcept_iff] at h
  rcases h with ⟨cause, hlook, rfl⟩ | ⟨found, mid, first, second, rfl, hlook, hrest⟩
  · exact .inl ⟨(drives_currentLock hlook).1, nofun⟩
  obtain ⟨rfl, hfound⟩ := drives_currentLock hlook
  obtain ⟨hholding, -⟩ := hfound found rfl
  cases found with
  | none =>
    obtain ⟨-, -, rfl⟩ := drives_done_iff.1 hrest
    refine .inl ⟨rfl, fun _ held hheld => ?_⟩
    rw [hholding] at hheld
    cases hheld
  | some held =>
    by_cases hid : held.lockId = lockId
    · simp only [hid, if_true] at hrest
      obtain ⟨-, ⟨-, rfl⟩ | ⟨-, ⟨cause, rfl⟩, rfl⟩⟩ := drives_request_iff.1 hrest
      · exact .inr ⟨held, hholding, hid, rfl⟩
      · exact .inl ⟨rfl, nofun⟩
    · simp only [hid, if_false] at hrest
      obtain ⟨-, -, rfl⟩ := drives_done_iff.1 hrest
      refine .inl ⟨rfl, fun _ other hother => ?_⟩
      rw [hholding] at hother
      cases hother
      exact hid

theorem drives_save {state : State} {result : Except StateError Unit} :
    Drives (Responds clock faults) (save state).run world exchanges result after ↔
      exchanges = [⟨.write .state state.encode, result⟩] ∧
        Attempts faults world (world.put .state (some state.encode)) result after :=
  drives_request_iff

/-- Loading a state changes nothing. -/
theorem drives_load {result : Except StateError (Option State)}
    (h : Drives (Responds clock faults) load.run world exchanges result after) : after = world := by
  rw [load, drives_bindExcept_iff] at h
  rcases h with ⟨cause, hread, rfl⟩ | ⟨found, mid, first, second, rfl, hread, hrest⟩
  · obtain ⟨-, -, rfl⟩ := drives_request_iff.1 hread
    rfl
  obtain ⟨-, -, rfl⟩ := drives_request_iff.1 hread
  cases found with
  | none => exact (drives_done_iff.1 hrest).2.2
  | some text =>
    cases hdecode : State.decode text with
    | error cause =>
      simp only [hdecode] at hrest
      exact (drives_done_iff.1 hrest).2.2
    | ok state =>
      simp only [hdecode] at hrest
      exact (drives_done_iff.1 hrest).2.2

/-- Deleting removes the state, and then the lock whosever it is. -/
theorem drives_delete {result : Except StateError Unit}
    (h : Drives (Responds clock faults) delete.run world exchanges result after) :
    (result = .ok () ∧ after = { world with state := none, lock := none }) ∨
      faults ∧ (∃ cause, result = .error cause) ∧
        (after = world ∨ after = world.put .state none) := by
  rw [delete, drives_bindExcept_iff] at h
  rcases h with ⟨cause, hstate, rfl⟩ | ⟨⟨⟩, mid, first, second, rfl, hstate, hlock⟩
  · obtain ⟨-, ⟨⟨⟩, -⟩ | ⟨possible, -, rfl⟩⟩ := drives_request_iff.1 hstate
    exact .inr ⟨possible, ⟨cause, rfl⟩, .inl rfl⟩
  obtain ⟨-, ⟨-, rfl⟩ | ⟨-, ⟨_, ⟨⟩⟩, -⟩⟩ := drives_request_iff.1 hstate
  obtain ⟨-, ⟨rfl, rfl⟩ | ⟨possible, hcause, rfl⟩⟩ := drives_request_iff.1 hlock
  · exact .inl ⟨rfl, rfl⟩
  · exact .inr ⟨possible, hcause, .inr rfl⟩

end Store

/-! ## A lock that has expired -/

namespace Clock

/-- A time, and one at which a lock that was acquired then has expired. -/
abbrev early : Instant := ⟨1704164645, 0⟩

abbrev late : Instant := ⟨1704164946, 0⟩

/-- A clock that shows both. -/
def twice : Clock where
  Shows now := now = early ∨ now = late
  legible := by
    rintro _ (rfl | rfl) <;> exact ⟨by decide, .inl (by decide)⟩
  lasts := by
    rintro _ (rfl | rfl) <;> exact ⟨by decide, .inl (by decide)⟩

theorem shows_early : twice.Shows early := .inl rfl

theorem shows_late : twice.Shows late := .inr rfl

/-- A lock that was acquired at the first time. -/
abbrev former : Lock := .new "1" "a" early

theorem free_former (state : Option String) (issued : List String) :
    Store.Free twice ⟨state, some former.encode, issued⟩ :=
  have hlegible : former.Legible := twice.legible_new shows_early "1" "a"
  .inr ⟨former, late, Medium.World.holding?_of_decode rfl (Lock.decode_encode hlegible),
    shows_late, by decide⟩

end Clock

end Converge
