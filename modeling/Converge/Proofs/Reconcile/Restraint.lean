import Converge.Proofs.Reconcile.Medium
import Converge.Proofs.Reconcile.Protection

/-!
# Restraint

A call that fails before it carries anything out leaves everything as it was: no plan is carried
out, the state stays, and so does the lock of somebody else. Its own lock it releases again. This is
so for a store in a directory and for one in a bucket.

Main statement: `Restraint.restrained`.
-/

namespace Converge.Restraint

open Medium (World)
open Program Reconcile

variable {clock : Clock} {faults : Prop} {world after : World}
  {exchanges : List (Exchange Reconcile.calls)} {stack : Stack} {reviewed : Option Plan}
  {operation : Operation}

/-- Whether a plan is carried out. -/
def executes : Exchange Reconcile.calls → Bool
  | ⟨.execute _, _⟩ => true
  | _ => false

/-- Whether carrying out a plan fails, or a change of the store once the lock is acquired. -/
def fails : Exchange Reconcile.calls → Bool
  | ⟨.execute _, .error _⟩ => true
  | ⟨.store (.save _), .error _⟩ => true
  | ⟨.store .delete, .error _⟩ => true
  | ⟨.store (.release _), .error _⟩ => true
  | _ => false

/-- What a program has asked for that carries nothing out. -/
def Quiet (exchanges : List (Exchange Reconcile.calls)) : Prop :=
  ∀ exchange ∈ exchanges, executes exchange = false ∧ granted? exchange = none

/-! ## On a medium -/

theorem drives_record_error {state : State} {report : Report} {cause : Error}
    (h : Drives (Responds clock faults) (record state operation report).run world exchanges
      (.error cause) after) : ∃ exchange ∈ exchanges, fails exchange = true := by
  rw [record] at h
  split at h
  · obtain ⟨answer, mid, rest, rfl, -, h⟩ := drives_ask_iff.1 h
    cases answer with
    | error inner => exact ⟨_, .head _, rfl⟩
    | ok _ => cases (drives_done_iff.1 h).2.1
  · obtain ⟨answer, mid, rest, rfl, -, h⟩ := drives_ask_iff.1 h
    cases answer with
    | error inner => exact ⟨_, .head _, rfl⟩
    | ok _ => cases (drives_done_iff.1 h).2.1

/-- Carrying out a plan only fails with the execution or with recording what came of it. -/
theorem drives_carryOut_error {prior : Option State} {plan : Plan} {cause : Error}
    (h : Drives (Responds clock faults) (carryOut stack operation prior plan).run world exchanges
      (.error cause) after) : ∃ exchange ∈ exchanges, fails exchange = true := by
  rw [carryOut] at h
  cases hconverged : plan.isConverged with
  | true =>
    rw [hconverged] at h
    cases (drives_done_iff.1 h).2.1
  | false =>
    rw [hconverged] at h
    obtain ⟨answer, mid, rest, rfl, -, hreported⟩ := drives_ask_iff.1 h
    cases answer with
    | error inner => exact ⟨_, .head _, rfl⟩
    | ok report =>
      obtain ⟨now, mid', rest', rfl, -, hrecorded⟩ := drives_ask_iff.1 hreported
      rcases drives_bindExcept_iff.1 hrecorded with ⟨cause', hrecord, -⟩ | ⟨_, _, _, _, -, -, hdone⟩
      · obtain ⟨exchange, hmem, hfails⟩ := drives_record_error hrecord
        exact ⟨exchange, .tail _ (.tail _ hmem), hfails⟩
      · cases (drives_done_iff.1 hdone).2.1

/-- A run that fails before it carries anything out changes nothing. -/
theorem drives_run_error {cause : Error}
    (h : Drives (Responds clock faults) (run stack reviewed operation).run world exchanges
      (.error cause) after) (hfails : ∀ exchange ∈ exchanges, fails exchange = false) :
    after = world ∧ Quiet exchanges := by
  obtain ⟨answer, mid, rest, rfl, ⟨_, hload⟩, h⟩ := drives_ask_iff.1 h
  cases Store.drives_load hload
  cases answer with
  | error inner =>
    obtain ⟨rfl, -, rfl⟩ := drives_done_iff.1 h
    exact ⟨rfl, by simp [Quiet, executes, granted?]⟩
  | ok prior =>
    obtain ⟨now, mid, rest', rfl, ⟨-, rfl⟩, hplan⟩ := drives_ask_iff.1 h
    have hquiet : Quiet [⟨.store .load, .ok prior⟩, ⟨.now, now⟩] := by
      simp [Quiet, executes, granted?]
    rcases drives_bindOfExcept_iff.1 hplan with ⟨-, -, rfl, rfl, -⟩ | ⟨plan, -, hplan⟩
    · exact ⟨rfl, hquiet⟩
    rcases drives_bindOfExcept_iff.1 hplan with ⟨-, -, rfl, rfl, -⟩ | ⟨-, -, hplan⟩
    · exact ⟨rfl, hquiet⟩
    obtain ⟨exchange, hmem, hfailed⟩ := drives_carryOut_error hplan
    rw [hfails exchange (.tail _ (.tail _ hmem))] at hfailed
    cases hfailed

/-- What a call has left as it was: it has carried nothing out, and kept the state and any lock that
has not expired. It has acquired no lock, or the one that it has acquired is gone. -/
structure Restrained (clock : Clock) (world : World) (exchanges : List (Exchange Reconcile.calls))
    (after : World) : Prop where
  unexecuted : ∀ exchange ∈ exchanges, executes exchange = false
  state : after.state = world.state
  others : ∀ held, world.holding? = some held →
    (∀ now, clock.Shows now → held.isExpired now = false) → after.lock = world.lock
  own : (∀ exchange ∈ exchanges, granted? exchange = none) ∧ after.lock = world.lock ∨
    after.lock = none ∧ Store.Free clock world

theorem drives_locked_error {holder : String} {cause : Error}
    (h : Drives (Responds clock faults) (locked stack holder reviewed operation) world exchanges
      (.error cause) after) (hfails : ∀ exchange ∈ exchanges, fails exchange = false) :
    Restrained clock world exchanges after := by
  rw [locked_eq] at h
  obtain ⟨answer, mid, rest, rfl, ⟨_, hacquire⟩, h⟩ := drives_ask_iff.1 h
  obtain ⟨hrefused, hgranted⟩ := Store.drives_acquire hacquire
  cases answer with
  | error inner =>
    obtain ⟨rfl, -, rfl⟩ := drives_done_iff.1 h
    have untouched := hrefused inner rfl
    exact ⟨by simp [executes], untouched.state, fun _ _ _ => untouched.lock,
      .inl ⟨by simp [granted?], untouched.lock⟩⟩
  | ok lock =>
    have grants := hgranted lock rfl
    obtain ⟨result, mid', first, second, rfl, hrun, hrelease⟩ := drives_bind_iff.1 h
    obtain ⟨⟨⟩, after', third, fourth, rfl, hrelease, hdone⟩ := drives_bind_iff.1 hrelease
    obtain ⟨rfl, rfl, rfl⟩ := drives_done_iff.1 hdone
    obtain ⟨rfl, hquiet⟩ := drives_run_error hrun
      fun exchange h => hfails exchange (.tail _ (List.mem_append_left _ h))
    obtain ⟨answer, rfl, hreleased⟩ := drives_release_own grants.legible grants.lock hrelease
    have hanswer : answer = .ok () := by
      have hsucceeds := hfails ⟨.store (.release lock.lockId), answer⟩ (by simp)
      cases answer with
      | ok _ => rfl
      | error inner => cases hsucceeds
    obtain rfl := hreleased hanswer
    refine ⟨?_, grants.state, fun held hheld hlasts => ?_, .inr ⟨rfl, grants.free⟩⟩
    · intro exchange hmem
      simp only [List.mem_cons, List.mem_append, List.not_mem_nil, or_false] at hmem
      rcases hmem with rfl | hmem | rfl
      · rfl
      · exact (hquiet exchange hmem).1
      · rfl
    · rcases grants.free with hnone | ⟨found, now, hfound, shown, hexpired⟩
      · rw [World.holding?, hnone] at hheld
        cases hheld
      · rw [hfound] at hheld
        rw [Option.some.inj hheld, hlasts now shown] at hexpired
        cases hexpired

/-! ## At a location -/

/-- A call at a directory or a bucket that fails, but neither with the execution of a plan nor with
a change of the store, carries nothing out and leaves the state and any lock that has not expired by
the times that it looks at. The lock that it has acquired is gone. -/
theorem restrained {location : Location} {world after : Host.World} {holder : String}
    {cause : Error}
    (h : Drives (RespondsAt location clock faults) (locked stack holder reviewed operation) world
      exchanges (.error cause) after)
    (hfails : ∀ exchange ∈ exchanges, fails exchange = false) :
    Restrained clock (location.view world) exchanges (location.view after) := by
  obtain ⟨kept, h, hmirrors⟩ := drives_onMedium h
  have hstate : (location.view after).state = kept.state := (hmirrors.text .state).symm
  have hlock : (location.view after).lock = kept.lock := (hmirrors.text .lock).symm
  obtain ⟨unexecuted, state, others, own⟩ := drives_locked_error h hfails
  refine ⟨unexecuted, hstate.trans state, fun held hheld hlasts => ?_, by rwa [hlock]⟩
  exact hlock.trans (others held hheld hlasts)

/-! ## A state that cannot be read -/

/-- A host with a state that is no document in a directory, and a lock that has expired. -/
def unreadable (directory : String) : Host.World :=
  Host.World.putFile (Host.World.putFile ⟨fun _ => none, fun _ _ => none, ["1"]⟩
    (Path.join directory (Location.fileName .state)) (some ""))
    (Path.join directory (Location.fileName .lock)) (some Clock.former.encode)

/-- A call takes over the expired lock, and then cannot read the state. -/
theorem exists_unreadable (directory : String) : ∃ exchanges cause after,
    Drives (RespondsAt (.directory directory) Clock.twice False)
      (locked (Session.sinkStack .retain []) "b" none .apply) (unreadable directory) exchanges
      (.error cause) after ∧
    (∀ exchange ∈ exchanges, fails exchange = false) ∧
    ∃ exchange ∈ exchanges, granted? exchange = some (.new "2" "b" Clock.late) := by
  let given : Host.World := { unreadable directory with issued := ["2", "1"] }
  let lock : Lock := .new "2" "b" Clock.late
  let path := Path.join directory (Location.fileName .lock)
  let held : Host.World := given.putFile path (some lock.encode)
  have hformer : (Location.directory directory).text? (unreadable directory) .lock =
      some Clock.former.encode := (Location.puts_file directory _ .lock _).self
  have hlock : (Location.directory directory).text? held .lock = some lock.encode :=
    (Location.puts_file directory given .lock _).self
  have hstate : (Location.directory directory).text? held .state = some "" :=
    ((Location.puts_file directory given .lock _).other .state nofun).trans
      (((Location.puts_file directory _ .lock _).other .state nofun).trans
        (Location.puts_file directory _ .state _).self)
  -- the lock is acquired
  have hnow : (Location.directory directory).Responds Clock.twice False (unreadable directory) .now
      Clock.late (unreadable directory) := ⟨_, .ask ⟨Clock.shows_late, rfl⟩ (.done _ _)⟩
  have hid : (Location.directory directory).Responds Clock.twice False (unreadable directory)
      .uniqueId "2" given := ⟨_, .ask (show "2" ∉ ["1"] ∧ _ from ⟨by decide, rfl⟩) (.done _ _)⟩
  have hexpired (found : Lock) (h : some Clock.former = some found) : ∃ now,
      (Location.directory directory).Responds Clock.twice False (unreadable directory) .now now
        (unreadable directory) ∧ found.isExpired now = true := by
    cases h
    exact ⟨Clock.late, hnow, by decide⟩
  obtain ⟨_, hacquire⟩ := Store.exists_drives_acquire (show "b".isEmpty = false from rfl)
    (Location.responds_read hformer)
    (Store.lockIn_encode (Clock.twice.legible_new Clock.shows_early "1" "a")) hexpired hnow hid
    (Location.responds_write_lock directory lock.encode)
  -- the state is read
  let unread : StateError := .corrupted "Failed to parse state: not a document"
  have hload : Drives ((Location.directory directory).Responds Clock.twice False)
      (Store.onMedium .load) held _ (.error unread) held :=
    .ask (Location.responds_read hstate) (.done _ _)
  -- the lock is released
  have hread : (Location.directory directory).Responds Clock.twice False held (.read .lock)
      (.ok (some lock.encode)) held := Location.responds_read hlock
  obtain ⟨_, hrelease⟩ := Store.exists_drives_release hread
    (Store.lockIn_encode (Clock.twice.legible_new Clock.shows_late "2" "b"))
    (Location.responds_remove directory)
  obtain ⟨first, hacquire⟩ := drives_interpret_iff.2 ⟨_, hacquire⟩
  obtain ⟨second, hload⟩ := drives_interpret_iff.2 ⟨_, hload⟩
  obtain ⟨third, hrelease⟩ := drives_interpret_iff.2 ⟨_, hrelease⟩
  refine ⟨[⟨.store (.acquire "b"), .ok lock⟩, ⟨.store .load, .error unread⟩,
    ⟨.store (.release "2"), .ok ()⟩], .state unread, held.putFile path none, ?_, ?_, ?_⟩
  · rw [locked_eq]
    exact .ask ⟨first, hacquire⟩ (.ask ⟨second, hload⟩ (.ask ⟨third, hrelease⟩ (.done _ _)))
  · simp [fails]
  · exact ⟨_, .head _, rfl⟩

/-- A call that cannot read the state carries nothing out, leaves the state, and releases the lock
that it has put in the place of an expired one. -/
theorem restrained_unreadable : ∃ exchanges cause after,
    Drives (RespondsAt (.directory ".stackplan") Clock.twice False)
      (locked (Session.sinkStack .retain []) "b" none .apply) (unreadable ".stackplan") exchanges
      (.error cause) after ∧
    (∀ exchange ∈ exchanges, fails exchange = false) ∧
    (∀ exchange ∈ exchanges, executes exchange = false) ∧
    (Location.directory ".stackplan").text? after .state =
      (Location.directory ".stackplan").text? (unreadable ".stackplan") .state ∧
    (Location.directory ".stackplan").text? after .lock = none := by
  obtain ⟨exchanges, cause, after, h, hfails, exchange, hmem, hacquired⟩ :=
    exists_unreadable ".stackplan"
  obtain ⟨unexecuted, state, -, ⟨hnone, -⟩ | ⟨hlock, -⟩⟩ := restrained h hfails
  · rw [hnone exchange hmem] at hacquired
    cases hacquired
  · exact ⟨exchanges, cause, after, h, hfails, unexecuted, state, hlock⟩

end Converge.Restraint
