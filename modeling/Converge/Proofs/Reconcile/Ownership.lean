import Converge.Proofs.Crowd
import Converge.Proofs.Reconcile.Medium
import Converge.Proofs.Reconcile.Protection

/-!
# Ownership of the lock

Calls that apply a stack or remove it, at one store and at the same time. Each operation of the
store is one step, and the clock moves on as it likes, so the lock of a call may expire while it
works.

Saving and deleting do not look at the lock. What is saved or deleted belongs to the owner of the
lock exactly as long as no call records anything after another has taken its expired lock over.

Main statements: `Sharing.owned_iff` and `Sharing.saved_late`.
-/

namespace Converge.Sharing

open Medium (World)
open Program Reconcile

/-! ## Calls -/

/-- What is left of a call. -/
abbrev Station := Program calls (Except Error Reconciliation)

abbrev Act := Exchange calls

/-- How a call moves on: by its next request. -/
inductive Moves (clock : Clock) (faults : Prop) : Station → World → Act → Station → World → Prop
  | ask {request : Request} {next : Answer request → Station} {answer : Answer request}
    {world after : World} (answered : Reconcile.Responds clock faults world request answer after) :
    Moves clock faults (.ask request next) world ⟨request, answer⟩ (next answer) after

/-- Whether an act saves a state or deletes it. -/
def Act.records : Act → Bool
  | ⟨.store (.save _), _⟩ | ⟨.store .delete, _⟩ => true
  | _ => false

section histories

variable {ι : Type} [DecidableEq ι]

abbrev Calls (ι : Type) := Crowd ι Station World

abbrev History (ι : Type) := List (Deed ι Station World Act)

/-- Whether every call is at its beginning. -/
def Fresh (crowd : Calls ι) : Prop :=
  ∀ p, ∃ stack holder reviewed operation,
    crowd.station p = locked stack holder reviewed operation

/-- The lock that a call has acquired. -/
def acquired? (p : ι) : History ι → Option Lock
  | [] => none
  | deed :: earlier =>
    if deed.actor = p then granted? deed.act <|> acquired? p earlier else acquired? p earlier

/-- Whether the lock of a call is the one in the store. -/
def Owns (p : ι) (history : History ι) (world : World) : Prop :=
  ∃ lock, acquired? p history = some lock ∧ world.lock = some lock.encode

/-- Whether an act saves or deletes, or changes the state or removes a lock by other means. -/
def Touches (deed : Deed ι Station World Act) : Prop :=
  Act.records deed.act = true ∨ deed.after.world.state ≠ deed.before.world.state ∨
    deed.before.world.lock ≠ none ∧ deed.after.world.lock = none

/-- Whether only the owner of the lock touches what the store keeps. -/
def Owned : History ι → Prop
  | [] => True
  | deed :: earlier =>
    (Touches deed → Owns deed.actor earlier deed.before.world) ∧ Owned earlier

/-- Whether another call has acquired a lock when it found the one of a call expired. -/
def TakenOver (clock : Clock) (p : ι) : History ι → Prop
  | [] => False
  | deed :: earlier =>
    (deed.actor ≠ p ∧ (granted? deed.act).isSome ∧ ∃ lock now,
      acquired? p earlier = some lock ∧ deed.before.world.lock = some lock.encode ∧
        clock.Shows now ∧ lock.isExpired now = true) ∨ TakenOver clock p earlier

/-- Whether a call saves or deletes after its lock has been taken over. -/
def Late (clock : Clock) : History ι → Prop
  | [] => False
  | deed :: earlier =>
    Act.records deed.act = true ∧ TakenOver clock deed.actor earlier ∨ Late clock earlier

end histories

/-! ## What is left of a call -/

/-- Programs that ask for the state, the time and the execution of plans, and save or delete at most
once, as the last thing. -/
inductive Recording {α : Type} : Program calls α → Prop
  | done (value : α) : Recording (.done value)
  | load {next : Except StateError (Option State) → Program calls α}
    (rest : ∀ answer, Recording (next answer)) : Recording (.ask (.store .load) next)
  | now {next : Instant → Program calls α} (rest : ∀ answer, Recording (next answer)) :
    Recording (.ask .now next)
  | execute {plan : Plan} {next : Except ApplyError Report → Program calls α}
    (rest : ∀ answer, Recording (next answer)) : Recording (.ask (.execute plan) next)
  | save {state : State} {next : Except StateError Unit → Program calls α}
    (last : ∀ answer, ∃ value, next answer = .done value) :
    Recording (.ask (.store (.save state)) next)
  | delete {next : Except StateError Unit → Program calls α}
    (last : ∀ answer, ∃ value, next answer = .done value) : Recording (.ask (.store .delete) next)

theorem recording_record (state : State) (operation : Operation) (report : Report)
    (result : Reconciliation) :
    Recording (do
      record state operation report
      return result : Reconcile.Action Reconciliation).run := by
  rw [record]
  split
  · refine .delete fun answer => ?_
    cases answer <;> exact ⟨_, rfl⟩
  · refine .save fun answer => ?_
    cases answer <;> exact ⟨_, rfl⟩

theorem recording_carryOut (stack : Stack) (operation : Operation) (prior : Option State)
    (plan : Plan) : Recording (carryOut stack operation prior plan).run := by
  rw [carryOut]
  cases plan.isConverged with
  | true => exact .done _
  | false =>
    refine .execute fun answer => ?_
    cases answer with
    | error cause => exact .done _
    | ok report => exact .now fun now => recording_record _ _ _ _

theorem recording_run (stack : Stack) (reviewed : Option Plan) (operation : Operation) :
    Recording (run stack reviewed operation).run := by
  refine .load fun answer => ?_
  cases answer with
  | error cause => exact .done _
  | ok prior =>
    refine .now fun now => ?_
    show Recording (do
      let plan ← Reconcile.ofExcept (planFor stack operation prior now)
      Reconcile.ofExcept (checkReviewed reviewed plan)
      carryOut stack operation prior plan : Reconcile.Action Reconciliation).run
    cases planFor stack operation prior now with
    | error cause => exact .done _
    | ok plan =>
      show Recording (do
        Reconcile.ofExcept (checkReviewed reviewed plan)
        carryOut stack operation prior plan : Reconcile.Action Reconciliation).run
      cases checkReviewed reviewed plan with
      | error cause => exact .done _
      | ok _ => exact recording_carryOut stack operation prior plan

/-- Programs that only release the lock with a given id. -/
inductive Leaving {α : Type} (lockId : String) : Program calls α → Prop
  | done (value : α) : Leaving lockId (.done value)
  | release {next : Except StateError Unit → Program calls α}
    (rest : ∀ answer, Leaving lockId (next answer)) :
    Leaving lockId (.ask (.store (.release lockId)) next)

/-- Programs that save or delete at most once, and after that only release the lock with a given
id. -/
inductive Working {α : Type} (lockId : String) : Program calls α → Prop
  | leaving {p : Program calls α} (h : Leaving lockId p) : Working lockId p
  | load {next : Except StateError (Option State) → Program calls α}
    (rest : ∀ answer, Working lockId (next answer)) : Working lockId (.ask (.store .load) next)
  | now {next : Instant → Program calls α} (rest : ∀ answer, Working lockId (next answer)) :
    Working lockId (.ask .now next)
  | execute {plan : Plan} {next : Except ApplyError Report → Program calls α}
    (rest : ∀ answer, Working lockId (next answer)) : Working lockId (.ask (.execute plan) next)
  | save {state : State} {next : Except StateError Unit → Program calls α}
    (rest : ∀ answer, Leaving lockId (next answer)) :
    Working lockId (.ask (.store (.save state)) next)
  | delete {next : Except StateError Unit → Program calls α}
    (rest : ∀ answer, Leaving lockId (next answer)) : Working lockId (.ask (.store .delete) next)

theorem Recording.working {α β : Type} {lockId : String} {p : Program calls α}
    {f : α → Program calls β} (h : Recording p) (hf : ∀ value, Leaving lockId (f value)) :
    Working lockId (p >>= f) := by
  induction h with
  | done value => exact .leaving (hf value)
  | load _ ih => exact .load ih
  | now _ ih => exact .now ih
  | execute _ ih => exact .execute ih
  | save last =>
    refine .save fun answer => ?_
    obtain ⟨value, hvalue⟩ := last answer
    rw [hvalue]
    exact hf value
  | delete last =>
    refine .delete fun answer => ?_
    obtain ⟨value, hvalue⟩ := last answer
    rw [hvalue]
    exact hf value

theorem working_begun (stack : Stack) (reviewed : Option Plan) (operation : Operation)
    (lock : Lock) : Working lock.lockId (begun stack reviewed operation (.ok lock)) :=
  (recording_run stack reviewed operation).working fun _ => .release fun _ => .done _

/-! ## What an act does -/

/-- What an act of a call does to the world and the call. The first parameter is the lock that the
call has acquired. -/
inductive Step (clock : Clock) : Option Lock → Station → World → Act → Station → World → Prop
  | acquire {before station : Station} {world after : World} {act : Act} {lock : Lock}
    (granted : granted? act = some lock) (quiet : Act.records act = false)
    (working : Working lock.lockId station) (grants : Store.Grants clock world lock after) :
    Step clock none before world act station after
  | fail {before : Station} {world after : World} {act : Act} (value : Except Error Reconciliation)
    (granted : granted? act = none) (quiet : Act.records act = false)
    (untouched : Store.Untouched world after) : Step clock none before world act (.done value) after
  | look {before station : Station} {world after : World} {act : Act} {lock : Lock}
    (busy : ¬ Leaving lock.lockId before) (granted : granted? act = none)
    (quiet : Act.records act = false) (working : Working lock.lockId station)
    (same : after = world) : Step clock (some lock) before world act station after
  | record {before station : Station} {world after : World} {act : Act} {lock : Lock}
    (busy : ¬ Leaving lock.lockId before) (granted : granted? act = none)
    (records : Act.records act = true) (leaving : Leaving lock.lockId station)
    (issued : after.issued = world.issued) (removed : after.lock = world.lock ∨ after.lock = none) :
    Step clock (some lock) before world act station after
  | release {before station : Station} {world after : World} {act : Act} {lock : Lock}
    (granted : granted? act = none) (quiet : Act.records act = false)
    (leaving : Leaving lock.lockId station)
    (removed : after = world ∨ ∃ held, world.holding? = some held ∧ held.lockId = lock.lockId ∧
      after = world.put .lock none) :
    Step clock (some lock) before world act station after

section steps

variable {ι : Type} [DecidableEq ι] {clock : Clock} {faults : Prop} {crowd : Calls ι}
  {history : History ι}

/-- Where a call is: at its beginning or its end without a lock, or at work with one. -/
def Stage (p : ι) (history : History ι) (station : Station) : Prop :=
  (acquired? p history = none ∧ ((∃ stack holder reviewed operation,
    station = locked stack holder reviewed operation) ∨ ∃ value, station = .done value)) ∨
  ∃ lock, acquired? p history = some lock ∧ Working lock.lockId station

theorem Stage.step {q : ι} {before station : Station} {world after : World} {act : Act}
    (h : Stage q history before) (moved : Moves clock faults before world act station after) :
    Step clock (acquired? q history) before world act station after := by
  rcases h with ⟨hnone, ⟨stack, holder, reviewed, operation, rfl⟩ | ⟨value, rfl⟩⟩ |
    ⟨lock, hlock, hworking⟩
  · rw [hnone]
    rw [locked_eq] at moved
    generalize hbefore : (Program.ask _ _ : Station) = before at moved
    cases moved with | ask answered
    cases hbefore
    rename_i answer
    obtain ⟨exchanges, hdrives⟩ := answered
    obtain ⟨herror, hok⟩ := Store.drives_acquire hdrives
    cases answer with
    | error cause => exact .fail _ rfl rfl (herror cause rfl)
    | ok lock => exact .acquire rfl rfl (working_begun ..) (hok lock rfl)
  · cases moved
  · rw [hlock]
    cases moved with | ask answered
    cases hworking with
    | leaving hleaving =>
      cases hleaving with | release rest
      obtain ⟨exchanges, hdrives⟩ := answered
      exact .release rfl rfl (rest _) ((Store.drives_release hdrives).imp And.left id)
    | load rest =>
      obtain ⟨exchanges, hdrives⟩ := answered
      cases Store.drives_load hdrives
      exact .look nofun rfl rfl (rest _) rfl
    | now rest =>
      obtain ⟨-, rfl⟩ := answered
      exact .look nofun rfl rfl (rest _) rfl
    | execute rest =>
      obtain ⟨rfl, -⟩ := answered
      exact .look nofun rfl rfl (rest _) rfl
    | save rest =>
      obtain ⟨exchanges, hdrives⟩ := answered
      obtain ⟨-, ⟨-, rfl⟩ | ⟨-, -, rfl⟩⟩ := Store.drives_save.1 hdrives
      · exact .record nofun rfl rfl (rest _) rfl (.inl rfl)
      · exact .record nofun rfl rfl (rest _) rfl (.inl rfl)
    | delete rest =>
      obtain ⟨exchanges, hdrives⟩ := answered
      rcases Store.drives_delete hdrives with ⟨-, rfl⟩ | ⟨-, -, rfl | rfl⟩
      · exact .record nofun rfl rfl (rest _) rfl (.inr rfl)
      · exact .record nofun rfl rfl (rest _) rfl (.inl rfl)
      · exact .record nofun rfl rfl (rest _) rfl (.inl rfl)

/-! ## What every act preserves -/

theorem acquired?_of_ne {p : ι} {deed : Deed ι Station World Act} (h : deed.actor ≠ p) :
    acquired? p (deed :: history) = acquired? p history := by
  simp [acquired?, h]

theorem acquired?_of_none {p : ι} {deed : Deed ι Station World Act}
    (h : granted? deed.act = none) : acquired? p (deed :: history) = acquired? p history := by
  simp [acquired?, h]

theorem acquired?_of_grants {p : ι} {deed : Deed ι Station World Act} {lock : Lock}
    (hp : deed.actor = p) (h : granted? deed.act = some lock) :
    acquired? p (deed :: history) = some lock := by
  simp [acquired?, hp, h]

theorem acquired?_cases_of_grants {p : ι} {deed : Deed ι Station World Act} {lock other : Lock}
    (hgrants : granted? deed.act = some lock) (h : acquired? p (deed :: history) = some other) :
    p = deed.actor ∧ other = lock ∨ p ≠ deed.actor ∧ acquired? p history = some other := by
  by_cases hp : deed.actor = p
  · rw [acquired?_of_grants hp hgrants] at h
    exact .inl ⟨hp.symm, (Option.some.inj h).symm⟩
  · rw [acquired?_of_ne hp] at h
    exact .inr ⟨Ne.symm hp, h⟩

/-- Who has not acquired a lock cannot lose it to another. -/
theorem TakenOver.acquired {p : ι} (h : TakenOver clock p history) :
    ∃ lock, acquired? p history = some lock := by
  induction history with
  | nil => exact h.elim
  | cons deed earlier ih =>
    rcases h with ⟨hne, -, lock, -, hlock, -⟩ | h
    · exact ⟨lock, by rwa [acquired?_of_ne hne]⟩
    · obtain ⟨lock, hlock⟩ := ih h
      by_cases hp : deed.actor = p
      · cases hgrants : granted? deed.act with
        | some other => exact ⟨other, acquired?_of_grants hp hgrants⟩
        | none => exact ⟨lock, by rwa [acquired?_of_none hgrants]⟩
      · exact ⟨lock, by rwa [acquired?_of_ne hp]⟩

/-- What holds of calls whatever they do: the locks that they have acquired are different, and the
lock in the store is one of them, or is from before. A lock that has been taken over does not come
back. -/
structure Kept (clock : Clock) (history : History ι) (crowd : Calls ι) : Prop where
  stage : ∀ p, Stage p history (crowd.station p)
  legible : ∀ {p lock}, acquired? p history = some lock → lock.Legible
  issued : ∀ {p lock}, acquired? p history = some lock → lock.lockId ∈ crowd.world.issued
  distinct : ∀ {p q lock other}, acquired? p history = some lock →
    acquired? q history = some other → lock.lockId = other.lockId → p = q
  current : (∀ p, acquired? p history = none) ∨ crowd.world.lock = none ∨
    ∃ p, Owns p history crowd.world
  lost : ∀ {p}, TakenOver clock p history → ¬ Owns p history crowd.world

/-- An act that acquires no lock. -/
theorem Kept.keep (kept : Kept clock history crowd) {q : ι} {act : Act} {station : Station}
    {world : World} (hgrants : granted? act = none) (hstage : Stage q history station)
    (hissued : crowd.world.issued ⊆ world.issued)
    (hlock : world.lock = crowd.world.lock ∨ world.lock = none) :
    Kept clock (⟨crowd, q, act, crowd.move q station world⟩ :: history)
      (crowd.move q station world) := by
  have hacquired : ∀ p, acquired? p (⟨crowd, q, act, crowd.move q station world⟩ :: history) =
      acquired? p history := fun p => acquired?_of_none hgrants
  have howns : ∀ {p}, Owns p (⟨crowd, q, act, crowd.move q station world⟩ :: history) world →
      Owns p history crowd.world := by
    rintro p ⟨lock, hp, hown⟩
    refine ⟨lock, (hacquired p).symm.trans hp, ?_⟩
    rcases hlock with hlock | hlock
    · exact hlock.symm.trans hown
    · rw [hlock] at hown
      cases hown
  constructor
  · intro p
    rw [Stage, hacquired p]
    by_cases hp : p = q
    · subst hp
      rw [Crowd.move_station_self]
      exact hstage
    · rw [Crowd.move_station_of_ne _ _ _ hp]
      exact kept.stage p
  · exact fun h => kept.legible ((hacquired _).symm.trans h)
  · exact fun h => hissued (kept.issued ((hacquired _).symm.trans h))
  · exact fun h h' => kept.distinct ((hacquired _).symm.trans h) ((hacquired _).symm.trans h')
  · rw [Crowd.move_world]
    rcases hlock with hlock | hlock
    · rw [hlock]
      rcases kept.current with hnone | hnone | ⟨p, lock, hp, hown⟩
      · exact .inl fun p => (hacquired p).trans (hnone p)
      · exact .inr (.inl hnone)
      · exact .inr (.inr ⟨p, lock, (hacquired p).trans hp, hlock.trans hown⟩)
    · exact .inr (.inl hlock)
  · rintro p (⟨-, hsome, -⟩ | h)
    · rw [hgrants] at hsome
      cases hsome
    · exact fun hown => kept.lost h (howns hown)

/-- An act that acquires a lock. -/
theorem Kept.grant (kept : Kept clock history crowd) {q : ι} {act : Act} {station : Station}
    {world : World} {lock : Lock} (hnone : acquired? q history = none)
    (hgrants : granted? act = some lock) (hworking : Working lock.lockId station)
    (grants : Store.Grants clock crowd.world lock world) :
    Kept clock (⟨crowd, q, act, crowd.move q station world⟩ :: history)
      (crowd.move q station world) := by
  have hself : acquired? q (⟨crowd, q, act, crowd.move q station world⟩ :: history) = some lock :=
    acquired?_of_grants rfl hgrants
  have hcases : ∀ {p other},
      acquired? p (⟨crowd, q, act, crowd.move q station world⟩ :: history) = some other →
        p = q ∧ other = lock ∨ p ≠ q ∧ acquired? p history = some other :=
    fun h => acquired?_cases_of_grants hgrants h
  constructor
  · intro p
    by_cases hp : p = q
    · subst hp
      rw [Crowd.move_station_self]
      exact .inr ⟨lock, hself, hworking⟩
    · rw [Crowd.move_station_of_ne _ _ _ hp, Stage, acquired?_of_ne (Ne.symm hp)]
      exact kept.stage p
  · intro p other h
    rcases hcases h with ⟨-, rfl⟩ | ⟨-, h⟩
    · exact grants.legible
    · exact kept.legible h
  · intro p other h
    rw [Crowd.move_world, grants.issued]
    rcases hcases h with ⟨-, rfl⟩ | ⟨-, h⟩
    · exact .head _
    · exact .tail _ (kept.issued h)
  · intro p r other other' h h' heq
    rcases hcases h with ⟨hp, rfl⟩ | ⟨-, h⟩ <;> rcases hcases h' with ⟨hr, rfl⟩ | ⟨-, h'⟩
    · rw [hp, hr]
    · exact (grants.fresh (heq ▸ kept.issued h')).elim
    · exact (grants.fresh (heq ▸ kept.issued h)).elim
    · exact kept.distinct h h' heq
  · exact .inr (.inr ⟨q, lock, hself, grants.lock⟩)
  · rintro p htaken ⟨other, hp, hown⟩
    rcases hcases hp with ⟨rfl, rfl⟩ | ⟨-, hp⟩
    · rcases htaken with ⟨hne, -⟩ | htaken
      · exact hne rfl
      · obtain ⟨before, hbefore⟩ := htaken.acquired
        rw [hnone] at hbefore
        cases hbefore
    · rw [Crowd.move_world, grants.lock, Option.some.injEq] at hown
      obtain rfl := Lock.encode_injective grants.legible (kept.legible hp) hown
      exact grants.fresh (kept.issued hp)

/-- Every act preserves what holds of all calls. -/
theorem Kept.move (kept : Kept clock history crowd) {q : ι} {act : Act} {station : Station}
    {world : World} (moved : Moves clock faults (crowd.station q) crowd.world act station world) :
    Kept clock (⟨crowd, q, act, crowd.move q station world⟩ :: history)
      (crowd.move q station world) := by
  have step := (kept.stage q).step moved
  generalize hq : acquired? q history = own at step
  cases step with
  | acquire granted quiet working grants => exact kept.grant hq granted working grants
  | fail value granted quiet untouched =>
    exact kept.keep granted (.inl ⟨hq, .inr ⟨value, rfl⟩⟩) untouched.issued (.inl untouched.lock)
  | look busy granted quiet working same =>
    exact kept.keep granted (.inr ⟨_, hq, working⟩) (same ▸ List.Subset.refl _) (.inl (same ▸ rfl))
  | record busy granted records leaving issued removed =>
    exact kept.keep granted (.inr ⟨_, hq, .leaving leaving⟩) (issued ▸ List.Subset.refl _) removed
  | release granted quiet leaving removed =>
    refine kept.keep granted (.inr ⟨_, hq, .leaving leaving⟩) ?_ ?_
    · rcases removed with rfl | ⟨held, -, -, rfl⟩ <;> exact List.Subset.refl _
    · rcases removed with rfl | ⟨held, -, -, rfl⟩
      · exact .inl rfl
      · exact .inr rfl

/-- What holds moreover if no call records anything late: a lock that has not been taken over is
there until its owner has nothing to do but to release it. -/
structure Sound (clock : Clock) (history : History ι) (crowd : Calls ι) : Prop
    extends Kept clock history crowd where
  held : ∀ {p lock}, acquired? p history = some lock → Leaving lock.lockId (crowd.station p) ∨
    TakenOver clock p history ∨ crowd.world.lock = some lock.encode

/-- Two calls do not have one lock. -/
theorem Kept.eq_of_owns (kept : Kept clock history crowd) {p q : ι}
    (hp : Owns p history crowd.world) (hq : Owns q history crowd.world) : p = q := by
  obtain ⟨lock, hp, hlock⟩ := hp
  obtain ⟨other, hq, hother⟩ := hq
  have hsame : lock = other := Lock.encode_injective (kept.legible hp) (kept.legible hq)
    (Option.some.inj (hlock.symm.trans hother))
  exact kept.distinct hp hq (congrArg Lock.lockId hsame)

/-- A lock with the id of a call's, in the store, is the call's. -/
theorem Kept.owns_of_holding? (kept : Kept clock history crowd) {p : ι} {lock held : Lock}
    (hp : acquired? p history = some lock) (hheld : crowd.world.holding? = some held)
    (hid : held.lockId = lock.lockId) : Owns p history crowd.world := by
  rcases kept.current with hnone | hnone | ⟨q, other, hq, hother⟩
  · rw [hnone p] at hp
    cases hp
  · rw [World.holding?, hnone] at hheld
    cases hheld
  · rw [Medium.World.holding?_of_decode hother (Lock.decode_encode (kept.legible hq))] at hheld
    have hsame : other = held := Option.some.inj hheld
    subst hsame
    have hqp : q = p := kept.distinct hq hp hid
    exact ⟨other, hqp ▸ hq, hother⟩

/-- An act that acquires no lock, and takes nobody else's away. -/
theorem Sound.keep (sound : Sound clock history crowd) {q : ι} {act : Act} {station : Station}
    {world : World} (kept : Kept clock (⟨crowd, q, act, crowd.move q station world⟩ :: history)
      (crowd.move q station world))
    (hgrants : granted? act = none)
    (hself : ∀ lock, acquired? q history = some lock → Leaving lock.lockId station ∨
      TakenOver clock q history ∨ world.lock = some lock.encode)
    (hlock : world.lock = crowd.world.lock ∨ Owns q history crowd.world) :
    Sound clock (⟨crowd, q, act, crowd.move q station world⟩ :: history)
      (crowd.move q station world) := by
  refine ⟨kept, fun {p lock} hp => ?_⟩
  rw [acquired?_of_none hgrants] at hp
  by_cases hpq : p = q
  · subst hpq
    rw [Crowd.move_station_self]
    exact (hself lock hp).imp_right (Or.imp_left .inr)
  · rw [Crowd.move_station_of_ne _ _ _ hpq]
    rcases sound.held hp with hleaving | htaken | hown
    · exact .inl hleaving
    · exact .inr (.inl (.inr htaken))
    · rcases hlock with hlock | howns
      · exact .inr (.inr (hlock.trans hown))
      · exact (hpq (sound.eq_of_owns ⟨lock, hp, hown⟩ howns)).elim

theorem Sound.grant (sound : Sound clock history crowd) {q : ι} {act : Act} {station : Station}
    {world : World} {lock : Lock}
    (kept : Kept clock (⟨crowd, q, act, crowd.move q station world⟩ :: history)
      (crowd.move q station world))
    (hgrants : granted? act = some lock) (grants : Store.Grants clock crowd.world lock world) :
    Sound clock (⟨crowd, q, act, crowd.move q station world⟩ :: history)
      (crowd.move q station world) := by
  refine ⟨kept, fun {p other} hp => ?_⟩
  by_cases hpq : p = q
  · subst hpq
    have hsame : lock = other := Option.some.inj ((acquired?_of_grants rfl hgrants).symm.trans hp)
    exact .inr (.inr (hsame ▸ grants.lock))
  · rw [acquired?_of_ne (Ne.symm hpq)] at hp
    rw [Crowd.move_station_of_ne _ _ _ hpq]
    rcases sound.held hp with hleaving | htaken | hown
    · exact .inl hleaving
    · exact .inr (.inl (.inr htaken))
    · rcases grants.free with hnone | ⟨held, now, hheld, shown, hexpired⟩
      · rw [hnone] at hown
        cases hown
      · rw [Medium.World.holding?_of_decode hown (Lock.decode_encode (sound.legible hp))] at hheld
        have hsame : other = held := Option.some.inj hheld
        subst hsame
        have hsome : (granted? act).isSome := hgrants ▸ rfl
        exact .inr (.inl (.inl ⟨Ne.symm hpq, hsome, other, now, hp, hown, shown, hexpired⟩))

theorem not_touches {q : ι} {act : Act} {station : Station} {world : World}
    (quiet : Act.records act = false) (hstate : world.state = crowd.world.state)
    (hlock : world.lock = none → crowd.world.lock = none) :
    ¬ Touches ⟨crowd, q, act, crowd.move q station world⟩ := by
  rintro (h | h | ⟨h, h'⟩)
  · rw [quiet] at h
    cases h
  · exact h hstate
  · exact h (hlock h')

/-- An act preserves soundness unless it is late, and only the owner of the lock touches what the
store keeps. -/
theorem Sound.move (sound : Sound clock history crowd) {q : ι} {act : Act} {station : Station}
    {world : World} (moved : Moves clock faults (crowd.station q) crowd.world act station world)
    (hnot : Act.records act = true → ¬ TakenOver clock q history) :
    Sound clock (⟨crowd, q, act, crowd.move q station world⟩ :: history)
        (crowd.move q station world) ∧
      (Touches ⟨crowd, q, act, crowd.move q station world⟩ → Owns q history crowd.world) := by
  have kept := sound.toKept.move moved
  have step := (sound.stage q).step moved
  generalize hq : acquired? q history = own at step
  cases step with
  | acquire granted quiet working grants =>
    refine ⟨sound.grant kept granted grants, fun h => (not_touches quiet grants.state ?_ h).elim⟩
    intro hnone
    rw [grants.lock] at hnone
    cases hnone
  | fail value granted quiet untouched =>
    refine ⟨sound.keep kept granted (fun lock h => ?_) (.inl untouched.lock),
      fun h => (not_touches quiet untouched.state (untouched.lock ▸ id) h).elim⟩
    rw [hq] at h
    cases h
  | look busy granted quiet working same =>
    subst same
    refine ⟨sound.keep kept granted (fun lock h => ?_) (.inl rfl),
      fun h => (not_touches quiet rfl id h).elim⟩
    rcases sound.held h with hleaving | htaken | hown
    · rw [hq] at h
      cases h
      exact (busy hleaving).elim
    · exact .inr (.inl htaken)
    · exact .inr (.inr hown)
  | record busy granted records leaving issued removed =>
    have howns : Owns q history crowd.world := by
      rcases sound.held hq with hleaving | htaken | hown
      · exact (busy hleaving).elim
      · exact (hnot records htaken).elim
      · exact ⟨_, hq, hown⟩
    refine ⟨sound.keep kept granted (fun lock h => ?_) (.inr howns), fun _ => howns⟩
    rw [hq] at h
    cases h
    exact .inl leaving
  | release granted quiet leaving removed =>
    have hself : ∀ lock, acquired? q history = some lock → Leaving lock.lockId station ∨
        TakenOver clock q history ∨ world.lock = some lock.encode := by
      intro lock h
      rw [hq] at h
      cases h
      exact .inl leaving
    rcases removed with rfl | ⟨held, hheld, hid, rfl⟩
    · exact ⟨sound.keep kept granted hself (.inl rfl), fun h => (not_touches quiet rfl id h).elim⟩
    · have howns := sound.owns_of_holding? hq hheld hid
      exact ⟨sound.keep kept granted hself (.inr howns), fun _ => howns⟩

/-! ## Runs -/

theorem Sound.start {start : Calls ι} (hfresh : Fresh start) : Sound clock [] start where
  stage p := .inl ⟨rfl, .inl (hfresh p)⟩
  legible := nofun
  issued := nofun
  distinct := nofun
  current := .inl fun _ => rfl
  lost := nofun
  held := nofun

theorem Kept.of_run {start : Calls ι} (hfresh : Fresh start)
    (h : Crowd.Run (Moves clock faults) start history crowd) : Kept clock history crowd := by
  induction h with
  | start => exact (Sound.start hfresh).toKept
  | act earlier q moved ih => exact ih.move moved

theorem Sound.of_run {start : Calls ι} (hfresh : Fresh start)
    (h : Crowd.Run (Moves clock faults) start history crowd) (hnot : ¬ Late clock history) :
    Sound clock history crowd := by
  induction h with
  | start => exact .start hfresh
  | act earlier q moved ih =>
    have sound := ih fun h => hnot (.inr h)
    exact (sound.move moved fun records taken => hnot (.inl ⟨records, taken⟩)).1

/-- Only the owner of the lock touches what the store keeps, as long as no call records anything
after another one has found its lock expired and taken it over; and whatever is recorded after that
is not recorded by the owner. -/
theorem owned_iff {start : Calls ι} (hfresh : Fresh start)
    (h : Crowd.Run (Moves clock faults) start history crowd) :
    Owned history ↔ ¬ Late clock history := by
  induction h with
  | start => exact iff_of_true trivial id
  | @act history crowd act station world earlier q moved ih =>
    constructor
    · rintro ⟨howns, howned⟩ (⟨records, taken⟩ | hlate)
      · exact (Kept.of_run hfresh earlier).lost taken (howns (.inl records))
      · exact ih.1 howned hlate
    · intro hnot
      have hearlier : ¬ Late clock history := fun h => hnot (.inr h)
      exact ⟨((Sound.of_run hfresh earlier hearlier).move moved
        fun records taken => hnot (.inl ⟨records, taken⟩)).2, ih.2 hearlier⟩

end steps

/-! ## Two calls -/

/-- Two calls that apply one stack, of which nothing is recorded yet. -/
def two : Calls Bool where
  world := ⟨none, none, []⟩
  station
    | false => apply (Session.sinkStack .retain []) "a" none
    | true => apply (Session.sinkStack .retain []) "b" none

theorem exists_creation (now : Instant) : ∃ plan settings trace m,
    planFor (Session.sinkStack .retain []) .apply none now = .ok plan ∧
      plan.isConverged = false ∧ Execution settings plan trace m := by
  obtain ⟨g, hg, hsteps⟩ : ∃ g, Graph.ofStack (Session.sinkStack .retain []) = .ok g ∧
      Synthesis.steps g none = .ok [Session.sinkCreation] := ⟨_, rfl, rfl⟩
  let plan : Plan := {
    createdAt := now
    configHash := Fingerprint.ofGraph g
    steps := [Session.sinkCreation] }
  have h₀ : Execution (.ofApply {}) plan [] _ := .start rfl
  have h₁ := h₀.next (.start rfl)
  have h₂ := h₁.next (@Moment.Move.call _ _ [] _ _ _ _ rfl)
  have h₃ := h₂.next (@Moment.Move.finish _ _ [] _ _ _ _
    (Reply.ok { providerId := "ls-1" } : Reply CreatedResource) _ _ rfl rfl rfl)
  have h₄ := h₃.next (@Moment.Move.collect _ _ [] _ _ _)
  exact ⟨plan, _, _, _, bind_eq_ok_iff.2 ⟨g, hg, bind_eq_ok_iff.2 ⟨_, hsteps, rfl⟩⟩, rfl, h₄⟩

theorem moves_acquire {clock : Clock} {faults : Prop} {stack : Stack} {reviewed : Option Plan}
    {holder : String} (id : String) {now : Instant} {world : World} (hfree : Store.Free clock world)
    (hholder : holder.isEmpty = false) (shown : clock.Shows now) (fresh : id ∉ world.issued) :
    Moves clock faults (apply stack holder reviewed) world
      ⟨.store (.acquire holder), (.ok (.new id holder now) : Except StateError Lock)⟩
      (begun stack reviewed .apply (.ok (.new id holder now))) { world with
        lock := some (Lock.new id holder now).encode
        issued := id :: world.issued } := by
  rw [apply, locked_eq]
  exact .ask (Store.drives_acquire_of_free faults holder hfree hholder shown fresh)

/-- The calls that may come to saving a state, and change nothing before. -/
inductive Saving (clock : Clock) (world : World) : Station → Prop
  | save (state : State) (next : Except StateError Unit → Station) :
    Saving clock world (.ask (.store (.save state)) next)
  | ask {request : Request} {next : Answer request → Station} {answer : Answer request}
    (answered : Reconcile.Responds clock False world request answer world)
    (granted : granted? ⟨request, answer⟩ = none) (quiet : Act.records ⟨request, answer⟩ = false)
    (rest : Saving clock world (next answer)) : Saving clock world (.ask request next)

/-- A call that finds no state can come to saving one. -/
theorem saving_begun {clock : Clock} {world : World} {now : Instant} (hstate : world.state = none)
    (shown : clock.Shows now) (lock : Lock) :
    Saving clock world (begun (Session.sinkStack .retain []) none .apply (.ok lock)) := by
  obtain ⟨plan, settings, trace, m, planned, busy, run⟩ := exists_creation now
  have hload : Drives (Medium.Responds clock False) (Store.onMedium .load) world _ (.ok none)
      world :=
    .ask ⟨.inl (congrArg Except.ok hstate.symm), rfl⟩ (.done _ _)
  have hnow : Reconcile.Responds clock False world .now now world := ⟨shown, rfl⟩
  refine .ask ⟨_, hload⟩ rfl rfl (.ask hnow rfl rfl ?_)
  show Saving clock world ((do
      let plan ← Reconcile.ofExcept (planFor (Session.sinkStack .retain []) .apply none now)
      Reconcile.ofExcept (checkReviewed none plan)
      carryOut (Session.sinkStack .retain []) .apply none plan :
        Reconcile.Action Reconciliation).run >>= fun result => do
    release lock.lockId
    return result)
  rw [planned]
  show Saving clock world ((carryOut (Session.sinkStack .retain []) .apply none plan).run >>=
    fun result => do
      release lock.lockId
      return result)
  rw [carryOut, busy]
  have hreport : Reconcile.Responds clock False world (.execute plan) (.ok m.coordinator.report)
      world :=
    ⟨rfl, fun report h => ⟨settings, trace, m, run, (Except.ok.inj h).symm⟩⟩
  exact .ask hreport rfl rfl (.ask hnow rfl rfl (.save _ _))

section runs

variable {ι : Type} [DecidableEq ι] {clock : Clock} {start crowd : Calls ι} {history : History ι}

/-- Two histories that differ only in acts that neither acquire a lock nor record. -/
structure Alike (clock : Clock) (history earlier : History ι) : Prop where
  acquired? : ∀ p, acquired? p history = acquired? p earlier
  takenOver : ∀ p, TakenOver clock p history ↔ TakenOver clock p earlier
  late : Late clock history ↔ Late clock earlier

theorem Alike.cons {deed : Deed ι Station World Act} (granted : granted? deed.act = none)
    (quiet : Act.records deed.act = false) : Alike clock (deed :: history) history where
  acquired? p := acquired?_of_none granted
  takenOver p := by simp [TakenOver, granted]
  late := by simp [Late, quiet]

theorem Alike.trans {first second third : History ι} (h : Alike clock first second)
    (h' : Alike clock second third) : Alike clock first third where
  acquired? p := (h.acquired? p).trans (h'.acquired? p)
  takenOver p := (h.takenOver p).trans (h'.takenOver p)
  late := h.late.trans h'.late

theorem exists_saving (h : Crowd.Run (Moves clock False) start history crowd) (q : ι)
    (hq : Saving clock crowd.world (crowd.station q)) : ∃ history' crowd' state next,
      Crowd.Run (Moves clock False) start history' crowd' ∧ Alike clock history' history ∧
        crowd'.world = crowd.world ∧ crowd'.station q = .ask (.store (.save state)) next ∧
        ∀ p, p ≠ q → crowd'.station p = crowd.station p := by
  generalize hstation : crowd.station q = station at hq
  generalize hworld : crowd.world = world at hq
  induction hq generalizing history crowd with
  | save state next =>
    exact ⟨history, crowd, state, next, h, ⟨fun _ => rfl, fun _ => .rfl, .rfl⟩, hworld, hstation,
      fun _ _ => rfl⟩
  | @ask request next answer answered granted quiet rest ih =>
    subst hworld
    have hmoves : Moves clock False (crowd.station q) crowd.world ⟨request, answer⟩ (next answer)
        crowd.world := by
      rw [hstation]
      exact .ask answered
    obtain ⟨history', crowd', state, next, h', alike, hworld, hself, hothers⟩ :=
      ih (h.act q hmoves) (Crowd.move_station_self ..) rfl
    exact ⟨history', crowd', state, next, h', alike.trans (.cons granted quiet), hworld, hself,
      fun p hp => (hothers p hp).trans (Crowd.move_station_of_ne _ _ _ hp)⟩

/-- The second of two calls has taken over the lock of the first and saved its state, and the first
is about to save another. -/
theorem exists_overwriting : ∃ history crowd state next,
    Crowd.Run (Moves Clock.twice False) two history crowd ∧ ¬ Late Clock.twice history ∧
      TakenOver Clock.twice false history ∧
      crowd.station false = .ask (.store (.save state)) next := by
  have hstart : Crowd.Run (Moves Clock.twice False) two [] two := .start
  have h₁ := Crowd.Run.act hstart false
    (moves_acquire "1" (.inl rfl) rfl Clock.shows_early List.not_mem_nil)
  obtain ⟨history₂, crowd₂, state, next, h₂, alike₂, hworld₂, hfirst₂, hothers₂⟩ :=
    exists_saving h₁ false (saving_begun rfl Clock.shows_early _)
  have hmoves : Moves Clock.twice False (crowd₂.station true) crowd₂.world
      ⟨.store (.acquire "b"), (.ok (.new "2" "b" Clock.late) : Except StateError Lock)⟩
      (begun (Session.sinkStack .retain []) none .apply (.ok (.new "2" "b" Clock.late)))
      ⟨none, some (Lock.new "2" "b" Clock.late).encode, ["2", "1"]⟩ := by
    rw [hothers₂ true nofun, hworld₂]
    exact moves_acquire "2" (Clock.free_former none ["1"]) rfl Clock.shows_late (by decide)
  have h₃ := h₂.act true hmoves
  obtain ⟨history₄, crowd₄, state₄, next₄, h₄, alike₄, hworld₄, hsecond₄, hothers₄⟩ :=
    exists_saving h₃ true (saving_begun rfl Clock.shows_late _)
  have hsave : Moves Clock.twice False (crowd₄.station true) crowd₄.world
      ⟨.store (.save state₄), (.ok () : Except StateError Unit)⟩ (next₄ (.ok ()))
      (crowd₄.world.put .state (some state₄.encode)) := by
    rw [hsecond₄]
    exact .ask ⟨_, Store.drives_save.2 ⟨rfl, .inl ⟨rfl, rfl⟩⟩⟩
  refine ⟨_, _, state, next, h₄.act true hsave, ?_, ?_, ?_⟩
  · rintro (⟨-, htaken⟩ | hlate)
    · rcases (alike₄.takenOver true).1 htaken with ⟨hne, -⟩ | htaken
      · exact hne rfl
      · obtain ⟨lock, hlock⟩ := ((alike₂.takenOver true).1 htaken).acquired
        cases hlock
    · rcases alike₄.late.1 hlate with ⟨⟨⟩, -⟩ | hlate
      rcases alike₂.late.1 hlate with ⟨⟨⟩, -⟩ | hlate
      exact hlate
  · refine .inr ((alike₄.takenOver false).2 (.inl ⟨nofun, rfl, Clock.former, Clock.late, ?_, ?_,
      Clock.shows_late, by decide⟩))
    · exact alike₂.acquired? false
    · exact congrArg World.lock hworld₂
  · rw [Crowd.move_station_of_ne _ _ _ Bool.false_ne_true, hothers₄ false nofun,
      Crowd.move_station_of_ne _ _ _ Bool.false_ne_true, hfirst₂]

/-- Both calls own the lock when they touch what the store keeps, up to the moment before the first
saves its state. -/
theorem owned_iff_before_overwriting : ∃ history crowd, Fresh two ∧
    Crowd.Run (Moves Clock.twice False) two history crowd ∧ TakenOver Clock.twice false history ∧
    Owned history := by
  obtain ⟨history, crowd, state, next, h, hnot, htaken, -⟩ := exists_overwriting
  have hfresh : Fresh two := by
    rintro (_ | _) <;> exact ⟨_, _, _, _, rfl⟩
  exact ⟨history, crowd, hfresh, h, htaken, (owned_iff hfresh h).2 hnot⟩

/-- A call saves its state over that of another that has taken over its lock. -/
theorem saved_late : ∃ history crowd, Fresh two ∧
    Crowd.Run (Moves Clock.twice False) two history crowd ∧ ¬ Owned history := by
  obtain ⟨history, crowd, state, next, h, -, htaken, hfirst⟩ := exists_overwriting
  have hfresh : Fresh two := by
    rintro (_ | _) <;> exact ⟨_, _, _, _, rfl⟩
  have hsave : Moves Clock.twice False (crowd.station false) crowd.world
      ⟨.store (.save state), (.ok () : Except StateError Unit)⟩ (next (.ok ()))
      (crowd.world.put .state (some state.encode)) := by
    rw [hfirst]
    exact .ask ⟨_, Store.drives_save.2 ⟨rfl, .inl ⟨rfl, rfl⟩⟩⟩
  refine ⟨_, _, hfresh, h.act false hsave, fun howned => ?_⟩
  exact (Kept.of_run hfresh h).lost htaken (howned.1 (.inl rfl))

end runs

end Converge.Sharing
