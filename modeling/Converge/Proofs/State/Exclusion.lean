import Converge.Proofs.Crowd
import Converge.Proofs.State.Medium

/-!
# Mutual exclusion

Processes that acquire and release the lock of one medium, request by request and in any order.
Acquiring looks at the lock and later writes one, and nothing keeps another process from writing in
between. This is the only way in which two of them come to hold the lock, as long as none expires
while it is held.

Main statements: `Locking.exclusive_iff` and `Locking.held_twice`.
-/

namespace Converge.Locking

open Medium Program
open Store hiding Request Answer

/-! ## Processes -/

/-- Where a process is. -/
inductive Station where
  | idle
  | acquiring (rest : Program Medium.calls (Except StateError Lock))
  | releasing (lock : Lock) (rest : Program Medium.calls (Except StateError Unit))

/-- What a process does: it begins an operation, or asks the next request of the one it is in. -/
inductive Act where
  | acquire (holder : String)
  | release
  | ask (exchange : Exchange Medium.calls)

namespace Station

/-- Whether the process has yet to acquire a lock, could not, or has released the one it had. -/
def Idle : Station → Prop
  | .idle | .acquiring (.done (.error _)) | .releasing _ (.done _) => True
  | _ => False

/-- Whether the process has acquired the lock and not yet done with releasing it. -/
def Holds (lock : Lock) : Station → Prop
  | .idle => False
  | .acquiring rest => rest = .done (.ok lock)
  | .releasing held rest => held = lock ∧ ∀ result, rest ≠ .done result

/-- How a process moves on. -/
inductive Moves (clock : Clock) (faults : Prop) : Station → World → Act → Station → World → Prop
  | acquire {station : Station} (world : World) (holder : String) (idle : station.Idle) :
    Moves clock faults station world (.acquire holder)
      (.acquiring (Store.acquire holder).run) world
  | release (world : World) (lock : Lock) :
    Moves clock faults (.acquiring (.done (.ok lock))) world .release
      (.releasing lock (Store.release lock.lockId).run) world
  | askAcquiring {world after : World} {request : Medium.Request} {answer : Medium.Answer request}
    {next : Medium.Answer request → Program Medium.calls (Except StateError Lock)}
    (responded : Responds clock faults world request answer after) :
    Moves clock faults (.acquiring (.ask request next)) world (.ask ⟨request, answer⟩)
      (.acquiring (next answer)) after
  | askReleasing {world after : World} {request : Medium.Request} {answer : Medium.Answer request}
    {lock : Lock} {next : Medium.Answer request → Program Medium.calls (Except StateError Unit)}
    (responded : Responds clock faults world request answer after) :
    Moves clock faults (.releasing lock (.ask request next)) world (.ask ⟨request, answer⟩)
      (.releasing lock (next answer)) after

end Station

namespace Act

/-- Whether the act looks at the lock. -/
def looks : Act → Bool
  | .ask ⟨.read .lock, _⟩ => true
  | _ => false

/-- Whether the act writes a lock. -/
def writes : Act → Bool
  | .ask ⟨.write .lock _, .ok _⟩ => true
  | _ => false

end Act

/-! ## Histories -/

section histories

variable {ι : Type} [DecidableEq ι]

/-- Processes that share a medium. -/
abbrev Processes (ι : Type) := Crowd ι Station World

abbrev History (ι : Type) := List (Deed ι Station World Act)

/-- Whether nobody else holds the lock while one does. -/
def Exclusive (crowd : Processes ι) : Prop :=
  ∀ {p q lock other}, (crowd.station p).Holds lock → (crowd.station q).Holds other → p = q

/-- Who has written a lock since a process last looked at it. -/
def writersSince (q : ι) : History ι → List ι
  | [] => []
  | deed :: earlier =>
    if deed.act.looks && deed.actor = q then []
    else if deed.act.writes then deed.actor :: writersSince q earlier
    else writersSince q earlier

/-- Whether no lock that is held has expired by a time that is looked at. -/
def Lasting : History ι → Prop
  | [] => True
  | deed :: earlier =>
    (∀ now : Instant, deed.act = .ask ⟨.now, now⟩ →
      ∀ p lock, (deed.before.station p).Holds lock → lock.isExpired now = false) ∧
    Lasting earlier

/-- Whether a process writes its lock while another one holds a lock that it has written since the
first looked. -/
def Overtakes (deed : Deed ι Station World Act) (earlier : History ι) : Prop :=
  deed.act.writes = true ∧ ∃ p lock, p ≠ deed.actor ∧ (deed.before.station p).Holds lock ∧
    p ∈ writersSince deed.actor earlier

def Overtaken : History ι → Prop
  | [] => False
  | deed :: earlier => Overtakes deed earlier ∨ Overtaken earlier

end histories

/-! ## How far an acquisition has come -/

/-- What is left of acquiring a lock: all, the decision on the lock that was found, the writing of
a lock, or nothing. -/
inductive Phase where
  | looking
  | judging (found : Lock)
  | claiming
  | over

/-- Whether an acquisition will not write a lock if the given one is there and has not expired. -/
def Phase.Defers (lock : Lock) : Phase → Prop
  | .looking | .over => True
  | .judging found => found = lock
  | .claiming => False

/-- What comes of writing a lock. -/
def written (lock : Lock) : Except StateError Unit → Program Medium.calls (Except StateError Lock)
  | .ok () => .done (.ok lock)
  | .error cause => .done (.error cause)

/-- The part of acquiring a lock that comes once the lock that was there is no obstacle. -/
def proceed (holder : String) : Program Medium.calls (Except StateError Lock) :=
  nameFor holder >>= fun name => (claim name).run

/-- What comes of looking at the lock. -/
def judge (holder : String) :
    Except StateError (Option Lock) → Program Medium.calls (Except StateError Lock)
  | .error cause => .done (.error cause)
  | .ok none => proceed holder
  | .ok (some found) => .ask .now fun now =>
    if found.isExpired now then proceed holder else .done (.error found.refusal)

/-- The programs that a phase may have before it. -/
inductive AtPhase (clock : Clock) : Phase → Program Medium.calls (Except StateError Lock) → Prop
  | looking (holder : String) :
    AtPhase clock .looking (.ask (.read .lock) fun answer => judge holder (lockIn answer))
  | judging {found : Lock} {next : Instant → Program Medium.calls (Except StateError Lock)}
    (expired : ∀ now, found.isExpired now = true → AtPhase clock .claiming (next now))
    (lasts : ∀ now, found.isExpired now = false → next now = .done (.error found.refusal)) :
    AtPhase clock (.judging found) (.ask .now next)
  | holderName {next : String → Program Medium.calls (Except StateError Lock)}
    (rest : ∀ name, AtPhase clock .claiming (next name)) :
    AtPhase clock .claiming (.ask .holderName next)
  | now {next : Instant → Program Medium.calls (Except StateError Lock)}
    (rest : ∀ now, clock.Shows now → AtPhase clock .claiming (next now)) :
    AtPhase clock .claiming (.ask .now next)
  | uniqueId {next : String → Program Medium.calls (Except StateError Lock)}
    (rest : ∀ id, AtPhase clock .claiming (next id)) :
    AtPhase clock .claiming (.ask .uniqueId next)
  | write {lock : Lock} (legible : lock.Legible) :
    AtPhase clock .claiming (.ask (.write .lock lock.encode) (written lock))
  | over (result : Except StateError Lock) : AtPhase clock .over (.done result)

section phases

variable {clock : Clock} {faults : Prop} {world after : World}

theorem claim_run (holder : String) : (claim holder).run =
    .ask .now fun now => .ask .uniqueId fun id =>
      .ask (.write .lock (Lock.new id holder now).encode) (written (Lock.new id holder now)) := by
  refine ask_congr fun now => ask_congr fun id => ask_congr fun answer => ?_
  cases answer <;> rfl

theorem atPhase_claim (holder : String) : AtPhase clock .claiming (claim holder).run := by
  rw [claim_run]
  exact .now fun now shown => .uniqueId fun id => .write (clock.legible_new shown id holder)

theorem atPhase_proceed (holder : String) : AtPhase clock .claiming (proceed holder) := by
  unfold proceed nameFor
  cases holder.isEmpty with
  | true => exact .holderName fun name => atPhase_claim name
  | false => exact atPhase_claim holder

theorem acquire_run (holder : String) :
    (acquire holder).run = .ask (.read .lock) fun answer => judge holder (lockIn answer) := by
  have hproceed : (do let holder ← nameFor holder; claim holder : Medium.Action Lock).run =
      proceed holder := ExceptT.run_bind_lift (nameFor holder) claim
  have hlook : (acquire holder).run = currentLock.run >>= judge holder := by
    rw [acquire_eq, checkFree, bind_assoc, ExceptT.run_bind]
    refine congrArg (currentLock.run >>= ·) (funext fun found => ?_)
    rcases found with cause | _ | found
    · rfl
    · exact hproceed
    · refine ask_congr fun now => ?_
      show ((if !found.isExpired now then throw found.refusal else pure () : Medium.Action Unit) >>=
        fun _ => do let holder ← nameFor holder; claim holder).run = _
      cases found.isExpired now with
      | true => exact hproceed
      | false => rfl
  rw [hlook, currentLock_run]
  rfl

/-- What looking at the lock leads to: nothing if that fails, and otherwise a decision on the lock
that is there. -/
theorem atPhase_judge (clock : Clock) (holder : String) (looked : Except StateError (Option Lock)) :
    ∃ phase, AtPhase clock phase (judge holder looked) ∧ ∀ lock,
      ((∃ cause, looked = .error cause) ∨ looked = .ok (some lock)) → phase.Defers lock := by
  match looked with
  | .error cause => exact ⟨.over, .over _, fun _ _ => trivial⟩
  | .ok none => exact ⟨.claiming, atPhase_proceed holder, by rintro lock (⟨_, ⟨⟩⟩ | ⟨⟨⟩⟩)⟩
  | .ok (some found) =>
    refine ⟨.judging found, .judging (fun now h => ?_) (fun now h => ?_), ?_⟩
    · simpa only [h, if_true] using atPhase_proceed holder
    · simp [h]
    · rintro lock (⟨_, ⟨⟩⟩ | ⟨⟨⟩⟩)
      rfl

theorem AtPhase.ne_done {rest : Program Medium.calls (Except StateError Lock)}
    (h : AtPhase clock .claiming rest) (result : Except StateError Lock) : rest ≠ .done result := by
  cases h <;> nofun

theorem judge_ne_granted (holder : String) (looked : Except StateError (Option Lock))
    (lock : Lock) : judge holder looked ≠ .done (.ok lock) := by
  intro h
  rcases looked with cause | _ | found
  · cases h
  · rw [judge, proceed, nameFor] at h
    cases hempty : holder.isEmpty <;> rw [hempty] at h <;> cases h
  · cases h

end phases

/-! ## How far a release has come -/

/-- What comes of looking at the lock that is to be released. -/
def discard (lockId : String) :
    Except StateError (Option Lock) → Program Medium.calls (Except StateError Unit)
  | .error cause => .done (.error cause)
  | .ok none => .done (.ok ())
  | .ok (some held) =>
    if held.lockId = lockId then .ask (.remove .lock) .done else .done (.ok ())

theorem release_run (lockId : String) :
    (release lockId).run = .ask (.read .lock) fun answer => discard lockId (lockIn answer) := by
  have hlook : (release lockId).run = currentLock.run >>= discard lockId := by
    rw [release, ExceptT.run_bind]
    refine congrArg (currentLock.run >>= ·) (funext fun found => ?_)
    rcases found with cause | _ | held
    · rfl
    · rfl
    · show (if held.lockId = lockId then Medium.remove .lock
        else pure () : Medium.Action Unit).run = _
      rw [discard]
      split <;> rfl
  rw [hlook, currentLock_run]
  rfl

/-- The programs that may be left of releasing a lock. -/
inductive Leaving (lock : Lock) : Program Medium.calls (Except StateError Unit) → Prop
  | looking :
    Leaving lock (.ask (.read .lock) fun answer => discard lock.lockId (lockIn answer))
  | removing : Leaving lock (.ask (.remove .lock) .done)
  | over (result : Except StateError Unit) : Leaving lock (.done result)

/-! ## What every act preserves -/

section acts

variable {ι : Type} [DecidableEq ι] {clock : Clock} {faults : Prop} {crowd : Processes ι}
  {history : History ι}

/-- What holds of processes whose locks last and of which none has been overtaken. Who is past
looking at the lock either defers to the lock that is held, or it was written since. -/
structure Sound (clock : Clock) (history : History ι) (crowd : Processes ι) : Prop where
  recorded : ∀ {p lock}, (crowd.station p).Holds lock →
    lock.Legible ∧ crowd.world.lock = some lock.encode
  alone : Exclusive crowd
  acquiring : ∀ {q rest}, crowd.station q = .acquiring rest → ∃ phase, AtPhase clock phase rest ∧
    ∀ p lock, (crowd.station p).Holds lock → p ∈ writersSince q history ∨ phase.Defers lock
  releasing : ∀ {q lock rest}, crowd.station q = .releasing lock rest → Leaving lock rest

/-- An act that neither writes a lock nor removes the one that is held. -/
theorem Sound.keep (sound : Sound clock history crowd) {q : ι} {act : Act} {station : Station}
    {world : World} (hlock : world.lock = crowd.world.lock) (hwrites : act.writes = false)
    (hholds : ∀ lock, station.Holds lock → (crowd.station q).Holds lock)
    (hacquiring : ∀ rest, station = .acquiring rest → ∃ phase, AtPhase clock phase rest ∧
      ∀ p lock, (crowd.station p).Holds lock →
        p ∈ writersSince q (⟨crowd, q, act, crowd.move q station world⟩ :: history) ∨
          phase.Defers lock)
    (hreleasing : ∀ lock rest, station = .releasing lock rest → Leaving lock rest) :
    Sound clock (⟨crowd, q, act, crowd.move q station world⟩ :: history)
      (crowd.move q station world) := by
  have hbefore : ∀ {p lock}, ((crowd.move q station world).station p).Holds lock →
      (crowd.station p).Holds lock := by
    intro p lock h
    rcases Crowd.of_move (P := Station.Holds lock) h with ⟨rfl, hown⟩ | ⟨-, h⟩
    · exact hholds lock hown
    · exact h
  constructor
  · intro p lock h
    rw [Crowd.move_world, hlock]
    exact sound.recorded (hbefore h)
  · exact fun h h' => sound.alone (hbefore h) (hbefore h')
  · intro r rest hr
    rcases Crowd.station_of_move hr with ⟨rfl, hown⟩ | ⟨hrq, hr⟩
    · obtain ⟨phase, hphase, hdefers⟩ := hacquiring rest hown
      exact ⟨phase, hphase, fun p lock h => hdefers p lock (hbefore h)⟩
    · obtain ⟨phase, hphase, hdefers⟩ := sound.acquiring hr
      refine ⟨phase, hphase, fun p lock h => ?_⟩
      have hsince : writersSince r (⟨crowd, q, act, crowd.move q station world⟩ :: history) =
          writersSince r history := by
        simp [writersSince, hwrites, Ne.symm hrq]
      rw [hsince]
      exact hdefers p lock (hbefore h)
  · intro r lock rest hr
    rcases Crowd.station_of_move hr with ⟨rfl, hown⟩ | ⟨-, hr⟩
    · exact hreleasing lock rest hown
    · exact sound.releasing hr

theorem writersSince_of_quiet {q : ι} {deed : Deed ι Station World Act}
    (hlooks : deed.act.looks = false) (hwrites : deed.act.writes = false) :
    writersSince q (deed :: history) = writersSince q history := by
  simp [writersSince, hlooks, hwrites]

/-- A process begins to acquire the lock. -/
theorem Sound.beginAcquiring (sound : Sound clock history crowd) (q : ι) (holder : String) :
    Sound clock (⟨crowd, q, .acquire holder,
        crowd.move q (.acquiring (acquire holder).run) crowd.world⟩ :: history)
      (crowd.move q (.acquiring (acquire holder).run) crowd.world) := by
  rw [acquire_run]
  refine sound.keep rfl rfl nofun ?_ nofun
  rintro rest ⟨⟩
  exact ⟨.looking, .looking holder, fun _ _ _ => .inr trivial⟩

/-- A process begins to release the lock. -/
theorem Sound.beginReleasing (sound : Sound clock history crowd) {q : ι} {lock : Lock}
    (hq : (crowd.station q).Holds lock) :
    Sound clock (⟨crowd, q, .release,
        crowd.move q (.releasing lock (release lock.lockId).run) crowd.world⟩ :: history)
      (crowd.move q (.releasing lock (release lock.lockId).run) crowd.world) := by
  rw [release_run]
  refine sound.keep rfl rfl ?_ nofun ?_
  · rintro other ⟨rfl, -⟩
    exact hq
  · rintro other rest ⟨⟩
    exact .looking

/-- Looking at the lock shows the one that is held. -/
theorem Sound.lockIn_text? (sound : Sound clock history crowd) {p : ι} {lock : Lock}
    (h : (crowd.station p).Holds lock) :
    lockIn (.ok (crowd.world.text? .lock)) = .ok (some lock) := by
  obtain ⟨legible, hlock⟩ := sound.recorded h
  rw [World.text?, hlock, lockIn_encode legible]

/-- A process that acquires the lock looks at it. -/
theorem Sound.look (sound : Sound clock history crowd) {q : ι} {holder : String}
    {answer : Except StateError (Option String)}
    (hread : Finds (crowd.world.text? .lock) answer) :
    Sound clock (⟨crowd, q, .ask ⟨.read .lock, answer⟩,
        crowd.move q (.acquiring (judge holder (lockIn answer))) crowd.world⟩ :: history)
      (crowd.move q (.acquiring (judge holder (lockIn answer))) crowd.world) := by
  refine sound.keep rfl rfl (fun lock h => (judge_ne_granted _ _ _ h).elim) ?_ nofun
  rintro rest ⟨⟩
  obtain ⟨phase, hphase, hdefers⟩ := atPhase_judge clock holder (lockIn answer)
  refine ⟨phase, hphase, fun p lock h => .inr (hdefers lock ?_)⟩
  rcases hread with rfl | ⟨cause, rfl⟩
  · exact .inr (sound.lockIn_text? h)
  · exact .inl ⟨cause, rfl⟩

/-- A process that could not acquire the lock. -/
theorem Sound.giveUp (sound : Sound clock history crowd) (q : ι) {act : Act} (cause : StateError)
    (hwrites : act.writes = false) :
    Sound clock (⟨crowd, q, act, crowd.move q (.acquiring (.done (.error cause))) crowd.world⟩ ::
      history) (crowd.move q (.acquiring (.done (.error cause))) crowd.world) := by
  refine sound.keep rfl hwrites nofun ?_ nofun
  rintro rest ⟨⟩
  exact ⟨.over, .over _, fun _ _ _ => .inr trivial⟩

/-- A process goes on with acquiring the lock, which has been written since it looked if it is
held. -/
theorem Sound.goOn (sound : Sound clock history crowd) {q : ι} {act : Act} {world : World}
    {next : Program Medium.calls (Except StateError Lock)} (hlock : world.lock = crowd.world.lock)
    (hlooks : act.looks = false) (hwrites : act.writes = false)
    (hnext : AtPhase clock .claiming next)
    (hsince : ∀ p lock, (crowd.station p).Holds lock → p ∈ writersSince q history) :
    Sound clock (⟨crowd, q, act, crowd.move q (.acquiring next) world⟩ :: history)
      (crowd.move q (.acquiring next) world) := by
  refine sound.keep hlock hwrites (fun lock h => (hnext.ne_done _ h).elim) ?_ nofun
  rintro rest ⟨⟩
  refine ⟨.claiming, hnext, fun p lock h => .inl ?_⟩
  rw [writersSince_of_quiet hlooks hwrites]
  exact hsince p lock h

/-- A process writes its lock, while nobody holds one. -/
theorem Sound.grant (sound : Sound clock history crowd) {q : ι} {lock : Lock} {act : Act}
    (legible : lock.Legible) (hwrites : act.writes = true) (hlooks : act.looks = false)
    (hnobody : ∀ p other, ¬ (crowd.station p).Holds other) :
    Sound clock (⟨crowd, q, act,
        crowd.move q (.acquiring (.done (.ok lock))) (crowd.world.put .lock (some lock.encode))⟩ ::
      history)
      (crowd.move q (.acquiring (.done (.ok lock)))
        (crowd.world.put .lock (some lock.encode))) := by
  have hholder : ∀ {p other}, ((crowd.move q (.acquiring (.done (.ok lock)))
      (crowd.world.put .lock (some lock.encode))).station p).Holds other → p = q ∧ other = lock := by
    intro p other h
    rcases Crowd.of_move (P := Station.Holds other) h with ⟨rfl, ⟨⟩⟩ | ⟨-, h⟩
    · exact ⟨rfl, rfl⟩
    · exact (hnobody p other h).elim
  constructor
  · intro p other h
    obtain ⟨rfl, rfl⟩ := hholder h
    exact ⟨legible, rfl⟩
  · intro p r other other' h h'
    rw [(hholder h).1, (hholder h').1]
  · intro r rest hr
    rcases Crowd.station_of_move hr with ⟨rfl, ⟨⟩⟩ | ⟨-, hr⟩
    · exact ⟨.over, .over _, fun _ _ _ => .inr trivial⟩
    · obtain ⟨phase, hphase, -⟩ := sound.acquiring hr
      refine ⟨phase, hphase, fun p other h => .inl ?_⟩
      rw [(hholder h).1]
      simp [writersSince, hlooks, hwrites]
  · intro r other rest hr
    rcases Crowd.station_of_move hr with ⟨-, ⟨⟩⟩ | ⟨-, hr⟩
    exact sound.releasing hr

/-- A process asks the next request of acquiring the lock. -/
theorem Sound.askAcquiring (sound : Sound clock history crowd) {q : ι} {request : Medium.Request}
    {answer : Medium.Answer request} {world : World}
    {next : Medium.Answer request → Program Medium.calls (Except StateError Lock)}
    (hq : crowd.station q = .acquiring (.ask request next))
    (responded : Responds clock faults crowd.world request answer world)
    (hlasting : ∀ now : Instant, Act.ask ⟨request, answer⟩ = .ask ⟨.now, now⟩ →
      ∀ p lock, (crowd.station p).Holds lock → lock.isExpired now = false)
    (hnot : (Act.ask ⟨request, answer⟩).writes = true →
      ∀ p lock, p ≠ q → (crowd.station p).Holds lock → p ∉ writersSince q history) :
    Sound clock (⟨crowd, q, .ask ⟨request, answer⟩, crowd.move q (.acquiring (next answer)) world⟩ ::
      history) (crowd.move q (.acquiring (next answer)) world) := by
  obtain ⟨phase, hphase, hdefers⟩ := sound.acquiring hq
  cases hphase with
  | looking holder =>
    obtain ⟨hread, rfl⟩ := responded
    exact sound.look hread
  | judging expired lasts =>
    rename_i found next
    obtain ⟨shown, rfl⟩ := responded
    cases hexpired : found.isExpired answer with
    | false =>
      rw [lasts answer hexpired]
      exact sound.giveUp q found.refusal rfl
    | true =>
      refine sound.goOn rfl rfl rfl (expired answer hexpired) fun p lock h => ?_
      refine (hdefers p lock h).resolve_right fun hfound => ?_
      rw [show found = lock from hfound, hlasting answer rfl p lock h] at hexpired
      cases hexpired
  | holderName rest =>
    cases responded
    exact sound.goOn rfl rfl rfl (rest answer) fun p lock h => (hdefers p lock h).resolve_right id
  | now rest =>
    obtain ⟨shown, rfl⟩ := responded
    exact sound.goOn rfl rfl rfl (rest answer shown) fun p lock h =>
      (hdefers p lock h).resolve_right id
  | uniqueId rest =>
    obtain ⟨-, rfl⟩ := responded
    exact sound.goOn rfl rfl rfl (rest answer) fun p lock h => (hdefers p lock h).resolve_right id
  | write legible =>
    rcases responded with ⟨rfl, rfl⟩ | ⟨-, ⟨cause, rfl⟩, rfl⟩
    · refine sound.grant legible rfl rfl fun p other h => ?_
      have hp : p ≠ q := by
        rintro rfl
        rw [hq] at h
        cases h
      exact hnot rfl p other hp h ((hdefers p other h).resolve_right id)
    · exact sound.giveUp q cause rfl

/-- A process that is done with releasing its lock. -/
theorem Sound.leave (sound : Sound clock history crowd) {q : ι} {act : Act} (lock : Lock)
    (result : Except StateError Unit) (hwrites : act.writes = false) :
    Sound clock (⟨crowd, q, act, crowd.move q (.releasing lock (.done result)) crowd.world⟩ ::
      history) (crowd.move q (.releasing lock (.done result)) crowd.world) := by
  refine sound.keep rfl hwrites ?_ nofun ?_
  · rintro other ⟨-, h⟩
    exact (h result rfl).elim
  · rintro other rest ⟨⟩
    exact .over result

/-- A process removes the lock that it holds. -/
theorem Sound.remove (sound : Sound clock history crowd) {q : ι} {lock : Lock} {act : Act}
    (hq : (crowd.station q).Holds lock) :
    Sound clock (⟨crowd, q, act,
        crowd.move q (.releasing lock (.done (.ok ()))) (crowd.world.put .lock none)⟩ :: history)
      (crowd.move q (.releasing lock (.done (.ok ()))) (crowd.world.put .lock none)) := by
  have hnobody : ∀ {p other}, ¬ ((crowd.move q (.releasing lock (.done (.ok ())))
      (crowd.world.put .lock none)).station p).Holds other := by
    intro p other h
    rcases Crowd.of_move (P := Station.Holds other) h with ⟨-, h⟩ | ⟨hp, h⟩
    · exact h.2 _ rfl
    · exact hp (sound.alone h hq)
  constructor
  · exact fun h => (hnobody h).elim
  · exact fun h => (hnobody h).elim
  · intro r rest hr
    rcases Crowd.station_of_move hr with ⟨-, ⟨⟩⟩ | ⟨-, hr⟩
    obtain ⟨phase, hphase, -⟩ := sound.acquiring hr
    exact ⟨phase, hphase, fun p other h => (hnobody h).elim⟩
  · intro r other rest hr
    rcases Crowd.station_of_move hr with ⟨-, ⟨⟩⟩ | ⟨-, hr⟩
    · exact .over _
    · exact sound.releasing hr

/-- A process asks the next request of releasing its lock, which it finds to be there. -/
theorem Sound.askReleasing (sound : Sound clock history crowd) {q : ι} {lock : Lock}
    {request : Medium.Request} {answer : Medium.Answer request} {world : World}
    {next : Medium.Answer request → Program Medium.calls (Except StateError Unit)}
    (hq : crowd.station q = .releasing lock (.ask request next))
    (responded : Responds clock faults crowd.world request answer world) :
    Sound clock (⟨crowd, q, .ask ⟨request, answer⟩,
        crowd.move q (.releasing lock (next answer)) world⟩ :: history)
      (crowd.move q (.releasing lock (next answer)) world) := by
  have hholds : (crowd.station q).Holds lock := by
    rw [hq]
    exact ⟨rfl, nofun⟩
  cases sound.releasing hq with
  | looking =>
    obtain ⟨rfl | ⟨cause, rfl⟩, rfl⟩ := responded
    · have hnext : discard lock.lockId (lockIn (.ok (crowd.world.text? .lock))) =
          .ask (.remove .lock) .done := by
        rw [sound.lockIn_text? hholds, discard, if_pos rfl]
      simp only [hnext]
      refine sound.keep rfl rfl ?_ nofun ?_
      · rintro other ⟨rfl, -⟩
        exact hholds
      · rintro other rest ⟨⟩
        exact .removing
    · exact sound.leave lock _ rfl
  | removing =>
    rcases responded with ⟨rfl, rfl⟩ | ⟨-, ⟨cause, rfl⟩, rfl⟩
    · exact sound.remove hholds
    · exact sound.leave lock _ rfl

/-- Every act preserves soundness if it overtakes nobody and no lock has expired by it. -/
theorem Sound.move (sound : Sound clock history crowd) {q : ι} {act : Act} {station : Station}
    {world : World}
    (moved : Station.Moves clock faults (crowd.station q) crowd.world act station world)
    (hlasting : ∀ now : Instant, act = .ask ⟨.now, now⟩ →
      ∀ p lock, (crowd.station p).Holds lock → lock.isExpired now = false)
    (hnot : act.writes = true →
      ∀ p lock, p ≠ q → (crowd.station p).Holds lock → p ∉ writersSince q history) :
    Sound clock (⟨crowd, q, act, crowd.move q station world⟩ :: history)
      (crowd.move q station world) := by
  generalize hq : crowd.station q = before at moved
  generalize hworld : crowd.world = there at moved
  cases moved with
  | acquire holder idle =>
    subst hworld
    exact sound.beginAcquiring q _
  | release _ lock =>
    subst hworld
    exact sound.beginReleasing (by rw [hq]; rfl)
  | askAcquiring responded =>
    subst hworld
    exact sound.askAcquiring hq responded hlasting hnot
  | askReleasing responded =>
    subst hworld
    exact sound.askReleasing hq responded

theorem Sound.start {start : Processes ι} (hidle : ∀ p, start.station p = .idle) :
    Sound clock [] start := by
  have hnobody : ∀ {p lock}, ¬ (start.station p).Holds lock := by
    intro p lock h
    rwa [hidle p] at h
  constructor
  · exact fun h => (hnobody h).elim
  · exact fun h => (hnobody h).elim
  · intro q rest hq
    rw [hidle q] at hq
    cases hq
  · intro q lock rest hq
    rw [hidle q] at hq
    cases hq

/-- Processes whose locks last are sound up to the first that is overtaken. -/
theorem Sound.of_run {start : Processes ι} (hidle : ∀ p, start.station p = .idle)
    (h : Crowd.Run (Station.Moves clock faults) start history crowd) (hlasting : Lasting history)
    (hnot : ¬ Overtaken history) : Sound clock history crowd := by
  induction h with
  | start => exact .start hidle
  | @act history crowd act station world earlier q moved ih =>
    have sound := ih hlasting.2 (fun h => hnot (.inr h))
    exact sound.move moved hlasting.1 fun hwrites p lock hp hholds hsince =>
      hnot (.inl ⟨hwrites, p, lock, hp, hholds, hsince⟩)

/-- Who writes a lock holds it then. -/
theorem Sound.holds_of_writes (sound : Sound clock history crowd) {q : ι} {act : Act}
    {station : Station} {world : World}
    (moved : Station.Moves clock faults (crowd.station q) crowd.world act station world)
    (hwrites : act.writes = true) : ∃ lock, station.Holds lock := by
  generalize hq : crowd.station q = before at moved
  generalize hworld : crowd.world = there at moved
  cases moved with
  | acquire holder idle => cases hwrites
  | release _ lock => cases hwrites
  | askAcquiring responded =>
    obtain ⟨phase, hphase, -⟩ := sound.acquiring hq
    cases hphase with
    | write legible =>
      obtain ⟨rfl, -⟩ | ⟨-, ⟨cause, rfl⟩, -⟩ := responded
      · exact ⟨_, rfl⟩
      · cases hwrites
    | _ => cases hwrites
  | askReleasing responded =>
    cases sound.releasing hq <;> cases hwrites

/-- As long as no lock expires while it is held, nobody else ever holds the lock while one does,
unless some process has written its lock over that of another which it could not have seen. -/
theorem exclusive_iff {start : Processes ι} (hidle : ∀ p, start.station p = .idle)
    (h : Crowd.Run (Station.Moves clock faults) start history crowd) (hlasting : Lasting history) :
    (∀ deed ∈ history, Exclusive deed.after) ↔ ¬ Overtaken history := by
  constructor
  · intro hexclusive hovertaken
    induction h with
    | start => exact hovertaken
    | @act history crowd act station world earlier q moved ih =>
      by_cases hbefore : Overtaken history
      · exact ih hlasting.2 (fun deed h => hexclusive deed (.tail _ h)) hbefore
      obtain ⟨hwrites, p, lock, hp, hholds, -⟩ := hovertaken.resolve_right hbefore
      have sound := Sound.of_run hidle earlier hlasting.2 hbefore
      obtain ⟨own, hown⟩ := sound.holds_of_writes moved hwrites
      refine hp (@hexclusive _ (.head _) p q lock own ?_ ?_)
      · rwa [Crowd.move_station_of_ne _ _ _ hp]
      · rwa [Crowd.move_station_self]
  · intro hnot
    induction h with
    | start => exact fun deed h => (List.not_mem_nil h).elim
    | @act history crowd act station world earlier q moved ih =>
      have sound := Sound.of_run hidle (.act earlier q moved) hlasting hnot
      intro deed hdeed
      rcases List.mem_cons.1 hdeed with rfl | hdeed
      · exact sound.alone
      · exact ih hlasting.2 (fun h => hnot (.inr h)) deed hdeed

end acts

/-! ## Two processes -/

/-- Two processes that have not begun, with no lock there. -/
def two : Processes Bool where
  world := ⟨none, none, []⟩
  station _ := .idle

/-- The lock of the second. -/
abbrev second : Lock := .new "2" "b" Clock.early

/-- Both processes have looked, and one of them has written its lock. -/
theorem looked_before_written : ∃ history crowd,
    Crowd.Run (Station.Moves Clock.twice False) two history crowd ∧ Lasting history ∧
      ¬ Overtaken history ∧ crowd.station false = .acquiring (.done (.ok Clock.former)) ∧
      crowd.station true = .acquiring
        (.ask (.write .lock second.encode) (written second)) := by
  have hstart : Crowd.Run (Station.Moves Clock.twice False) two [] two := .start
  have h := Crowd.Run.act hstart false (.acquire _ "a" trivial)
  replace h := Crowd.Run.act h true (.acquire _ "b" trivial)
  replace h := Crowd.Run.act h false (.askAcquiring ⟨.inl rfl, rfl⟩)
  replace h := Crowd.Run.act h true (.askAcquiring ⟨.inl rfl, rfl⟩)
  replace h := Crowd.Run.act h false (.askAcquiring ⟨Clock.shows_early, rfl⟩)
  replace h := Crowd.Run.act h true (.askAcquiring ⟨Clock.shows_early, rfl⟩)
  replace h := Crowd.Run.act h false (.askAcquiring ⟨List.not_mem_nil (a := "1"), rfl⟩)
  replace h := Crowd.Run.act h true (.askAcquiring (show "2" ∉ ["1"] ∧ _ from ⟨by decide, rfl⟩))
  replace h := Crowd.Run.act h false (.askAcquiring (.inl ⟨rfl, rfl⟩))
  refine ⟨_, _, h, ?_, ?_, rfl, ?_⟩
  · refine ⟨nofun, nofun, nofun, nofun, ?_, ?_, nofun, nofun, nofun, trivial⟩ <;>
      rintro now - (_ | _) lock ⟨⟩
  · rintro (⟨-, p, lock, hp, hholds, -⟩ | hearlier)
    · cases p with
      | false => exact hp rfl
      | true => cases hholds
    · -- no other act writes
      obtain ⟨⟨⟩, -⟩ | ⟨⟨⟩, -⟩ | ⟨⟨⟩, -⟩ | ⟨⟨⟩, -⟩ | ⟨⟨⟩, -⟩ | ⟨⟨⟩, -⟩ | ⟨⟨⟩, -⟩ | ⟨⟨⟩, -⟩ | hnone :=
        hearlier
      exact hnone
  · exact congrArg Station.acquiring (ask_congr fun answer => by cases answer <;> rfl)

/-- With the lock of the first process written, it alone holds it. -/
theorem exclusive_iff_of_two : ∃ history crowd, (∀ p, two.station p = .idle) ∧
    Crowd.Run (Station.Moves Clock.twice False) two history crowd ∧ Lasting history ∧
    ∀ deed ∈ history, Exclusive deed.after := by
  obtain ⟨history, crowd, h, hlasting, hnot, -⟩ := looked_before_written
  exact ⟨history, crowd, fun _ => rfl, h, hlasting,
    (exclusive_iff (fun _ => rfl) h hlasting).2 hnot⟩

/-- Two processes hold the lock at once when both have looked before either writes. -/
theorem held_twice : ∃ history crowd,
    Crowd.Run (Station.Moves Clock.twice False) two history crowd ∧ Lasting history ∧
      ¬ Exclusive crowd := by
  obtain ⟨history, crowd, h, hlasting, -, hfirst, hsecond⟩ := looked_before_written
  have hwrite : Station.Moves Clock.twice False (crowd.station true) crowd.world
      (.ask ⟨.write .lock second.encode, (.ok () : Except StateError Unit)⟩)
      (.acquiring (.done (.ok second)))
      (crowd.world.put .lock (some second.encode)) := by
    rw [hsecond]
    exact .askAcquiring (.inl ⟨rfl, rfl⟩)
  refine ⟨_, _, h.act true hwrite, ⟨nofun, hlasting⟩, fun hexclusive => ?_⟩
  have hboth : true = false := by
    refine @hexclusive true false second Clock.former ?_ ?_
    · rw [Crowd.move_station_self]
      rfl
    · rw [Crowd.move_station_of_ne _ _ _ Bool.false_ne_true, hfirst]
      rfl
  cases hboth

end Converge.Locking
