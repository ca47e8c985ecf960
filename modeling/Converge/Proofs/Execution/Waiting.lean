import Mathlib.Algebra.Group.Action.Defs
import Mathlib.Algebra.GroupWithZero.Nat
import Mathlib.Algebra.Order.BigOperators.Group.List
import Mathlib.Algebra.Order.Group.Nat
import Mathlib.Data.Finset.Card
import Converge.Proofs.Execution.Dispatch
import Converge.Proofs.Execution.Run

/-!
# Runs wait for their workers

A run that comes to a report has taken in every worker that it has started. Its bounds on how often
anything is awaited are never reached: whenever workers run, some of them end or have less left to
try, and for every worker taken in there is one step less that is pending or under way.

Main statement: `Run.quiet_of_apply`.
-/

namespace Converge

open Program (Exchange Runs runs_bind_iff runs_pure_iff)

variable {settings : RunSettings} {plan : Plan}

/-! ## Steps that are left -/

namespace Coordinator

/-- The indices of the steps that are pending. -/
def pending (plan : Plan) (c : Coordinator) : Finset Nat :=
  (Finset.range plan.steps.length).filter fun i => c.schedule.statusAt? i = some .pending

/-- How many steps are pending or under way. -/
def load (plan : Plan) (c : Coordinator) : Nat := (c.pending plan).card + c.running

theorem card_pending_le (plan : Plan) (c : Coordinator) :
    (c.pending plan).card ≤ plan.steps.length := by
  have hcard := Finset.card_filter_le (Finset.range plan.steps.length) fun i =>
    c.schedule.statusAt? i = some .pending
  rwa [Finset.card_range] at hcard

theorem load_start : (Coordinator.start plan).load plan ≤ plan.steps.length :=
  card_pending_le plan (.start plan)

end Coordinator

namespace Moment

variable {m m' : Moment} {event : Event}

theorem Move.pending_subset (hordered : plan.isWellOrdered = true) (hm : m.Sound plan)
    (move : m.Move settings event m') :
    m'.coordinator.pending plan ⊆ m.coordinator.pending plan := by
  intro i hi
  obtain ⟨hrange, hpending⟩ := Finset.mem_filter.1 hi
  exact Finset.mem_filter.2 ⟨hrange, (move.pending hordered hm hpending).1⟩

theorem Move.pending_ssubset (hordered : plan.isWellOrdered = true) (hm : m.Sound plan)
    (move : m.Move settings event m') {i : Nat} (htaken : event.taken? = some i) :
    m'.coordinator.pending plan ⊂ m.coordinator.pending plan := by
  obtain ⟨-, hpending, step, hplanned, -⟩ := move.taken hordered hm htaken
  have hrange := Finset.mem_range.2 (List.getElem?_eq_some_iff.1 hplanned).1
  refine (Finset.ssubset_iff_of_subset (move.pending_subset hordered hm)).2
    ⟨i, Finset.mem_filter.2 ⟨hrange, hpending⟩, fun hi => ?_⟩
  exact (move.pending hordered hm (Finset.mem_filter.1 hi).2).2 htaken

theorem Move.load_le (hordered : plan.isWellOrdered = true) (hm : m.Sound plan)
    (move : m.Move settings event m') (hrunning : m'.coordinator.running ≤ m.coordinator.running +
      event.taken?.toList.length) : m'.coordinator.load plan ≤ m.coordinator.load plan := by
  rw [Coordinator.load, Coordinator.load]
  cases htaken : event.taken? with
  | none =>
    have hcard := Finset.card_le_card (move.pending_subset hordered hm)
    rw [htaken] at hrunning
    exact Nat.add_le_add hcard hrunning
  | some i =>
    have hcard := Finset.card_lt_card (move.pending_ssubset hordered hm htaken)
    rw [htaken] at hrunning
    simp only [Option.toList_some, List.length_singleton] at hrunning
    omega

end Moment

namespace Coordinator

theorem attempts_of_fill {limit : Nat} (fuel : Nat) {c : Coordinator} {w : Worker}
    (hw : w ∈ (c.fill limit fuel).2) : w.attempts = 0 := by
  induction fuel generalizing c with
  | zero => cases hw
  | succ fuel ih =>
    rw [fill] at hw
    split at hw
    · cases hw
    · exact ih hw
    · next c' first htake =>
      rcases List.mem_cons.1 hw with rfl | hw
      · obtain ⟨_, _, step, -, -, hdispatch, -⟩ := takeNext_eq_some htake
        rw [dispatch] at hdispatch
        split at hdispatch
        · cases hdispatch
        · split at hdispatch
          · obtain rfl := Sum.inr.inj hdispatch
            rfl
          · cases hdispatch
      · exact ih hw

/-- Starting steps leaves no more to be done than before, and every worker counts as under way. -/
theorem load_fill (fuel : Nat) {trace : List Event} {c : Coordinator} {jobs : List Job}
    (h : Execution settings plan trace ⟨c, jobs⟩) :
    (c.fill settings.concurrency fuel).1.load plan ≤ c.load plan ∧
      (c.fill settings.concurrency fuel).1.running =
        c.running + (c.fill settings.concurrency fuel).2.length := by
  induction fuel generalizing trace c jobs with
  | zero => exact ⟨Nat.le_refl _, rfl⟩
  | succ fuel ih =>
    rw [fill]
    split
    · exact ⟨Nat.le_refl _, rfl⟩
    · next c' outcome htake =>
      have move : Moment.Move settings ⟨c, jobs⟩ (.settled outcome) ⟨c', jobs⟩ := .settle htake
      obtain ⟨hload, hrunning⟩ := ih (h.next move)
      obtain ⟨-, hsame⟩ := takeNext_inl htake
      have hless := move.load_le h.isWellOrdered h.sound (hsame.le.trans (Nat.le_add_right ..))
      exact ⟨hload.trans hless, hrunning.trans (by rw [hsame])⟩
    · next c' w htake =>
      have move : Moment.Move settings ⟨c, jobs⟩ (.started w.step) ⟨c', jobs ++ [⟨w, .resting⟩]⟩ :=
        .start htake
      obtain ⟨hload, hrunning⟩ := ih (h.next move)
      obtain ⟨-, hmore⟩ := takeNext_inr htake
      have hless := move.load_le h.isWellOrdered h.sound hmore.le
      dsimp only
      refine ⟨hload.trans hless, hrunning.trans ?_⟩
      rw [hmore, List.length_cons]
      omega

/-- Steps are started until none can be. -/
theorem takeNext_fill {fuel : Nat} {trace : List Event} {c : Coordinator} {jobs : List Job}
    (h : Execution settings plan trace ⟨c, jobs⟩) (hfuel : (c.pending plan).card < fuel) :
    (c.fill settings.concurrency fuel).1.takeNext settings.concurrency = none := by
  -- Every step that is taken is one less that is pending.
  induction fuel generalizing trace c jobs with
  | zero => exact absurd hfuel (Nat.not_lt_zero _)
  | succ fuel ih =>
    rw [fill]
    split
    · next hnone => exact hnone
    · next c' outcome htake =>
      have move : Moment.Move settings ⟨c, jobs⟩ (.settled outcome) ⟨c', jobs⟩ := .settle htake
      have hless := Finset.card_lt_card (move.pending_ssubset h.isWellOrdered h.sound rfl)
      exact ih (h.next move) (hless.trans_le (Nat.le_of_lt_succ hfuel))
    · next c' w htake =>
      have move : Moment.Move settings ⟨c, jobs⟩ (.started w.step) ⟨c', jobs ++ [⟨w, .resting⟩]⟩ :=
        .start htake
      have hless := Finset.card_lt_card (move.pending_ssubset h.isWellOrdered h.sound rfl)
      exact ih (h.next move) (hless.trans_le (Nat.le_of_lt_succ hfuel))

end Coordinator

/-! ## Workers that are left -/

namespace Run

/-- How often a worker wakes at most until it ends. -/
def wakesLeft (policy : RetryPolicy) : Wake × Worker → Nat
  | (.attempt, w) => 2 * (policy.maxAttempts - w.attempts)
  | (.call, w) => 2 * (policy.maxAttempts - w.attempts) - 1

/-- The workers that are to wake some time, and for what. -/
def agenda (r : Run) : List (Wake × Worker) :=
  r.started.map (.attempt, ·) ++ r.sleepers.map fun s => (s.wake, s.worker)

/-- Whether the coordinator of a run has all workers accounted for, `due` among them, and they wake
so often at most. -/
structure Tended (policy : RetryPolicy) (c : Coordinator) (due : List (Wake × Worker))
    (patience : Nat) (r : Run) : Prop where
  coordinator : r.coordinator = c
  running : c.running = due.length + r.agenda.length + r.finished.length
  attempts : ∀ a ∈ due ++ r.agenda, a.2.attempts < policy.maxAttempts
  wakes : ((due ++ r.agenda).map (wakesLeft policy)).sum ≤ patience

variable {policy : RetryPolicy} {c : Coordinator} {due due' : List (Wake × Worker)}
  {patience : Nat} {r r' : Run} {wake : Wake} {w : Worker} {exchanges : List (Exchange Provider.calls)}

theorem Tended.regroup (h : Tended policy c due patience r)
    (hcoordinator : r'.coordinator = r.coordinator)
    (hfinished : r'.finished.length = r.finished.length)
    (hperm : (due' ++ r'.agenda).Perm (due ++ r.agenda)) : Tended policy c due' patience r' := by
  refine ⟨hcoordinator.trans h.coordinator, ?_, fun a ha => h.attempts a (hperm.mem_iff.1 ha), ?_⟩
  · have hlength := hperm.length_eq
    rw [List.length_append, List.length_append] at hlength
    rw [hfinished, h.running, hlength]
  · rw [(hperm.map _).sum_eq]
    exact h.wakes

theorem Tended.mono {patience' : Nat} (h : Tended policy c due patience r)
    (hle : patience ≤ patience') : Tended policy c due patience' r :=
  ⟨h.coordinator, h.running, h.attempts, h.wakes.trans hle⟩

/-! ### One worker -/

theorem Tended.replace {wake' : Wake} {w' : Worker}
    (h : Tended policy c ((wake, w) :: due) (patience + 1) r)
    (hattempts : w'.attempts < policy.maxAttempts)
    (hless : wakesLeft policy (wake', w') < wakesLeft policy (wake, w)) :
    Tended policy c ((wake', w') :: due) patience r := by
  obtain ⟨hcoordinator, hrunning, hall, hwakes⟩ := h
  refine ⟨hcoordinator, hrunning, fun a ha => ?_, ?_⟩
  · rcases List.mem_cons.1 ha with rfl | ha
    · exact hattempts
    · exact hall a (List.mem_cons_of_mem _ ha)
  · simp only [List.cons_append, List.map_cons, List.sum_cons] at hwakes ⊢
    omega

theorem wakesLeft_pos (h : w.attempts < policy.maxAttempts) : 0 < wakesLeft policy (wake, w) := by
  cases wake <;> simp only [wakesLeft] <;> omega

theorem Tended.finish (h : Tended policy c ((wake, w) :: due) (patience + 1) r)
    (result : Option Outcome) : Tended policy c due patience (r.finish result) := by
  obtain ⟨hcoordinator, hrunning, hall, hwakes⟩ := h
  have hagenda : (r.finish result).agenda = r.agenda := rfl
  have hpos : 0 < wakesLeft policy (wake, w) := wakesLeft_pos (hall _ (List.mem_cons_self ..))
  refine ⟨hcoordinator, ?_, fun a ha => hall a (List.mem_cons_of_mem _ ha), ?_⟩
  · have hfinished : (r.finish result).finished.length = r.finished.length + 1 := by
      simp [Run.finish]
    rw [List.length_cons] at hrunning
    rw [hagenda, hfinished]
    exact hrunning.trans (by omega)
  · simp only [hagenda, List.cons_append, List.map_cons, List.sum_cons] at hwakes ⊢
    omega

theorem Tended.sleep {delay : Nat} (h : Tended policy c ((wake, w) :: due) patience r) :
    Tended policy c due patience (r.sleep delay wake w) := by
  have hagenda : (r.sleep delay wake w).agenda.Perm ((wake, w) :: r.agenda) :=
    (((insertSleeper_perm ⟨r.clock + delay, wake, w⟩ r.sleepers).map _).append_left _).trans
      List.perm_middle
  have hperm := (hagenda.append_left due).trans List.perm_middle
  obtain ⟨hcoordinator, hrunning, hall, hwakes⟩ := h
  refine ⟨hcoordinator, ?_, fun a ha => hall a (hperm.mem_iff.1 ha), ?_⟩
  · rw [hagenda.length_eq, List.length_cons]
    rw [List.length_cons] at hrunning
    simp only [Run.sleep]
    omega
  · rw [(hperm.map _).sum_eq]
    exact hwakes

theorem afterCall_attempts {w' : Worker} {reply : Reply (Option String × Outputs)} {delay : Nat}
    (h : w.afterCall policy reply = .retry w' delay) :
    w'.attempts = w.attempts + 1 ∧ w'.attempts < policy.maxAttempts := by
  simp only [Worker.afterCall] at h
  split at h
  · cases h
  · split at h
    · next hagain =>
      obtain ⟨rfl, -⟩ := Progress.retry.inj h
      simp only [Bool.and_eq_true, decide_eq_true_eq] at hagain
      exact ⟨rfl, hagain.2⟩
    · cases h
  · cases h

/-- A worker that runs has ended in the end, or sleeps with less left to try. -/
theorem Tended.runWorker {fuel : Nat}
    (h : Tended settings.retry c ((wake, w) :: due) (patience + 1) r)
    (hfuel : wakesLeft settings.retry (wake, w) ≤ fuel)
    (hruns : Runs (runWorker settings fuel wake w r) exchanges r') :
    Tended settings.retry c due patience r' := by
  have hattempts : w.attempts < settings.retry.maxAttempts := h.attempts _ (List.mem_cons_self ..)
  -- By induction on the fuel: it bounds what the worker has left, and each turn takes from both.
  induction fuel generalizing wake w r exchanges with
  | zero => exact absurd hfuel (wakesLeft_pos hattempts).not_ge
  | succ fuel ih =>
    rw [Run.runWorker] at hruns
    split at hruns
    · next hattempt =>
      obtain ⟨rfl, -⟩ : wake = .attempt ∧ w.canCall = true := by simpa using hattempt
      have hless : wakesLeft settings.retry (.call, w) <
          wakesLeft settings.retry (.attempt, w) := by
        simp only [wakesLeft]
        omega
      have hbegun : Tended settings.retry c ((.call, w) :: due) patience (r.beginCall settings) :=
        (h.replace hattempts hless).regroup rfl rfl (.refl _)
      dsimp only at hruns
      split at hruns
      · exact ih (hbegun.mono (Nat.le_succ _)) (by omega) hruns hattempts
      · obtain ⟨-, rfl⟩ := runs_pure_iff.1 hruns
        exact hbegun.sleep
    · obtain ⟨called, rest, reply, -, -, hrest⟩ := runs_bind_iff.1 hruns
      have hended : Tended settings.retry c ((wake, w) :: due) (patience + 1)
          (if w.canCall then r.endCall else r) := by
        split
        · exact h.regroup rfl rfl (.refl _)
        · exact h
      dsimp only at hrest
      split at hrest
      · obtain ⟨-, rfl⟩ := runs_pure_iff.1 hrest
        exact hended.finish _
      · obtain ⟨-, rfl⟩ := runs_pure_iff.1 hrest
        exact hended.finish none
      · next w' delay hprogress =>
        obtain ⟨hnext, hattempts'⟩ := afterCall_attempts hprogress
        have hless : wakesLeft settings.retry (.attempt, w') <
            wakesLeft settings.retry (wake, w) := by
          cases wake <;> simp only [wakesLeft] <;> omega
        have hreplaced := hended.replace hattempts' hless
        split at hrest
        · exact ih (hreplaced.mono (Nat.le_succ _)) (by omega) hrest hattempts'
        · obtain ⟨-, rfl⟩ := runs_pure_iff.1 hrest
          exact hreplaced.sleep

theorem Tended.runEach {α : Type} {items : List α} (wake : α → Wake) (worker : α → Worker)
    (h : Tended settings.retry c (items.map (fun a => (wake a, worker a)) ++ due)
      (patience + items.length) r)
    (hruns : Runs (items.foldlM (fun r a => r.runOn settings (wake a) (worker a)) r) exchanges r') :
    Tended settings.retry c due patience r' := by
  induction items generalizing exchanges r with
  | nil =>
    rw [List.foldlM_nil, runs_pure_iff] at hruns
    obtain ⟨-, rfl⟩ := hruns
    exact h
  | cons item items ih =>
    rw [List.foldlM_cons] at hruns
    obtain ⟨first, others, mid, -, hfirst, hothers⟩ := runs_bind_iff.1 hruns
    refine ih (h.runWorker ?_ hfirst) hothers
    generalize wake item = first
    cases first <;> simp only [wakesLeft] <;> omega

/-! ### Waiting for one -/

theorem Tended.pos (h : Tended policy c due patience r) {a : Wake × Worker}
    (ha : a ∈ due ++ r.agenda) : 0 < patience := by
  have hone := List.single_le_sum (fun _ _ => Nat.zero_le _) _
    (List.mem_map_of_mem (f := wakesLeft policy) ha)
  exact (wakesLeft_pos (h.attempts a ha)).trans_le (hone.trans h.wakes)

/-- Whenever anybody can run, there is less left to try afterwards. -/
theorem Tended.advance {result : Option Run} (h : Tended settings.retry c [] patience r)
    (hruns : Runs (r.advance settings) exchanges result) :
    (result = none ∧ r.agenda = []) ∨
      ∃ next less, result = some next ∧ less < patience ∧ Tended settings.retry c [] less next := by
  simp only [Run.advance] at hruns
  split at hruns
  · next hstarted hsleepers =>
    obtain ⟨-, rfl⟩ := runs_pure_iff.1 hruns
    refine .inl ⟨rfl, ?_⟩
    rw [agenda, hstarted, hsleepers]
    rfl
  · next first others hstarted hsleepers =>
    obtain ⟨paused, rest, ⟨⟩, -, -, hrest⟩ := runs_bind_iff.1 hruns
    obtain ⟨woken, hwoken, rfl⟩ := Program.runs_map_iff.1 hrest
    generalize hdue : r.sleepers.takeWhile (·.wakesAt = first.wakesAt) = due at hwoken
    have hsplit : due ++ r.sleepers.drop due.length = r.sleepers := by
      have hprefix : due <+: r.sleepers := hdue ▸ List.takeWhile_prefix _
      rw [List.prefix_iff_eq_append.1 hprefix]
    have hsome : 0 < due.length := by
      rw [← hdue, hsleepers, List.takeWhile_cons_of_pos (by simp)]
      exact Nat.succ_pos _
    -- The first of them wakes once more, so there is patience to spend.
    obtain ⟨less, rfl⟩ : ∃ less, patience = less + 1 := by
      refine Nat.exists_eq_add_one.2 (h.pos (a := (first.wake, first.worker)) ?_)
      simp [agenda, hsleepers]
    have hawake : Tended settings.retry c
        (due.map (fun s => (s.wake, s.worker)) ++ []) (less + 1)
        { r with clock := first.wakesAt, sleepers := r.sleepers.drop due.length } := by
      refine h.regroup rfl rfl (.of_eq ?_)
      simp only [agenda, hstarted, List.append_nil, List.map_nil, List.nil_append,
        ← List.map_append, hsplit]
    exact .inr ⟨woken, less, rfl, Nat.lt_succ_self _,
      (hawake.mono (by omega)).runEach Sleeper.wake Sleeper.worker hwoken⟩
  · next hnone hsome =>
    obtain ⟨woken, hwoken, rfl⟩ := Program.runs_map_iff.1 hruns
    have hstarted : r.started ≠ [] := by
      intro hstarted
      cases hsleepers : r.sleepers with
      | nil => exact hnone hstarted hsleepers
      | cons first others => exact hsome first others hstarted hsleepers
    obtain ⟨w, ws, hws⟩ := List.exists_cons_of_ne_nil hstarted
    obtain ⟨less, rfl⟩ : ∃ less, patience = less + 1 := by
      refine Nat.exists_eq_add_one.2 (h.pos (a := (.attempt, w)) ?_)
      simp [agenda, hws]
    have hawake : Tended settings.retry c
        (r.started.map (fun w => (.attempt, w)) ++ []) (less + 1) { r with started := [] } :=
      h.regroup rfl rfl (.of_eq (by simp [agenda]))
    have hsome : 0 < r.started.length := List.length_pos_of_ne_nil hstarted
    exact .inr ⟨woken, less, rfl, Nat.lt_succ_self _,
      (hawake.mono (by omega)).runEach (fun _ => .attempt) (fun w => w) hwoken⟩

/-- A run gives up waiting only when no worker is under way. -/
theorem Tended.await {fuel : Nat} {result : Option (Option Outcome)}
    (h : Tended settings.retry c [] patience r) (hfuel : patience < fuel)
    (hruns : Runs (r.await settings fuel) exchanges (r', result)) :
    (result = none → r'.coordinator = c ∧ c.running = 0) ∧ ∀ first, result = some first →
      Tended settings.retry c [] patience { r' with finished := first :: r'.finished } := by
  induction fuel generalizing patience r exchanges with
  | zero => exact absurd hfuel (Nat.not_lt_zero _)
  | succ fuel ih =>
    rw [Run.await] at hruns
    split at hruns
    · next first rest hfinished =>
      obtain ⟨-, heq⟩ := runs_pure_iff.1 hruns
      obtain ⟨rfl, rfl⟩ := Prod.mk.inj heq
      refine ⟨by rintro ⟨⟩, fun first' hfirst => ?_⟩
      obtain rfl := Option.some.inj hfirst
      exact h.regroup rfl (congrArg List.length hfinished.symm) (.refl _)
    · next hfinished =>
      obtain ⟨advanced, others, next, -, hadvanced, hothers⟩ := runs_bind_iff.1 hruns
      rcases h.advance hadvanced with ⟨rfl, hagenda⟩ | ⟨next, less, rfl, hless, hnext⟩
      · obtain ⟨-, heq⟩ := runs_pure_iff.1 hothers
        obtain ⟨rfl, rfl⟩ := Prod.mk.inj heq
        refine ⟨fun _ => ⟨h.coordinator, ?_⟩, by rintro _ ⟨⟩⟩
        rw [h.running, hagenda, hfinished]
        rfl
      · obtain ⟨hidle, hfirst⟩ := ih hnext (by omega) hothers
        exact ⟨hidle, fun first hresult => (hfirst first hresult).mono hless.le⟩

/-! ## Coordinating -/

theorem wakesLeft_le (a : Wake × Worker) : wakesLeft policy a ≤ 2 * policy.maxAttempts := by
  obtain ⟨wake, w⟩ := a
  cases wake <;> simp only [wakesLeft] <;> omega

/-- No more workers are under way than there are steps left, and each wakes a bounded number of
times. -/
theorem Tended.wakes_le (h : Tended policy c due patience r) :
    Tended policy c due (c.load plan * (2 * policy.maxAttempts)) r := by
  refine ⟨h.coordinator, h.running, h.attempts, ?_⟩
  have hsum := List.sum_le_card_nsmul ((due ++ r.agenda).map (wakesLeft policy))
    (2 * policy.maxAttempts) fun n hn => by
      obtain ⟨a, -, rfl⟩ := List.mem_map.1 hn
      exact wakesLeft_le a
  rw [List.length_map, List.length_append, smul_eq_mul] at hsum
  refine hsum.trans (Nat.mul_le_mul_right _ ?_)
  have hrunning := h.running
  rw [Coordinator.load]
  omega

theorem Tended.coordinate (h : Tended settings.retry c [] patience r)
    (hattempts : 0 < settings.retry.maxAttempts) {trace : List Event} {jobs : List Job}
    (run : Execution settings plan trace ⟨c, jobs⟩) :
    ∃ c' patience', c'.load plan ≤ c.load plan ∧ c'.takeNext settings.concurrency = none ∧
      Tended settings.retry c' [] patience' (r.coordinate settings) := by
  obtain rfl := h.coordinator
  obtain ⟨trace', -, run'⟩ := run.observe r.cancelAsked
  obtain ⟨hload, hrunning⟩ := Coordinator.load_fill
    ((r.coordinator.observe r.cancelAsked).schedule.steps.length + 1) run'
  let ws := ((r.coordinator.observe r.cancelAsked).startReady settings.concurrency).2
  have hagenda : (r.coordinate settings).agenda.Perm (ws.map (.attempt, ·) ++ r.agenda) := by
    have hstarted : (r.coordinate settings).agenda =
        r.started.map (.attempt, ·) ++ ws.map (.attempt, ·) ++
          r.sleepers.map fun s => (s.wake, s.worker) := by
      rw [← List.map_append]
      rfl
    rw [hstarted, agenda, ← List.append_assoc]
    exact List.perm_append_comm.append_right _
  have hsteps : (r.coordinator.observe r.cancelAsked).schedule.steps = plan.steps :=
    run'.sound.schedule.steps
  have hnone := Coordinator.takeNext_fill run'
    (Nat.lt_succ_of_le (hsteps ▸ Coordinator.card_pending_le plan _))
  refine ⟨_, _, hload, hnone, rfl, hrunning.trans ?_, fun a ha => ?_, Nat.le_refl _⟩
  · have hfinished : (r.coordinate settings).finished = r.finished := rfl
    have hcount : (r.coordinator.observe r.cancelAsked).running = _ := h.running
    have hws : (Coordinator.fill settings.concurrency _ (r.coordinator.observe r.cancelAsked)).2 =
      ws := rfl
    rw [hcount, hws, hagenda.length_eq, hfinished, List.length_append, List.length_map]
    omega
  · rcases List.mem_append.1 (hagenda.mem_iff.1 ha) with hnew | hold
    · obtain ⟨w, hw, rfl⟩ := List.mem_map.1 hnew
      rwa [Coordinator.attempts_of_fill _ hw]
    · exact h.attempts a hold

theorem Tended.collect {outcome : Outcome}
    (h : Tended policy c [] patience { r with finished := some outcome :: r.finished }) :
    0 < c.running ∧ Tended policy (c.collect outcome) [] patience
      { r with coordinator := r.coordinator.collect outcome } := by
  obtain ⟨rfl, hrunning, hall, hwakes⟩ := h
  have hcount : r.coordinator.running = r.agenda.length + (r.finished.length + 1) := by
    rw [hrunning, List.length_nil, Nat.zero_add]
    rfl
  refine ⟨hcount.symm ▸ Nat.succ_pos _, rfl, ?_, hall, hwakes⟩
  have hagenda : ({ r with coordinator := r.coordinator.collect outcome } : Run).agenda =
    r.agenda := rfl
  rw [hagenda, List.length_nil, Nat.zero_add]
  exact congrArg (· - 1) hcount

theorem load_collect {outcome : Outcome}
    (h : Reached settings plan exchanges [] { r with finished := some outcome :: r.finished })
    (hrunning : 0 < r.coordinator.running) :
    (r.coordinator.collect outcome).load plan < r.coordinator.load plan := by
  obtain ⟨trace, c, jobs, done, hexec, -, rfl, hdone, hsub⟩ := h
  obtain ⟨⟨w, stage⟩, others, rfl, hstage, -⟩ := List.map_eq_cons_iff.1 hdone
  obtain rfl : stage = .finished outcome := hstage
  obtain ⟨before, after, rfl⟩ : ∃ before after, jobs = before ++ ⟨w, .finished outcome⟩ :: after :=
    List.append_of_mem (hsub.subset (by simp))
  have move : Moment.Move settings ⟨r.coordinator, before ++ ⟨w, .finished outcome⟩ :: after⟩
    (.collected outcome) _ := .collect
  have hpending := Finset.card_le_card (move.pending_subset hexec.isWellOrdered hexec.sound)
  have hless : (r.coordinator.collect outcome).running < r.coordinator.running :=
    Nat.sub_lt hrunning Nat.zero_lt_one
  rw [Coordinator.load, Coordinator.load]
  exact Nat.add_lt_add_of_le_of_lt hpending hless

/-- A run without workers has nothing to wait for. -/
theorem await_idle {fuel : Nat} {result : Option (Option Outcome)} (hagenda : r.agenda = [])
    (hfinished : r.finished = []) (hruns : Runs (r.await settings fuel) exchanges (r', result)) :
    r' = r := by
  obtain ⟨hstarted, hsleepers⟩ := List.append_eq_nil_iff.1 hagenda
  rw [List.map_eq_nil_iff] at hstarted hsleepers
  cases fuel with
  | zero =>
    obtain ⟨-, heq⟩ := runs_pure_iff.1 hruns
    exact (Prod.mk.inj heq).1.symm
  | succ fuel =>
    simp only [Run.await, hfinished, Run.advance, hstarted, hsleepers] at hruns
    obtain ⟨-, heq⟩ := runs_pure_iff.1 hruns
    exact (Prod.mk.inj heq).1.symm

/-- A run that comes to a report has coordinated last when no worker was under way, and what every
round keeps held before that. -/
theorem Tended.loop {P : Run → Prop} {rounds fuel : Nat} {report : Report}
    (hround : ∀ {r next : Run} {ran : List (Exchange Provider.calls)} {outcome : Outcome}, P r →
      Runs ((r.coordinate settings).await settings rounds) ran (next, some (some outcome)) →
        P { next with coordinator := next.coordinator.collect outcome })
    (hkept : P r) (h : Tended settings.retry c [] patience r)
    (hreached : Reached settings plan exchanges [] r) (hattempts : 0 < settings.retry.maxAttempts)
    (hload : c.load plan < fuel) (hrounds : c.load plan * (2 * settings.retry.maxAttempts) < rounds)
    {ran : List (Exchange Provider.calls)}
    (hruns : Runs (r.loop settings rounds fuel) ran (.ok report, r')) :
    ∃ last, P last ∧ r' = last.coordinate settings ∧ r'.coordinator.running = 0 ∧
      r'.coordinator.takeNext settings.concurrency = none := by
  -- The load falls with every worker taken in, and bounds how often the others can wake.
  induction fuel generalizing c patience exchanges r ran with
  | zero => exact absurd hload (Nat.not_lt_zero _)
  | succ fuel ih =>
    rw [Run.loop] at hruns
    obtain ⟨awaited, others, ⟨next, found⟩, -, hawaited, hothers⟩ := runs_bind_iff.1 hruns
    obtain ⟨trace, _, jobs, -, run, -, hc, -⟩ := id hreached
    obtain ⟨c', _, hfewer, hfilled, hstarted⟩ := h.coordinate hattempts (hc.trans h.coordinator ▸ run)
    have hrounds' := (Nat.mul_le_mul_right (2 * settings.retry.maxAttempts) hfewer).trans_lt hrounds
    obtain ⟨hidle, hfirst⟩ := hstarted.wakes_le.await hrounds' hawaited
    have hreached' := hreached.coordinate.await hawaited
    rcases found with _ | _ | outcome
    case none =>
      obtain ⟨-, heq⟩ := runs_pure_iff.1 hothers
      obtain ⟨-, rfl⟩ := Prod.mk.inj heq
      obtain ⟨hcoordinator, hnone⟩ := hidle rfl
      have hempty := hstarted.running
      rw [hnone] at hempty
      have hsame := await_idle (List.length_eq_zero_iff.1 (by omega))
        (List.length_eq_zero_iff.1 (by omega)) hawaited
      exact ⟨r, hkept, hsame, hcoordinator ▸ hnone, hcoordinator ▸ hfilled⟩
    case some.none =>
      obtain ⟨-, heq⟩ := runs_pure_iff.1 hothers
      cases (Prod.mk.inj heq).1
    case some.some =>
      have htaken := hfirst _ rfl
      obtain rfl : next.coordinator = c' := htaken.coordinator
      obtain ⟨hrunning, hcollected⟩ := htaken.collect
      have hless := load_collect hreached' hrunning
      refine ih (hround hkept hawaited) hcollected hreached'.collect (by omega) ?_ hothers
      exact (Nat.mul_le_mul_right _ hless.le).trans_lt hrounds'

theorem isWellOrdered_of_apply {report : Report}
    (hruns : Runs (apply settings plan) exchanges (.ok report, r)) :
    plan.isWellOrdered = true := by
  by_contra hordered
  simp only [apply, Bool.eq_false_iff.2 hordered, Bool.not_false, if_true] at hruns
  obtain ⟨-, heq⟩ := runs_pure_iff.1 hruns
  cases (Prod.mk.inj heq).1

/-- An apply ends when no worker is under way and none can be started, and what its rounds keep from
the start held when it coordinated last. -/
theorem last_of_apply {P : Run → Prop} {report : Report}
    (hround : ∀ {r next : Run} {ran : List (Exchange Provider.calls)} {outcome : Outcome}
      {rounds : Nat}, P r →
      Runs ((r.coordinate settings).await settings rounds) ran (next, some (some outcome)) →
        P { next with coordinator := next.coordinator.collect outcome })
    (hkept : P { coordinator := .start plan, cancelAsked := settings.cancelAt = some 0 })
    (hattempts : 0 < settings.retry.maxAttempts)
    (hruns : Runs (apply settings plan) exchanges (.ok report, r)) :
    ∃ last, P last ∧ r = last.coordinate settings ∧ r.coordinator.running = 0 ∧
      r.coordinator.takeNext settings.concurrency = none := by
  have hordered := isWellOrdered_of_apply hruns
  simp only [apply, hordered, Bool.not_true, Bool.false_eq_true, if_false] at hruns
  have hstart : Reached settings plan [] []
      { coordinator := .start plan, cancelAsked := settings.cancelAt = some 0 } :=
    ⟨[], _, [], [], .start hordered, rfl, rfl, rfl, .refl _⟩
  have htended : Tended settings.retry (.start plan) [] 0
      { coordinator := .start plan, cancelAsked := settings.cancelAt = some 0 } :=
    ⟨rfl, rfl, fun _ ha => (List.not_mem_nil ha).elim, Nat.le_refl _⟩
  refine htended.loop hround hkept hstart hattempts (Nat.lt_succ_of_le Coordinator.load_start) ?_
    hruns
  exact Nat.lt_succ_of_le (Nat.mul_le_mul Coordinator.load_start (Nat.le_succ _))

/-- An apply ends when no worker is under way and none can be started. -/
theorem stopped_of_apply {report : Report} (hattempts : 0 < settings.retry.maxAttempts)
    (hruns : Runs (apply settings plan) exchanges (.ok report, r)) :
    r.coordinator.running = 0 ∧ r.coordinator.takeNext settings.concurrency = none := by
  obtain ⟨-, -, -, hstopped⟩ :=
    last_of_apply (P := fun _ => True) (fun _ _ => trivial) trivial hattempts hruns
  exact hstopped

/-- A run that comes to a report is an execution that has taken in every worker it has started. -/
theorem quiet_of_apply {report : Report} (hattempts : 0 < settings.retry.maxAttempts)
    (hruns : Runs (apply settings plan) exchanges (.ok report, r)) :
    ∃ trace m, Execution settings plan trace m ∧
      exchangesOf trace = exchanges.filter Provider.IsCall ∧ report = m.coordinator.report ∧
      trace.countP Event.isStart = trace.countP Event.isCollection := by
  obtain ⟨trace, m, run, hexchanges, hcoordinator, hreport⟩ :=
    execution_of_apply (isWellOrdered_of_apply hruns) hruns
  refine ⟨trace, m, run, hexchanges, hreport report rfl, ?_⟩
  rw [run.staffed.counted, hcoordinator, (stopped_of_apply hattempts hruns).1, Nat.add_zero]

end Run

end Converge
