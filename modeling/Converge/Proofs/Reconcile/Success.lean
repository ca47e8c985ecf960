import Converge.Proofs.Execution.Completion
import Converge.Proofs.Reconcile.Recording

/-!
# What counts as success

An apply in which every step has succeeded counts as a success unless cancelling has been noticed.
It can be noticed when nothing is left to start, because the coordinator looks for it whenever a
worker has ended, the last one too: all has been done then, and what was recorded of it is kept
as after a failure. In a run, cancelling is noticed if it is asked for with the last call or before.

Main statements: `Reports.isSuccess_iff`, `Run.cancelled_iff_of_apply`, and `Report.success_of_all`
with what follows for what is recorded.
-/

namespace Converge

open Program (Exchange Runs runs_bind_iff runs_pure_iff)

variable {settings : RunSettings} {plan : Plan} {trace : List Event} {m m' : Moment}
  {event : Event} {report : Report}

/-! ## Executions -/

theorem Moment.Move.cancelled_iff (move : m.Move settings event m') :
    m'.coordinator.cancelled = true ↔
      m.coordinator.cancelled = true ∨ event = .cancelled := by
  cases move with
  | cancel => simp [Coordinator.observe]
  | settle take => simp [(Coordinator.takeNext_inl take).1]
  | start take => simp [(Coordinator.takeNext_inr take).1]
  | call | finish | retry | lose | refuse => simp
  | collect => simp [Coordinator.collect]

namespace Execution

theorem cancelled_iff (h : Execution settings plan trace m) :
    m.coordinator.cancelled = true ↔ .cancelled ∈ trace := by
  induction h with
  | start => simp [Coordinator.start]
  | next run move ih => rw [move.cancelled_iff, ih, List.mem_append, List.mem_singleton, eq_comm]

/-- A step of which the coordinator has learned what came of it was taken before. -/
theorem mem_takenIn (h : Execution settings plan trace m) {outcome : Outcome}
    (houtcome : outcome ∈ outcomesIn trace) : outcome.index ∈ takenIn trace := by
  obtain ⟨event, hevent, hlearned⟩ := List.mem_filterMap.1 houtcome
  cases event with
  | settled =>
    obtain rfl := Option.some.inj hlearned
    exact List.mem_filterMap.2 ⟨_, hevent, rfl⟩
  | collected =>
    obtain rfl := Option.some.inj hlearned
    obtain ⟨before, after, rfl⟩ := List.append_of_mem hevent
    obtain ⟨m₁, m₂, hrun, hmove⟩ := h.split
    cases hmove with
    | collect =>
      have hstarted := hrun.staffed.started _ List.mem_append_cons_self
      obtain ⟨hlabel, -⟩ := hrun.sound.outcome _ List.mem_append_cons_self _ rfl
      exact List.mem_filterMap.2
        ⟨_, List.mem_append_left _ hstarted, congrArg some hlabel.index.symm⟩
  | cancelled | started | called | answered | refused => cases hlearned

/-- When cancelling is noticed, every step that succeeds in the end has been taken already. -/
theorem taken_before_cancelled {before after : List Event}
    (h : Execution settings plan (before ++ .cancelled :: after) m) {k : Nat}
    (hsucceeded : m.statusAt? k = some .succeeded) : k ∈ takenIn before := by
  obtain ⟨outcome, houtcome, rfl, -⟩ := (h.ended_iff (.inl rfl)).1 hsucceeded
  have htaken := h.mem_takenIn houtcome
  -- Nothing is taken after cancelling has been noticed.
  have hnone : takenIn (.cancelled :: after) = [] := h.stopped
  rwa [takenIn_append, hnone, List.append_nil] at htaken

end Execution

/-- If every step has succeeded, the report is one of success exactly if cancelling has not been
noticed. -/
theorem Reports.isSuccess_iff (h : Reports settings plan trace report)
    (hall : ∀ outcome ∈ report.steps, outcome.status = .succeeded) :
    report.isSuccess = true ↔ .cancelled ∉ trace := by
  obtain ⟨m, run, -, -, rfl⟩ := h
  rw [Report.isSuccess_iff, and_iff_left hall, ← run.cancelled_iff, Bool.not_eq_true]
  rfl

/-- If every step has succeeded, cancelling was noticed only when none was left to take. -/
theorem Reports.taken_before_cancelled {before after : List Event}
    (h : Reports settings plan (before ++ .cancelled :: after) report)
    (hall : ∀ outcome ∈ report.steps, outcome.status = .succeeded) {k : Nat}
    (hk : k < plan.steps.length) : k ∈ takenIn before := by
  obtain ⟨m, run, -, -, rfl⟩ := h
  obtain ⟨outcome, houtcome, hdone⟩ := run.reported_of_forall hall (List.getElem?_eq_getElem hk)
  exact run.taken_before_cancelled (Schedule.statusAt?_eq_some_iff.2 ⟨outcome, houtcome, hdone⟩)

/-! ## Runs -/

namespace Run

variable {exchanges : List (Exchange Provider.calls)} {r r' r'' : Run} {wake : Wake} {w : Worker}

/-- What the workers of a run leave: the coordinator has not heard of anything, and cancelling is
asked for if it was or the call has begun at which it is. -/
structure Worked (settings : RunSettings) (r r' : Run) : Prop where
  coordinator : r'.coordinator = r.coordinator
  calls : r.calls ≤ r'.calls
  asked_iff : r'.cancelAsked = true ↔
    r.cancelAsked = true ∨ ∃ n, settings.cancelAt = some n ∧ r.calls < n ∧ n ≤ r'.calls

theorem Worked.of_eq (hcoordinator : r'.coordinator = r.coordinator) (hcalls : r'.calls = r.calls)
    (hasked : r'.cancelAsked = r.cancelAsked) : Worked settings r r' := by
  refine ⟨hcoordinator, hcalls.ge, ?_⟩
  rw [hasked, hcalls, iff_self_or]
  rintro ⟨n, -, hless, hle⟩
  omega

theorem Worked.trans (h : Worked settings r r') (h' : Worked settings r' r'') :
    Worked settings r r'' := by
  refine ⟨h'.coordinator.trans h.coordinator, h.calls.trans h'.calls, ?_⟩
  have hcalls := h.calls
  have hcalls' := h'.calls
  rw [h'.asked_iff, h.asked_iff, or_assoc]
  refine or_congr_right ?_
  constructor
  · rintro (⟨n, hn, hless, hle⟩ | ⟨n, hn, hless, hle⟩)
    · exact ⟨n, hn, hless, by omega⟩
    · exact ⟨n, hn, by omega, hle⟩
  · rintro ⟨n, hn, hless, hle⟩
    by_cases hmid : n ≤ r'.calls
    · exact .inl ⟨n, hn, hless, hmid⟩
    · exact .inr ⟨n, hn, by omega, hle⟩

theorem Worked.beginCall : Worked settings r (r.beginCall settings) := by
  refine ⟨rfl, Nat.le_succ _, ?_⟩
  simp only [Run.beginCall, Bool.or_eq_true, decide_eq_true_eq]
  refine or_congr_right ⟨fun h => ⟨_, h, by omega, le_rfl⟩, ?_⟩
  rintro ⟨n, hn, hless, hle⟩
  rw [hn, Nat.le_antisymm hle hless]

theorem Worked.runWorker {fuel : Nat}
    (hruns : Runs (runWorker settings fuel wake w r) exchanges r') : Worked settings r r' := by
  induction fuel generalizing wake w r exchanges with
  | zero =>
    obtain ⟨-, rfl⟩ := runs_pure_iff.1 hruns
    exact .of_eq rfl rfl rfl
  | succ fuel ih =>
    rw [Run.runWorker] at hruns
    split at hruns
    · dsimp only at hruns
      split at hruns
      · exact Worked.beginCall.trans (ih hruns)
      · obtain ⟨-, rfl⟩ := runs_pure_iff.1 hruns
        exact Worked.beginCall.trans (.of_eq rfl rfl rfl)
    · obtain ⟨called, rest, reply, -, -, hrest⟩ := runs_bind_iff.1 hruns
      have hended : Worked settings r (if w.canCall then r.endCall else r) := by
        split <;> exact .of_eq rfl rfl rfl
      dsimp only at hrest
      split at hrest
      · obtain ⟨-, rfl⟩ := runs_pure_iff.1 hrest
        exact hended.trans (.of_eq rfl rfl rfl)
      · obtain ⟨-, rfl⟩ := runs_pure_iff.1 hrest
        exact hended.trans (.of_eq rfl rfl rfl)
      · split at hrest
        · exact hended.trans (ih hrest)
        · obtain ⟨-, rfl⟩ := runs_pure_iff.1 hrest
          exact hended.trans (.of_eq rfl rfl rfl)

theorem Worked.runEach {α : Type} {items : List α} (wake : α → Wake) (worker : α → Worker)
    (hruns : Runs (items.foldlM (fun r a => r.runOn settings (wake a) (worker a)) r) exchanges r') :
    Worked settings r r' := by
  induction items generalizing exchanges r with
  | nil =>
    rw [List.foldlM_nil, runs_pure_iff] at hruns
    obtain ⟨-, rfl⟩ := hruns
    exact .of_eq rfl rfl rfl
  | cons item items ih =>
    rw [List.foldlM_cons] at hruns
    obtain ⟨first, others, mid, -, hfirst, hothers⟩ := runs_bind_iff.1 hruns
    exact (Worked.runWorker hfirst).trans (ih hothers)

theorem Worked.advance {result : Option Run} (hruns : Runs (r.advance settings) exchanges result) :
    Worked settings r (result.getD r) := by
  simp only [Run.advance] at hruns
  split at hruns
  · obtain ⟨-, rfl⟩ := runs_pure_iff.1 hruns
    exact .of_eq rfl rfl rfl
  · obtain ⟨paused, rest, ⟨⟩, -, -, hrest⟩ := runs_bind_iff.1 hruns
    obtain ⟨woken, hwoken, rfl⟩ := Program.runs_map_iff.1 hrest
    have hran := Worked.runEach Sleeper.wake Sleeper.worker hwoken
    refine Worked.trans ?_ hran
    exact .of_eq rfl rfl rfl
  · obtain ⟨woken, hwoken, rfl⟩ := Program.runs_map_iff.1 hruns
    have hran := Worked.runEach (fun _ => .attempt) (fun w => w) hwoken
    refine Worked.trans ?_ hran
    exact .of_eq rfl rfl rfl

theorem Worked.await {patience : Nat} {result : Option (Option Outcome)}
    (hruns : Runs (r.await settings patience) exchanges (r', result)) : Worked settings r r' := by
  induction patience generalizing exchanges r with
  | zero =>
    obtain ⟨-, heq⟩ := runs_pure_iff.1 hruns
    obtain ⟨rfl, -⟩ := Prod.mk.inj heq
    exact .of_eq rfl rfl rfl
  | succ patience ih =>
    rw [Run.await] at hruns
    split at hruns
    · obtain ⟨-, heq⟩ := runs_pure_iff.1 hruns
      obtain ⟨rfl, -⟩ := Prod.mk.inj heq
      exact .of_eq rfl rfl rfl
    · obtain ⟨advanced, others, next, -, hadvanced, hothers⟩ := runs_bind_iff.1 hruns
      have hworked := Worked.advance hadvanced
      cases next with
      | none =>
        obtain ⟨-, heq⟩ := runs_pure_iff.1 hothers
        obtain ⟨rfl, -⟩ := Prod.mk.inj heq
        exact hworked
      | some next => exact hworked.trans (ih hothers)

/-- Whether cancelling has been asked for exactly if the call has begun at which it is, and noticed
only if it has been asked for. -/
structure Watchful (settings : RunSettings) (r : Run) : Prop where
  asked_iff : r.cancelAsked = true ↔ ∃ n, settings.cancelAt = some n ∧ n ≤ r.calls
  noticed : r.coordinator.cancelled = true → r.cancelAsked = true

theorem Watchful.work (h : Watchful settings r) (hworked : Worked settings r r') :
    Watchful settings r' := by
  refine ⟨?_, fun hnoticed => ?_⟩
  · have hcalls := hworked.calls
    rw [hworked.asked_iff, h.asked_iff]
    constructor
    · rintro (⟨n, hn, hle⟩ | ⟨n, hn, -, hle⟩)
      · exact ⟨n, hn, by omega⟩
      · exact ⟨n, hn, hle⟩
    · rintro ⟨n, hn, hle⟩
      by_cases hbefore : n ≤ r.calls
      · exact .inl ⟨n, hn, hbefore⟩
      · exact .inr ⟨n, hn, by omega, hle⟩
  · rw [hworked.coordinator] at hnoticed
    exact hworked.asked_iff.2 (.inl (h.noticed hnoticed))

theorem cancelled_fill {limit : Nat} (fuel : Nat) {c : Coordinator} :
    (c.fill limit fuel).1.cancelled = c.cancelled := by
  induction fuel generalizing c with
  | zero => rfl
  | succ fuel ih =>
    rw [Coordinator.fill]
    split
    · rfl
    · next take => exact ih.trans (Coordinator.takeNext_inl take).1
    · next take => exact ih.trans (Coordinator.takeNext_inr take).1

/-- The coordinator notices what has been asked for. -/
theorem cancelled_coordinate : (r.coordinate settings).coordinator.cancelled =
    (r.coordinator.cancelled || r.cancelAsked) := by
  have hfill : (r.coordinate settings).coordinator.cancelled =
      ((r.coordinator.observe r.cancelAsked).startReady settings.concurrency).1.cancelled := rfl
  rw [hfill, Coordinator.startReady, cancelled_fill]
  rfl

theorem Watchful.coordinate (h : Watchful settings r) :
    Watchful settings (r.coordinate settings) := by
  refine ⟨h.asked_iff, fun hnoticed => ?_⟩
  rw [cancelled_coordinate, Bool.or_eq_true] at hnoticed
  exact hnoticed.elim h.noticed id

theorem Watchful.collect (h : Watchful settings r) (outcome : Outcome) :
    Watchful settings { r with coordinator := r.coordinator.collect outcome } :=
  ⟨h.asked_iff, h.noticed⟩

/-- In a run cancelling is noticed exactly if it is asked for with one of the calls, or before. -/
theorem cancelled_iff_of_apply (hattempts : 0 < settings.retry.maxAttempts)
    (hruns : Runs (apply settings plan) exchanges (.ok report, r)) :
    report.cancelled = true ↔ ∃ n, settings.cancelAt = some n ∧ n ≤ r.calls := by
  have hstart : Watchful settings
      { coordinator := .start plan, cancelAsked := settings.cancelAt = some 0 } := by
    refine ⟨?_, nofun⟩
    simp
  -- The coordinator looks once more after the last round, and hears then of every call made.
  obtain ⟨last, hlast, rfl, -⟩ := last_of_apply (P := Watchful settings)
    (fun h hawaited => (h.coordinate.work (.await hawaited)).collect _) hstart hattempts hruns
  obtain ⟨trace, m, -, -, hcoordinator, hreport⟩ :=
    execution_of_apply (isWellOrdered_of_apply hruns) hruns
  obtain rfl := hreport report rfl
  have hcancelled : m.coordinator.report.cancelled =
      (last.coordinator.cancelled || last.cancelAsked) := by
    exact (congrArg Coordinator.cancelled hcoordinator).trans cancelled_coordinate
  rw [hcancelled, Bool.or_eq_true, or_iff_right_of_imp hlast.noticed, hlast.asked_iff]
  rfl

end Run

/-! ## What is recorded -/

section success

variable {apply : ApplySettings} {latencyMs : Nat} {cancelAt : Option Nat}

/-- An apply in which every step has succeeded is one of success unless cancelling has been noticed,
if only when nothing was left to take. In a run that is so if cancelling is asked for with the last
call or before. The fingerprint is not recorded then, and the state of a stack that has been removed
stays. -/
theorem Report.success_of_all (hall : ∀ outcome ∈ report.steps, outcome.status = .succeeded) :
    (∀ trace, Reports { RunSettings.ofApply apply with latencyMs, cancelAt } plan trace report →
      (report.isSuccess = true ↔ .cancelled ∉ trace) ∧
        ∀ before after, trace = before ++ .cancelled :: after →
          ∀ k < plan.steps.length, k ∈ takenIn before) ∧
    (∀ exchanges r, Runs (Run.apply { RunSettings.ofApply apply with latencyMs, cancelAt } plan)
        exchanges (.ok report, r) →
      (report.isSuccess = true ↔ ∀ n, cancelAt = some n → r.calls < n)) ∧
    (∀ (s : State) operation now, (s.applyReport plan report operation now).configHash =
      if report.cancelled then s.configHash else plan.configHash) ∧
    ∀ s : State, s.isEmpty = true → Reconcile.record s .destroy report =
      if report.cancelled then Reconcile.save s else Reconcile.delete := by
  have hsuccess : report.isSuccess = !report.cancelled := by
    rw [Bool.eq_iff_iff, Report.isSuccess_iff, and_iff_left hall, Bool.not_eq_true']
  refine ⟨fun trace h => ⟨h.isSuccess_iff hall, ?_⟩, fun exchanges r hruns => ?_, ?_, ?_⟩
  · rintro before after rfl k hk
    exact h.taken_before_cancelled hall hk
  · have hattempts : 0 < max apply.maxAttempts 1 := by omega
    have hcancelled := Run.cancelled_iff_of_apply hattempts hruns
    rw [hsuccess, Bool.not_eq_true', ← Bool.not_eq_true, hcancelled]
    simp only [not_exists, not_and, not_le]
  · intro s operation now
    rw [State.configHash_applyReport, hsuccess]
    cases report.cancelled <;> rfl
  · intro s hempty
    rw [Reconcile.record, hsuccess, hempty]
    cases report.cancelled <;> rfl

/-- The only call is over when cancelling would be asked for. -/
theorem Report.success_in_time : ∃ exchanges report r,
    Runs (Run.apply { RunSettings.ofApply {} with cancelAt := some 2 } Removal.loneRemoval)
      exchanges (.ok report, r) ∧
    (∀ outcome ∈ report.steps, outcome.status = .succeeded) ∧ report.isSuccess = true := by
  obtain ⟨report, r, hruns, hall, hcalls⟩ : ∃ report r,
      Runs (Run.apply { RunSettings.ofApply {} with cancelAt := some 2 } Removal.loneRemoval)
        [⟨.delete .targetGroup "tg-1", Reply.ok ()⟩] (.ok report, r) ∧
      (∀ outcome ∈ report.steps, outcome.status = .succeeded) ∧ r.calls = 1 := by
    refine ⟨_, _, .ask (.done _), fun outcome houtcome => ?_, rfl⟩
    obtain rfl := List.mem_singleton.1 houtcome
    rfl
  refine ⟨_, report, r, hruns, hall, ((success_of_all hall).2.1 _ r hruns).2 fun n hn => ?_⟩
  obtain rfl := Option.some.inj hn
  omega

/-- Cancelling is asked for with the only call, which succeeds. -/
theorem Report.failure_in_full : ∃ exchanges report r,
    Runs (Run.apply { RunSettings.ofApply {} with cancelAt := some 1 } Removal.loneRemoval)
      exchanges (.ok report, r) ∧
    (∀ outcome ∈ report.steps, outcome.status = .succeeded) ∧ report.isSuccess = false := by
  have hruns : Runs (Run.apply { RunSettings.ofApply {} with cancelAt := some 1 }
      Removal.loneRemoval) [⟨.delete .targetGroup "tg-1", Reply.ok ()⟩] (.ok _, _) :=
    .ask (.done _)
  refine ⟨_, _, _, hruns, fun outcome houtcome => ?_, rfl⟩
  obtain rfl := List.mem_singleton.1 houtcome
  rfl

end success

end Converge
