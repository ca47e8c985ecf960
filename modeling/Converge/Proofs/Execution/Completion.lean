import Mathlib.Data.List.Forall2
import Mathlib.Logic.Relation
import Converge.Proofs.Execution.Rollback
import Converge.Proofs.Execution.Waiting

/-!
# Complete executions

When an apply comes to an end, every step has an exact status: those that were rolled back are those
above a failure, those that were started had everything they wait for, and only an apply that is
cancelled leaves a step pending.

Main statements: `Execution.closed` and `Report.exact_of_apply`.
-/

namespace Converge

open Relation (TransGen)

variable {settings : RunSettings} {plan : Plan} {trace : List Event} {m m' : Moment}
  {event : Event}

/-! ## What an execution keeps -/

namespace Coordinator

/-- The indices of the steps that are under way. -/
def underWay (plan : Plan) (c : Coordinator) : Finset Nat :=
  (Finset.range plan.steps.length).filter fun i => c.schedule.statusAt? i = some .inProgress

/-- Taking a step leaves nothing out that can be started. -/
theorem closed_of_takeNext {c c' : Coordinator} {limit : Nat} {result : Outcome ⊕ Worker}
    (hs : c.schedule.Sound plan) (hordered : plan.isWellOrdered = true)
    (hc : c.schedule.Closed plan) (h : c.takeNext limit = some (c', result)) :
    c'.schedule.Closed plan := by
  obtain ⟨i, ready, step, hready, hstep, hdispatch, hresult⟩ := takeNext_eq_some h
  rw [hs.steps] at hstep
  obtain ⟨hs', hfresh, hpending, hdeps⟩ := hs.head hready
  have hoffers : plan.Offers ({ c.schedule with ready } : Schedule).statusAt? (i :: ready) :=
    hready ▸ hc.offers
  rcases hresult with ⟨outcome, rfl, rfl⟩ | ⟨w, rfl, rfl⟩
  · obtain ⟨hlabel, hsettled⟩ := dispatch_inl hdispatch
    exact .finish hs' hordered hoffers hc.consistent hstep hlabel (.inl hpending)
      (hdeps step hstep) hfresh hsettled.terminal
  · exact .markStarted hoffers hc.consistent hstep hpending (hdeps step hstep)

/-- Nothing is taken by a coordinator that is cancelled, has no room, or has nothing to start. -/
theorem ready_of_takeNext {c : Coordinator} {limit : Nat} (hs : c.schedule.Sound plan)
    (hcancelled : c.cancelled = false) (hroom : c.running < limit)
    (h : c.takeNext limit = none) : c.schedule.ready = [] := by
  cases hready : c.schedule.ready with
  | nil => rfl
  | cons i ready =>
    obtain ⟨outcome, houtcome, -⟩ :=
      Schedule.statusAt?_eq_some_iff.1 (hs.ready i (hready ▸ List.mem_cons_self ..)).1
    have hlt : i < c.schedule.steps.length := by
      rw [hs.steps, ← hs.length]
      exact (List.getElem?_eq_some_iff.1 houtcome).1
    rw [takeNext, hcancelled, Bool.false_or, if_neg (by simpa using hroom), Schedule.takeReady,
      hready] at h
    dsimp only at h
    rw [List.getElem?_eq_getElem hlt] at h
    dsimp only at h
    split at h <;> cases h

end Coordinator

namespace Moment

theorem Move.closed (hordered : plan.isWellOrdered = true) (hm : m.Sound plan)
    (hc : m.coordinator.schedule.Closed plan) (move : m.Move settings event m') :
    m'.coordinator.schedule.Closed plan := by
  cases move with
  | settle take => exact Coordinator.closed_of_takeNext hm.schedule hordered hc take
  | start take => exact Coordinator.closed_of_takeNext hm.schedule hordered hc take
  | @collect c before after w outcome =>
    have hj : (⟨w, .finished outcome⟩ : Job) ∈ before ++ ⟨w, .finished outcome⟩ :: after := by simp
    obtain ⟨hplanned, hstatus, -⟩ := hm.job _ hj
    obtain ⟨hlabel, hterminal⟩ := hm.outcome _ hj _ rfl
    refine .finish hm.schedule hordered ?_ hc.consistent hplanned hlabel (.inr hstatus)
      (hm.schedule.begun hplanned (.inl hstatus)) ?_ hterminal
    · exact fun hk hpending hdeps => List.mem_cons_of_mem _ (hc.offers hk hpending hdeps)
    · exact fun hready => nomatch hstatus.symm.trans (hm.schedule.ready _ hready).1
  | cancel | call | finish | retry | lose | refuse => exact hc

/-- When a step ends it is not under way any more, and the others are as before. -/
theorem underWay_ended {c c' : Coordinator} {step : Step} {outcome : Outcome}
    (hended : c.schedule.Ended c'.schedule step outcome)
    (hterminal : outcome.status = .succeeded ∨ outcome.status = .failed) :
    c'.underWay plan = (c.underWay plan).erase step.index := by
  ext k
  simp only [Coordinator.underWay, Finset.mem_erase, Finset.mem_filter]
  by_cases hk : step.index = k
  · subst hk
    rw [Schedule.statusAt?, hended.own]
    rcases hterminal with hterminal | hterminal <;> simp [hterminal]
  · rw [(hended.keeps k hk).statusAt?_iff (by decide) (by decide)]
    simp [Ne.symm hk]

/-- As many workers count as under way as there are steps that are. -/
theorem Move.running_eq (hordered : plan.isWellOrdered = true) (hm : m.Sound plan)
    (hrunning : m.coordinator.running = (m.coordinator.underWay plan).card)
    (move : m.Move settings event m') :
    m'.coordinator.running = (m'.coordinator.underWay plan).card := by
  cases move with
  | settle take =>
    obtain ⟨-, step, -, hpending, -, hresult⟩ := Coordinator.taken hm.schedule hordered take
    cases hresult with
    | settled label result ended =>
      have hnot : step.index ∉ m.coordinator.underWay plan := by
        simp [Coordinator.underWay, hpending]
      rw [(Coordinator.takeNext_inl take).2, hrunning, underWay_ended ended result.terminal,
        Finset.erase_eq_of_notMem hnot]
  | start take =>
    obtain ⟨-, step, hplanned, hpending, -, hresult⟩ :=
      Coordinator.taken hm.schedule hordered take
    cases hresult with
    | started worker calls prepared own keeps outputs =>
      have hlt := (List.getElem?_eq_some_iff.1 hplanned).1
      have hnot : step.index ∉ m.coordinator.underWay plan := by
        simp [Coordinator.underWay, hpending]
      rw [(Coordinator.takeNext_inr take).2, hrunning, ← Finset.card_insert_of_notMem hnot]
      congr 1
      ext k
      simp only [Coordinator.underWay, Finset.mem_insert, Finset.mem_filter, Finset.mem_range]
      by_cases hk : step.index = k
      · subst hk
        simp [own, hlt]
      · rw [Schedule.statusAt?, Schedule.statusAt?, keeps k hk]
        simp [Ne.symm hk]
  | @collect c before after w outcome =>
    have hj : (⟨w, .finished outcome⟩ : Job) ∈ before ++ ⟨w, .finished outcome⟩ :: after := by simp
    obtain ⟨hplanned, hstatus, -⟩ := hm.job _ hj
    have hmem : w.step.index ∈ c.underWay plan := Finset.mem_filter.2
      ⟨Finset.mem_range.2 (List.getElem?_eq_some_iff.1 hplanned).1, hstatus⟩
    have hended : c.schedule.Ended (c.collect outcome).schedule w.step outcome :=
      (hm.collect hordered hj rfl).2
    rw [underWay_ended hended (hm.outcome _ hj _ rfl).2, Finset.card_erase_of_mem hmem, ← hrunning]
    rfl
  | cancel | call | finish | retry | lose | refuse => exact hrunning

end Moment

namespace Execution

theorem closed (h : Execution settings plan trace m) : m.coordinator.schedule.Closed plan := by
  induction h with
  | start ordered => exact .start plan
  | next run move ih => exact move.closed run.isWellOrdered run.sound ih

theorem running_eq (h : Execution settings plan trace m) :
    m.coordinator.running = (m.coordinator.underWay plan).card := by
  induction h with
  | start ordered =>
    have hnone : (Coordinator.start plan).underWay plan = ∅ := by
      refine Finset.filter_eq_empty_iff.2 fun k _ hactive => ?_
      have hstatus : (Coordinator.start plan).schedule.statusAt? k = _ :=
        Schedule.statusAt?_start k
      rw [hstatus] at hactive
      obtain ⟨-, -, hactive⟩ := Option.map_eq_some_iff.1 hactive
      cases hactive
    exact (congrArg Finset.card hnone).symm
  | next run move ih => exact move.running_eq run.isWellOrdered run.sound ih

end Execution

/-! ## Final statuses -/

namespace Plan

/-- Whether the step at `k` waits for the one at `d`. -/
def Awaits (plan : Plan) (k d : Nat) : Prop :=
  ∃ step, plan.steps[k]? = some step ∧ d ∈ step.dependsOn

theorem Awaits.lt (hordered : plan.isWellOrdered = true) {k d : Nat} (h : plan.Awaits k d) :
    d < k := by
  obtain ⟨step, hstep, hd⟩ := h
  exact lt_of_mem_dependsOn hordered hstep hd

variable {status : Nat → Option Status} {k : Nat}

/-- What is rolled back is what waits for a failure, directly or not. -/
theorem Consistent.rolledBack_iff (h : plan.Consistent status)
    (hordered : plan.isWellOrdered = true)
    (hplanned : ∀ k, status k ≠ none → k < plan.steps.length) :
    status k = some .rolledBack ↔ ∃ d, TransGen plan.Awaits k d ∧ status d = some .failed := by
  constructor
  · -- Going down from what it waits for ends at a failure, since the indices fall.
    induction k using Nat.strongRecOn with
    | ind k ih =>
      intro hrolledBack
      have hlt := hplanned k (by simp [hrolledBack])
      obtain ⟨d, hd, hbroken⟩ := h.blamed (List.getElem?_eq_getElem hlt) hrolledBack
      have hawaits : plan.Awaits k d := ⟨_, List.getElem?_eq_getElem hlt, hd⟩
      rcases hbroken with hfailed | hrolledBack
      · exact ⟨d, .single hawaits, hfailed⟩
      · obtain ⟨e, he, hfailed⟩ := ih d (hawaits.lt hordered) hrolledBack
        exact ⟨e, .head hawaits he, hfailed⟩
  · rintro ⟨d, hd, hfailed⟩
    induction hd using TransGen.head_induction_on with
    | single hawaits =>
      obtain ⟨step, hstep, hd⟩ := hawaits
      exact h.spread hstep _ hd (.inl hfailed)
    | head hawaits _ ih =>
      obtain ⟨step, hstep, hd⟩ := hawaits
      exact h.spread hstep _ hd (.inr ih)

/-- When nothing is under way and nothing can be started, nothing is pending. -/
theorem Consistent.not_pending (h : plan.Consistent status) (hoffers : plan.Offers status [])
    (hordered : plan.isWellOrdered = true)
    (hplanned : ∀ k, status k ≠ none ↔ k < plan.steps.length)
    (hidle : ∀ k, status k ≠ some .inProgress) : status k ≠ some .pending := by
  -- The first pending step would wait for nothing more.
  induction k using Nat.strongRecOn with
  | ind k ih =>
    intro hpending
    have hlt := (hplanned k).1 (by simp [hpending])
    have hstep := List.getElem?_eq_getElem hlt
    refine List.not_mem_nil (hoffers hstep hpending fun d hd => ?_)
    have hd' : d < k := lt_of_mem_dependsOn hordered hstep hd
    obtain ⟨held, hheld⟩ := Option.ne_none_iff_exists'.1 ((hplanned d).2 (hd'.trans hlt))
    cases held with
    | succeeded => exact hheld
    | pending => exact absurd hheld (ih d hd')
    | inProgress => exact absurd hheld (hidle d)
    | failed => exact nomatch hpending.symm.trans (h.spread hstep d hd (.inl hheld))
    | rolledBack => exact nomatch hpending.symm.trans (h.spread hstep d hd (.inr hheld))

end Plan

namespace Report

/-- What a report says of the step at an index. -/
def statusAt? (report : Report) (i : Nat) : Option Status := report.steps[i]?.map (·.status)

/-- What the statuses of a report say about each other and about the plan. -/
structure Exact (plan : Plan) (report : Report) : Prop where
  steps : List.Forall₂ Outcome.Of plan.steps report.steps
  ended : ∀ k, report.statusAt? k ≠ some .inProgress
  rolledBack_iff : ∀ k, report.statusAt? k = some .rolledBack ↔
    ∃ d, TransGen plan.Awaits k d ∧ report.statusAt? d = some .failed
  begun : ∀ k d, report.statusAt? k = some .succeeded ∨ report.statusAt? k = some .failed →
    plan.Awaits k d → report.statusAt? d = some .succeeded
  pending : ∀ k, report.statusAt? k = some .pending → report.cancelled = true ∧
    ∀ d, TransGen plan.Awaits k d → report.statusAt? d ≠ some .failed
  finished : report.cancelled = false → ∀ k < plan.steps.length,
    report.statusAt? k = some .succeeded ∨ report.statusAt? k = some .failed ∨
      report.statusAt? k = some .rolledBack

end Report

/-- Whether an execution comes to a report: no worker is under way, and none can be started. -/
def Reports (settings : RunSettings) (plan : Plan) (trace : List Event) (report : Report) : Prop :=
  ∃ m, Execution settings plan trace m ∧ m.coordinator.running = 0 ∧
    m.coordinator.takeNext settings.concurrency = none ∧ m.coordinator.report = report

/-- What an apply reports is what one of its executions comes to. -/
theorem Run.reports_of_apply {exchanges : List (Program.Exchange Provider.calls)} {r : Run}
    {report : Report} (hattempts : 0 < settings.retry.maxAttempts)
    (hruns : Program.Runs (Run.apply settings plan) exchanges (.ok report, r)) :
    ∃ trace, Reports settings plan trace report ∧
      exchangesOf trace = exchanges.filter Provider.IsCall := by
  obtain ⟨trace, m, run, hexchanges, hcoordinator, hreport⟩ :=
    execution_of_apply (isWellOrdered_of_apply hruns) hruns
  obtain ⟨hrunning, hnone⟩ := stopped_of_apply hattempts hruns
  rw [← hcoordinator] at hrunning hnone
  exact ⟨trace, ⟨m, run, hrunning, hnone, (hreport report rfl).symm⟩, hexchanges⟩

namespace Execution

theorem ne_none_iff (h : Execution settings plan trace m) (k : Nat) :
    m.statusAt? k ≠ none ↔ k < plan.steps.length := by
  rw [← h.sound.schedule.length, Moment.statusAt?, Schedule.statusAt?, Ne, Option.map_eq_none_iff,
    List.getElem?_eq_none_iff, Nat.not_le]

theorem not_inProgress (h : Execution settings plan trace m) (hrunning : m.coordinator.running = 0)
    (k : Nat) : m.statusAt? k ≠ some .inProgress := by
  intro hactive
  have hlt := (h.ne_none_iff k).1 (by simp [hactive])
  rw [h.running_eq, Finset.card_eq_zero, Coordinator.underWay, Finset.filter_eq_empty_iff]
    at hrunning
  exact hrunning (Finset.mem_range.2 hlt) hactive

theorem labelled (h : Execution settings plan trace m) :
    List.Forall₂ Outcome.Of plan.steps m.coordinator.schedule.outcomes := by
  have hs := h.sound.schedule
  refine List.forall₂_iff_get.2 ⟨hs.length.symm, fun k hk hk' => ?_⟩
  exact hs.label (List.getElem?_eq_getElem hk) (List.getElem?_eq_getElem hk')

end Execution

section statuses

variable {apply : ApplySettings} {latencyMs : Nat} {cancelAt : Option Nat} {report : Report}

theorem Reports.exact
    (h : Reports { RunSettings.ofApply apply with latencyMs, cancelAt } plan trace report) :
    report.Exact plan := by
  obtain ⟨m, run, hrunning, hnone, rfl⟩ := h
  have hordered := run.isWellOrdered
  have hclosed := run.closed
  have hrolledBack : ∀ k, m.coordinator.report.statusAt? k = some .rolledBack ↔
      ∃ d, TransGen plan.Awaits k d ∧ m.coordinator.report.statusAt? d = some .failed :=
    fun k => hclosed.consistent.rolledBack_iff hordered fun k => (run.ne_none_iff k).1
  -- Without cancelling the coordinator has stopped because nothing is ready.
  have hpending : m.coordinator.cancelled = false →
      ∀ k, m.coordinator.report.statusAt? k ≠ some .pending := by
    intro hcancelled k
    have hroom : m.coordinator.running < max apply.concurrency 1 := by omega
    have hready := Coordinator.ready_of_takeNext run.sound.schedule hcancelled hroom hnone
    exact hclosed.consistent.not_pending (hready ▸ hclosed.offers) hordered run.ne_none_iff
      (run.not_inProgress hrunning)
  refine ⟨run.labelled, run.not_inProgress hrunning, hrolledBack, ?_, ?_, ?_⟩
  · rintro k d hbegun ⟨step, hstep, hd⟩
    rcases hbegun with hbegun | hbegun <;>
      exact hclosed.consistent.begun hstep hbegun (by decide) (by decide) d hd
  · intro k hk
    refine ⟨?_, fun d hd hfailed => ?_⟩
    · by_contra hcancelled
      exact hpending (Bool.eq_false_iff.2 hcancelled) k hk
    · exact nomatch hk.symm.trans ((hrolledBack k).2 ⟨d, hd, hfailed⟩)
  · intro hcancelled k hk
    obtain ⟨held, hheld⟩ := Option.ne_none_iff_exists'.1 ((run.ne_none_iff k).2 hk)
    have hheld : m.coordinator.report.statusAt? k = some held := hheld
    cases held with
    | pending => exact absurd hheld (hpending hcancelled k)
    | inProgress => exact absurd hheld (run.not_inProgress hrunning k)
    | succeeded => exact .inl hheld
    | failed => exact .inr (.inl hheld)
    | rolledBack => exact .inr (.inr hheld)

/-- However an apply goes on, it does not come to a report before all has been done that can be,
and nothing else has been. -/
theorem Report.exact_of_apply :
    (∀ trace, Reports { RunSettings.ofApply apply with latencyMs, cancelAt } plan trace report →
      report.Exact plan) ∧
    ∀ exchanges r, Program.Runs (Run.apply { RunSettings.ofApply apply with latencyMs, cancelAt }
      plan) exchanges (.ok report, r) → report.Exact plan := by
  refine ⟨fun trace h => h.exact, fun exchanges r hruns => ?_⟩
  have hattempts : 0 < max apply.maxAttempts 1 := by omega
  obtain ⟨trace, h, -⟩ := Run.reports_of_apply hattempts hruns
  exact h.exact

/-- The listener cannot be deleted, so the group is not. -/
theorem Report.exact_after_failure : ∃ trace report exchanges report' r,
    Reports { RunSettings.ofApply {} with } Removal.attachedRemoval trace report ∧
      Program.Runs (Run.apply { RunSettings.ofApply {} with } Removal.attachedRemoval) exchanges
        (.ok report', r) ∧
      report.statusAt? 0 = some .failed ∧ report.statusAt? 1 = some .rolledBack ∧
      report.Exact Removal.attachedRemoval ∧ report'.Exact Removal.attachedRemoval := by
  have h₀ : Execution { RunSettings.ofApply {} with } Removal.attachedRemoval [] _ := .start rfl
  have h₁ := h₀.next (.start rfl)
  have h₂ := h₁.next (@Moment.Move.call _ _ [] _ _ _ _ rfl)
  have h₃ := h₂.next (@Moment.Move.finish _ _ [] _ _ _ _
    (Reply.failed (.permanent "in_use" "busy") : Reply Unit) _ _ rfl rfl rfl)
  have h₄ := h₃.next (@Moment.Move.collect _ _ [] _ _ _)
  have hreports := show Reports _ _ _ _ from ⟨_, h₄, rfl, rfl, rfl⟩
  have hruns : Program.Runs (Run.apply { RunSettings.ofApply {} with } Removal.attachedRemoval)
      [⟨.delete .listener "li-1", Reply.failed (.permanent "in_use" "busy")⟩] _ :=
    .ask (.done _)
  exact ⟨_, _, _, _, _, hreports, hruns, rfl, rfl, Report.exact_of_apply.1 _ hreports,
    Report.exact_of_apply.2 _ _ hruns⟩

end statuses

end Converge
