import Converge.Proofs.Execution.Completion
import Converge.Proofs.Lookup

/-!
# The counts of a schedule

A schedule counts for every step what it still waits for, and counts down through a list of who
waits for whom that is built apart. Here the same bookkeeping is done with look-ups that have to
succeed and counts that have to be more than zero to be counted down. It is never at a loss in an
apply of a plan that is well ordered, however its events fall, and the counts are exact at every
moment.

Main statements: `Schedule.start?_eq`, `Schedule.Sound.finish?_eq` and `Moment.Move.follow?_eq` say
that the bookkeeping is not at a loss, and `Execution.counts_exact` what it comes to.
-/

namespace Converge

namespace Schedule

/-! ## Bookkeeping that can be at a loss -/

/-- Lists a step at each step that it waits for, once for each time it names it. -/
def enlist? (lists : List (List Nat)) (step : Step) : Option (List (List Nat)) :=
  step.dependsOn.foldlM
    (fun lists d => lists[d]?.map fun waiting => lists.set d (waiting ++ [step.index])) lists

/-- Nothing has been started, and ready is what waits for nothing. -/
def start? (plan : Plan) : Option Schedule := do
  let dependents ← plan.steps.foldlM enlist? (List.replicate plan.steps.length [])
  let waiting := plan.steps.map (·.dependsOn.length)
  let ready ← (List.range plan.steps.length).filterM fun i => return (← waiting[i]?) == 0
  return { steps := plan.steps, waiting, dependents, ready
           outcomes := plan.steps.map Outcome.pending, outputs := .empty }

/-- The step at `i` is under way. -/
def markStarted? (s : Schedule) (i : Nat) : Option Schedule :=
  s.outcomes[i]?.map fun _ => s.markStarted i

/-- One of the steps that the step at `i` waits for has succeeded. -/
def release? (s : Schedule) (i : Nat) : Option Schedule := do
  let waiting ← countDown? s.waiting i
  if (← waiting[i]?) = 0 then
    let outcome ← s.outcomes[i]?
    let ready := if outcome.status = .pending then Positions.insert i s.ready else s.ready
    return { s with waiting, ready }
  else return { s with waiting }

/-- Works off a queue of steps, before the steps of the work are used up. -/
def rollBackQueue? (cause : String) : (fuel : Nat) → List Nat → Schedule → Option Schedule
  | _, [], s => some s
  | 0, _ :: _, _ => none
  | fuel + 1, i :: queue, s => do
    let outcome ← s.outcomes[i]?
    if outcome.status = .pending then
      let next ← s.dependents[i]?
      rollBackQueue? cause fuel (queue ++ next) (s.rollBack cause i)
    else rollBackQueue? cause fuel queue s

/-- Records what came of a step, whose name and action are those of the plan. -/
def finish? (s : Schedule) (outcome : Outcome) : Option Schedule := do
  let step ← s.steps[outcome.index]?
  let dependents ← s.dependents[outcome.index]?
  let followed ←
    if outcome.status = .succeeded then
      let outputs :=
        if step.action = .delete then s.outputs else s.outputs.record step.nodeId outcome.outputs
      dependents.foldlM release? { s with outputs }
    else
      rollBackQueue? step.nodeId
        (s.dependents.foldl (fun n waiting => n + waiting.length) (dependents.length + 1))
        dependents s
  let _ ← followed.outcomes[outcome.index]?
  return { followed with outcomes := followed.outcomes.set outcome.index outcome }

/-- What an event does to a schedule. What is taken is the first that is ready, and has to be a step
of the plan. -/
def follow? (s : Schedule) : Event → Option Schedule
  | .settled outcome => do
    let (i, s) ← s.takeReady
    let _ ← s.steps[i]?
    s.finish? outcome
  | .started _ => do
    let (i, s) ← s.takeReady
    let _ ← s.steps[i]?
    s.markStarted? i
  | .collected outcome => s.finish? outcome
  | _ => some s

/-! ## Who waits for whom -/

variable {plan : Plan} {s : Schedule} {step : Step} {outcome : Outcome} {i k : Nat}

/-- Listing a step adds it to the lists as often as it names their steps. -/
theorem enlist?_eq {n : Nat} (h : ∀ d ∈ step.dependsOn, d < n) (lists : Nat → List Nat) :
    enlist? ((List.range n).map lists) step = some ((List.range n).map fun i =>
      lists i ++ (step.dependsOn.filter (· = i)).map fun _ => step.index) := by
  rw [enlist?]
  generalize step.dependsOn = ds at h
  induction ds generalizing lists with
  | nil => simp
  | cons d ds ih =>
    have hd : d < n := h d (List.mem_cons_self ..)
    have hset : ((List.range n).map lists)[d]?.map (fun waiting =>
          ((List.range n).map lists).set d (waiting ++ [step.index])) =
        some ((List.range n).map fun i => lists i ++ if d = i then [step.index] else []) := by
      rw [List.getElem?_map, List.getElem?_range hd, Option.map_some, Option.map_some]
      refine congrArg some (List.ext_getElem? fun i => ?_)
      rw [List.getElem?_set]
      by_cases hi : d = i
      · subst hi
        simp [hd]
      · by_cases hlt : i < n <;> simp [hi, hlt]
    rw [List.foldlM_cons, hset]
    refine (ih _ fun e he => h e (List.mem_cons_of_mem _ he)).trans ?_
    refine congrArg some (List.map_congr_left fun i _ => ?_)
    by_cases hi : d = i <;> simp [hi]

/-- All steps are listed at those that they wait for. -/
theorem foldlM_enlist? {n : Nat} {steps : List Step}
    (h : ∀ step ∈ steps, ∀ d ∈ step.dependsOn, d < n) (lists : Nat → List Nat) :
    steps.foldlM enlist? ((List.range n).map lists) =
      some ((List.range n).map fun i => lists i ++ waitingFor steps i) := by
  induction steps generalizing lists with
  | nil => simp [waitingFor]
  | cons step steps ih =>
    rw [List.foldlM_cons, enlist?_eq (h step (List.mem_cons_self ..))]
    refine (ih (fun other hother => h other (List.mem_cons_of_mem _ hother)) _).trans ?_
    simp [waitingFor]

theorem start?_eq (hordered : plan.isWellOrdered = true) :
    start? plan = some (Schedule.start plan) := by
  have hlists : plan.steps.foldlM enlist? (List.replicate plan.steps.length []) =
      some ((List.range plan.steps.length).map (waitingFor plan.steps)) := by
    have hnone : List.replicate plan.steps.length [] =
        (List.range plan.steps.length).map fun _ => ([] : List Nat) := by
      rw [List.map_const', List.length_range]
    rw [hnone]
    refine (foldlM_enlist? (fun step hstep d hd => ?_) _).trans (by simp)
    obtain ⟨k, hk⟩ := List.mem_iff_getElem?.1 hstep
    exact (Plan.lt_of_mem_dependsOn hordered hk hd).trans (List.getElem?_eq_some_iff.1 hk).1
  have hready : (List.range plan.steps.length).filterM
        (fun i => return (← (plan.steps.map (·.dependsOn.length))[i]?) == 0) =
      some ((List.range plan.steps.length).filter fun i =>
        (plan.steps[i]?.map (·.dependsOn.isEmpty)).getD false) := by
    refine filterM_eq_some fun i hi => ?_
    obtain ⟨step, hstep⟩ : ∃ step, plan.steps[i]? = some step :=
      ⟨_, List.getElem?_eq_getElem (List.mem_range.1 hi)⟩
    simp only [List.getElem?_map, hstep, Option.map_some]
    cases step.dependsOn <;> rfl
  rw [start?, hlists]
  exact congrArg (Option.bind · _) hready

/-- Only steps of the plan wait for others. -/
theorem lt_of_mem_waitingFor (hordered : plan.isWellOrdered = true)
    (hk : k ∈ waitingFor plan.steps i) : k < plan.steps.length := by
  obtain ⟨step, hstep, hk⟩ := List.mem_flatMap.1 hk
  obtain ⟨-, -, rfl⟩ := List.mem_map.1 hk
  obtain ⟨j, hj⟩ := List.mem_iff_getElem?.1 hstep
  rw [Plan.index_eq hordered hj]
  exact (List.getElem?_eq_some_iff.1 hj).1

/-- A step is counted down no more often than it has been counted. -/
theorem Sound.count_le_waiting (h : Sound plan s) (hordered : plan.isWellOrdered = true)
    (hopen : s.statusAt? i ≠ some .succeeded) (k : Nat) :
    (waitingFor plan.steps i).count k ≤ s.waiting.getD k 0 := by
  by_cases hk : k ∈ waitingFor plan.steps i
  · have hstep := List.getElem?_eq_getElem (lt_of_mem_waitingFor hordered hk)
    rw [count_dependentsAt hordered hstep, h.waiting hstep, List.count]
    refine List.countP_mono_left fun d _ hd => ?_
    obtain rfl := eq_of_beq hd
    exact decide_eq_true hopen
  · rw [List.count_eq_zero_of_not_mem hk]
    exact Nat.zero_le _

/-! ## Nothing is amiss -/

theorem release?_eq (hwaits : 0 < s.waiting.getD i 0) (hi : i < s.outcomes.length) :
    s.release? i = some (s.release i) := by
  have hlt : i < s.waiting.length := by
    by_contra hout
    rw [List.getD_eq_default _ _ (Nat.le_of_not_lt hout)] at hwaits
    exact Nat.lt_irrefl 0 hwaits
  have hleft : (s.waiting.set i (s.waiting.getD i 0 - 1))[i]? = some (s.waiting.getD i 0 - 1) :=
    List.getElem?_set_self hlt
  rw [release?, countDown?_eq_some hwaits]
  simp only [Option.bind_eq_bind, Option.bind_some, hleft, List.getElem?_eq_getElem hi, release,
    statusAt?_eq_getElem hi, Option.some_inj]
  generalize s.waiting.getD i 0 - 1 = left
  by_cases hzero : left = 0 <;>
    by_cases hpending : s.outcomes[i].status = .pending <;> simp [hzero, hpending]

theorem foldlM_release? {ds : List Nat} (hcount : ∀ k, ds.count k ≤ s.waiting.getD k 0)
    (hlt : ∀ k ∈ ds, k < s.outcomes.length) :
    ds.foldlM release? s = some (ds.foldl release s) := by
  induction ds generalizing s with
  | nil => rfl
  | cons d ds ih =>
    have hwaits : 0 < s.waiting.getD d 0 :=
      Nat.lt_of_lt_of_le (List.count_pos_iff.2 (List.mem_cons_self ..)) (hcount d)
    rw [List.foldlM_cons, release?_eq hwaits (hlt d (List.mem_cons_self ..))]
    refine ih (fun k => ?_) fun k hk => hlt k (List.mem_cons_of_mem _ hk)
    have hleft : (s.release d).waiting.getD k 0 = s.waiting.getD k 0 - [d].count k :=
      (foldl_release [d] s).2.2.1 k
    have hmore := hcount k
    rw [← List.singleton_append, List.count_append] at hmore
    rw [hleft]
    omega

theorem markStarted?_eq (hpending : s.statusAt? i = some .pending) :
    s.markStarted? i = some (s.markStarted i) := by
  obtain ⟨outcome, houtcome, -⟩ := statusAt?_eq_some_iff.1 hpending
  rw [markStarted?, houtcome, Option.map_some]

theorem Sound.length_dependents (h : Sound plan s) : s.dependents.length = plan.steps.length := by
  rw [h.dependents, Schedule.start, List.length_map, List.length_range]

theorem Sound.getElem?_dependents (h : Sound plan s) (hi : i < plan.steps.length) :
    s.dependents[i]? = some (s.dependentsAt i) := by
  rw [← h.length_dependents] at hi
  rw [dependentsAt, List.getElem?_eq_getElem hi, List.getD_eq_getElem _ _ hi]

theorem Sound.lt_of_mem_dependentsAt (h : Sound plan s) (hordered : plan.isWellOrdered = true)
    (hi : i < plan.steps.length) (hk : k ∈ s.dependentsAt i) : k < plan.steps.length := by
  rw [h.dependentsAt_eq (List.getElem?_eq_getElem hi)] at hk
  exact lt_of_mem_waitingFor hordered hk

theorem Sound.rollBackQueue?_eq (h : Sound plan s) (hordered : plan.isWellOrdered = true)
    (cause : String) {fuel : Nat} {queue : List Nat} (hlt : ∀ i ∈ queue, i < plan.steps.length)
    (hfuel : queue.length + s.budget ≤ fuel) :
    rollBackQueue? cause fuel queue s = some (Schedule.rollBackQueue cause fuel queue s) := by
  induction fuel generalizing queue s with
  | zero =>
    obtain rfl : queue = [] := List.eq_nil_of_length_eq_zero (by omega)
    rfl
  | succ fuel ih =>
    cases queue with
    | nil => rfl
    | cons i queue =>
      have hi : i < plan.steps.length := hlt i (List.mem_cons_self ..)
      have hrest : ∀ k ∈ queue, k < plan.steps.length :=
        fun k hk => hlt k (List.mem_cons_of_mem _ hk)
      have hoi : i < s.outcomes.length := h.length ▸ hi
      have hstatus : s.statusAt? i = some s.outcomes[i].status := statusAt?_eq_getElem hoi
      rw [List.length_cons] at hfuel
      rw [rollBackQueue?, Schedule.rollBackQueue, hstatus, List.getElem?_eq_getElem hoi]
      simp only [Option.bind_eq_bind, Option.bind_some, Option.some_inj]
      by_cases hpending : s.outcomes[i].status = .pending
      · have hbudget := h.budget_rollBack (hstatus.trans (congrArg some hpending)) cause
        rw [if_pos hpending, if_pos hpending, h.getElem?_dependents hi, Option.bind_some]
        refine ih (h.rollBack (hstatus.trans (congrArg some hpending)) cause).1 (fun k hk => ?_) ?_
        · rcases List.mem_append.1 hk with hk | hk
          · exact hrest k hk
          · exact h.lt_of_mem_dependentsAt hordered hi hk
        · rw [List.length_append]
          omega
      · rw [if_neg hpending, if_neg hpending]
        exact ih h hrest (by omega)

theorem Sound.finish?_eq (h : Sound plan s) (hordered : plan.isWellOrdered = true)
    (hstep : plan.steps[i]? = some step) (hlabel : outcome.Of step)
    (hopen : s.statusAt? i ≠ some .succeeded) : s.finish? outcome = some (s.finish outcome) := by
  have hindex := Plan.index_eq hordered hstep
  have hi : i < plan.steps.length := (List.getElem?_eq_some_iff.1 hstep).1
  have hoi : i < s.outcomes.length := h.length ▸ hi
  have hset : ∀ {followed : Schedule}, followed.outcomes.length = s.outcomes.length →
      (followed.outcomes[i]?.bind fun _ =>
        some { followed with outcomes := followed.outcomes.set i outcome }) =
        some { followed with outcomes := followed.outcomes.set i outcome } := by
    intro followed hlength
    rw [List.getElem?_eq_getElem (hlength ▸ hoi), Option.bind_some]
  have hplanned : s.steps[i]? = some step := h.steps ▸ hstep
  rw [finish?, Schedule.finish, hlabel.index, hindex, hplanned]
  simp only [Option.bind_eq_bind, Option.bind_some, h.getElem?_dependents hi]
  by_cases hsucceeded : outcome.status = .succeeded
  · rw [if_pos hsucceeded, if_pos hsucceeded, hlabel.action, hlabel.nodeId]
    generalize (if step.action = .delete then s.outputs
      else s.outputs.record step.nodeId outcome.outputs) = outputs
    have hcounted : (s.dependentsAt i).foldlM release? { s with outputs } =
        some ((s.dependentsAt i).foldl release { s with outputs }) := by
      refine foldlM_release? (fun k => ?_) fun k hk => ?_
      · rw [h.dependentsAt_eq hstep]
        exact h.count_le_waiting hordered hopen k
      · exact h.length ▸ h.lt_of_mem_dependentsAt hordered hi hk
    rw [hcounted]
    exact hset (congrArg List.length (foldl_release (s.dependentsAt i) { s with outputs }).1.2.2.1)
  · rw [if_neg hsucceeded, if_neg hsucceeded, hlabel.nodeId]
    have hrolled := h.rollBackQueue?_eq hordered step.nodeId
      (fun k hk => h.lt_of_mem_dependentsAt hordered hi hk) (s.length_add_budget_le i)
    rw [hrolled]
    exact hset ((h.rollBackQueue step.nodeId _ _).1.length.trans h.length.symm)

end Schedule

/-! ## Whole executions -/

variable {settings : RunSettings} {plan : Plan} {trace : List Event} {m m' : Moment} {event : Event}

namespace Moment

/-- At no event is the bookkeeping at a loss. -/
theorem Move.follow?_eq (hordered : plan.isWellOrdered = true) (hm : m.Sound plan)
    (move : m.Move settings event m') :
    m.coordinator.schedule.follow? event = some m'.coordinator.schedule := by
  cases move with
  | settle take =>
    obtain ⟨i, ready, step, hready, hstep, hdispatch, hresult⟩ := Coordinator.takeNext_eq_some take
    rcases hresult with ⟨outcome, heq, rfl⟩ | ⟨w, heq, -⟩
    · obtain rfl := Sum.inl.inj heq
      obtain ⟨hsound, -, hpending, -⟩ := hm.schedule.head hready
      have hopen : m.coordinator.schedule.statusAt? i ≠ some .succeeded := by simp [hpending]
      have hplanned : plan.steps[i]? = some step := hm.schedule.steps ▸ hstep
      rw [Schedule.follow?, Schedule.takeReady, hready]
      simp only [Option.bind_eq_bind, Option.bind_some, hstep]
      exact hsound.finish?_eq hordered hplanned (Coordinator.dispatch_inl hdispatch).1 hopen
    · cases heq
  | start take =>
    obtain ⟨i, ready, step, hready, hstep, -, hresult⟩ := Coordinator.takeNext_eq_some take
    rcases hresult with ⟨outcome, heq, -⟩ | ⟨w, -, rfl⟩
    · cases heq
    · obtain ⟨-, -, hpending, -⟩ := hm.schedule.head hready
      rw [Schedule.follow?, Schedule.takeReady, hready]
      simp only [Option.bind_eq_bind, Option.bind_some, hstep]
      exact Schedule.markStarted?_eq hpending
  | collect =>
    obtain ⟨hplanned, hstatus, -⟩ := hm.job _ List.mem_append_cons_self
    obtain ⟨hlabel, -⟩ := hm.outcome _ List.mem_append_cons_self _ rfl
    exact hm.schedule.finish?_eq hordered hplanned hlabel (by simp [hstatus])
  | cancel | call | finish | retry | lose | refuse => rfl

end Moment

namespace Execution

theorem follow?_eq (run : Execution settings plan trace m) :
    (Schedule.start? plan).bind (trace.foldlM Schedule.follow?) = some m.coordinator.schedule := by
  induction run with
  | start ordered => exact congrArg (Option.bind · _) (Schedule.start?_eq ordered)
  | next run move ih =>
    obtain ⟨s, hs, htrace⟩ := Option.bind_eq_some_iff.1 ih
    rw [hs, Option.bind_some, List.foldlM_append, htrace, Option.bind_eq_bind, Option.bind_some,
      List.foldlM_cons, move.follow?_eq run.isWellOrdered run.sound]
    rfl

/-- At every moment of an apply the counts are exact: each step waits for as many entries of the
list of those it waits for as have not succeeded, and ready are the pending steps that have not
been taken and wait for nothing. Until then no event has found an index that there is none of, or a
count of zero to count down. -/
theorem counts_exact (run : Execution settings plan trace m) :
    let s := m.coordinator.schedule
    (Schedule.start? plan).bind (trace.foldlM Schedule.follow?) = some s ∧
      s.steps = plan.steps ∧ s.waiting.length = plan.steps.length ∧
      (∀ (i : Nat) (step : Step), plan.steps[i]? = some step → s.waiting[i]? =
        some (step.dependsOn.countP fun d => s.statusAt? d ≠ some .succeeded)) ∧
      s.ready.Pairwise (· < ·) ∧
      ∀ i, i ∈ s.ready ↔
        s.statusAt? i = some .pending ∧ i ∉ takenIn trace ∧ s.waiting[i]? = some 0 := by
  intro s
  have hs : s.Sound plan := run.sound.schedule
  have hcount : ∀ (i : Nat) (step : Step), plan.steps[i]? = some step → s.waiting[i]? =
      some (step.dependsOn.countP fun d => s.statusAt? d ≠ some .succeeded) := by
    intro i step hstep
    have hi : i < s.waiting.length := hs.waitingLength ▸ (List.getElem?_eq_some_iff.1 hstep).1
    have hwaiting := hs.waiting hstep
    rw [List.getD_eq_getElem _ _ hi] at hwaiting
    rw [List.getElem?_eq_getElem hi, hwaiting]
  refine ⟨run.follow?_eq, hs.steps, hs.waitingLength, hcount, hs.increasing, fun i => ?_⟩
  constructor
  · intro hi
    obtain ⟨hpending, hzero⟩ := hs.ready i hi
    refine ⟨hpending, fun htaken => run.not_pending_of_taken htaken hpending, ?_⟩
    obtain ⟨outcome, houtcome, -⟩ := Schedule.statusAt?_eq_some_iff.1 hpending
    have hlt : i < s.waiting.length := by
      rw [hs.waitingLength, ← hs.length]
      exact (List.getElem?_eq_some_iff.1 houtcome).1
    rw [List.getD_eq_getElem _ _ hlt] at hzero
    rw [List.getElem?_eq_getElem hlt, hzero]
  · rintro ⟨hpending, -, hzero⟩
    have hlt : i < plan.steps.length := hs.waitingLength ▸ (List.getElem?_eq_some_iff.1 hzero).1
    have hstep := List.getElem?_eq_getElem hlt
    refine run.closed.offers hstep hpending fun d hd => ?_
    have hnone := Option.some.inj ((hcount i _ hstep).symm.trans hzero)
    simpa using List.countP_eq_zero.1 hnone d hd

/-- A plan whose second step names the first twice. -/
def doubledPlan : Plan where
  createdAt := ⟨0, 0⟩
  configHash := ""
  steps := [
    { index := 0, nodeId := "app", kind := .service, action := .delete
      providerId := some "svc-1" },
    { index := 1, nodeId := "net", kind := .network, action := .delete
      providerId := some "net-1", dependsOn := [0, 0] }]

/-- The second step counts the first twice, and is ready when that has succeeded. -/
theorem counts_exact_doubled : ∃ trace m m',
    Execution (.ofApply {}) doubledPlan [] m ∧ Execution (.ofApply {}) doubledPlan trace m' ∧
      m.coordinator.schedule.waiting[1]? = some 2 ∧ 1 ∉ m.coordinator.schedule.ready ∧
      takenIn trace = [0] ∧ m'.coordinator.schedule.waiting[1]? = some 0 ∧
      1 ∈ m'.coordinator.schedule.ready ∧
      ((Schedule.start? doubledPlan).bind (trace.foldlM Schedule.follow?)).isSome := by
  have h₀ : Execution (.ofApply {}) doubledPlan [] _ := .start rfl
  have h₁ := h₀.next (.start rfl)
  have h₂ := h₁.next (@Moment.Move.call _ _ [] _ _ _ _ rfl)
  have h₃ := h₂.next (@Moment.Move.finish _ _ [] _ _ _ _ (Reply.ok () : Reply Unit) _ _ rfl rfl rfl)
  have h₄ := h₃.next (@Moment.Move.collect _ _ [] _ _ _)
  obtain ⟨-, -, -, -, -, hready⟩ := h₀.counts_exact
  obtain ⟨hfollowed, -, -, -, -, hready'⟩ := h₄.counts_exact
  refine ⟨_, _, _, h₀, h₄, rfl, fun hmem => ?_, rfl, rfl, (hready' 1).2 ⟨rfl, ?_, rfl⟩, ?_⟩
  · exact nomatch ((hready 1).1 hmem).2.2
  · exact fun hmem => nomatch List.mem_singleton.1 hmem
  · rw [hfollowed]
    rfl

end Execution

end Converge
