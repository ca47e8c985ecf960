import Converge.Proofs.Execution.Deletion

/-!
# Dispatch

However the events of an apply fall: no step is taken twice, none before all that it waits for has
succeeded, never more workers are under way than allowed, only steps that change a live resource
call the provider, and nothing is taken once the coordinator has noticed that it is cancelled.

Main statement: `Execution.dispatched`.
-/

namespace Converge

variable {settings : RunSettings} {plan : Plan} {trace : List Event} {m m' : Moment}
  {event : Event}

/-! ## What a trace tells about steps -/

namespace Event

/-- The index of the step that is taken, whether it is settled on the spot or a worker starts. -/
def taken? : Event → Option Nat
  | .settled outcome => some outcome.index
  | .started step => some step.index
  | _ => none

/-- The outcome that the coordinator learns. -/
def outcome? : Event → Option Outcome
  | .settled outcome | .collected outcome => some outcome
  | _ => none

def isStart : Event → Bool
  | .started _ => true
  | _ => false

def isCollection : Event → Bool
  | .collected _ => true
  | _ => false

end Event

/-- The steps that have been taken, by their indices and in order. -/
def takenIn (trace : List Event) : List Nat := trace.filterMap Event.taken?

/-- The outcomes that the coordinator has learned. -/
def outcomesIn (trace : List Event) : List Outcome := trace.filterMap Event.outcome?

theorem takenIn_append {trace' : List Event} :
    takenIn (trace ++ trace') = takenIn trace ++ takenIn trace' :=
  List.filterMap_append

theorem takenIn_singleton : takenIn [event] = event.taken?.toList := by
  rw [takenIn, List.filterMap_cons]
  cases event.taken? <;> rfl

theorem mem_outcomesIn_concat {outcome : Outcome} : outcome ∈ outcomesIn (trace ++ [event]) ↔
    outcome ∈ outcomesIn trace ∨ event.outcome? = some outcome := by
  simp [outcomesIn]

/-! ## One event -/

namespace Coordinator

variable {c c' : Coordinator} {limit : Nat}

/-- What is taken is taken by a coordinator that has room and is not cancelled. -/
theorem takeNext_room {result : Outcome ⊕ Worker} (h : c.takeNext limit = some (c', result)) :
    c.cancelled = false ∧ c.running < limit := by
  rw [takeNext] at h
  split at h
  · cases h
  · next hroom => simpa using hroom

theorem takeNext_inl {outcome : Outcome} (h : c.takeNext limit = some (c', .inl outcome)) :
    c'.cancelled = c.cancelled ∧ c'.running = c.running := by
  obtain ⟨i, ready, step, -, -, -, ⟨_, -, rfl⟩ | ⟨_, hresult, -⟩⟩ := takeNext_eq_some h
  · exact ⟨rfl, rfl⟩
  · cases hresult

theorem takeNext_inr {w : Worker} (h : c.takeNext limit = some (c', .inr w)) :
    c'.cancelled = c.cancelled ∧ c'.running = c.running + 1 := by
  obtain ⟨i, ready, step, -, -, -, ⟨_, hresult, -⟩ | ⟨_, -, rfl⟩⟩ := takeNext_eq_some h
  · cases hresult
  · exact ⟨rfl, rfl⟩

end Coordinator

namespace Moment

/-- How far the step at an index has come. -/
def statusAt? (m : Moment) (i : Nat) : Option Status := m.coordinator.schedule.statusAt? i

/-- What is taken is a pending step that waits for nothing more. -/
theorem Move.taken (hordered : plan.isWellOrdered = true) (hm : m.Sound plan)
    (move : m.Move settings event m') {i : Nat} (htaken : event.taken? = some i) :
    m.coordinator.cancelled = false ∧ m.statusAt? i = some .pending ∧
      ∃ step, plan.steps[i]? = some step ∧ (∀ other, event = .started other → other = step) ∧
        ∀ d ∈ step.dependsOn, m.statusAt? d = some .succeeded := by
  cases move with
  | settle take =>
    obtain ⟨-, step, hplanned, hpending, hdeps, hresult⟩ :=
      Coordinator.taken hm.schedule hordered take
    cases hresult with
    | settled label result ended =>
      obtain rfl : _ = i := Option.some.inj htaken
      rw [label.index]
      exact ⟨(Coordinator.takeNext_room take).1, hpending, step, hplanned, nofun, hdeps⟩
  | start take =>
    obtain ⟨-, step, hplanned, hpending, hdeps, hresult⟩ :=
      Coordinator.taken hm.schedule hordered take
    cases hresult with
    | started worker =>
      obtain rfl : _ = i := Option.some.inj htaken
      rw [worker]
      refine ⟨(Coordinator.takeNext_room take).1, hpending, step, hplanned, ?_, hdeps⟩
      intro other heq
      exact (Event.started.inj heq).symm
  | cancel | call | finish | retry | lose | refuse | collect => cases htaken

/-- A step that has ended stays as it is, and another has so when the event brings its outcome. -/
theorem Move.ended_iff (hordered : plan.isWellOrdered = true) (hm : m.Sound plan)
    (move : m.Move settings event m') {k : Nat} {status : Status}
    (hterminal : status = .succeeded ∨ status = .failed) :
    m'.statusAt? k = some status ↔ m.statusAt? k = some status ∨
      ∃ outcome, event.outcome? = some outcome ∧ outcome.index = k ∧ outcome.status = status := by
  have hne : status ≠ .pending ∧ status ≠ .inProgress ∧ status ≠ .rolledBack := by
    rcases hterminal with rfl | rfl <;> decide
  -- A step that was pending or under way has ended.
  have hfinish : ∀ {s' : Schedule} {step : Step} {outcome : Outcome},
      m.coordinator.schedule.Ended s' step outcome → outcome.Of step →
      (m.statusAt? step.index = some .pending ∨ m.statusAt? step.index = some .inProgress) →
      (s'.statusAt? k = some status ↔ m.statusAt? k = some status ∨
        outcome.index = k ∧ outcome.status = status) := by
    intro s' step outcome hended hlabel hbefore
    rw [hlabel.index]
    by_cases hk : step.index = k
    · subst hk
      have hnot : m.statusAt? step.index ≠ some status := by
        rcases hbefore with hbefore | hbefore <;> rw [hbefore] <;> simp [hne.1.symm, hne.2.1.symm]
      rw [Schedule.statusAt?, hended.own]
      simp [hnot]
    · rw [(hended.keeps k hk).statusAt?_iff hne.1 hne.2.2]
      simp [hk, statusAt?]
  cases move with
  | settle take =>
    obtain ⟨-, step, -, hpending, -, hresult⟩ := Coordinator.taken hm.schedule hordered take
    cases hresult with
    | settled label result ended =>
      simpa [Event.outcome?, statusAt?] using hfinish ended label (.inl hpending)
  | start take =>
    obtain ⟨-, step, -, hpending, -, hresult⟩ := Coordinator.taken hm.schedule hordered take
    cases hresult with
    | started worker calls prepared own keeps outputs =>
      by_cases hk : step.index = k
      · subst hk
        simp [Event.outcome?, statusAt?, own, hpending, hne.1.symm, hne.2.1.symm]
      · simp [Event.outcome?, statusAt?, Schedule.statusAt?, keeps k hk]
  | collect =>
    obtain ⟨-, hended⟩ := hm.collect hordered List.mem_append_cons_self rfl
    obtain ⟨-, hstatus, -⟩ := hm.job _ List.mem_append_cons_self
    obtain ⟨hlabel, -⟩ := hm.outcome _ List.mem_append_cons_self _ rfl
    simpa [Event.outcome?, statusAt?, Coordinator.collect] using
      hfinish hended hlabel (.inr hstatus)
  | cancel | call | finish | retry | lose | refuse =>
    simp [Event.outcome?, statusAt?, Coordinator.observe]

/-- A step that has ended ended before, or by what the coordinator learns. -/
theorem Move.learned (hordered : plan.isWellOrdered = true) (hm : m.Sound plan)
    (move : m.Move settings event m') {k : Nat} {outcome : Outcome}
    (houtcome : m'.coordinator.schedule.outcomes[k]? = some outcome)
    (hterminal : outcome.status = .succeeded ∨ outcome.status = .failed) :
    m.coordinator.schedule.outcomes[k]? = some outcome ∨ event.outcome? = some outcome := by
  have hended : ∀ {s' : Schedule} {step : Step} {last : Outcome},
      m.coordinator.schedule.Ended s' step last → s'.outcomes[k]? = some outcome →
      m.coordinator.schedule.outcomes[k]? = some outcome ∨ last = outcome := by
    intro s' step last hended houtcome
    by_cases hk : step.index = k
    · subst hk
      exact .inr (Option.some.inj (hended.own.symm.trans houtcome))
    · rcases hended.keeps k hk with hsame | ⟨-, hrolledBack⟩
      · exact .inl (hsame ▸ houtcome)
      · rw [Schedule.statusAt?, houtcome, Option.map_some, Option.some_inj] at hrolledBack
        rcases hterminal with hdone | hdone <;> cases hdone.symm.trans hrolledBack
  cases move with
  | settle take =>
    obtain ⟨-, step, -, -, -, hresult⟩ := Coordinator.taken hm.schedule hordered take
    cases hresult with
    | settled label result ended =>
      exact (hended ended houtcome).imp_right (congrArg some)
  | start take =>
    obtain ⟨-, step, -, -, -, hresult⟩ := Coordinator.taken hm.schedule hordered take
    cases hresult with
    | started worker calls prepared own keeps outputs =>
      left
      by_cases hk : step.index = k
      · subst hk
        rw [Schedule.statusAt?, houtcome, Option.map_some, Option.some_inj] at own
        rcases hterminal with hdone | hdone <;> cases hdone.symm.trans own
      · rw [← keeps k hk, houtcome]
  | collect =>
    obtain ⟨-, hended'⟩ := hm.collect hordered List.mem_append_cons_self rfl
    exact (hended hended' houtcome).imp_right (congrArg some)
  | cancel | call | finish | retry | lose | refuse => exact .inl houtcome

theorem Move.terminal (hordered : plan.isWellOrdered = true) (hm : m.Sound plan)
    (move : m.Move settings event m') {outcome : Outcome}
    (houtcome : event.outcome? = some outcome) :
    outcome.status = .succeeded ∨ outcome.status = .failed := by
  cases move with
  | settle take =>
    obtain ⟨-, step, -, -, -, hresult⟩ := Coordinator.taken hm.schedule hordered take
    cases hresult with
    | settled label result ended =>
      obtain rfl := Option.some.inj houtcome
      exact result.terminal
  | collect =>
    obtain rfl := Option.some.inj houtcome
    exact (hm.outcome _ List.mem_append_cons_self _ rfl).2
  | cancel | start | call | finish | retry | lose | refuse => cases houtcome

/-- What is pending has been so before, and has not been taken. -/
theorem Move.pending (hordered : plan.isWellOrdered = true) (hm : m.Sound plan)
    (move : m.Move settings event m') {k : Nat} (hpending : m'.statusAt? k = some .pending) :
    m.statusAt? k = some .pending ∧ event.taken? ≠ some k := by
  have hkeeps : ∀ {s' : Schedule} {step : Step} {outcome : Outcome},
      m.coordinator.schedule.Ended s' step outcome →
      (outcome.status = .succeeded ∨ outcome.status = .failed) →
      s'.statusAt? k = some .pending → m.statusAt? k = some .pending ∧ step.index ≠ k := by
    intro s' step outcome hended hterminal hpending
    have hk : step.index ≠ k := by
      rintro rfl
      rw [Schedule.statusAt?, hended.own, Option.map_some, Option.some_inj] at hpending
      rcases hterminal with hdone | hdone <;> cases hdone.symm.trans hpending
    rcases hended.keeps k hk with heq | ⟨hbefore, -⟩
    · exact ⟨by rwa [Schedule.statusAt?, heq] at hpending, hk⟩
    · exact ⟨hbefore, hk⟩
  cases move with
  | settle take =>
    obtain ⟨-, step, -, -, -, hresult⟩ := Coordinator.taken hm.schedule hordered take
    cases hresult with
    | settled label result ended =>
      obtain ⟨hbefore, hk⟩ := hkeeps ended result.terminal hpending
      exact ⟨hbefore, by simpa [Event.taken?, label.index] using hk⟩
  | start take =>
    obtain ⟨-, step, -, -, -, hresult⟩ := Coordinator.taken hm.schedule hordered take
    cases hresult with
    | started worker calls prepared own keeps outputs =>
      have hk : step.index ≠ k := by
        rintro rfl
        cases own.symm.trans hpending
      refine ⟨?_, by simpa [Event.taken?, worker] using hk⟩
      rw [statusAt?, Schedule.statusAt?, ← keeps k hk]
      exact hpending
  | collect =>
    obtain ⟨-, hended⟩ := hm.collect hordered List.mem_append_cons_self rfl
    obtain ⟨-, hterminal⟩ := hm.outcome _ List.mem_append_cons_self _ rfl
    exact ⟨(hkeeps hended hterminal hpending).1, by rintro ⟨⟩⟩
  | cancel | call | finish | retry | lose | refuse => exact ⟨hpending, by rintro ⟨⟩⟩

/-- What a trace tells about the workers under way. -/
structure Staffed (limit : Nat) (trace : List Event) (m : Moment) : Prop where
  started : ∀ j ∈ m.jobs, .started j.worker.step ∈ trace
  jobs : m.jobs.length ≤ m.coordinator.running
  running : m.coordinator.running ≤ limit
  counted : trace.countP Event.isStart = trace.countP Event.isCollection + m.coordinator.running
  cancelled : .cancelled ∈ trace → m.coordinator.cancelled = true

/-- Workers go on with their steps, or are lost, and the coordinator does not know. -/
theorem Staffed.work {limit : Nat} {c : Coordinator} {jobs jobs' : List Job}
    (h : Staffed limit trace ⟨c, jobs⟩)
    (hsteps : ∀ j ∈ jobs', ∃ earlier ∈ jobs, j.worker.step = earlier.worker.step)
    (hlength : jobs'.length ≤ jobs.length) (htaken : event.taken? = none)
    (houtcome : event.outcome? = none) (hcancelled : event ≠ .cancelled) :
    Staffed limit (trace ++ [event]) ⟨c, jobs'⟩ := by
  have hcounts : event.isStart = false ∧ event.isCollection = false := by
    cases event <;> simp_all [Event.taken?, Event.outcome?, Event.isStart, Event.isCollection]
  refine ⟨?_, Nat.le_trans hlength h.jobs, h.running, ?_, ?_⟩
  · intro j hj
    obtain ⟨earlier, hearlier, hstep⟩ := hsteps j hj
    rw [hstep]
    exact List.mem_append_left _ (h.started earlier hearlier)
  · simpa [List.countP_cons, hcounts] using h.counted
  · simpa [hcancelled.symm] using h.cancelled

theorem Staffed.move (h : Staffed settings.concurrency trace m)
    (move : m.Move settings event m') : Staffed settings.concurrency (trace ++ [event]) m' := by
  -- A worker that goes on keeps its step.
  have hsteps : ∀ {before after : List Job} {old new : Job},
      new.worker.step = old.worker.step → ∀ j ∈ before ++ new :: after,
        ∃ earlier ∈ before ++ old :: after, j.worker.step = earlier.worker.step := by
    intro before after old new hstep j hj
    rw [List.mem_append, List.mem_cons] at hj
    rcases hj with hj | rfl | hj
    · exact ⟨j, by simp [hj], rfl⟩
    · exact ⟨old, by simp, hstep⟩
    · exact ⟨j, by simp [hj], rfl⟩
  cases move with
  | cancel =>
    refine ⟨fun j hj => List.mem_append_left _ (h.started j hj), h.jobs, h.running, ?_, ?_⟩
    · simpa [List.countP_cons, Event.isStart, Event.isCollection, Coordinator.observe] using
        h.counted
    · simp [Coordinator.observe]
  | settle take =>
    obtain ⟨hcancelled, hrunning⟩ := Coordinator.takeNext_inl take
    refine ⟨fun j hj => List.mem_append_left _ (h.started j hj), ?_, ?_, ?_, ?_⟩
    · simpa [hrunning] using h.jobs
    · simpa [hrunning] using h.running
    · simpa [List.countP_cons, Event.isStart, Event.isCollection, hrunning] using h.counted
    · simpa [hcancelled] using h.cancelled
  | start take =>
    obtain ⟨hcancelled, hrunning⟩ := Coordinator.takeNext_inr take
    have hroom := (Coordinator.takeNext_room take).2
    refine ⟨?_, ?_, ?_, ?_, ?_⟩
    · intro j hj
      rcases List.mem_append.1 hj with hj | hj
      · exact List.mem_append_left _ (h.started j hj)
      · obtain rfl := List.mem_singleton.1 hj
        simp
    · simpa [hrunning] using h.jobs
    · simp only [hrunning]
      omega
    · have := h.counted
      simp [List.countP_cons, Event.isStart, Event.isCollection, hrunning]
      omega
    · simpa [hcancelled] using h.cancelled
  | call => exact h.work (hsteps rfl) (by simp) rfl rfl nofun
  | finish => exact h.work (hsteps rfl) (by simp) rfl rfl nofun
  | retry _ _ progress =>
    exact h.work (hsteps (Worker.afterCall_retry progress).1) (by simp) rfl rfl nofun
  | lose =>
    refine h.work (fun j hj => ⟨j, ?_, rfl⟩) (by simp) rfl rfl nofun
    rcases List.mem_append.1 hj with hj | hj <;> simp [hj]
  | refuse => exact h.work (hsteps rfl) (by simp) rfl rfl nofun
  | @collect c before after w outcome =>
    obtain ⟨hstarted, hjobs, hrunning, hcounted, hcancelled⟩ := h
    simp only [List.length_append, List.length_cons] at hjobs hrunning hcounted
    refine ⟨?_, ?_, ?_, ?_, ?_⟩
    · intro j hj
      refine List.mem_append_left _ (hstarted j ?_)
      rcases List.mem_append.1 hj with hj | hj <;> simp [hj]
    · simp only [Coordinator.collect, List.length_append]
      omega
    · simp only [Coordinator.collect]
      omega
    · simp [List.countP_cons, Event.isStart, Event.isCollection, Coordinator.collect]
      omega
    · simpa [Coordinator.collect] using hcancelled

end Moment

/-! ## Whole executions -/

namespace Execution

theorem staffed (h : Execution settings plan trace m) :
    m.Staffed settings.concurrency trace := by
  refine h.induction (P := fun trace m => m.Staffed settings.concurrency trace) ?_
    fun hstaffed move => hstaffed.move move
  refine ⟨?_, ?_, ?_, ?_, ?_⟩ <;> simp [Coordinator.start]

/-- What the coordinator has learned is what it holds about the steps that have ended. -/
theorem ended_iff (h : Execution settings plan trace m) {k : Nat} {status : Status}
    (hterminal : status = .succeeded ∨ status = .failed) :
    m.statusAt? k = some status ↔
      ∃ outcome ∈ outcomesIn trace, outcome.index = k ∧ outcome.status = status := by
  induction h with
  | start ordered =>
    have hpending : (Moment.mk (.start plan) []).statusAt? k =
        plan.steps[k]?.map fun _ => Status.pending := by
      simp [Moment.statusAt?, Coordinator.start, Schedule.statusAt?, Schedule.start,
        Function.comp_def, Outcome.pending]
    rw [hpending]
    rcases hterminal with rfl | rfl <;> simp [outcomesIn]
  | next run move ih =>
    rw [move.ended_iff run.isWellOrdered run.sound hterminal, ih]
    simp only [mem_outcomesIn_concat, or_and_right, exists_or]

theorem mem_outcomesIn (h : Execution settings plan trace m) {k : Nat} {outcome : Outcome}
    (houtcome : m.coordinator.schedule.outcomes[k]? = some outcome)
    (hterminal : outcome.status = .succeeded ∨ outcome.status = .failed) :
    outcome ∈ outcomesIn trace := by
  induction h with
  | start ordered =>
    obtain ⟨step, -, rfl⟩ := List.mem_map.1 (List.mem_of_getElem? houtcome)
    simp [Outcome.pending] at hterminal
  | next run move ih =>
    rw [mem_outcomesIn_concat]
    exact (move.learned run.isWellOrdered run.sound houtcome hterminal).imp_left ih

theorem terminal_of_mem (h : Execution settings plan trace m) {outcome : Outcome}
    (houtcome : outcome ∈ outcomesIn trace) :
    outcome.status = .succeeded ∨ outcome.status = .failed := by
  induction h with
  | start ordered => simp [outcomesIn] at houtcome
  | next run move ih =>
    rcases mem_outcomesIn_concat.1 houtcome with houtcome | houtcome
    · exact ih houtcome
    · exact move.terminal run.isWellOrdered run.sound houtcome

/-- A step that has been taken is not pending any more. -/
theorem not_pending_of_taken (h : Execution settings plan trace m) {i : Nat}
    (hi : i ∈ takenIn trace) : m.statusAt? i ≠ some .pending := by
  induction h with
  | start ordered => cases hi
  | next run move ih =>
    intro hpending
    obtain ⟨hbefore, hnot⟩ := move.pending run.isWellOrdered run.sound hpending
    rw [takenIn_append, takenIn_singleton] at hi
    rcases List.mem_append.1 hi with hi | hi
    · exact ih hi hbefore
    · exact hnot (by simpa using hi)

/-- No step is taken twice. -/
theorem nodup_takenIn (h : Execution settings plan trace m) : (takenIn trace).Nodup := by
  induction h with
  | start ordered => simp [takenIn]
  | @next trace m m' event run move ih =>
    rw [takenIn_append, takenIn_singleton]
    refine List.nodup_append.2 ⟨ih, by cases event.taken? <;> simp, ?_⟩
    rintro i hi _ hj rfl
    have htaken : event.taken? = some i := by simpa using hj
    exact run.not_pending_of_taken hi (move.taken run.isWellOrdered run.sound htaken).2.1

theorem of_prefix {before : List Event} (h : Execution settings plan trace m)
    (hbefore : before <+: trace) : ∃ m₁, Execution settings plan before m₁ := by
  obtain ⟨after, rfl⟩ := hbefore
  cases after with
  | nil => exact ⟨m, by simpa using h⟩
  | cons event after =>
    obtain ⟨m₁, -, hrun, -⟩ := h.split
    exact ⟨m₁, hrun⟩

/-- Once the coordinator has noticed that it is cancelled it takes nothing. -/
theorem stopped {before after : List Event}
    (h : Execution settings plan (before ++ .cancelled :: after) m) : takenIn after = [] := by
  induction after using List.reverseRecOn generalizing m with
  | nil => rfl
  | append_singleton after event ih =>
    have hlast : before ++ .cancelled :: (after ++ [event]) =
        (before ++ .cancelled :: after) ++ event :: [] := by simp
    obtain ⟨m₁, m₂, hrun, hmove⟩ := (hlast ▸ h).split
    have hcancelled := hrun.staffed.cancelled (by simp)
    rw [takenIn_append, ih hrun, takenIn_singleton]
    cases htaken : event.taken? with
    | none => rfl
    | some i =>
      have hgoes := (hmove.taken hrun.isWellOrdered hrun.sound htaken).1
      exact nomatch hcancelled.symm.trans hgoes

end Execution

/-- What the dispatch of the steps of a plan keeps to, however the events fall. -/
structure Dispatched (limit : Nat) (plan : Plan) (trace : List Event) : Prop where
  /-- No step is taken twice. -/
  once : (takenIn trace).Nodup
  /-- When a step is taken, all that it waits for has succeeded. -/
  ready : ∀ {before after : List Event} {event : Event} {i : Nat},
    trace = before ++ event :: after → event.taken? = some i →
      ∃ step, plan.steps[i]? = some step ∧ (∀ other, event = .started other → other = step) ∧
        ∀ d ∈ step.dependsOn, ∃ outcome ∈ outcomesIn before,
          outcome.index = d ∧ outcome.status = .succeeded
  /-- At no time are more workers under way than allowed. -/
  bounded : ∀ {before : List Event}, before <+: trace →
    before.countP Event.isStart ≤ before.countP Event.isCollection + limit
  /-- Only workers under way call the provider, and only for steps that change a live resource. -/
  calls : ∀ {before after : List Event} {step : Step} {request : Provider.Request},
    trace = before ++ .called step request :: after →
      plan.steps[step.index]? = some step ∧ step.action ≠ .noop ∧
        ¬(step.action = .delete ∧ step.removalPolicy = .retain) ∧
        .started step ∈ before ∧ ∀ outcome ∈ outcomesIn before, outcome.index ≠ step.index
  /-- Nothing is taken once the coordinator has noticed that it is cancelled. -/
  stopped : ∀ {before after : List Event}, trace = before ++ .cancelled :: after →
    takenIn after = []

/-- An apply of a plan that is well ordered dispatches its steps safely, whatever its settings, the
answers of the provider, and the order in which its workers end. -/
theorem Execution.dispatched {apply : ApplySettings} {latencyMs : Nat} {cancelAt : Option Nat}
    (run : Execution { RunSettings.ofApply apply with latencyMs, cancelAt } plan trace m) :
    Dispatched (max apply.concurrency 1) plan trace := by
  refine ⟨run.nodup_takenIn, ?_, ?_, ?_, ?_⟩
  · rintro before after event i rfl htaken
    obtain ⟨m₁, m₂, hrun, hmove⟩ := run.split
    obtain ⟨-, -, step, hplanned, hstarted, hdeps⟩ :=
      hmove.taken hrun.isWellOrdered hrun.sound htaken
    exact ⟨step, hplanned, hstarted, fun d hd => (hrun.ended_iff (.inl rfl)).1 (hdeps d hd)⟩
  · intro before hbefore
    obtain ⟨m₁, hrun⟩ := run.of_prefix hbefore
    have hstaffed := hrun.staffed
    have hrunning : m₁.coordinator.running ≤ max apply.concurrency 1 := hstaffed.running
    rw [hstaffed.counted]
    omega
  · rintro before after step request rfl
    obtain ⟨hplanned, hcalls, -, -⟩ := run.attested_of_called
    obtain ⟨m₁, m₂, hrun, hmove⟩ := run.split
    have hactive : ∃ j ∈ m₁.jobs, j.worker.step = step := by
      cases hmove with
      | call => exact ⟨_, List.mem_append_cons_self, rfl⟩
    obtain ⟨j, hj, rfl⟩ := hactive
    refine ⟨hplanned, ?_, ?_, hrun.staffed.started j hj, ?_⟩
    · intro hnoop
      rw [Step.callsProvider, hnoop] at hcalls
      cases hcalls
    · rintro ⟨hdelete, hretain⟩
      cases hretain.symm.trans ((Step.callsProvider_of_delete hdelete).1 hcalls)
    · intro outcome houtcome hindex
      have hterminal := hrun.terminal_of_mem houtcome
      have hended := (hrun.ended_iff hterminal).2 ⟨outcome, houtcome, hindex, rfl⟩
      have hactive := (hrun.sound.job j hj).2.1
      have hstatus := Option.some.inj (hactive.symm.trans hended)
      rcases hterminal with hdone | hdone <;> cases hstatus.trans hdone
  · rintro before after rfl
    exact run.stopped

/-- A concurrency of zero lets one worker at a time delete the listener and then the group. -/
theorem Execution.dispatched_serially :
    ∃ trace m, Execution { RunSettings.ofApply { concurrency := 0 } with } Removal.attachedRemoval
        trace m ∧ takenIn trace = [0, 1] ∧ Dispatched 1 Removal.attachedRemoval trace := by
  have h₀ : Execution { RunSettings.ofApply { concurrency := 0 } with } Removal.attachedRemoval
      [] _ := .start rfl
  have h₁ := h₀.next (.start rfl)
  have h₂ := h₁.next (@Moment.Move.call _ _ [] _ _ _ _ rfl)
  have h₃ := h₂.next (@Moment.Move.finish _ _ [] _ _ _ _ (Reply.ok () : Reply Unit) _ _ rfl rfl rfl)
  have h₄ := h₃.next (@Moment.Move.collect _ _ [] _ _ _)
  have h₅ := h₄.next (.start rfl)
  have h₆ := h₅.next (.cancel _)
  exact ⟨_, _, h₆, rfl, Execution.dispatched h₆⟩

end Converge
