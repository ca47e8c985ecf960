import Converge.Proofs.Execution.Moment
import Converge.Proofs.Execution.Schedule

/-!
# Sound executions

At every moment of an execution the schedule is sound and the workers under way carry out distinct
steps whose dependencies have all succeeded. Every outcome of a step that has succeeded rests on an
event: the answer of the provider to a call, or that the step was settled without one.

Main statements: `Execution.sound` and `Execution.attested`.
-/

namespace Converge

variable {settings : RunSettings} {plan : Plan}

/-! ## Dispatch -/

namespace Coordinator

variable {s : Schedule} {step : Step} {c c' : Coordinator} {limit : Nat}

theorem dispatch_inr {w : Worker} (h : dispatch s step = .inr w) :
    step.callsProvider = true ∧ w.step = step ∧ s.prepare step = .ok w.attributes := by
  rw [dispatch] at h
  split at h
  · cases h
  · next attributes hprepare =>
    split at h
    · next hcalls =>
      obtain rfl := Sum.inr.inj h
      exact ⟨hcalls, rfl, hprepare⟩
    · cases h

/-- What becomes of a step on the spot. -/
inductive SettledAs (s : Schedule) (step : Step) (outcome : Outcome) : Prop
  | failed (status : outcome.status = .failed)
  | succeeded (status : outcome.status = .succeeded)
    (calls : step.callsProvider = false)
    (prepared : s.prepare step = .ok outcome.applied)
    (outputs : outcome.outputs = step.outputs)
    (providerId : outcome.providerId = step.providerId)

theorem SettledAs.terminal {outcome : Outcome} (h : SettledAs s step outcome) :
    outcome.status = .succeeded ∨ outcome.status = .failed := by
  cases h with
  | failed status => exact .inr status
  | succeeded status => exact .inl status

theorem dispatch_inl {outcome : Outcome} (h : dispatch s step = .inl outcome) :
    outcome.Of step ∧ SettledAs s step outcome := by
  rw [dispatch] at h
  split at h
  · obtain rfl := Sum.inl.inj h
    exact ⟨⟨rfl, rfl, rfl⟩, .failed rfl⟩
  · next attributes hprepare =>
    split at h
    · cases h
    · next hcalls =>
      obtain rfl := Sum.inl.inj h
      exact ⟨⟨rfl, rfl, rfl⟩, .succeeded rfl (by simpa using hcalls) hprepare rfl rfl⟩

/-- What is taken is the first ready step, which is dispatched. -/
theorem takeNext_eq_some {result : Outcome ⊕ Worker} (h : c.takeNext limit = some (c', result)) :
    ∃ i ready step, c.schedule.ready = i :: ready ∧ c.schedule.steps[i]? = some step ∧
      dispatch { c.schedule with ready } step = result ∧
      ((∃ outcome, result = .inl outcome ∧
          c' = { c with schedule := { c.schedule with ready }.finish outcome }) ∨
        ∃ w, result = .inr w ∧
          c' = { c with
            schedule := { c.schedule with ready }.markStarted i
            running := c.running + 1 }) := by
  rw [takeNext] at h
  split at h
  · cases h
  · split at h
    · cases h
    · next i schedule htake =>
      cases hready : c.schedule.ready with
      | nil => simp [Schedule.takeReady, hready] at htake
      | cons first ready =>
        simp only [Schedule.takeReady, hready, Option.some.injEq, Prod.mk.injEq] at htake
        obtain ⟨rfl, rfl⟩ := htake
        split at h
        · cases h
        · next step hstep =>
          split at h
          · next outcome hdispatch =>
            obtain ⟨rfl, rfl⟩ := Prod.mk.inj (Option.some.inj h)
            exact ⟨first, ready, step, rfl, hstep, hdispatch, .inl ⟨outcome, rfl, rfl⟩⟩
          · next w hdispatch =>
            obtain ⟨rfl, rfl⟩ := Prod.mk.inj (Option.some.inj h)
            exact ⟨first, ready, step, rfl, hstep, hdispatch, .inr ⟨w, rfl, rfl⟩⟩

/-- What has become of a step that was taken. -/
inductive Taken (c c' : Coordinator) (step : Step) : Outcome ⊕ Worker → Prop
  | settled {outcome : Outcome}
    (label : outcome.Of step)
    (result : SettledAs c.schedule step outcome)
    (ended : c.schedule.Ended c'.schedule step outcome) : Taken c c' step (.inl outcome)
  | started {w : Worker}
    (worker : w.step = step)
    (calls : step.callsProvider = true)
    (prepared : c.schedule.prepare step = .ok w.attributes)
    (own : c'.schedule.statusAt? step.index = some .inProgress)
    (keeps : ∀ k, step.index ≠ k → c'.schedule.outcomes[k]? = c.schedule.outcomes[k]?)
    (outputs : c'.schedule.outputs = c.schedule.outputs) : Taken c c' step (.inr w)

/-- Taking a step keeps a schedule sound, and what is taken waits for nothing more. -/
theorem taken (hs : c.schedule.Sound plan) (hordered : plan.isWellOrdered = true)
    {result : Outcome ⊕ Worker} (h : c.takeNext limit = some (c', result)) :
    c'.schedule.Sound plan ∧ ∃ step, plan.steps[step.index]? = some step ∧
      c.schedule.statusAt? step.index = some .pending ∧
      (∀ d ∈ step.dependsOn, c.schedule.statusAt? d = some .succeeded) ∧
      Taken c c' step result := by
  obtain ⟨i, ready, step, hready, hstep, hdispatch, hresult⟩ := takeNext_eq_some h
  rw [hs.steps] at hstep
  obtain rfl := Plan.index_eq hordered hstep
  obtain ⟨hs', hfresh, hpending, hdeps⟩ := hs.head hready
  rcases hresult with ⟨outcome, rfl, rfl⟩ | ⟨w, rfl, rfl⟩
  · obtain ⟨hlabel, hsettled⟩ := dispatch_inl hdispatch
    obtain ⟨hsound, hended⟩ := hs'.finish hordered hstep hlabel hsettled.terminal
      (fun hdone => nomatch hpending.symm.trans hdone) hfresh (hdeps step hstep)
    have hresult : SettledAs c.schedule step outcome := by
      cases hsettled with
      | failed status => exact .failed status
      | succeeded status calls prepared outputs providerId =>
        exact .succeeded status calls prepared outputs providerId
    exact ⟨hsound, step, hstep, hpending, hdeps step hstep, .settled hlabel hresult
      ⟨hended.own, hended.keeps, hended.outputs⟩⟩
  · obtain ⟨hcalls, hworker, hprepared⟩ := dispatch_inr hdispatch
    refine ⟨hs'.markStarted hpending hfresh hdeps, step, hstep, hpending, hdeps step hstep,
      .started hworker hcalls hprepared ?_ ?_ rfl⟩
    · rw [Schedule.statusAt?_markStarted, if_pos rfl]
      exact congrArg (Option.map fun _ => Status.inProgress) hpending
    · intro k hk
      simp [Schedule.markStarted, hk]

theorem taken_worker (hs : c.schedule.Sound plan) (hordered : plan.isWellOrdered = true)
    {w : Worker} (h : c.takeNext limit = some (c', .inr w)) :
    c'.schedule.Sound plan ∧ plan.steps[w.step.index]? = some w.step ∧
      c.schedule.statusAt? w.step.index = some .pending ∧ Taken c c' w.step (.inr w) := by
  obtain ⟨hsound, step, hplanned, hpending, -, htaken⟩ := taken hs hordered h
  cases htaken with
  | started worker calls prepared own keeps outputs =>
    subst worker
    exact ⟨hsound, hplanned, hpending, .started rfl calls prepared own keeps outputs⟩

end Coordinator

/-! ## Workers -/

/-- What a step asks of the provider. -/
inductive Step.Asks (step : Step) (attributes : Attributes) : Provider.Request → Prop
  | create (action : step.action = .create) : Asks step attributes (.create step.kind attributes)
  | update {id : String} (action : step.action = .update) (recorded : step.providerId = some id) :
    Asks step attributes (.update step.kind id attributes)
  | delete {id : String} (action : step.action = .delete) (recorded : step.providerId = some id) :
    Asks step attributes (.delete step.kind id)

namespace Worker

variable {policy : RetryPolicy} {w : Worker} {reply : Reply (Option String × Outputs)}

theorem asks {request : Provider.Request}
    {next : Provider.Answer request → Program Provider.calls (Reply (Option String × Outputs))}
    (h : w.call = .ask request next) : w.step.Asks w.attributes request := by
  simp only [call] at h
  split at h
  · next haction =>
    obtain ⟨rfl, -⟩ := Program.ask.inj h
    exact .create haction
  · next id haction hid =>
    obtain ⟨rfl, -⟩ := Program.ask.inj h
    exact .update haction hid
  · next id haction hid =>
    obtain ⟨rfl, -⟩ := Program.ask.inj h
    exact .delete haction hid
  · cases h
  · cases h
  · cases h

theorem afterCall_finished {outcome : Outcome} (h : w.afterCall policy reply = .finished outcome) :
    outcome.Of w.step ∧ (outcome.status = .failed ∨
      (outcome.status = .succeeded ∧ outcome.applied = w.attributes ∧
        reply = .ok (outcome.providerId, outcome.outputs))) := by
  simp only [afterCall] at h
  split at h
  · obtain rfl := Progress.finished.inj h
    exact ⟨⟨rfl, rfl, rfl⟩, .inr ⟨rfl, rfl, rfl⟩⟩
  · split at h
    · cases h
    · obtain rfl := Progress.finished.inj h
      exact ⟨⟨rfl, rfl, rfl⟩, .inl rfl⟩
  · cases h

theorem afterCall_retry {w' : Worker} {delay : Nat} (h : w.afterCall policy reply = .retry w' delay) :
    w'.step = w.step ∧ w'.attributes = w.attributes := by
  simp only [afterCall] at h
  split at h
  · cases h
  · split at h
    · obtain ⟨rfl, -⟩ := Progress.retry.inj h
      exact ⟨rfl, rfl⟩
    · cases h
  · cases h

end Worker

/-! ## The invariant -/

namespace Moment

/-- The schedule is sound, and so are the workers under way. -/
structure Sound (plan : Plan) (m : Moment) : Prop where
  schedule : m.coordinator.schedule.Sound plan
  distinct : (m.jobs.map (·.worker.step.index)).Nodup
  job : ∀ j ∈ m.jobs, plan.steps[j.worker.step.index]? = some j.worker.step ∧
    m.coordinator.schedule.statusAt? j.worker.step.index = some .inProgress ∧
    j.worker.step.callsProvider = true
  outcome : ∀ j ∈ m.jobs, ∀ outcome, j.stage = .finished outcome →
    outcome.Of j.worker.step ∧ (outcome.status = .succeeded ∨ outcome.status = .failed)

variable {m m' : Moment} {event : Event}

/-- Where an outcome that an event brings is from: a step was settled, or a worker had finished. -/
inductive Source (m : Moment) (event : Event) (step : Step) (outcome : Outcome) : Prop
  | settled (event : event = .settled outcome)
    (result : Coordinator.SettledAs m.coordinator.schedule step outcome)
  | collected (j : Job) (job : j ∈ m.jobs) (worker : j.worker.step = step)
    (stage : j.stage = .finished outcome)

/-- What an event does to what has come of the steps: nothing, or a step starts, or one ends. -/
inductive Advance (plan : Plan) (m m' : Moment) (event : Event) : Prop
  | same (schedule : m'.coordinator.schedule = m.coordinator.schedule)
  | started (w : Worker)
    (planned : plan.steps[w.step.index]? = some w.step)
    (unfinished : m.coordinator.schedule.statusAt? w.step.index ≠ some .succeeded)
    (taken : Coordinator.Taken m.coordinator m'.coordinator w.step (.inr w))
  | ended (step : Step) (outcome : Outcome)
    (planned : plan.steps[step.index]? = some step)
    (unfinished : m.coordinator.schedule.statusAt? step.index ≠ some .succeeded)
    (label : outcome.Of step)
    (source : Source m event step outcome)
    (ended : m.coordinator.schedule.Ended m'.coordinator.schedule step outcome)

/-- Where a worker under way has come from: it was so before, has just started, or was before at
another stage with the same step. -/
inductive Origin (m m' : Moment) (event : Event) (j : Job) : Prop
  | before (job : j ∈ m.jobs)
  | started (worker : Coordinator.Taken m.coordinator m'.coordinator j.worker.step (.inr j.worker))
    (stage : j.stage = .resting)
  | moved (earlier : Job) (job : earlier ∈ m.jobs)
    (step : j.worker.step = earlier.worker.step)
    (attributes : j.worker.attributes = earlier.worker.attributes)
    (stage : j.stage = .resting ∨ j.stage = .calling)
  | answered (earlier : Job) (job : earlier ∈ m.jobs) (policy : RetryPolicy)
    (request : Provider.Request)
    (next : Provider.Answer request → Program Provider.calls (Reply (Option String × Outputs)))
    (answer : Provider.Answer request) (reply : Reply (Option String × Outputs))
    (outcome : Outcome) (worker : j.worker = earlier.worker)
    (stage : j.stage = .finished outcome)
    (event : event = .answered j.worker.step request answer)
    (call : j.worker.call = .ask request next) (replied : next answer = .done reply)
    (progress : j.worker.afterCall policy reply = .finished outcome)
  | refused (earlier : Job) (job : earlier ∈ m.jobs) (policy : RetryPolicy)
    (reply : Reply (Option String × Outputs)) (outcome : Outcome)
    (worker : j.worker = earlier.worker)
    (stage : j.stage = .finished outcome)
    (call : j.worker.call = .done reply)
    (progress : j.worker.afterCall policy reply = .finished outcome)

theorem Sound.start (plan : Plan) : Sound plan ⟨.start plan, []⟩ := by
  refine ⟨Schedule.Sound.start plan, ?_, ?_, ?_⟩ <;> simp

/-- Taking in a finished worker ends its step. -/
theorem Sound.collect (h : m.Sound plan) (hordered : plan.isWellOrdered = true) {j : Job}
    (hj : j ∈ m.jobs) {outcome : Outcome} (hstage : j.stage = .finished outcome) :
    (m.coordinator.schedule.finish outcome).Sound plan ∧
      m.coordinator.schedule.Ended (m.coordinator.schedule.finish outcome) j.worker.step
        outcome := by
  obtain ⟨hplanned, hstatus, -⟩ := h.job j hj
  obtain ⟨hlabel, hterminal⟩ := h.outcome j hj outcome hstage
  refine h.schedule.finish hordered hplanned hlabel hterminal ?_ ?_
    (h.schedule.begun hplanned (.inl hstatus))
  · exact fun hdone => nomatch hstatus.symm.trans hdone
  · exact fun hready => nomatch hstatus.symm.trans (h.schedule.ready _ hready).1

theorem Move.advance (hordered : plan.isWellOrdered = true) (h : m.Sound plan)
    (move : m.Move settings event m') :
    m'.coordinator.schedule.Sound plan ∧ m.Advance plan m' event := by
  cases move with
  | cancel => exact ⟨h.schedule, .same rfl⟩
  | settle take =>
    obtain ⟨hsound, step, hplanned, hpending, -, htaken⟩ :=
      Coordinator.taken h.schedule hordered take
    cases htaken with
    | settled label result ended =>
      exact ⟨hsound, .ended step _ hplanned (fun hdone => nomatch hpending.symm.trans hdone) label
        (.settled rfl result) ended⟩
  | start take =>
    obtain ⟨hsound, hplanned, hpending, htaken⟩ :=
      Coordinator.taken_worker h.schedule hordered take
    exact ⟨hsound, .started _ hplanned (fun hdone => nomatch hpending.symm.trans hdone) htaken⟩
  | call => exact ⟨h.schedule, .same rfl⟩
  | finish => exact ⟨h.schedule, .same rfl⟩
  | retry => exact ⟨h.schedule, .same rfl⟩
  | lose => exact ⟨h.schedule, .same rfl⟩
  | refuse => exact ⟨h.schedule, .same rfl⟩
  | @collect c before after w outcome =>
    have hj : (⟨w, .finished outcome⟩ : Job) ∈ before ++ ⟨w, .finished outcome⟩ :: after := by simp
    obtain ⟨hsound, hended⟩ := h.collect hordered hj rfl
    obtain ⟨hplanned, hstatus, -⟩ := h.job _ hj
    exact ⟨hsound, .ended w.step outcome hplanned (fun hdone => nomatch hstatus.symm.trans hdone)
      (h.outcome _ hj _ rfl).1 (.collected _ hj rfl rfl) hended⟩

theorem Move.origin (hordered : plan.isWellOrdered = true) (h : m.Sound plan)
    (move : m.Move settings event m') : ∀ j ∈ m'.jobs, Origin m m' event j := by
  -- At most one job is new at every event.
  have hothers : ∀ {before after : List Job} {old new : Job}, m.jobs = before ++ old :: after →
      m'.jobs = before ++ new :: after → (old ∈ m.jobs → Origin m m' event new) →
      ∀ j ∈ m'.jobs, Origin m m' event j := by
    intro before after old new hjobs hjobs' hnew j hj
    rw [hjobs', List.mem_append, List.mem_cons] at hj
    rcases hj with hj | rfl | hj
    · exact .before (by simp [hjobs, hj])
    · exact hnew (by simp [hjobs])
    · exact .before (by simp [hjobs, hj])
  intro j hj
  cases move with
  | cancel => exact .before hj
  | settle take => exact .before hj
  | start take =>
    rcases List.mem_append.1 hj with hj | hj
    · exact .before hj
    · obtain rfl := List.mem_singleton.1 hj
      exact .started (Coordinator.taken_worker h.schedule hordered take).2.2.2 rfl
  | call call => exact hothers rfl rfl (fun hold => .moved _ hold rfl rfl (.inr rfl)) j hj
  | finish call answered progress =>
    exact hothers rfl rfl
      (fun hold => .answered _ hold _ _ _ _ _ _ rfl rfl rfl call answered progress) j hj
  | retry call answered progress =>
    obtain ⟨hstep, hattributes⟩ := Worker.afterCall_retry progress
    exact hothers rfl rfl (fun hold => .moved _ hold hstep hattributes (.inl rfl)) j hj
  | lose =>
    refine .before ?_
    rcases List.mem_append.1 hj with hj | hj <;> simp [hj]
  | refuse call progress =>
    exact hothers rfl rfl (fun hold => .refused _ hold _ _ _ rfl rfl call progress) j hj
  | collect =>
    refine .before ?_
    rcases List.mem_append.1 hj with hj | hj <;> simp [hj]

/-! ## One event -/

section jobs

variable {c : Coordinator} {before after : List Job} {old new : Job}

/-- A job goes on with the same step. -/
theorem Sound.replace (h : Sound plan ⟨c, before ++ old :: after⟩)
    (hstep : new.worker.step = old.worker.step)
    (houtcome : ∀ outcome, new.stage = .finished outcome → outcome.Of new.worker.step ∧
      (outcome.status = .succeeded ∨ outcome.status = .failed)) :
    Sound plan ⟨c, before ++ new :: after⟩ := by
  have hjob : ∀ {P : Job → Prop}, P new → (∀ j ∈ before ++ old :: after, P j) →
      ∀ j ∈ before ++ new :: after, P j := by
    intro P hnew hold j hj
    rw [List.mem_append, List.mem_cons] at hj
    rcases hj with hj | rfl | hj
    · exact hold j (by simp [hj])
    · exact hnew
    · exact hold j (by simp [hj])
  refine ⟨h.schedule, ?_, ?_, ?_⟩
  · have := h.distinct
    simpa [hstep] using this
  · refine hjob ?_ h.job
    rw [hstep]
    exact h.job old (by simp)
  · exact hjob houtcome h.outcome

/-- A job is gone. -/
theorem Sound.remove (h : Sound plan ⟨c, before ++ old :: after⟩) :
    Sound plan ⟨c, before ++ after⟩ ∧
      ∀ j ∈ before ++ after, j.worker.step.index ≠ old.worker.step.index := by
  have hsub : (before ++ after).Sublist (before ++ old :: after) :=
    (List.sublist_cons_self ..).append_left before
  refine ⟨⟨h.schedule, h.distinct.sublist (hsub.map _), fun j hj => h.job j (hsub.subset hj),
    fun j hj => h.outcome j (hsub.subset hj)⟩, fun j hj heq => ?_⟩
  have hperm : (before ++ old :: after).Perm (old :: (before ++ after)) := List.perm_middle
  have hnodup := (hperm.map (·.worker.step.index)).nodup_iff.1 h.distinct
  rw [List.map_cons, List.nodup_cons] at hnodup
  exact hnodup.1 (List.mem_map.2 ⟨j, hj, heq⟩)

end jobs

/-- The jobs stay sound when the steps of all others change. -/
theorem Sound.reschedule (h : m.Sound plan) {c : Coordinator} (hschedule : c.schedule.Sound plan)
    (hkeeps : ∀ j ∈ m.jobs, m.coordinator.schedule.Keeps c.schedule j.worker.step.index) :
    Sound plan ⟨c, m.jobs⟩ := by
  refine ⟨hschedule, h.distinct, fun j hj => ?_, h.outcome⟩
  obtain ⟨hplanned, hstatus, hcalls⟩ := h.job j hj
  exact ⟨hplanned, ((hkeeps j hj).statusAt?_iff (by decide) (by decide)).2 hstatus, hcalls⟩

theorem Sound.move (hordered : plan.isWellOrdered = true) (h : m.Sound plan)
    (move : m.Move settings event m') : m'.Sound plan := by
  have hpending : ∀ {i : Nat}, m.coordinator.schedule.statusAt? i = some .pending →
      ∀ j ∈ m.jobs, i ≠ j.worker.step.index := by
    rintro i hi j hj rfl
    exact nomatch (h.job j hj).2.1.symm.trans hi
  cases move with
  | cancel => exact h.reschedule h.schedule fun j _ => .inl rfl
  | settle take =>
    obtain ⟨hsound, step, -, hstatus, -, htaken⟩ := Coordinator.taken h.schedule hordered take
    cases htaken with
    | settled label result ended =>
      exact h.reschedule hsound fun j hj => ended.keeps _ (hpending hstatus j hj)
  | start take =>
    obtain ⟨hsound, hplanned, hstatus, htaken⟩ :=
      Coordinator.taken_worker h.schedule hordered take
    cases htaken with
    | started worker calls prepared own keeps outputs =>
      have hold := h.reschedule hsound fun j hj => .inl (keeps _ (hpending hstatus j hj))
      refine ⟨hsound, ?_, ?_, ?_⟩
      · rw [List.map_append, List.nodup_append]
        refine ⟨h.distinct, by simp, ?_⟩
        intro i hi i' hi'
        obtain ⟨j, hj, rfl⟩ := List.mem_map.1 hi
        obtain rfl := List.mem_singleton.1 hi'
        exact (hpending hstatus j hj).symm
      · intro j hj
        rcases List.mem_append.1 hj with hj | hj
        · exact hold.job j hj
        · obtain rfl := List.mem_singleton.1 hj
          exact ⟨hplanned, own, calls⟩
      · intro j hj outcome hstage
        rcases List.mem_append.1 hj with hj | hj
        · exact h.outcome j hj outcome hstage
        · obtain rfl := List.mem_singleton.1 hj
          cases hstage
  | call => exact h.replace rfl fun outcome hstage => nomatch hstage
  | finish call answered progress =>
    refine h.replace rfl fun outcome hstage => ?_
    obtain rfl := Stage.finished.inj hstage
    obtain ⟨hlabel, hresult⟩ := Worker.afterCall_finished progress
    exact ⟨hlabel, hresult.symm.imp_left And.left⟩
  | retry call answered progress =>
    exact h.replace (Worker.afterCall_retry progress).1 fun outcome hstage => nomatch hstage
  | lose => exact h.remove.1
  | refuse call progress =>
    refine h.replace rfl fun outcome hstage => ?_
    obtain rfl := Stage.finished.inj hstage
    obtain ⟨hlabel, hresult⟩ := Worker.afterCall_finished progress
    exact ⟨hlabel, hresult.symm.imp_left And.left⟩
  | collect =>
    obtain ⟨hsound, hended⟩ := h.collect hordered (List.mem_append_cons_self) rfl
    obtain ⟨hrest, hothers⟩ := h.remove
    exact hrest.reschedule hsound fun j hj => hended.keeps _ (hothers j hj).symm

end Moment

namespace Execution

variable {trace : List Event} {m : Moment}

theorem sound (h : Execution settings plan trace m) : m.Sound plan :=
  h.induction (P := fun _ m => m.Sound plan) (.start plan) fun hm move =>
    hm.move h.isWellOrdered move

/-- Induction over the events of an execution by what each of them does. -/
theorem advance_induction {P : List Event → Moment → Prop} (h : Execution settings plan trace m)
    (hstart : P [] ⟨.start plan, []⟩)
    (hstep : ∀ {trace m event m'}, m.Sound plan → P trace m → m.Advance plan m' event →
      (∀ j ∈ m'.jobs, m.Origin m' event j) → P (trace ++ [event]) m') : P trace m := by
  refine (h.induction (P := fun trace m => m.Sound plan ∧ P trace m) ⟨.start plan, hstart⟩ ?_).2
  rintro trace m event m' ⟨hm, hP⟩ move
  exact ⟨hm.move h.isWellOrdered move,
    hstep hm hP (move.advance h.isWellOrdered hm).2 (move.origin h.isWellOrdered hm)⟩

end Execution

/-! ## What success rests on -/

/-- Whether the reply to a deletion means that the resource is gone. -/
def Reply.Gone (reply : Reply Unit) : Prop :=
  reply = .ok () ∨ ∃ cause, reply = .failed cause ∧ cause.isNotFound = true

/-- The event that the success of a step rests on. -/
inductive Outcome.Attested (trace : List Event) (step : Step) (outcome : Outcome) : Prop
  | settled
    (event : .settled outcome ∈ trace)
    (calls : step.callsProvider = false)
    (outputs : outcome.outputs = step.outputs)
    (providerId : outcome.providerId = step.providerId)
  | created {created : CreatedResource}
    (action : step.action = .create)
    (event : .answered step (.create step.kind outcome.applied) (.ok created) ∈ trace)
    (outputs : outcome.outputs = created.outputs)
    (providerId : outcome.providerId = some created.providerId)
  | updated {id : String} {fresh : Outputs}
    (action : step.action = .update)
    (recorded : step.providerId = some id)
    (event : .answered step (.update step.kind id outcome.applied) (.ok fresh) ∈ trace)
    (outputs : outcome.outputs = step.outputs.merge fresh)
    (providerId : outcome.providerId = some id)
  | deleted {id : String} {reply : Reply Unit}
    (action : step.action = .delete)
    (recorded : step.providerId = some id)
    (event : .answered step (.delete step.kind id) reply ∈ trace)
    (gone : reply.Gone)

theorem Outcome.Attested.mono {trace trace' : List Event} {step : Step} {outcome : Outcome}
    (h : outcome.Attested trace step) (hsub : ∀ event ∈ trace, event ∈ trace') :
    outcome.Attested trace' step := by
  cases h with
  | settled event calls outputs providerId =>
    exact .settled (hsub _ event) calls outputs providerId
  | created action event outputs providerId =>
    exact .created action (hsub _ event) outputs providerId
  | updated action recorded event outputs providerId =>
    exact .updated action recorded (hsub _ event) outputs providerId
  | deleted action recorded event gone => exact .deleted action recorded (hsub _ event) gone

theorem Step.callsProvider_of_action {step : Step} (h : step.action = .create ∨ step.action = .update) :
    step.callsProvider = true := by
  rcases h with h | h <;> simp [callsProvider, isRetainedDelete, h]

section Attested

variable {trace : List Event} {step : Step} {outcome : Outcome}

theorem Outcome.Attested.of_noop (h : outcome.Attested trace step) (haction : step.action = .noop) :
    outcome.outputs = step.outputs ∧ outcome.providerId = step.providerId := by
  cases h with
  | settled event calls outputs providerId => exact ⟨outputs, providerId⟩
  | created action => exact nomatch haction.symm.trans action
  | updated action => exact nomatch haction.symm.trans action
  | deleted action => exact nomatch haction.symm.trans action

theorem Outcome.Attested.settled_of_noop (h : outcome.Attested trace step)
    (haction : step.action = .noop) : .settled outcome ∈ trace := by
  cases h with
  | settled event => exact event
  | created action => exact nomatch haction.symm.trans action
  | updated action => exact nomatch haction.symm.trans action
  | deleted action => exact nomatch haction.symm.trans action

theorem Outcome.Attested.of_create (h : outcome.Attested trace step)
    (haction : step.action = .create) : ∃ created : CreatedResource,
      .answered step (.create step.kind outcome.applied) (.ok created) ∈ trace ∧
        outcome.outputs = created.outputs ∧ outcome.providerId = some created.providerId := by
  cases h with
  | settled event calls =>
    exact nomatch calls.symm.trans (Step.callsProvider_of_action (.inl haction))
  | created action event outputs providerId => exact ⟨_, event, outputs, providerId⟩
  | updated action => exact nomatch haction.symm.trans action
  | deleted action => exact nomatch haction.symm.trans action

theorem Outcome.Attested.of_update (h : outcome.Attested trace step)
    (haction : step.action = .update) : ∃ id fresh, step.providerId = some id ∧
      .answered step (.update step.kind id outcome.applied) (.ok fresh : Reply Outputs) ∈ trace ∧
        outcome.outputs = step.outputs.merge fresh ∧ outcome.providerId = some id := by
  cases h with
  | settled event calls =>
    exact nomatch calls.symm.trans (Step.callsProvider_of_action (.inr haction))
  | created action => exact nomatch haction.symm.trans action
  | updated action recorded event outputs providerId =>
    exact ⟨_, _, recorded, event, outputs, providerId⟩
  | deleted action => exact nomatch haction.symm.trans action

end Attested

namespace Worker

variable {policy : RetryPolicy} {w : Worker} {reply : Reply (Option String × Outputs)}
  {outcome : Outcome}

/-- A worker that succeeds by a call rests on the answer to it. -/
theorem attested_of_answer {request : Provider.Request} {answer : Provider.Answer request}
    {next : Provider.Answer request → Program Provider.calls (Reply (Option String × Outputs))}
    (hcall : w.call = .ask request next) (hreplied : next answer = .done reply)
    (hprogress : w.afterCall policy reply = .finished outcome)
    (hsucceeded : outcome.status = .succeeded) :
    outcome.Attested [.answered w.step request answer] w.step := by
  obtain ⟨-, hfailed | ⟨-, happlied, hreply⟩⟩ := afterCall_finished hprogress
  · exact nomatch hsucceeded.symm.trans hfailed
  subst hreply
  simp only [call] at hcall
  split at hcall
  · next haction =>
    obtain ⟨rfl, rfl⟩ := Program.ask.inj hcall
    obtain heq := Program.done.inj hreplied
    cases answer with
    | ok created =>
      obtain ⟨hid, houtputs⟩ := Prod.mk.inj (Reply.ok.inj heq)
      exact .created haction (by rw [happlied]; exact List.mem_cons_self ..) houtputs.symm hid.symm
    | failed => cases heq
    | crashed => cases heq
  · next id haction hid =>
    obtain ⟨rfl, rfl⟩ := Program.ask.inj hcall
    obtain heq := Program.done.inj hreplied
    cases answer with
    | ok fresh =>
      obtain ⟨hid', houtputs⟩ := Prod.mk.inj (Reply.ok.inj heq)
      exact .updated haction hid (by rw [happlied]; exact List.mem_cons_self ..) houtputs.symm
        hid'.symm
    | failed => cases heq
    | crashed => cases heq
  · next id haction hid =>
    obtain ⟨rfl, rfl⟩ := Program.ask.inj hcall
    obtain heq := Program.done.inj hreplied
    refine .deleted haction hid (List.mem_cons_self ..) ?_
    cases answer with
    | ok => exact .inl rfl
    | failed cause =>
      rw [afterDelete] at heq
      split at heq
      · next hgone => exact .inr ⟨cause, rfl, hgone⟩
      · cases heq
    | crashed => cases heq
  · cases hcall
  · cases hcall
  · cases hcall

/-- A worker that gives up without a call fails. -/
theorem failed_of_refusal (hcalls : w.step.callsProvider = true) (hcall : w.call = .done reply)
    (hprogress : w.afterCall policy reply = .finished outcome) : outcome.status = .failed := by
  obtain ⟨-, hfailed | ⟨-, -, hreply⟩⟩ := afterCall_finished hprogress
  · exact hfailed
  subst hreply
  simp only [call] at hcall
  split at hcall
  · cases hcall
  · cases hcall
  · cases hcall
  · cases hcall
  · cases hcall
  · next haction =>
    rw [Step.callsProvider, haction] at hcalls
    cases hcalls

end Worker

/-- A success that an event brings is that of the step that has ended. -/
theorem Moment.Advance.succeeded {m m' : Moment} {event : Event} (h : m.Advance plan m' event)
    {k : Nat} {outcome : Outcome} (houtcome : m'.coordinator.schedule.outcomes[k]? = some outcome)
    (hsucceeded : outcome.status = .succeeded) :
    m.coordinator.schedule.outcomes[k]? = some outcome ∨
      ∃ step, plan.steps[k]? = some step ∧ outcome.Of step ∧ m.Source event step outcome ∧
        m.coordinator.schedule.Ended m'.coordinator.schedule step outcome := by
  cases h with
  | same schedule => exact .inl (schedule ▸ houtcome)
  | started w planned unfinished taken =>
    cases taken with
    | started worker calls prepared own keeps outputs =>
      refine .inl ?_
      have hne : w.step.index ≠ k := by
        rintro rfl
        rw [Schedule.statusAt?, houtcome, Option.map_some, hsucceeded] at own
        cases own
      rw [← keeps k hne, houtcome]
  | ended step ended planned unfinished label source hended =>
    rcases hended.succeeded houtcome hsucceeded with ⟨rfl, rfl⟩ | hold
    · exact .inr ⟨step, planned, label, source, hended⟩
    · exact .inl hold

/-- What has succeeded stays so. -/
theorem Moment.Advance.succeeded_mono {m m' : Moment} {event : Event}
    (h : m.Advance plan m' event) {k : Nat}
    (hsucceeded : m.coordinator.schedule.statusAt? k = some .succeeded) :
    m'.coordinator.schedule.statusAt? k = some .succeeded := by
  cases h with
  | same schedule => rw [schedule, hsucceeded]
  | started w planned unfinished taken =>
    cases taken with
    | started worker calls prepared own keeps outputs =>
      have hne : w.step.index ≠ k := fun heq => unfinished (heq ▸ hsucceeded)
      rw [Schedule.statusAt?, keeps k hne]
      exact hsucceeded
  | ended step ended planned unfinished label source hended =>
    have hne : step.index ≠ k := fun heq => unfinished (heq ▸ hsucceeded)
    exact ((hended.keeps k hne).statusAt?_iff (by decide) (by decide)).2 hsucceeded

/-- Every step that has succeeded, and every worker that is about to report so, rests on an event. -/
theorem Execution.attested {trace : List Event} {m : Moment}
    (h : Execution settings plan trace m) :
    (∀ {i : Nat} {step : Step} {outcome : Outcome}, plan.steps[i]? = some step →
      m.coordinator.schedule.outcomes[i]? = some outcome → outcome.status = .succeeded →
      outcome.Attested trace step) ∧
    ∀ j ∈ m.jobs, ∀ {outcome : Outcome}, j.stage = .finished outcome →
      outcome.status = .succeeded → outcome.Attested trace j.worker.step := by
  refine h.advance_induction (P := fun trace m =>
    (∀ {i : Nat} {step : Step} {outcome : Outcome}, plan.steps[i]? = some step →
      m.coordinator.schedule.outcomes[i]? = some outcome → outcome.status = .succeeded →
      outcome.Attested trace step) ∧
    ∀ j ∈ m.jobs, ∀ {outcome : Outcome}, j.stage = .finished outcome →
      outcome.status = .succeeded → outcome.Attested trace j.worker.step) ⟨?_, ?_⟩ ?_
  · intro i step outcome _ houtcome hsucceeded
    obtain ⟨step', -, rfl⟩ := List.mem_map.1 (List.mem_of_getElem? houtcome)
    cases hsucceeded
  · simp
  · rintro trace m event m' hm ⟨hdone, hjobs⟩ hadvance horigin
    have hmono : ∀ {step outcome}, Outcome.Attested trace step outcome →
        outcome.Attested (trace ++ [event]) step :=
      fun h => h.mono fun _ hevent => List.mem_append_left _ hevent
    constructor
    · intro i step outcome hstep houtcome hsucceeded
      rcases hadvance.succeeded houtcome hsucceeded with hold | ⟨step', hstep', -, source, -⟩
      · exact hmono (hdone hstep hold hsucceeded)
      · obtain rfl := Option.some.inj (hstep'.symm.trans hstep)
        cases source with
        | settled event result =>
          cases result with
          | failed status => exact nomatch hsucceeded.symm.trans status
          | succeeded status calls prepared outputs providerId =>
            exact .settled (by simp [event]) calls outputs providerId
        | collected j job worker stage =>
          subst worker
          exact hmono (hjobs j job stage hsucceeded)
    · intro j hj outcome hstage hsucceeded
      cases horigin j hj with
      | before job => exact hmono (hjobs j job hstage hsucceeded)
      | started worker stage => exact nomatch stage.symm.trans hstage
      | moved earlier job step attributes stage =>
        rcases stage with stage | stage <;> exact nomatch stage.symm.trans hstage
      | answered earlier job policy request next answer reply finished worker stage event call
          replied progress =>
        obtain rfl := Stage.finished.inj (stage.symm.trans hstage)
        subst event
        exact (Worker.attested_of_answer call replied progress hsucceeded).mono (by simp)
      | refused earlier job policy reply finished worker stage call progress =>
        obtain rfl := Stage.finished.inj (stage.symm.trans hstage)
        have hcalls := (hm.job earlier job).2.2
        rw [← worker] at hcalls
        exact nomatch hsucceeded.symm.trans (Worker.failed_of_refusal hcalls call progress)

theorem Report.isSuccess_iff {report : Report} : report.isSuccess = true ↔
    report.cancelled = false ∧ ∀ outcome ∈ report.steps, outcome.status = .succeeded := by
  simp [isSuccess]

namespace Execution

variable {trace : List Event} {m : Moment}

/-- Every outcome that is reported stands at the index of its step. -/
theorem index_eq (run : Execution settings plan trace m) {k : Nat} {outcome : Outcome}
    (houtcome : m.coordinator.report.steps[k]? = some outcome) : outcome.index = k := by
  have hsound := run.sound.schedule
  have hlt : k < plan.steps.length := by
    rw [← hsound.length]
    exact (List.getElem?_eq_some_iff.1 houtcome).1
  have hstep : plan.steps[k]? = some plan.steps[k] := List.getElem?_eq_getElem hlt
  rw [(hsound.label hstep houtcome).index, Plan.index_eq run.isWellOrdered hstep]

theorem reported_of_forall (run : Execution settings plan trace m)
    (hall : ∀ outcome ∈ m.coordinator.report.steps, outcome.status = .succeeded) {k : Nat}
    {step : Step} (hstep : plan.steps[k]? = some step) :
    ∃ outcome, m.coordinator.report.steps[k]? = some outcome ∧ outcome.status = .succeeded := by
  have hlt : k < m.coordinator.schedule.outcomes.length := by
    rw [run.sound.schedule.length]
    exact (List.getElem?_eq_some_iff.1 hstep).1
  exact ⟨_, List.getElem?_eq_getElem hlt, hall _ (List.getElem_mem hlt)⟩

/-- In a run that has succeeded every step has. -/
theorem reported_of_success (run : Execution settings plan trace m)
    (hsuccess : m.coordinator.report.isSuccess = true) {k : Nat} {step : Step}
    (hstep : plan.steps[k]? = some step) :
    ∃ outcome, m.coordinator.report.steps[k]? = some outcome ∧ outcome.status = .succeeded :=
  run.reported_of_forall (Report.isSuccess_iff.1 hsuccess).2 hstep

end Execution

end Converge
