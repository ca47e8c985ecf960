import Converge.Proofs.Execution.Completion
import Converge.Proofs.Plan.Supply

/-!
# What comes of a step is foreseen by the outputs it reads

A provider whose answers depend on the request and the number of the attempt only leaves nothing to
chance: what a step comes to is settled by the outputs of the steps it waits for, and these do not
change any more once it has been started.

Main statement: `Execution.foreseen`.
-/

namespace Converge

variable {settings : RunSettings} {plan : Plan} {trace : List Event} {m m' : Moment}
  {event : Event} {policy : RetryPolicy}

/-- A provider that answers a request by its number among the attempts of a step. -/
abbrev Provider.Response := (request : Provider.Request) → Nat → Provider.Answer request

variable {answer : Provider.Response}

/-! ## Counting attempts -/

/-- Whether an event ends a provider call of the step at `i`. -/
def Event.answers (i : Nat) : Event → Bool
  | .answered step _ _ => step.index = i
  | _ => false

/-- Number of provider calls of the step at `i` that have ended. -/
def answersTo (i : Nat) (trace : List Event) : Nat := trace.countP (Event.answers i)

/-- Whether an event that ends a call does so as the provider responds to its number. -/
def Event.Follows (answer : Provider.Response) (earlier : List Event) : Event → Prop
  | .answered step request given => given = answer request (answersTo step.index earlier + 1)
  | _ => True

/-- Whether every call has been answered as the provider responds to its number. -/
def Provided (answer : Provider.Response) (trace : List Event) : Prop :=
  ∀ (before after : List Event) (event : Event), trace = before ++ event :: after →
    event.Follows answer before

theorem answersTo_concat (i : Nat) :
    answersTo i (trace ++ [event]) = answersTo i trace + if event.answers i then 1 else 0 := by
  simp [answersTo, List.countP_cons]

theorem provided_concat :
    Provided answer (trace ++ [event]) ↔ Provided answer trace ∧ event.Follows answer trace := by
  constructor
  · intro h
    refine ⟨fun before after earlier htrace => ?_, h trace [] event rfl⟩
    exact h before (after ++ [event]) earlier (by simp [htrace])
  · rintro ⟨htrace, hevent⟩ before after other heq
    rcases List.eq_nil_or_concat after with rfl | ⟨after, last, rfl⟩
    · obtain ⟨rfl, hlast⟩ := List.append_inj' heq rfl
      exact (List.cons.inj hlast).1 ▸ hevent
    · have heq' : trace ++ [event] = (before ++ other :: after) ++ [last] := by simpa using heq
      exact htrace before after other (List.append_inj' heq' rfl).1

theorem provided_nil : Provided answer [] := by
  intro before after event htrace
  simp at htrace

/-! ## What a worker comes to -/

namespace Worker

variable {w : Worker} {outcome outcome' : Outcome}

/-- What a worker makes of its next call, if it makes one. -/
def reply? (answer : Provider.Response) (w : Worker) : Option (Reply (Option String × Outputs)) :=
  match w.call with
  | .done reply => some reply
  | .ask request next =>
    match next (answer request (w.attempts + 1)) with
    | .done reply => some reply
    | .ask _ _ => none

theorem reply?_of_answered {request : Provider.Request}
    {next : Provider.Answer request → Program Provider.calls (Reply (Option String × Outputs))}
    {given : Provider.Answer request} {reply : Reply (Option String × Outputs)}
    (call : w.call = .ask request next) (answered : next given = .done reply)
    (hgiven : given = answer request (w.attempts + 1)) : w.reply? answer = some reply := by
  simp only [reply?, call]
  rw [← hgiven, answered]

/-- What a worker comes to in the end. -/
inductive Yields (policy : RetryPolicy) (answer : Provider.Response) : Worker → Outcome → Prop
  | finished {w : Worker} {reply : Reply (Option String × Outputs)} {outcome : Outcome}
    (replied : w.reply? answer = some reply)
    (progress : w.afterCall policy reply = .finished outcome) : Yields policy answer w outcome
  | retried {w w' : Worker} {reply : Reply (Option String × Outputs)} {outcome : Outcome}
    {delay : Nat} (replied : w.reply? answer = some reply)
    (progress : w.afterCall policy reply = .retry w' delay)
    (rest : Yields policy answer w' outcome) : Yields policy answer w outcome

theorem Yields.unique (h : w.Yields policy answer outcome)
    (h' : w.Yields policy answer outcome') : outcome = outcome' := by
  induction h with
  | finished replied progress =>
    cases h' with
    | finished replied' progress' =>
      obtain rfl := Option.some.inj (replied.symm.trans replied')
      exact Progress.finished.inj (progress.symm.trans progress')
    | retried replied' progress' =>
      obtain rfl := Option.some.inj (replied.symm.trans replied')
      exact nomatch progress.symm.trans progress'
  | retried replied progress rest ih =>
    cases h' with
    | finished replied' progress' =>
      obtain rfl := Option.some.inj (replied.symm.trans replied')
      exact nomatch progress.symm.trans progress'
    | retried replied' progress' rest' =>
      obtain rfl := Option.some.inj (replied.symm.trans replied')
      obtain ⟨rfl, -⟩ := Progress.retry.inj (progress.symm.trans progress')
      exact ih rest'

end Worker

/-- What comes of a step that is taken, on the spot or by a worker. -/
inductive Coordinator.Foresees (policy : RetryPolicy) (answer : Provider.Response) (s : Schedule)
    (step : Step) (outcome : Outcome) : Prop
  | settled (dispatch : dispatch s step = .inl outcome)
  | worked (w : Worker) (dispatch : dispatch s step = .inr w)
    (yields : w.Yields policy answer outcome)

namespace Coordinator

variable {s s' : Schedule} {step : Step} {outcome outcome' : Outcome}

theorem dispatch_congr (h : s.prepare step = s'.prepare step) :
    dispatch s step = dispatch s' step := by
  unfold dispatch
  rw [h]

theorem Foresees.congr (h : Foresees policy answer s step outcome)
    (hprepare : s.prepare step = s'.prepare step) : Foresees policy answer s' step outcome := by
  cases h with
  | settled dispatch => exact .settled (dispatch_congr hprepare ▸ dispatch)
  | worked w dispatch yields => exact .worked w (dispatch_congr hprepare ▸ dispatch) yields

theorem Foresees.unique (h : Foresees policy answer s step outcome)
    (h' : Foresees policy answer s step outcome') : outcome = outcome' := by
  cases h with
  | settled dispatch =>
    cases h' with
    | settled dispatch' => exact Sum.inl.inj (dispatch.symm.trans dispatch')
    | worked w dispatch' => exact nomatch dispatch.symm.trans dispatch'
  | worked w dispatch yields =>
    cases h' with
    | settled dispatch' => exact nomatch dispatch.symm.trans dispatch'
    | worked w' dispatch' yields' =>
      obtain rfl := Sum.inr.inj (dispatch.symm.trans dispatch')
      exact yields.unique yields'

end Coordinator

/-! ## Steps that wait, or were rolled back -/

namespace Schedule

variable {s : Schedule} {i : Nat}

/-- Whether nothing is held about a step but how far it has come. -/
def Untouched (step : Step) (outcome : Outcome) : Prop :=
  ∃ status error, outcome = { Outcome.pending step with status, error }

/-- Whether all steps are untouched that have not ended. -/
def Blank (plan : Plan) (outcomes : List Outcome) : Prop :=
  ∀ (k : Nat) (step : Step) (outcome : Outcome), plan.steps[k]? = some step →
    outcomes[k]? = some outcome → outcome.status ≠ .succeeded → outcome.status ≠ .failed →
      Untouched step outcome

theorem Blank.start (plan : Plan) : Blank plan (Schedule.start plan).outcomes := by
  intro k step outcome hstep houtcome _ _
  rw [Schedule.start, List.getElem?_map, hstep] at houtcome
  obtain rfl := Option.some.inj houtcome
  exact ⟨.pending, none, rfl⟩

/-- Writing down how far a pending step has come touches nothing else. -/
theorem Blank.modify (h : Blank plan s.outcomes) (hpending : s.statusAt? i = some .pending)
    {f : Outcome → Outcome}
    (hf : ∀ outcome, ∃ status error, f outcome = { outcome with status, error }) :
    Blank plan (s.outcomes.modify i f) := by
  intro k step outcome hstep houtcome hsucceeded hfailed
  rw [List.getElem?_modify] at houtcome
  obtain ⟨held, hheld, rfl⟩ := Option.map_eq_some_iff.1 houtcome
  by_cases hk : i = k
  · subst hk
    rw [statusAt?, hheld, Option.map_some, Option.some_inj] at hpending
    obtain ⟨_, _, hsame⟩ := h i step held hstep hheld (by simp [hpending]) (by simp [hpending])
    obtain ⟨status, error, heq⟩ := hf held
    rw [if_pos rfl, heq, hsame]
    exact ⟨status, error, rfl⟩
  · simp only [if_neg hk] at hsucceeded hfailed ⊢
    exact h k step held hstep hheld hsucceeded hfailed

theorem Blank.rollBackQueue (h : Blank plan s.outcomes) (cause : String) (fuel : Nat)
    (queue : List Nat) : Blank plan (Schedule.rollBackQueue cause fuel queue s).outcomes := by
  induction fuel generalizing queue s with
  | zero => exact h
  | succ fuel ih =>
    cases queue with
    | nil => exact h
    | cons i queue =>
      rw [Schedule.rollBackQueue]
      split
      · next hpending =>
        refine ih (h.modify hpending fun outcome => ⟨_, _, rfl⟩) _
      · exact ih h _

/-- When a step ends nothing more is known of the others. -/
theorem Blank.finish (h : Blank plan s.outcomes) {outcome : Outcome}
    (hterminal : outcome.status = .succeeded ∨ outcome.status = .failed) :
    Blank plan (s.finish outcome).outcomes := by
  have hset : ∀ outcomes, Blank plan outcomes →
      Blank plan (outcomes.set outcome.index outcome) := by
    intro outcomes houtcomes k step held hstep hheld hsucceeded hfailed
    rw [List.getElem?_set] at hheld
    split at hheld
    · split at hheld
      · obtain rfl := Option.some.inj hheld
        exact absurd hterminal (by simp [hsucceeded, hfailed])
      · cases hheld
    · exact houtcomes k step held hstep hheld hsucceeded hfailed
  unfold Schedule.finish
  refine hset _ ?_
  by_cases hsucceeded : outcome.status = .succeeded
  · rw [if_pos hsucceeded, (foldl_release _ _).1.2.2.1]
    exact h
  · rw [if_neg hsucceeded]
    exact h.rollBackQueue _ _ _

end Schedule

/-! ## The invariant -/

/-- What a step is given depends on the outputs of the steps it waits for only. -/
theorem Plan.Supplied.prepare_eq (h : plan.Supplied) {s s' : Schedule} {k : Nat} {step : Step}
    (hstep : plan.steps[k]? = some step)
    (houtputs : ∀ d ∈ step.dependsOn, ∀ id, plan.Produces d id →
      s.outputs.outputs.get? id = s'.outputs.outputs.get? id) :
    s.prepare step = s'.prepare step := by
  refine Schedule.prepareAttributes_congr fun name value hmem r hr => ?_
  obtain ⟨d, hd, hproduces⟩ := h.waits hstep (Table.mem_entries.1 hmem) hr
  unfold OutputTable.get?
  rw [houtputs d hd r.nodeId hproduces]

/-- What a step that waits for nothing more is given does not change any more. -/
theorem Moment.Informed.prepare_eq (h : m.Informed plan) (hsupplied : plan.Supplied)
    (hextends : m.outputs.Extends m'.outputs) {k : Nat} {step : Step}
    (hstep : plan.steps[k]? = some step)
    (hdeps : ∀ d ∈ step.dependsOn, m.statusAt? d = some .succeeded) :
    m.coordinator.schedule.prepare step = m'.coordinator.schedule.prepare step := by
  refine hsupplied.prepare_eq hstep ?_
  rintro d hd id ⟨producer, hproducer, rfl, hdelete⟩
  obtain ⟨produced, hproduced, hsucceeded⟩ := Schedule.statusAt?_eq_some_iff.1 (hdeps d hd)
  have hrecorded := h.recorded hproducer hproduced hsucceeded hdelete
  exact hrecorded.trans (hextends _ _ hrecorded).symm

/-- A worker as it was when it started. -/
def Worker.fresh (w : Worker) : Worker := { step := w.step, attributes := w.attributes }

theorem Coordinator.fresh_of_dispatch {s : Schedule} {step : Step} {w : Worker}
    (h : dispatch s step = .inr w) : w.fresh = w := by
  unfold dispatch at h
  split at h
  · cases h
  · split at h
    · obtain rfl := Sum.inr.inj h
      rfl
    · cases h

namespace Job

/-- Whether a worker comes to what it would have come to from the beginning. -/
def Foreseen (policy : RetryPolicy) (answer : Provider.Response) (trace : List Event) (j : Job) :
    Prop :=
  match j.stage with
  | .resting | .calling =>
    answersTo j.worker.step.index trace = j.worker.attempts ∧
      ∀ outcome, j.worker.Yields policy answer outcome → j.worker.fresh.Yields policy answer outcome
  | .finished outcome => j.worker.fresh.Yields policy answer outcome

theorem Foreseen.concat {j : Job} (h : j.Foreseen policy answer trace)
    (hother : event.answers j.worker.step.index = false) :
    j.Foreseen policy answer (trace ++ [event]) := by
  unfold Foreseen at h ⊢
  rw [answersTo_concat, hother]
  exact h

end Job

namespace Moment

/-- Whatever has ended, or is about to, is what the provider's responses lead to. -/
structure Foreseen (settings : RunSettings) (answer : Provider.Response) (plan : Plan)
    (trace : List Event) (m : Moment) : Prop where
  blank : Schedule.Blank plan m.coordinator.schedule.outcomes
  unanswered : ∀ i, m.statusAt? i = some .pending → answersTo i trace = 0
  jobs : ∀ j ∈ m.jobs, j.Foreseen settings.retry answer trace
  ended : ∀ (k : Nat) (step : Step) (outcome : Outcome), plan.steps[k]? = some step →
    m.coordinator.schedule.outcomes[k]? = some outcome →
    outcome.status = .succeeded ∨ outcome.status = .failed →
      Coordinator.Foresees settings.retry answer m.coordinator.schedule step outcome

theorem Foreseen.start (plan : Plan) :
    Foreseen settings answer plan [] ⟨.start plan, []⟩ := by
  refine ⟨.start plan, fun _ _ => rfl, by simp, ?_⟩
  intro k step outcome _ houtcome hterminal
  obtain ⟨step', -, rfl⟩ := List.mem_map.1 (List.mem_of_getElem? houtcome)
  simp [Outcome.pending] at hterminal

/-- An answer is one to a worker under way. -/
theorem Move.answers (move : m.Move settings event m') {i : Nat} (h : event.answers i = true) :
    ∃ j ∈ m.jobs, j.worker.step.index = i := by
  cases move with
  | finish => exact ⟨_, List.mem_append_cons_self, by simpa [Event.answers] using h⟩
  | retry => exact ⟨_, List.mem_append_cons_self, by simpa [Event.answers] using h⟩
  | lose => exact ⟨_, List.mem_append_cons_self, by simpa [Event.answers] using h⟩
  | cancel | settle | start | call | refuse | collect => cases h

section move

variable (hordered : plan.isWellOrdered = true) (hm : m.Sound plan)
  (h : Foreseen settings answer plan trace m) (move : m.Move settings event m')

include hordered hm h move

theorem Foreseen.unanswered_move {i : Nat} (hpending : m'.statusAt? i = some .pending) :
    answersTo i (trace ++ [event]) = 0 := by
  have hbefore := (move.pending hordered hm hpending).1
  rw [answersTo_concat, h.unanswered i hbefore]
  split
  · next hanswers =>
    obtain ⟨j, hj, rfl⟩ := move.answers hanswers
    exact nomatch (hm.job j hj).2.1.symm.trans hbefore
  · rfl

theorem Foreseen.jobs_move (hfollows : event.Follows answer trace) :
    ∀ j ∈ m'.jobs, j.Foreseen settings.retry answer (trace ++ [event]) := by
  -- A worker goes on while the others stay as they are.
  have hreplace : ∀ {c : Coordinator} {before after : List Job} {old new : Job},
      m = ⟨c, before ++ old :: after⟩ →
      (∀ i, event.answers i = true → i = old.worker.step.index) →
      (old.Foreseen settings.retry answer trace →
        new.Foreseen settings.retry answer (trace ++ [event])) →
      ∀ j ∈ before ++ new :: after, j.Foreseen settings.retry answer (trace ++ [event]) := by
    rintro c before after old new rfl hanswers hnew j hj
    have hothers := hm.remove.2
    by_cases hmem : j ∈ before ++ after
    · refine (h.jobs j ?_).concat (Bool.eq_false_iff.2 fun hyes => hothers j hmem (hanswers _ hyes))
      rcases List.mem_append.1 hmem with hmem | hmem <;> simp [hmem]
    · obtain rfl : j = new := by
        rw [List.mem_append, List.mem_cons] at hj
        rw [List.mem_append, not_or] at hmem
        exact (hj.resolve_left hmem.1).resolve_right hmem.2
      exact hnew (h.jobs old List.mem_append_cons_self)
  have hgone : ∀ {c : Coordinator} {before after : List Job} {old : Job},
      m = ⟨c, before ++ old :: after⟩ →
      (∀ i, event.answers i = true → i = old.worker.step.index) →
      ∀ j ∈ before ++ after, j.Foreseen settings.retry answer (trace ++ [event]) := by
    rintro c before after old rfl hanswers j hj
    have hothers := hm.remove.2
    refine (h.jobs j ?_).concat (Bool.eq_false_iff.2 fun hyes => hothers j hj (hanswers _ hyes))
    rcases List.mem_append.1 hj with hj | hj <;> simp [hj]
  cases move with
  | cancel => exact fun j hj => (h.jobs j hj).concat rfl
  | settle take => exact fun j hj => (h.jobs j hj).concat rfl
  | start take =>
    intro j hj
    rcases List.mem_append.1 hj with hj | hj
    · exact (h.jobs j hj).concat rfl
    · obtain rfl := List.mem_singleton.1 hj
      obtain ⟨-, -, hpending, -⟩ := Coordinator.taken_worker hm.schedule hordered take
      obtain ⟨i, ready, step, -, -, hdispatch, -⟩ := Coordinator.takeNext_eq_some take
      have hfresh := Coordinator.fresh_of_dispatch hdispatch
      refine ⟨?_, fun outcome hyields => hfresh.symm ▸ hyields⟩
      rw [answersTo_concat, h.unanswered _ hpending]
      exact congrArg Worker.attempts hfresh
  | @call c before after w request next call =>
    refine hreplace rfl (fun i hanswers => nomatch hanswers) fun hold => ?_
    have hother : (Event.called w.step request).answers w.step.index = false := rfl
    exact hold.concat hother
  | @finish c before after w request next given reply outcome call answered progress =>
    refine hreplace rfl (fun i hanswers => by simpa [Event.answers, eq_comm] using hanswers) ?_
    rintro ⟨hattempts, hahead⟩
    have hgiven : given = answer request (answersTo w.step.index trace + 1) := hfollows
    rw [hattempts] at hgiven
    exact hahead outcome (.finished (Worker.reply?_of_answered call answered hgiven) progress)
  | @retry c before after w w' request next given reply delay call answered progress =>
    refine hreplace rfl (fun i hanswers => by simpa [Event.answers, eq_comm] using hanswers) ?_
    rintro ⟨hattempts, hahead⟩
    have hgiven : given = answer request (answersTo w.step.index trace + 1) := hfollows
    rw [hattempts] at hgiven
    have hreply := Worker.reply?_of_answered call answered hgiven
    obtain ⟨hstep, hattributes⟩ := Worker.afterCall_retry progress
    have hfresh : w'.fresh = w.fresh := by rw [Worker.fresh, Worker.fresh, hstep, hattributes]
    refine ⟨?_, fun outcome hyields => ?_⟩
    · rw [(Run.afterCall_attempts progress).1, ← hattempts, answersTo_concat, hstep]
      simp [Event.answers]
    · exact hfresh.symm ▸ hahead outcome (.retried hreply progress hyields)
  | lose => exact hgone rfl fun i hanswers => by simpa [Event.answers, eq_comm] using hanswers
  | @refuse c before after w reply outcome call progress =>
    refine hreplace rfl (fun i hanswers => nomatch hanswers) ?_
    rintro ⟨-, hahead⟩
    exact hahead outcome (.finished (by simp only [Worker.reply?, call]) progress)
  | collect => exact hgone rfl fun i hanswers => nomatch hanswers

end move

/-- What the coordinator learns of a step was foreseen. -/
theorem Foreseen.learned (hordered : plan.isWellOrdered = true) (hm : m.Sound plan)
    (hinformed : m.Informed plan) (h : Foreseen settings answer plan trace m)
    (move : m.Move settings event m') {outcome : Outcome}
    (houtcome : event.outcome? = some outcome) :
    ∃ step, plan.steps[outcome.index]? = some step ∧
      (∀ d ∈ step.dependsOn, m.statusAt? d = some .succeeded) ∧
      Coordinator.Foresees settings.retry answer m.coordinator.schedule step outcome := by
  cases move with
  | settle take =>
    obtain rfl := Option.some.inj houtcome
    obtain ⟨i, ready, step, hready, hstep, hdispatch, -⟩ := Coordinator.takeNext_eq_some take
    rw [hm.schedule.steps] at hstep
    have hindex := (Coordinator.dispatch_inl hdispatch).1.index
    rw [Plan.index_eq hordered hstep] at hindex
    exact ⟨step, hindex ▸ hstep, (hm.schedule.head hready).2.2.2 step hstep, .settled hdispatch⟩
  | @collect c before after w last =>
    obtain rfl : last = outcome := Option.some.inj houtcome
    have hj : (⟨w, .finished last⟩ : Job) ∈ before ++ ⟨w, .finished last⟩ :: after := by simp
    obtain ⟨hplanned, hstatus, hcalls⟩ := hm.job _ hj
    have hprepare : c.schedule.prepare w.step = .ok w.attributes := hinformed.job _ hj
    have hdispatch : Coordinator.dispatch c.schedule w.step = .inr w.fresh := by
      unfold Coordinator.dispatch
      rw [hprepare]
      exact if_pos hcalls
    refine ⟨w.step, ?_, hm.schedule.begun hplanned (.inl hstatus),
      .worked _ hdispatch (h.jobs _ hj)⟩
    rw [(hm.outcome _ hj _ rfl).1.index, hplanned]
  | cancel | start | call | finish | retry | lose | refuse => cases houtcome

theorem Foreseen.move (hordered : plan.isWellOrdered = true) (hsupplied : plan.Supplied)
    (hm : m.Sound plan) (hclosed : m.coordinator.schedule.Closed plan) (hinformed : m.Informed plan)
    (h : Foreseen settings answer plan trace m) (move : m.Move settings event m')
    (hfollows : event.Follows answer trace) :
    Foreseen settings answer plan (trace ++ [event]) m' := by
  refine ⟨?_, fun i => h.unanswered_move hordered hm move,
    h.jobs_move hordered hm move hfollows, ?_⟩
  · cases move with
    | settle take =>
      obtain ⟨i, ready, step, -, -, hdispatch, hresult⟩ := Coordinator.takeNext_eq_some take
      obtain ⟨outcome, heq, rfl⟩ | ⟨_, heq, -⟩ := hresult
      · obtain rfl := Sum.inl.inj heq
        exact Schedule.Blank.finish (s := { m.coordinator.schedule with ready }) h.blank
          (Coordinator.dispatch_inl hdispatch).2.terminal
      · cases heq
    | start take =>
      obtain ⟨i, ready, step, hready, -, -, hresult⟩ := Coordinator.takeNext_eq_some take
      obtain ⟨outcome, heq, -⟩ | ⟨_, heq, rfl⟩ := hresult
      · cases heq
      · have hpending := (hm.schedule.head hready).2.2.1
        exact h.blank.modify hpending fun outcome => ⟨.inProgress, outcome.error, rfl⟩
    | collect =>
      exact Schedule.Blank.finish h.blank (hm.outcome _ List.mem_append_cons_self _ rfl).2
    | cancel | call | finish | retry | lose | refuse => exact h.blank
  · intro k step outcome hstep houtcome hterminal
    obtain ⟨hsound', hadvance⟩ := move.advance hordered hm
    have hextends := hinformed.extends hsupplied.single hadvance
    rcases move.learned hordered hm houtcome hterminal with hold | hnew
    · have hdeps : ∀ d ∈ step.dependsOn, m.statusAt? d = some .succeeded := by
        have hheld : m.statusAt? k = some outcome.status :=
          congrArg (Option.map Outcome.status) hold
        rcases hterminal with hterminal | hterminal <;>
          exact hclosed.consistent.begun hstep (hheld.trans (congrArg some hterminal)) (by simp)
            (by simp)
      exact (h.ended k step outcome hstep hold hterminal).congr
        (hinformed.prepare_eq hsupplied hextends hstep hdeps)
    · obtain ⟨step', hstep', hdeps, hforesees⟩ := h.learned hordered hm hinformed move hnew
      have hindex : outcome.index = k := by
        rw [(hsound'.label hstep houtcome).index, Plan.index_eq hordered hstep]
      subst hindex
      obtain rfl := Option.some.inj (hstep.symm.trans hstep')
      exact hforesees.congr (hinformed.prepare_eq hsupplied hextends hstep hdeps)

end Moment

theorem Execution.foreseen (hsupplied : plan.Supplied) (h : Execution settings plan trace m)
    (hprovided : Provided answer trace) : m.Foreseen settings answer plan trace := by
  induction h with
  | start ordered => exact .start plan
  | next run move ih =>
    obtain ⟨hearlier, hlast⟩ := provided_concat.1 hprovided
    exact (ih hearlier).move run.isWellOrdered hsupplied run.sound run.closed
      (run.informed hsupplied.single) move hlast

end Converge
