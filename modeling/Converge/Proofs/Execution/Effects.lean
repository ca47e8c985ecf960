import Mathlib.Data.List.Pairwise
import Converge.Proofs.Execution.Dispatch
import Converge.Proofs.Execution.Run

/-!
# What an apply changes

A step has an effect on live resources at most once: a worker whose call has had one makes no
further call, and reports that its step has succeeded.

Main statements: `Execution.pairwise_changes` and `Execution.succeeded_of_change`.
-/

namespace Converge

/-- The kind and the attributes of a live resource. -/
abbrev Holding := Kind × Attributes

namespace Event

/-- What is known of a resource after an event that is about it: what it holds, or that it is
gone. -/
def change? : Event → Option (String × Option Holding)
  | .answered _ (.create kind attributes) (.ok created) =>
    some (created.providerId, some (kind, attributes))
  | .answered _ (.update kind id attributes) (.ok _) => some (id, some (kind, attributes))
  | .answered _ (.delete _ id) (.ok _) => some (id, none)
  | .answered _ (.delete _ id) (.failed cause) => if cause.isNotFound then some (id, none) else none
  | _ => none

/-- The step whose call is answered. -/
def answered? : Event → Option Step
  | .answered step _ _ => some step
  | _ => none

theorem change?_delete {step : Step} {kind : Kind} {id : String} {reply : Reply Unit}
    (h : reply.Gone) : (Event.answered step (.delete kind id) reply).change? = some (id, none) := by
  rcases h with rfl | ⟨cause, rfl, hgone⟩
  · rfl
  · exact if_pos hgone

end Event

/-! ## Calls -/

namespace Worker

variable {w : Worker} {request : Provider.Request} {answer : Provider.Answer request}
  {next : Provider.Answer request → Program Provider.calls (Reply (Option String × Outputs))}
  {reply : Reply (Option String × Outputs)}

/-- A call that has an effect is one that succeeds. -/
theorem ok_of_change (hcall : w.call = .ask request next) (hreplied : next answer = .done reply)
    {step : Step} {change : String × Option Holding}
    (hchange : (Event.answered step request answer).change? = some change) :
    ∃ value, reply = .ok value := by
  simp only [call] at hcall
  split at hcall
  · obtain ⟨rfl, rfl⟩ := Program.ask.inj hcall
    obtain rfl := Program.done.inj hreplied
    cases answer with
    | ok created => exact ⟨_, rfl⟩
    | failed => cases hchange
    | crashed => cases hchange
  · obtain ⟨rfl, rfl⟩ := Program.ask.inj hcall
    obtain rfl := Program.done.inj hreplied
    cases answer with
    | ok fresh => exact ⟨_, rfl⟩
    | failed => cases hchange
    | crashed => cases hchange
  · obtain ⟨rfl, rfl⟩ := Program.ask.inj hcall
    obtain rfl := Program.done.inj hreplied
    cases answer with
    | ok => exact ⟨_, rfl⟩
    | failed cause =>
      rw [Event.change?] at hchange
      split at hchange
      · next hgone => exact ⟨_, if_pos hgone⟩
      · cases hchange
    | crashed => cases hchange
  · cases hcall
  · cases hcall
  · cases hcall

end Worker

variable {settings : RunSettings} {plan : Plan} {trace : List Event} {m m' : Moment}
  {event : Event}

namespace Moment

theorem Move.calling {step : Step} {request : Provider.Request} {answer : Provider.Answer request}
    (move : m.Move settings (.answered step request answer) m') :
    ∃ w next, ⟨w, .calling⟩ ∈ m.jobs ∧ w.step = step ∧ w.call = .ask request next := by
  cases move with
  | finish call => exact ⟨_, _, List.mem_append_cons_self, rfl, call⟩
  | retry call => exact ⟨_, _, List.mem_append_cons_self, rfl, call⟩
  | lose call => exact ⟨_, _, List.mem_append_cons_self, rfl, call⟩

/-- Whether a step has succeeded, or its worker is about to report so. -/
def Done (m : Moment) (step : Step) : Prop :=
  (∃ j ∈ m.jobs, j.worker.step = step ∧ ∃ outcome, j.stage = .finished outcome ∧
    outcome.status = .succeeded) ∨ m.statusAt? step.index = some .succeeded

theorem Done.move {step : Step} (hordered : plan.isWellOrdered = true) (hm : m.Sound plan)
    (move : m.Move settings event m') (h : m.Done step) : m'.Done step := by
  rcases h with ⟨j, hj, rfl, outcome, hstage, hsucceeded⟩ | hdone
  case inr => exact .inr ((move.ended_iff hordered hm (.inl rfl)).2 (.inl hdone))
  -- A worker that has finished stays until it is taken in.
  have hstays : ∀ {before after : List Job} {old new : Job}, j ∈ before ++ old :: after →
      (∀ outcome, old.stage ≠ .finished outcome) → j ∈ before ++ new :: after := by
    intro before after old new hj hunfinished
    rw [List.mem_append, List.mem_cons] at hj ⊢
    rcases hj with hj | rfl | hj
    · exact .inl hj
    · exact absurd hstage (hunfinished outcome)
    · exact .inr (.inr hj)
  have hkept : j ∈ m'.jobs → m'.Done j.worker.step := fun hj =>
    .inl ⟨j, hj, rfl, outcome, hstage, hsucceeded⟩
  cases move with
  | cancel => exact hkept hj
  | settle => exact hkept hj
  | start => exact hkept (List.mem_append_left _ hj)
  | call => exact hkept (hstays hj fun _ h => Stage.noConfusion h)
  | finish => exact hkept (hstays hj fun _ h => Stage.noConfusion h)
  | retry => exact hkept (hstays hj fun _ h => Stage.noConfusion h)
  | refuse => exact hkept (hstays hj fun _ h => Stage.noConfusion h)
  | @lose c before after w =>
    refine hkept ?_
    rw [List.mem_append, List.mem_cons] at hj
    rcases hj with hj | rfl | hj
    · exact List.mem_append_left _ hj
    · cases hstage
    · exact List.mem_append_right _ hj
  | @collect c before after w taken =>
    rw [List.mem_append, List.mem_cons] at hj
    rcases hj with hj | rfl | hj
    · exact hkept (List.mem_append_left _ hj)
    · obtain rfl := Stage.finished.inj hstage
      obtain ⟨-, hended⟩ := hm.collect hordered List.mem_append_cons_self rfl
      refine .inr ?_
      rw [statusAt?, Schedule.statusAt?]
      exact (congrArg (Option.map (·.status)) hended.own).trans (congrArg some hsucceeded)
    · exact hkept (List.mem_append_right _ hj)

theorem Move.done_of_change (move : m.Move settings event m') {step : Step}
    (hanswered : event.answered? = some step) {change : String × Option Holding}
    (hchange : event.change? = some change) : m'.Done step := by
  cases move with
  | cancel | settle | start | call | refuse | collect => cases hanswered
  | @finish c before after w request next answer reply outcome call answered progress =>
    obtain rfl := Option.some.inj hanswered
    obtain ⟨value, rfl⟩ := Worker.ok_of_change call answered hchange
    obtain rfl := Progress.finished.inj progress
    exact .inl ⟨_, List.mem_append_cons_self, rfl, _, rfl, rfl⟩
  | retry call answered progress =>
    obtain ⟨value, rfl⟩ := Worker.ok_of_change call answered hchange
    cases progress
  | lose call answered progress =>
    obtain ⟨value, rfl⟩ := Worker.ok_of_change call answered hchange
    cases progress

/-- A step that is done makes no call. -/
theorem Done.not_answered {step : Step} (hm : m.Sound plan) (h : m.Done step)
    (move : m.Move settings event m') : event.answered? ≠ some step := by
  intro hanswered
  obtain ⟨request, answer, rfl⟩ : ∃ request answer, event = .answered step request answer := by
    cases event with
    | answered other request answer =>
      obtain rfl := Option.some.inj hanswered
      exact ⟨request, answer, rfl⟩
    | cancelled | settled | started | called | refused | collected => cases hanswered
  obtain ⟨w, next, hw, rfl, -⟩ := move.calling
  rcases h with ⟨j, hj, hstep, outcome, hstage, -⟩ | hdone
  · have hsame : j = ⟨w, .calling⟩ :=
      List.inj_on_of_nodup_map hm.distinct hj hw (congrArg Step.index hstep)
    subst hsame
    cases hstage
  · exact nomatch (hm.job _ hw).2.1.symm.trans hdone

end Moment

/-! ## Whole executions -/

namespace Execution

theorem done_of_change (h : Execution settings plan trace m) {step : Step} (hevent : event ∈ trace)
    (hanswered : event.answered? = some step) {change : String × Option Holding}
    (hchange : event.change? = some change) : m.Done step := by
  induction h with
  | start => cases hevent
  | next run move ih =>
    rcases List.mem_append.1 hevent with hbefore | hnew
    · exact (ih hbefore).move run.isWellOrdered run.sound move
    · obtain rfl := List.mem_singleton.1 hnew
      exact move.done_of_change hanswered hchange

/-- When all workers have been taken in, every step that has had an effect has succeeded. -/
theorem succeeded_of_change (h : Execution settings plan trace m)
    (hquiet : trace.countP Event.isStart = trace.countP Event.isCollection) {step : Step}
    (hevent : event ∈ trace) (hanswered : event.answered? = some step)
    {change : String × Option Holding} (hchange : event.change? = some change) :
    m.statusAt? step.index = some .succeeded := by
  refine (h.done_of_change hevent hanswered hchange).resolve_left ?_
  rintro ⟨j, hj, -⟩
  have hcounted := h.staffed.counted
  have hjobs := h.staffed.jobs
  have hnone : m.jobs.length = 0 := by omega
  rw [List.length_eq_zero_iff.1 hnone] at hj
  cases hj

/-- After a call of a step that has had an effect no other call of it is answered. -/
theorem pairwise_changes (h : Execution settings plan trace m) :
    trace.Pairwise fun a b => ∀ step change, a.answered? = some step → a.change? = some change →
      b.answered? ≠ some step := by
  induction h with
  | start => exact .nil
  | @next trace m m' event run move ih =>
    rw [List.pairwise_append]
    refine ⟨ih, List.pairwise_singleton _ _, fun a ha b hb step change hanswered hchange => ?_⟩
    obtain rfl := List.mem_singleton.1 hb
    exact (run.done_of_change ha hanswered hchange).not_answered run.sound move

theorem answered_unique (h : Execution settings plan trace m) {a b : Event} (ha : a ∈ trace)
    (hb : b ∈ trace) {step : Step} (hanswered : a.answered? = some step)
    (hanswered' : b.answered? = some step) {change change' : String × Option Holding}
    (hchange : a.change? = some change) (hchange' : b.change? = some change') : a = b := by
  by_contra hne
  have hpairs : trace.Pairwise fun a b => a.answered? = some step → b.answered? = some step →
      (∃ change, a.change? = some change) → ¬ ∃ change, b.change? = some change :=
    h.pairwise_changes.imp fun hab hanswered hanswered' ⟨change, hchange⟩ =>
      absurd hanswered' (hab step change hanswered hchange)
  have hsymm : Std.Symm fun a b : Event => a.answered? = some step → b.answered? = some step →
      (∃ change, a.change? = some change) → ¬ ∃ change, b.change? = some change :=
    ⟨fun _ _ hab hanswered hanswered' hchange hchange' =>
      hab hanswered' hanswered hchange' hchange⟩
  exact hpairs.forall ha hb hne hanswered hanswered' ⟨_, hchange⟩ ⟨_, hchange'⟩

/-- An answer is one to a step of the plan, which has asked for it. -/
theorem asks_of_answered {step : Step} {request : Provider.Request}
    {answer : Provider.Answer request} (h : Execution settings plan trace m)
    (hevent : .answered step request answer ∈ trace) :
    plan.steps[step.index]? = some step ∧ step.callsProvider = true ∧
      ∃ attributes, step.Asks attributes request := by
  obtain ⟨before, after, rfl⟩ := List.append_of_mem hevent
  obtain ⟨m₁, m₂, hbefore, hmove⟩ := h.split
  obtain ⟨w, next, hw, rfl, hcall⟩ := hmove.calling
  obtain ⟨hplanned, -, hcalls⟩ := hbefore.sound.job _ hw
  exact ⟨hplanned, hcalls, w.attributes, w.asks hcall⟩

end Execution

end Converge
