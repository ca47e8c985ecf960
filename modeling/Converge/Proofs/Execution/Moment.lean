import Converge.Execution.Run

/-!
# Executions

An apply as it can go in any order of events: calls of workers overlap as they like, every call may
be answered in any way, and cancelling may be noticed at any time. What the coordinator and the
workers do at each event is what they do in a `Run`.

Main statements: `Execution.split` cuts an execution at one of its events, and
`Execution.induction` is induction over its events.
-/

namespace Converge

/-- What happens during an apply. -/
inductive Event where
  /-- The coordinator notices that the apply is cancelled. -/
  | cancelled
  /-- A step is settled without a worker. -/
  | settled (outcome : Outcome)
  /-- A worker starts. -/
  | started (step : Step)
  /-- A worker calls the provider. -/
  | called (step : Step) (request : Provider.Request)
  /-- The call of a worker is answered. -/
  | answered (step : Step) (request : Provider.Request) (answer : Provider.Answer request)
  /-- A worker gives up without a call. -/
  | refused (step : Step)
  /-- The coordinator takes in a finished worker. -/
  | collected (outcome : Outcome)

/-- How far a worker has come. -/
inductive Stage where
  /-- It is about to call. -/
  | resting
  | calling
  | finished (outcome : Outcome)

/-- A worker under way. -/
structure Job where
  worker : Worker
  stage : Stage

/-- An apply at a moment: what the coordinator knows, and the workers it has not taken in yet. -/
structure Moment where
  coordinator : Coordinator
  jobs : List Job

namespace Moment

/-- One event of an apply. -/
inductive Move (settings : RunSettings) : Moment → Event → Moment → Prop
  | cancel (m : Moment) :
    Move settings m .cancelled { m with coordinator := m.coordinator.observe true }
  | settle {m : Moment} {c : Coordinator} {outcome : Outcome}
    (take : m.coordinator.takeNext settings.concurrency = some (c, .inl outcome)) :
    Move settings m (.settled outcome) { m with coordinator := c }
  | start {m : Moment} {c : Coordinator} {w : Worker}
    (take : m.coordinator.takeNext settings.concurrency = some (c, .inr w)) :
    Move settings m (.started w.step) ⟨c, m.jobs ++ [⟨w, .resting⟩]⟩
  | call {c : Coordinator} {before after : List Job} {w : Worker} {request : Provider.Request}
    {next : Provider.Answer request → Program Provider.calls (Reply (Option String × Outputs))}
    (call : w.call = .ask request next) :
    Move settings ⟨c, before ++ ⟨w, .resting⟩ :: after⟩ (.called w.step request)
      ⟨c, before ++ ⟨w, .calling⟩ :: after⟩
  | finish {c : Coordinator} {before after : List Job} {w : Worker} {request : Provider.Request}
    {next : Provider.Answer request → Program Provider.calls (Reply (Option String × Outputs))}
    {answer : Provider.Answer request} {reply : Reply (Option String × Outputs)}
    {outcome : Outcome} (call : w.call = .ask request next) (answered : next answer = .done reply)
    (progress : w.afterCall settings.retry reply = .finished outcome) :
    Move settings ⟨c, before ++ ⟨w, .calling⟩ :: after⟩ (.answered w.step request answer)
      ⟨c, before ++ ⟨w, .finished outcome⟩ :: after⟩
  | retry {c : Coordinator} {before after : List Job} {w w' : Worker} {request : Provider.Request}
    {next : Provider.Answer request → Program Provider.calls (Reply (Option String × Outputs))}
    {answer : Provider.Answer request} {reply : Reply (Option String × Outputs)} {delay : Nat}
    (call : w.call = .ask request next) (answered : next answer = .done reply)
    (progress : w.afterCall settings.retry reply = .retry w' delay) :
    Move settings ⟨c, before ++ ⟨w, .calling⟩ :: after⟩ (.answered w.step request answer)
      ⟨c, before ++ ⟨w', .resting⟩ :: after⟩
  | lose {c : Coordinator} {before after : List Job} {w : Worker} {request : Provider.Request}
    {next : Provider.Answer request → Program Provider.calls (Reply (Option String × Outputs))}
    {answer : Provider.Answer request} {reply : Reply (Option String × Outputs)}
    (call : w.call = .ask request next) (answered : next answer = .done reply)
    (progress : w.afterCall settings.retry reply = .lost) :
    Move settings ⟨c, before ++ ⟨w, .calling⟩ :: after⟩ (.answered w.step request answer)
      ⟨c, before ++ after⟩
  | refuse {c : Coordinator} {before after : List Job} {w : Worker}
    {reply : Reply (Option String × Outputs)} {outcome : Outcome} (call : w.call = .done reply)
    (progress : w.afterCall settings.retry reply = .finished outcome) :
    Move settings ⟨c, before ++ ⟨w, .resting⟩ :: after⟩ (.refused w.step)
      ⟨c, before ++ ⟨w, .finished outcome⟩ :: after⟩
  | collect {c : Coordinator} {before after : List Job} {w : Worker} {outcome : Outcome} :
    Move settings ⟨c, before ++ ⟨w, .finished outcome⟩ :: after⟩ (.collected outcome)
      ⟨c.collect outcome, before ++ after⟩

end Moment

/-- The moments that an apply of a plan comes to, with the events until then. A plan has to be well
ordered to be applied. -/
inductive Execution (settings : RunSettings) (plan : Plan) : List Event → Moment → Prop
  | start (ordered : plan.isWellOrdered = true) : Execution settings plan [] ⟨.start plan, []⟩
  | next {trace : List Event} {m m' : Moment} {event : Event} (run : Execution settings plan trace m)
    (move : m.Move settings event m') : Execution settings plan (trace ++ [event]) m'

namespace Execution

variable {settings : RunSettings} {plan : Plan} {trace : List Event} {m : Moment}

theorem isWellOrdered (h : Execution settings plan trace m) : plan.isWellOrdered = true := by
  induction h with
  | start ordered => exact ordered
  | next _ _ ih => exact ih

/-- An execution comes to a moment before and to one after each of its events. -/
theorem split {before after : List Event} {event : Event}
    (h : Execution settings plan (before ++ event :: after) m) :
    ∃ m₁ m₂, Execution settings plan before m₁ ∧ m₁.Move settings event m₂ := by
  generalize htrace : before ++ event :: after = trace at h
  induction h generalizing after with
  | start => simp at htrace
  | @next earlier _ _ final run step ih =>
    rcases List.eq_nil_or_concat after with rfl | ⟨after, last, rfl⟩
    · obtain ⟨rfl, heq⟩ := List.append_inj' htrace rfl
      obtain rfl := (List.cons.inj heq).1
      exact ⟨_, _, run, step⟩
    · have heq : (before ++ event :: after) ++ [last] = earlier ++ [final] := by
        simpa using htrace
      exact ih (List.append_inj' heq rfl).1

/-- What holds at the start and is kept by every event holds at every moment. -/
theorem induction {P : List Event → Moment → Prop} (h : Execution settings plan trace m)
    (hstart : P [] ⟨.start plan, []⟩)
    (hstep : ∀ {trace m event m'}, P trace m → m.Move settings event m' →
      P (trace ++ [event]) m') : P trace m := by
  induction h with
  | start => exact hstart
  | next _ step ih => exact hstep ih step

end Execution

end Converge
