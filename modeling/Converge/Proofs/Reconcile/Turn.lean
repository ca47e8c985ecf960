import Converge.Proofs.Except
import Converge.Proofs.Execution.Run
import Converge.Reconcile.Basic

/-!
# Turns

One call that applies a stack or removes it, as its surroundings see it: what the store holds before
and after it, and the events of the apply in between. Every request may fail, and clock and lock
answer as they like.

Main statements: `Turn.Ran.course` says what any call comes to, and `Turn.ran_of_execution` that
every execution of its plan can be part of one.
-/

namespace Converge

namespace Reconcile

/-- How a request may be answered when the store holds a state, the events of that, and what the
store holds then. A change of the store that fails may have taken effect. -/
inductive Answers (settings : RunSettings) :
    Option State → (request : Request) → Answer request → List Event → Option State → Prop
  | loaded (held : Option State) :
    Answers settings held (.store .load) (Except.ok held : Except StateError _) [] held
  | unloaded (held : Option State) (cause : StateError) :
    Answers settings held (.store .load) (Except.error cause : Except StateError _) [] held
  | saved (held : Option State) (s : State) :
    Answers settings held (.store (.save s)) (Except.ok () : Except StateError _) [] (some s)
  | unsaved {held after : Option State} {s : State} (cause : StateError)
    (effect : after = held ∨ after = some s) :
    Answers settings held (.store (.save s)) (Except.error cause : Except StateError _) [] after
  | deleted (held : Option State) :
    Answers settings held (.store .delete) (Except.ok () : Except StateError _) [] none
  | undeleted {held after : Option State} (cause : StateError)
    (effect : after = held ∨ after = none) :
    Answers settings held (.store .delete) (Except.error cause : Except StateError _) [] after
  | acquired (held : Option State) (holder : String) (answer : Except StateError Lock) :
    Answers settings held (.store (.acquire holder)) answer [] held
  | released (held : Option State) (lockId : String) (answer : Except StateError Unit) :
    Answers settings held (.store (.release lockId)) answer [] held
  | timed (held : Option State) (now : Instant) : Answers settings held .now now [] held
  | executed (held : Option State) {plan : Plan} {trace : List Event} {m : Moment}
    (run : Execution settings plan trace m) :
    Answers settings held (.execute plan) (Except.ok m.coordinator.report) trace held
  | broken (held : Option State) {plan : Plan} {trace : List Event} {m : Moment}
    (run : Execution settings plan trace m) (cause : ApplyError) :
    Answers settings held (.execute plan) (Except.error cause) trace held
  | refused (held : Option State) (plan : Plan) (cause : ApplyError) :
    Answers settings held (.execute plan) (Except.error cause) [] held

/-- Whatever a provider answers, what applying a plan comes to is such an answer. -/
theorem answers_of_apply {settings : RunSettings} {plan : Plan} (held : Option State)
    {exchanges : List (Program.Exchange Provider.calls)} {result : Except ApplyError Report}
    {r : Run} (h : Program.Runs (Run.apply settings plan) exchanges (result, r)) :
    ∃ trace, exchangesOf trace = exchanges.filter Provider.IsCall ∧
      Answers settings held (.execute plan) result trace held := by
  cases hordered : plan.isWellOrdered with
  | false =>
    simp only [Run.apply, hordered, Bool.not_false, if_true] at h
    obtain ⟨rfl, heq⟩ := Program.runs_pure_iff.1 h
    obtain ⟨rfl, -⟩ := Prod.mk.inj heq
    exact ⟨[], rfl, .refused held plan _⟩
  | true =>
    obtain ⟨trace, m, run, hexchanges, -, hreport⟩ := Run.execution_of_apply hordered h
    refine ⟨trace, hexchanges, ?_⟩
    cases result with
    | ok report => exact hreport report rfl ▸ .executed held run
    | error cause => exact .broken held run cause

/-- The ways in which a program can go on a store, with all that happens. -/
inductive Performs (settings : RunSettings) {α : Type} :
    Program calls α → Option State → List Event → α → Option State → Prop
  | done (value : α) (held : Option State) : Performs settings (.done value) held [] value held
  | ask {request : Request} {next : Answer request → Program calls α} {answer : Answer request}
    {held mid after : Option State} {first second : List Event} {value : α}
    (answered : Answers settings held request answer first mid)
    (rest : Performs settings (next answer) mid second value after) :
    Performs settings (.ask request next) held (first ++ second) value after

section Performs

variable {settings : RunSettings} {held mid after : Option State} {trace : List Event}
  {α β : Type}

theorem performs_done_iff {value result : α} :
    Performs settings (.done value) held trace result after ↔
      trace = [] ∧ value = result ∧ after = held := by
  constructor
  · rintro ⟨⟩
    exact ⟨rfl, rfl, rfl⟩
  · rintro ⟨rfl, rfl, rfl⟩
    exact .done value after

theorem performs_ask_iff {request : Request} {next : Answer request → Program calls α} {value : α} :
    Performs settings (.ask request next) held trace value after ↔
      ∃ answer first mid second, trace = first ++ second ∧
        Answers settings held request answer first mid ∧
        Performs settings (next answer) mid second value after := by
  constructor
  · rintro (_ | ⟨answered, rest⟩)
    exact ⟨_, _, _, _, rfl, answered, rest⟩
  · rintro ⟨answer, first, mid, second, rfl, answered, rest⟩
    exact .ask answered rest

theorem performs_bind_iff {p : Program calls α} {f : α → Program calls β} {result : β} :
    Performs settings (p >>= f) held trace result after ↔
      ∃ value mid first second, trace = first ++ second ∧
        Performs settings p held first value mid ∧
        Performs settings (f value) mid second result after := by
  induction p generalizing held trace with
  | done value =>
    constructor
    · exact fun h => ⟨value, held, [], trace, rfl, .done value held, h⟩
    · rintro ⟨value', mid, first, second, rfl, hfirst, hsecond⟩
      obtain ⟨rfl, rfl, rfl⟩ := performs_done_iff.1 hfirst
      exact hsecond
  | ask request next ih =>
    constructor
    · intro h
      obtain ⟨answer, first, mid, second, rfl, answered, rest⟩ := performs_ask_iff.1 h
      obtain ⟨value, mid', first', second', rfl, hfirst, hsecond⟩ := (ih answer).1 rest
      exact ⟨value, mid', first ++ first', second', (List.append_assoc ..).symm,
        .ask answered hfirst, hsecond⟩
    · rintro ⟨value, mid, first, second, rfl, hfirst, hsecond⟩
      obtain ⟨answer, first', mid', second', rfl, answered, rest⟩ := performs_ask_iff.1 hfirst
      rw [List.append_assoc]
      exact .ask answered ((ih answer).2 ⟨value, mid, second', second, rfl, rest, hsecond⟩)

/-- A sequence of actions fails with its first, or goes on with the value of that. -/
theorem performs_bindAction_iff {p : Action α} {f : α → Action β} {result : Except Error β} :
    Performs settings (p >>= f).run held trace result after ↔
      (∃ cause, Performs settings p.run held trace (.error cause) after ∧
        result = .error cause) ∨
      ∃ value mid first second, trace = first ++ second ∧
        Performs settings p.run held first (.ok value) mid ∧
        Performs settings (f value).run mid second result after := by
  have hrun : (p >>= f).run = p.run >>= ExceptT.bindCont f := rfl
  rw [hrun, performs_bind_iff]
  constructor
  · rintro ⟨value, mid, first, second, rfl, hfirst, hsecond⟩
    cases value with
    | ok value => exact .inr ⟨value, mid, first, second, rfl, hfirst, hsecond⟩
    | error cause =>
      obtain ⟨rfl, rfl, rfl⟩ := performs_done_iff.1 hsecond
      rw [List.append_nil]
      exact .inl ⟨cause, hfirst, rfl⟩
  · rintro (⟨cause, hfirst, rfl⟩ | ⟨value, mid, first, second, rfl, hfirst, hsecond⟩)
    · exact ⟨.error cause, after, trace, [], (List.append_nil _).symm, hfirst, .done _ _⟩
    · exact ⟨.ok value, mid, first, second, rfl, hfirst, hsecond⟩

/-! ## Single requests -/

theorem performs_acquire {holder : String} {result : Except Error Lock}
    (h : Performs settings (acquire holder).run held trace result after) :
    trace = [] ∧ after = held ∧ ∀ cause, result = .error cause → ∃ inner, cause = .state inner := by
  obtain ⟨answer, first, mid, second, rfl, answered, rest⟩ := performs_ask_iff.1 h
  cases answered with
  | acquired =>
    cases answer with
    | ok lock =>
      obtain ⟨rfl, rfl, rfl⟩ := performs_done_iff.1 rest
      exact ⟨rfl, rfl, fun cause hcause => by cases hcause⟩
    | error inner =>
      obtain ⟨rfl, rfl, rfl⟩ := performs_done_iff.1 rest
      exact ⟨rfl, rfl, fun cause hcause => ⟨inner, (Except.error.inj hcause).symm⟩⟩

theorem performs_release {lockId : String} {value : Unit}
    (h : Performs settings (release lockId) held trace value after) :
    trace = [] ∧ after = held := by
  obtain ⟨answer, first, mid, second, rfl, answered, rest⟩ := performs_ask_iff.1 h
  cases answered
  obtain ⟨rfl, -, rfl⟩ := performs_done_iff.1 rest
  exact ⟨rfl, rfl⟩

theorem performs_bindLoad_iff {f : Option State → Action β} {result : Except Error β} :
    Performs settings (load >>= f).run held trace result after ↔
      (trace = [] ∧ after = held ∧ ∃ cause, result = .error (.state cause)) ∨
        Performs settings (f held).run held trace result after := by
  constructor
  · intro h
    obtain ⟨answer, first, mid, second, rfl, answered, rest⟩ := performs_ask_iff.1 h
    cases answered with
    | loaded => exact .inr rest
    | unloaded cause =>
      obtain ⟨rfl, rfl, rfl⟩ := performs_done_iff.1 rest
      exact .inl ⟨rfl, rfl, cause, rfl⟩
  · rintro (⟨rfl, rfl, cause, rfl⟩ | h)
    · exact .ask (.unloaded after cause) (.done _ _)
    · exact .ask (.loaded held) h

theorem performs_bindNow_iff {f : Instant → Action β} {result : Except Error β} :
    Performs settings ((liftM now : Action Instant) >>= f).run held trace result after ↔
      ∃ time, Performs settings (f time).run held trace result after := by
  constructor
  · intro h
    obtain ⟨time, first, mid, second, rfl, answered, rest⟩ := performs_ask_iff.1 h
    cases answered
    exact ⟨time, rest⟩
  · rintro ⟨time, h⟩
    exact .ask (.timed held time) h

/-- A value is gone on with; a failure is the result. -/
theorem performs_bindOfExcept_iff {value : Except Error α} {f : α → Action β}
    {result : Except Error β} :
    Performs settings (ofExcept value >>= f).run held trace result after ↔
      (∃ cause, value = .error cause ∧ trace = [] ∧ after = held ∧ result = .error cause) ∨
        ∃ found, value = .ok found ∧ Performs settings (f found).run held trace result after := by
  cases value with
  | error cause =>
    constructor
    · intro h
      obtain ⟨rfl, hresult, rfl⟩ := performs_done_iff.1 h
      exact .inl ⟨cause, rfl, rfl, rfl, hresult.symm⟩
    · rintro (⟨cause, ⟨⟩, rfl, rfl, rfl⟩ | ⟨found, hfound, -⟩)
      · exact .done _ _
      · cases hfound
  | ok found =>
    constructor
    · exact fun h => .inr ⟨found, rfl, h⟩
    · rintro (⟨cause, hcause, -⟩ | ⟨found, ⟨⟩, h⟩)
      · cases hcause
      · exact h

theorem performs_execute {plan : Plan} {result : Except Error Report}
    (h : Performs settings (execute plan).run held trace result after) :
    after = held ∧
      ((∃ m, Execution settings plan trace m ∧ result = .ok m.coordinator.report) ∨
        ∃ cause, result = .error cause ∧ (trace = [] ∨ ∃ m, Execution settings plan trace m)) := by
  obtain ⟨answer, first, mid, second, rfl, answered, rest⟩ := performs_ask_iff.1 h
  cases answered with
  | executed run =>
    obtain ⟨rfl, rfl, rfl⟩ := performs_done_iff.1 rest
    rw [List.append_nil]
    exact ⟨rfl, .inl ⟨_, run, rfl⟩⟩
  | broken run cause =>
    obtain ⟨rfl, rfl, rfl⟩ := performs_done_iff.1 rest
    rw [List.append_nil]
    exact ⟨rfl, .inr ⟨_, rfl, .inr ⟨_, run⟩⟩⟩
  | refused plan cause =>
    obtain ⟨rfl, rfl, rfl⟩ := performs_done_iff.1 rest
    exact ⟨rfl, .inr ⟨_, rfl, .inl rfl⟩⟩

end Performs

/-! ## Recording -/

/-- What the store holds when the state that an apply has left is recorded, or when that has
failed. -/
def Kept (before : Option State) (s : State) (after : Option State) : Prop :=
  after = before ∨ after = some s ∨ after = none ∧ s.isEmpty = true

theorem performs_record {settings : RunSettings} {held after : Option State} {trace : List Event}
    {s : State} {operation : Operation} {report : Report} {result : Except Error Unit}
    (h : Performs settings (record s operation report).run held trace result after) :
    trace = [] ∧ Kept held s after ∧
      (result = .ok () → after = some s ∨ after = none ∧ s.isEmpty = true) := by
  rw [record] at h
  split at h
  · next hempty =>
    obtain ⟨answer, first, mid, second, rfl, answered, rest⟩ := performs_ask_iff.1 h
    cases answered with
    | deleted =>
      obtain ⟨rfl, rfl, rfl⟩ := performs_done_iff.1 rest
      simp only [Bool.and_eq_true] at hempty
      exact ⟨rfl, .inr (.inr ⟨rfl, hempty.2⟩), fun _ => .inr ⟨rfl, hempty.2⟩⟩
    | undeleted cause effect =>
      obtain ⟨rfl, rfl, rfl⟩ := performs_done_iff.1 rest
      simp only [Bool.and_eq_true] at hempty
      exact ⟨rfl, effect.imp_right fun h => .inr ⟨h, hempty.2⟩, nofun⟩
  · obtain ⟨answer, first, mid, second, rfl, answered, rest⟩ := performs_ask_iff.1 h
    cases answered with
    | saved =>
      obtain ⟨rfl, rfl, rfl⟩ := performs_done_iff.1 rest
      exact ⟨rfl, .inr (.inl rfl), fun _ => .inl rfl⟩
    | unsaved cause effect =>
      obtain ⟨rfl, rfl, rfl⟩ := performs_done_iff.1 rest
      exact ⟨rfl, effect.imp_right .inl, nofun⟩

/-! ## Planning -/

section planning

variable {settings : RunSettings} {stack : Stack} {holder : String} {reviewed : Option Plan}
  {operation : Operation} {held after : Option State} {trace : List Event}
  {result : Except Error Reconciliation}

/-- Why a call ends before anything is carried out. -/
inductive Halted (stack : Stack) (reviewed : Option Plan) (operation : Operation)
    (held : Option State) : Error → Prop
  /-- The lock is not to be had, or the store does not say what it holds. -/
  | unread (cause : StateError) : Halted stack reviewed operation held (.state cause)
  | unplanned {cause : Error} (now : Instant)
    (failed : planFor stack operation held now = .error cause) :
    Halted stack reviewed operation held cause
  | refused {plan : Plan} {cause : Error} (now : Instant)
    (planned : planFor stack operation held now = .ok plan)
    (failed : checkReviewed reviewed plan = .error cause) :
    Halted stack reviewed operation held cause

/-- Every request can fail; until the plan is carried out that leaves the state as it was. -/
theorem performs_run
    (h : Performs settings (run stack reviewed operation).run held trace result after) :
    (trace = [] ∧ after = held ∧
        ∃ cause, Halted stack reviewed operation held cause ∧ result = .error cause) ∨
      ∃ plan now, planFor stack operation held now = .ok plan ∧
        checkReviewed reviewed plan = .ok () ∧
        Performs settings (carryOut stack operation held plan).run held trace result after := by
  rw [run, performs_bindLoad_iff] at h
  rcases h with ⟨rfl, rfl, cause, rfl⟩ | h
  · exact .inl ⟨rfl, rfl, _, .unread cause, rfl⟩
  obtain ⟨now, h⟩ := performs_bindNow_iff.1 h
  rcases performs_bindOfExcept_iff.1 h with
    ⟨cause, hfailed, htrace, hafter, hresult⟩ | ⟨plan, hplanned, h⟩
  · exact .inl ⟨htrace, hafter, cause, .unplanned now hfailed, hresult⟩
  rcases performs_bindOfExcept_iff.1 h with
    ⟨cause, hfailed, htrace, hafter, hresult⟩ | ⟨⟨⟩, hpassed, h⟩
  · exact .inl ⟨htrace, hafter, cause, .refused now hplanned hfailed, hresult⟩
  exact .inr ⟨plan, now, hplanned, hpassed, h⟩

/-- A call ends early, or carries out a plan that passes the review. -/
theorem performs_locked
    (h : Performs settings (locked stack holder reviewed operation) held trace result after) :
    (trace = [] ∧ after = held ∧
        ∃ cause, Halted stack reviewed operation held cause ∧ result = .error cause) ∨
      ∃ plan now, planFor stack operation held now = .ok plan ∧
        checkReviewed reviewed plan = .ok () ∧
        Performs settings (carryOut stack operation held plan).run held trace result after := by
  rw [locked] at h
  obtain ⟨acquired, _, _, events, rfl, hacquire, h⟩ := performs_bind_iff.1 h
  obtain ⟨rfl, rfl, hfailed⟩ := performs_acquire hacquire
  cases acquired with
  | error cause =>
    obtain ⟨rfl, rfl, hafter⟩ := performs_done_iff.1 h
    obtain ⟨inner, rfl⟩ := hfailed cause rfl
    exact .inl ⟨rfl, hafter, _, .unread inner, rfl⟩
  | ok lock =>
    obtain ⟨_, _, _, _, rfl, hrun, h⟩ := performs_bind_iff.1 h
    obtain ⟨_, _, _, _, rfl, hrelease, hrest⟩ := performs_bind_iff.1 h
    obtain ⟨rfl, rfl⟩ := performs_release hrelease
    obtain ⟨rfl, rfl, rfl⟩ := performs_done_iff.1 hrest
    simp only [List.nil_append, List.append_nil]
    exact performs_run hrun

end planning

end Reconcile

open Reconcile

/-- A call that applies a stack or removes it. -/
structure Turn where
  stack : Stack
  holder : String
  reviewed : Option Plan
  operation : Operation
  /-- What the store holds before the call. -/
  before : Option State
  /-- What happens while the plan is carried out. -/
  events : List Event
  result : Except Error Reconciliation
  /-- What the store holds after the call. -/
  after : Option State

namespace Turn

variable {turn : Turn}

/-- Whether the call can go like this. -/
def Ran (turn : Turn) : Prop :=
  ∃ settings, Performs settings
    (locked turn.stack turn.holder turn.reviewed turn.operation)
    turn.before turn.events turn.result turn.after

/-- The state that a plan leaves which is carried out in the call. -/
def applied (turn : Turn) (plan : Plan) (report : Report) (now : Instant) : State :=
  (turn.before.getD (.new turn.stack.project.name turn.stack.project.environment now)).applyReport
    plan report turn.operation now

/-- What a call comes to. -/
inductive Course (turn : Turn) : Prop
  /-- Nothing is carried out. If the call succeeds, nothing is to be done. -/
  | idle (events : turn.events = []) (after : turn.after = turn.before)
    (result : ∀ r, turn.result = .ok r → r.report = none ∧ ∃ plan now,
      planFor turn.stack turn.operation turn.before now = .ok plan ∧ plan.isConverged = true)
  /-- A plan is carried out in part, and nothing is known of that. -/
  | broken {plan : Plan} {now : Instant} {settings : RunSettings} {m : Moment}
    (planned : planFor turn.stack turn.operation turn.before now = .ok plan)
    (run : Execution settings plan turn.events m) (after : turn.after = turn.before)
    (result : ∃ cause, turn.result = .error cause)
  /-- A plan is carried out. -/
  | carried {plan : Plan} {now later : Instant} {settings : RunSettings} {m : Moment}
    (planned : planFor turn.stack turn.operation turn.before now = .ok plan)
    (run : Execution settings plan turn.events m)
    (after : Kept turn.before (turn.applied plan m.coordinator.report later) turn.after)
    (result : ∀ r, turn.result = .ok r → r = .ofReport plan m.coordinator.report ∧
      (turn.after = some (turn.applied plan m.coordinator.report later) ∨
        turn.after = none ∧ (turn.applied plan m.coordinator.report later).isEmpty = true))

theorem Course.failed {cause : Error} (events : turn.events = []) (after : turn.after = turn.before)
    (result : turn.result = .error cause) : turn.Course :=
  .idle events after fun _ hr => nomatch result.symm.trans hr

theorem course_of_carryOut {settings : RunSettings} {plan : Plan} {now : Instant}
    (planned : planFor turn.stack turn.operation turn.before now = .ok plan)
    (h : Performs settings (carryOut turn.stack turn.operation turn.before plan).run turn.before
      turn.events turn.result turn.after) : turn.Course := by
  rw [carryOut] at h
  split at h
  · next hconverged =>
    obtain ⟨hevents, hresult, hafter⟩ := performs_done_iff.1 h
    refine .idle hevents hafter fun r hr => ⟨?_, plan, now, planned, hconverged⟩
    rw [← Except.ok.inj (hresult.trans hr)]
    rfl
  obtain ⟨cause, hexecute, hresult⟩ | ⟨report, _, trace, rest, hevents, hexecute, h⟩ :=
    performs_bindAction_iff.1 h
  · obtain ⟨hafter, ⟨m, -, hok⟩ | ⟨-, -, hevents | ⟨m, run⟩⟩⟩ := performs_execute hexecute
    · cases hok
    · exact .failed hevents hafter hresult
    · exact .broken planned run hafter ⟨cause, hresult⟩
  obtain ⟨rfl, ⟨m, run, hreport⟩ | ⟨_, hfailed, -⟩⟩ := performs_execute hexecute
  case inr => cases hfailed
  obtain rfl := Except.ok.inj hreport
  obtain ⟨later, h⟩ := performs_bindNow_iff.1 h
  obtain ⟨cause, hrecord, hresult⟩ | ⟨_, _, _, rest, rfl, hrecord, hrest⟩ :=
    performs_bindAction_iff.1 h
  · obtain ⟨rfl, hkept, -⟩ := performs_record hrecord
    simp only [List.append_nil] at hevents
    refine .carried planned (hevents ▸ run) hkept fun r hr => ?_
    cases hresult.symm.trans hr
  obtain ⟨rfl, hkept, hrecorded⟩ := performs_record hrecord
  obtain ⟨rfl, hresult, hafter⟩ := performs_done_iff.1 hrest
  simp only [List.append_nil] at hevents
  refine .carried planned (hevents ▸ run) (hafter ▸ hkept) fun r hr => ⟨?_, ?_⟩
  · exact (Except.ok.inj (hresult.trans hr)).symm
  · exact hafter ▸ hrecorded rfl

/-- Every call carries out nothing, or the plan of its operation. -/
theorem Ran.course (h : turn.Ran) : turn.Course := by
  obtain ⟨settings, h⟩ := h
  rcases performs_locked h with ⟨hevents, hafter, cause, -, hresult⟩ | ⟨plan, now, planned, -, h⟩
  · exact .failed hevents hafter hresult
  · exact course_of_carryOut planned h

/-- The events of a call are those of an execution of its plan. -/
theorem Ran.exists_execution (h : turn.Ran) : turn.events = [] ∨
    ∃ plan now, planFor turn.stack turn.operation turn.before now = .ok plan ∧
      ∃ settings m, Execution settings plan turn.events m := by
  cases h.course with
  | idle events => exact .inl events
  | broken planned run => exact .inr ⟨_, _, planned, _, _, run⟩
  | carried planned run => exact .inr ⟨_, _, planned, _, _, run⟩

/-- A call that gets the lock, and carries out a plan that passes the review. -/
theorem ran_of_carryOut {plan : Plan} (settings : RunSettings) (lock : Lock) (now : Instant)
    (planned : planFor turn.stack turn.operation turn.before now = .ok plan)
    (passed : checkReviewed turn.reviewed plan = .ok ())
    (h : Performs settings (carryOut turn.stack turn.operation turn.before plan).run turn.before
      turn.events turn.result turn.after) : turn.Ran := by
  have hrun : Performs settings (Reconcile.run turn.stack turn.reviewed turn.operation).run
      turn.before turn.events turn.result turn.after := by
    rw [Reconcile.run]
    refine performs_bindLoad_iff.2 (.inr (performs_bindNow_iff.2 ⟨now, ?_⟩))
    refine performs_bindOfExcept_iff.2 (.inr ⟨plan, planned, ?_⟩)
    exact performs_bindOfExcept_iff.2 (.inr ⟨(), passed, h⟩)
  refine ⟨settings, performs_bind_iff.2 ⟨.ok lock, turn.before, [], turn.events, rfl,
    .ask (.acquired turn.before turn.holder (.ok lock)) (.done _ _), ?_⟩⟩
  refine performs_bind_iff.2 ⟨_, _, turn.events, [], (List.append_nil _).symm, hrun, ?_⟩
  exact .ask (.released _ lock.lockId (.ok ())) (.done _ _)

/-- A call that has nothing to do ends as soon as it has planned. -/
theorem ran_of_converged {stack : Stack} {operation : Operation} {before : Option State}
    {plan : Plan} (holder : String) (lock : Lock) (now : Instant)
    (planned : planFor stack operation before now = .ok plan) (idle : plan.isConverged = true) :
    Turn.Ran {
      stack, holder, reviewed := none, operation, before, events := []
      result := .ok (.converged plan)
      after := before } := by
  refine ran_of_carryOut (.ofApply {}) lock now planned rfl ?_
  rw [carryOut, idle]
  exact .done _ _

/-- Any execution of the plan of a call can be part of it, if the plan passes the review. -/
theorem ran_of_passed {stack : Stack} {reviewed : Option Plan} {operation : Operation}
    {before : Option State} {plan : Plan} {settings : RunSettings} {trace : List Event} {m : Moment}
    {s : State} (holder : String) (lock : Lock) (now later : Instant)
    (planned : planFor stack operation before now = .ok plan)
    (passed : checkReviewed reviewed plan = .ok ()) (busy : plan.isConverged = false)
    (run : Execution settings plan trace m)
    (state : s = (before.getD (.new stack.project.name stack.project.environment later)).applyReport
      plan m.coordinator.report operation later) :
    Turn.Ran {
      stack, holder, reviewed, operation, before, events := trace
      result := .ok (.ofReport plan m.coordinator.report)
      after := if operation = .destroy && m.coordinator.report.isSuccess && s.isEmpty then none
        else some s } := by
  have hrecord : Performs settings (record s operation m.coordinator.report).run before []
      (.ok ()) (if operation = .destroy && m.coordinator.report.isSuccess && s.isEmpty then none
        else some s) := by
    rw [record]
    split
    · exact .ask (.deleted before) (.done _ _)
    · exact .ask (.saved before s) (.done _ _)
  have hexecute : Performs settings (execute plan).run before trace
      (.ok m.coordinator.report) before := by
    rw [← List.append_nil trace]
    exact .ask (.executed before run) (.done _ _)
  refine ran_of_carryOut settings lock now planned passed ?_
  rw [carryOut, busy]
  refine performs_bindAction_iff.2 (.inr ⟨_, before, trace, [], (List.append_nil _).symm,
    hexecute, ?_⟩)
  refine performs_bindNow_iff.2 ⟨later, ?_⟩
  refine performs_bindAction_iff.2 (.inr ⟨(), _, [], [], rfl, ?_, .done _ _⟩)
  exact state ▸ hrecord

/-- Any execution of the plan of a call that has not been reviewed can be part of it. -/
theorem ran_of_execution {stack : Stack} {operation : Operation} {before : Option State}
    {plan : Plan} {settings : RunSettings} {trace : List Event} {m : Moment} {s : State}
    (holder : String) (lock : Lock) (now later : Instant)
    (planned : planFor stack operation before now = .ok plan) (busy : plan.isConverged = false)
    (run : Execution settings plan trace m)
    (state : s = (before.getD (.new stack.project.name stack.project.environment later)).applyReport
      plan m.coordinator.report operation later) :
    Turn.Ran {
      stack, holder, reviewed := none, operation, before, events := trace
      result := .ok (.ofReport plan m.coordinator.report)
      after := if operation = .destroy && m.coordinator.report.isSuccess && s.isEmpty then none
        else some s } :=
  ran_of_passed holder lock now later planned rfl busy run state

end Turn

end Converge
