import Converge.Proofs.Execution.Moment
import Converge.Proofs.Program
import Mathlib.Data.List.Perm.Subperm

/-!
# Runs are executions

Whatever the provider answers, a run of `Run.apply` is an execution: the order in which it lets its
workers go on is one of those that an execution may take, and it reports what the coordinator knows
at some moment.

Main statement: `Run.execution_of_apply`.
-/

namespace Converge

open Program (Exchange Runs runs_bind_iff runs_pure_iff)

/-- The exchange with the provider that an event completes. -/
def Event.exchange? : Event → Option (Exchange Provider.calls)
  | .answered _ request answer => some ⟨request, answer⟩
  | _ => none

/-- The exchanges with the provider during an execution. -/
def exchangesOf (trace : List Event) : List (Exchange Provider.calls) :=
  trace.filterMap Event.exchange?

theorem exchangesOf_concat {trace : List Event} {event : Event} :
    exchangesOf (trace ++ [event]) = exchangesOf trace ++ event.exchange?.toList := by
  rw [exchangesOf, List.filterMap_append, List.filterMap_cons]
  cases event.exchange? <;> rfl

/-- Whether an exchange is about live resources, and not about time. -/
def Provider.IsCall (exchange : Exchange Provider.calls) : Bool :=
  match exchange.1 with
  | .pause _ => false
  | _ => true

/-- A worker is done without a call, or it makes one call, whose answer it turns into its reply. -/
theorem Worker.call_cases (w : Worker) :
    (∃ reply, w.call = .done reply ∧
      ∀ policy, ∃ outcome, w.afterCall policy reply = .finished outcome) ∨
    ∃ request next, w.call = .ask request next ∧ (∀ answer, Provider.IsCall ⟨request, answer⟩) ∧
      ∀ answer, ∃ reply, next answer = .done reply := by
  simp only [call]
  split
  · exact .inr ⟨_, _, rfl, fun _ => rfl, fun _ => ⟨_, rfl⟩⟩
  · exact .inr ⟨_, _, rfl, fun _ => rfl, fun _ => ⟨_, rfl⟩⟩
  · exact .inr ⟨_, _, rfl, fun _ => rfl, fun _ => ⟨_, rfl⟩⟩
  · exact .inl ⟨_, rfl, fun _ => ⟨_, rfl⟩⟩
  · exact .inl ⟨_, rfl, fun _ => ⟨_, rfl⟩⟩
  · exact .inl ⟨_, rfl, fun _ => ⟨_, rfl⟩⟩

/-- One of the jobs at hand stands somewhere among all jobs, and the rest are among the others. -/
theorem exists_split_of_subperm {α : Type} {a : α} {held all : List α}
    (h : (a :: held).Subperm all) :
    ∃ before after, all = before ++ a :: after ∧ held.Subperm (before ++ after) := by
  obtain ⟨before, after, rfl⟩ := List.append_of_mem (h.subset (List.mem_cons_self ..))
  exact ⟨before, after, rfl, List.subperm_cons a |>.1 (h.trans List.perm_middle.subperm)⟩

/-- The coordinator may look at any time whether the apply is cancelled. -/
theorem Execution.observe {settings : RunSettings} {plan : Plan} {trace : List Event}
    {c : Coordinator} {jobs : List Job} (h : Execution settings plan trace ⟨c, jobs⟩)
    (cancelled : Bool) : ∃ trace', exchangesOf trace' = exchangesOf trace ∧
      Execution settings plan trace' ⟨c.observe cancelled, jobs⟩ := by
  cases cancelled with
  | false =>
    refine ⟨trace, rfl, ?_⟩
    simpa [Coordinator.observe] using h
  | true =>
    refine ⟨_, ?_, h.next (.cancel _)⟩
    rw [exchangesOf_concat]
    exact List.append_nil _

namespace Run

variable {settings : RunSettings} {plan : Plan} {exchanges : List (Exchange Provider.calls)}
  {due : List Worker} {r r' : Run} {w : Worker}

/-- A worker that is about to call. -/
def rest (w : Worker) : Job := ⟨w, .resting⟩

/-- The workers of a run that are about to call, `due` among them. -/
def waiting (due : List Worker) (r : Run) : List Worker :=
  due ++ r.started ++ r.sleepers.map (·.worker)

/-- Whether a run stands where an execution with the same exchanges has come to. -/
def Reached (settings : RunSettings) (plan : Plan) (exchanges : List (Exchange Provider.calls))
    (due : List Worker) (r : Run) : Prop :=
  ∃ trace c jobs done, Execution settings plan trace ⟨c, jobs⟩ ∧
    exchangesOf trace = exchanges.filter Provider.IsCall ∧ c = r.coordinator ∧
    done.map Job.stage = (r.finished.filterMap id).map .finished ∧
    ((waiting due r).map rest ++ done).Subperm jobs

/-- Workers may be grouped anew, and none needs to be kept. -/
theorem Reached.regroup {due' : List Worker} (h : Reached settings plan exchanges due r)
    (hcoordinator : r'.coordinator = r.coordinator) (hfinished : r'.finished = r.finished)
    (hwaiting : (waiting due' r').Subperm (waiting due r)) :
    Reached settings plan exchanges due' r' := by
  obtain ⟨trace, c, jobs, done, hexec, hexchanges, hc, hdone, hsub⟩ := h
  refine ⟨trace, c, jobs, done, hexec, hexchanges, hc.trans hcoordinator.symm, ?_, ?_⟩
  · rw [hdone, hfinished]
  · obtain ⟨held, hperm, hheld⟩ := hwaiting
    have hmap : ((waiting due' r').map rest).Subperm ((waiting due r).map rest) :=
      ⟨_, hperm.map _, hheld.map _⟩
    exact ((List.subperm_append_right done).2 hmap).trans hsub

/-! ## Workers -/

/-- What a call leads to. -/
theorem Reached.call (h : Reached settings plan exchanges (w :: due) r)
    {called : List (Exchange Provider.calls)} {reply : Reply (Option String × Outputs)}
    (hruns : Runs w.call called reply) :
    (∀ outcome, w.afterCall settings.retry reply = .finished outcome →
      Reached settings plan (exchanges ++ called) due (r.finish (some outcome))) ∧
    (∀ w' delay, w.afterCall settings.retry reply = .retry w' delay →
      Reached settings plan (exchanges ++ called) (w' :: due) r) ∧
    (w.afterCall settings.retry reply = .lost →
      Reached settings plan (exchanges ++ called) due (r.finish none)) := by
  obtain ⟨trace, c, jobs, done, hexec, hexchanges, hc, hdone, hsub⟩ := h
  obtain ⟨before, after, rfl, hrest⟩ :
      ∃ before after, jobs = before ++ ⟨w, .resting⟩ :: after ∧
        ((waiting due r).map rest ++ done).Subperm (before ++ after) :=
    exists_split_of_subperm hsub
  -- The worker stands at the same place among the jobs afterwards.
  have hfinish : ∀ outcome, ((waiting due r).map rest ++
      (done ++ [(⟨w, .finished outcome⟩ : Job)])).Subperm
        (before ++ (⟨w, .finished outcome⟩ : Job) :: after) := by
    intro outcome
    rw [← List.append_assoc]
    refine (List.perm_append_singleton _ _).subperm.trans ?_
    exact (List.subperm_cons _).2 hrest |>.trans List.perm_middle.symm.subperm
  have hstages : ∀ outcome, (done ++ [(⟨w, .finished outcome⟩ : Job)]).map Job.stage =
      ((r.finish (some outcome)).finished.filterMap id).map .finished := by
    intro outcome
    simp [Run.finish, hdone]
  rcases w.call_cases with ⟨reply', hcall, hends⟩ | ⟨request, next, hcall, hreal, hanswers⟩
  · rw [hcall, Program.runs_done_iff] at hruns
    obtain ⟨rfl, rfl⟩ := hruns
    rw [List.append_nil]
    refine ⟨fun outcome hprogress => ?_, fun w' delay hprogress => ?_, fun hprogress => ?_⟩
    · refine ⟨_, c, _, _, hexec.next (.refuse hcall hprogress), ?_, hc, hstages outcome,
        hfinish outcome⟩
      rw [exchangesOf_concat, hexchanges]
      exact List.append_nil _
    · obtain ⟨outcome, hfinished⟩ := hends settings.retry
      exact nomatch hfinished.symm.trans hprogress
    · obtain ⟨outcome, hfinished⟩ := hends settings.retry
      exact nomatch hfinished.symm.trans hprogress
  · rw [hcall] at hruns
    cases hruns with
    | @ask _ _ answer _ _ hdone' =>
      obtain ⟨reply', hreplied⟩ := hanswers answer
      rw [hreplied, Program.runs_done_iff] at hdone'
      obtain ⟨rfl, rfl⟩ := hdone'
      have hcalling := hexec.next (.call hcall)
      have hexchanges' : exchangesOf (trace ++ [.called w.step request] ++
          [.answered w.step request answer]) =
            (exchanges ++ [(⟨request, answer⟩ : Exchange Provider.calls)]).filter
              Provider.IsCall := by
        rw [exchangesOf_concat, exchangesOf_concat, hexchanges, List.filter_append,
          List.filter_cons_of_pos (hreal answer)]
        simp [Event.exchange?]
      refine ⟨fun outcome hprogress => ?_, fun w' delay hprogress => ?_, fun hprogress => ?_⟩
      · exact ⟨_, c, _, _, hcalling.next (.finish hcall hreplied hprogress), hexchanges', hc,
          hstages outcome, hfinish outcome⟩
      · exact ⟨_, c, _, _, hcalling.next (.retry hcall hreplied hprogress), hexchanges', hc,
          hdone, ((List.subperm_cons _).2 hrest).trans List.perm_middle.symm.subperm⟩
      · exact ⟨_, c, _, _, hcalling.next (.lose hcall hreplied hprogress), hexchanges', hc,
          by simpa [Run.finish] using hdone, hrest⟩

theorem insertSleeper_perm (s : Sleeper) (ss : List Sleeper) :
    (insertSleeper s ss).Perm (s :: ss) := by
  induction ss with
  | nil => exact .refl _
  | cons first ss ih =>
    rw [insertSleeper]
    split
    · exact .refl _
    · exact (ih.cons first).trans (.swap ..)

theorem Reached.sleep {delay : Nat} {wake : Wake}
    (h : Reached settings plan exchanges (w :: due) r) :
    Reached settings plan exchanges due (r.sleep delay wake w) := by
  refine h.regroup rfl rfl (List.Perm.subperm ?_)
  have hsleepers := (insertSleeper_perm ⟨r.clock + delay, wake, w⟩ r.sleepers).map (·.worker)
  exact (hsleepers.append_left _).trans List.perm_middle

/-- A worker runs until it ends or sleeps. -/
theorem Reached.runWorker {fuel : Nat} {wake : Wake} {ran : List (Exchange Provider.calls)}
    (h : Reached settings plan exchanges (w :: due) r)
    (hruns : Runs (runWorker settings fuel wake w r) ran r') :
    Reached settings plan (exchanges ++ ran) due r' := by
  induction fuel generalizing exchanges w wake r ran with
  | zero =>
    obtain ⟨rfl, rfl⟩ := runs_pure_iff.1 hruns
    rw [List.append_nil]
    exact h.regroup rfl rfl (List.sublist_cons_self ..).subperm
  | succ fuel ih =>
    rw [Run.runWorker] at hruns
    split at hruns
    · have hbegun : Reached settings plan exchanges (w :: due) (r.beginCall settings) :=
        h.regroup rfl rfl (.refl _)
      dsimp only at hruns
      split at hruns
      · exact ih hbegun hruns
      · obtain ⟨rfl, rfl⟩ := runs_pure_iff.1 hruns
        rw [List.append_nil]
        exact hbegun.sleep
    · obtain ⟨called, rest, reply, rfl, hcall, hrest⟩ := runs_bind_iff.1 hruns
      have hended : Reached settings plan exchanges (w :: due)
          (if w.canCall then r.endCall else r) := by
        split
        · exact h.regroup rfl rfl (.refl _)
        · exact h
      obtain ⟨hfinished, hretry, hlost⟩ := hended.call hcall
      dsimp only at hrest
      rw [← List.append_assoc]
      split at hrest
      · next outcome hprogress =>
        obtain ⟨rfl, rfl⟩ := runs_pure_iff.1 hrest
        rw [List.append_nil]
        exact hfinished outcome hprogress
      · next hprogress =>
        obtain ⟨rfl, rfl⟩ := runs_pure_iff.1 hrest
        rw [List.append_nil]
        exact hlost hprogress
      · next w' delay hprogress =>
        split at hrest
        · exact ih (hretry w' delay hprogress) hrest
        · obtain ⟨rfl, rfl⟩ := runs_pure_iff.1 hrest
          rw [List.append_nil]
          exact (hretry w' delay hprogress).sleep

/-- Workers run one after another. -/
theorem Reached.runEach {α : Type} {items : List α} (wake : α → Wake) (worker : α → Worker)
    {ran : List (Exchange Provider.calls)}
    (h : Reached settings plan exchanges (items.map worker ++ due) r)
    (hruns : Runs (items.foldlM (fun r a => r.runOn settings (wake a) (worker a)) r) ran r') :
    Reached settings plan (exchanges ++ ran) due r' := by
  induction items generalizing exchanges r ran with
  | nil =>
    rw [List.foldlM_nil, runs_pure_iff] at hruns
    obtain ⟨rfl, rfl⟩ := hruns
    rw [List.append_nil]
    exact h
  | cons item items ih =>
    rw [List.foldlM_cons] at hruns
    obtain ⟨first, others, mid, rfl, hfirst, hothers⟩ := runs_bind_iff.1 hruns
    rw [← List.append_assoc]
    exact ih (h.runWorker hfirst) hothers

/-! ## Waiting -/

theorem Reached.pause {milliseconds : Nat} {paused : List (Exchange Provider.calls)}
    (h : Reached settings plan exchanges due r)
    (hruns : Runs (Provider.pause milliseconds) paused ()) :
    Reached settings plan (exchanges ++ paused) due r := by
  obtain rfl := Program.runs_request_iff.1 hruns
  obtain ⟨trace, c, jobs, done, hexec, hexchanges, hrest⟩ := h
  refine ⟨trace, c, jobs, done, hexec, ?_, hrest⟩
  rw [hexchanges, List.filter_append]
  exact (List.append_nil _).symm

theorem Reached.advance {ran : List (Exchange Provider.calls)} {result : Option Run}
    (h : Reached settings plan exchanges [] r) (hruns : Runs (r.advance settings) ran result) :
    Reached settings plan (exchanges ++ ran) [] (result.getD r) := by
  simp only [Run.advance] at hruns
  split at hruns
  · obtain ⟨rfl, rfl⟩ := runs_pure_iff.1 hruns
    rw [List.append_nil]
    exact h
  · next first others hstarted hsleepers =>
    obtain ⟨paused, rest, ⟨⟩, rfl, hpaused, hrest⟩ := runs_bind_iff.1 hruns
    obtain ⟨woken, hwoken, rfl⟩ := Program.runs_map_iff.1 hrest
    rw [Option.getD_some, ← List.append_assoc]
    generalize hdue : r.sleepers.takeWhile (·.wakesAt = first.wakesAt) = due at hwoken
    have hawake : Reached settings plan (exchanges ++ paused) (due.map (·.worker) ++ [])
        { r with clock := first.wakesAt, sleepers := r.sleepers.drop due.length } := by
      refine (h.pause hpaused).regroup rfl rfl (List.Perm.subperm (.of_eq ?_))
      have hsplit : due ++ r.sleepers.drop due.length = r.sleepers := by
        have hprefix : due <+: r.sleepers := hdue ▸ List.takeWhile_prefix _
        rw [List.prefix_iff_eq_append.1 hprefix]
      rw [waiting, waiting, hstarted, ← hsplit]
      simp
    exact hawake.runEach Sleeper.wake Sleeper.worker hwoken
  · obtain ⟨woken, hwoken, rfl⟩ := Program.runs_map_iff.1 hruns
    have hawake : Reached settings plan exchanges (r.started.map (fun w => w) ++ [])
        { r with started := [] } := by
      refine h.regroup rfl rfl (List.Perm.subperm (.of_eq ?_))
      simp [waiting]
    exact hawake.runEach (fun _ => .attempt) (fun w => w) hwoken

/-- The result that a run gives out is the next among the finished. -/
theorem Reached.await {patience : Nat} {ran : List (Exchange Provider.calls)}
    {result : Option (Option Outcome)} (h : Reached settings plan exchanges [] r)
    (hruns : Runs (r.await settings patience) ran (r', result)) :
    Reached settings plan (exchanges ++ ran) []
      { r' with finished := result.toList ++ r'.finished } := by
  induction patience generalizing exchanges r ran with
  | zero =>
    obtain ⟨rfl, heq⟩ := runs_pure_iff.1 hruns
    obtain ⟨rfl, rfl⟩ := Prod.mk.inj heq
    rw [List.append_nil]
    exact h
  | succ patience ih =>
    rw [Run.await] at hruns
    split at hruns
    · next first rest hfinished =>
      obtain ⟨rfl, heq⟩ := runs_pure_iff.1 hruns
      obtain ⟨rfl, rfl⟩ := Prod.mk.inj heq
      rw [List.append_nil]
      exact h.regroup rfl hfinished.symm (.refl _)
    · obtain ⟨advanced, others, next, rfl, hadvanced, hothers⟩ := runs_bind_iff.1 hruns
      have hnext := h.advance hadvanced
      rw [← List.append_assoc]
      cases next with
      | none =>
        obtain ⟨rfl, heq⟩ := runs_pure_iff.1 hothers
        obtain ⟨rfl, rfl⟩ := Prod.mk.inj heq
        rw [List.append_nil]
        exact hnext
      | some next => exact ih hnext hothers

/-! ## Coordinating -/

theorem fill_execution (fuel : Nat) {trace : List Event} {c : Coordinator} {jobs : List Job}
    (h : Execution settings plan trace ⟨c, jobs⟩) :
    ∃ trace', exchangesOf trace' = exchangesOf trace ∧
      Execution settings plan trace' ⟨(c.fill settings.concurrency fuel).1,
        jobs ++ (c.fill settings.concurrency fuel).2.map rest⟩ := by
  induction fuel generalizing trace c jobs with
  | zero => exact ⟨trace, rfl, by simpa [Coordinator.fill] using h⟩
  | succ fuel ih =>
    rw [Coordinator.fill]
    split
    · exact ⟨trace, rfl, by simpa using h⟩
    · next c' outcome htake =>
      obtain ⟨trace', hexchanges, hexec⟩ := ih (h.next (.settle htake))
      exact ⟨trace', by rw [hexchanges, exchangesOf_concat]; exact List.append_nil _, hexec⟩
    · next c' w htake =>
      obtain ⟨trace', hexchanges, hexec⟩ := ih (h.next (.start htake))
      refine ⟨trace', by rw [hexchanges, exchangesOf_concat]; exact List.append_nil _, ?_⟩
      simpa [rest] using hexec

theorem Reached.coordinate (h : Reached settings plan exchanges [] r) :
    Reached settings plan exchanges [] (r.coordinate settings) := by
  obtain ⟨trace, c, jobs, done, hexec, hexchanges, rfl, hdone, hsub⟩ := h
  obtain ⟨trace', hlooked, hexec'⟩ := hexec.observe r.cancelAsked
  obtain ⟨trace'', hfilled, hexec''⟩ :=
    fill_execution ((r.coordinator.observe r.cancelAsked).schedule.steps.length + 1) hexec'
  refine ⟨trace'', _, _, done, hexec'', hfilled.trans (hlooked.trans hexchanges), rfl, hdone, ?_⟩
  generalize hws : (Coordinator.fill settings.concurrency _ _).2 = ws
  have hwaiting : waiting [] (r.coordinate settings) =
      r.started ++ ws ++ r.sleepers.map (·.worker) := by
    rw [← hws]
    rfl
  have hperm : ((waiting [] (r.coordinate settings)).map rest ++ done).Perm
      ((waiting [] r).map rest ++ done ++ ws.map rest) := by
    have hmoved : (ws.map rest ++ ((r.sleepers.map (·.worker)).map rest ++ done)).Perm
        (((r.sleepers.map (·.worker)).map rest ++ done) ++ ws.map rest) := List.perm_append_comm
    rw [hwaiting, waiting]
    simpa using hmoved.append_left (r.started.map rest)
  exact hperm.subperm.trans ((List.subperm_append_right _).2 hsub)

/-- The coordinator takes in what a worker reports. -/
theorem Reached.collect {outcome : Outcome}
    (h : Reached settings plan exchanges [] { r with finished := some outcome :: r.finished }) :
    Reached settings plan exchanges [] { r with coordinator := r.coordinator.collect outcome } := by
  obtain ⟨trace, c, jobs, done, hexec, hexchanges, rfl, hdone, hsub⟩ := h
  obtain ⟨⟨w, stage⟩, others, rfl, hstage, hothers⟩ := List.map_eq_cons_iff.1 hdone
  obtain rfl : stage = .finished outcome := hstage
  obtain ⟨before, after, rfl, hrest⟩ :
      ∃ before after, jobs = before ++ ⟨w, .finished outcome⟩ :: after ∧
        ((waiting [] r).map rest ++ others).Subperm (before ++ after) :=
    exists_split_of_subperm (List.perm_middle.symm.subperm.trans hsub)
  refine ⟨_, _, _, others, hexec.next .collect, ?_, rfl, hothers, hrest⟩
  rw [exchangesOf_concat, hexchanges]
  exact List.append_nil _

theorem Reached.loop {patience fuel : Nat} {ran : List (Exchange Provider.calls)}
    {result : Except ApplyError Report} (h : Reached settings plan exchanges [] r)
    (hruns : Runs (r.loop settings patience fuel) ran (result, r')) :
    Reached settings plan (exchanges ++ ran) [] r' ∧
      ∀ report, result = .ok report → report = r'.coordinator.report := by
  induction fuel generalizing exchanges r ran with
  | zero =>
    obtain ⟨rfl, heq⟩ := runs_pure_iff.1 hruns
    obtain ⟨rfl, rfl⟩ := Prod.mk.inj heq
    rw [List.append_nil]
    exact ⟨h, fun report hreport => (Except.ok.inj hreport).symm⟩
  | succ fuel ih =>
    rw [Run.loop] at hruns
    obtain ⟨awaited, others, ⟨next, found⟩, rfl, hawaited, hothers⟩ := runs_bind_iff.1 hruns
    have hnext := h.coordinate.await hawaited
    rw [← List.append_assoc]
    match found, hnext, hothers with
    | none, hnext, hothers =>
      obtain ⟨rfl, heq⟩ := runs_pure_iff.1 hothers
      obtain ⟨rfl, rfl⟩ := Prod.mk.inj heq
      rw [List.append_nil]
      exact ⟨hnext, fun report hreport => (Except.ok.inj hreport).symm⟩
    | some none, hnext, hothers =>
      obtain ⟨rfl, heq⟩ := runs_pure_iff.1 hothers
      obtain ⟨rfl, rfl⟩ := Prod.mk.inj heq
      rw [List.append_nil]
      exact ⟨hnext, nofun⟩
    | some (some outcome), hnext, hothers => exact ih hnext.collect hothers

/-- Whatever the provider answers, applying a plan that is well ordered is an execution with the same
exchanges, and the report is what the coordinator knows in the end. -/
theorem execution_of_apply {result : Except ApplyError Report}
    (hordered : plan.isWellOrdered = true)
    (hruns : Runs (apply settings plan) exchanges (result, r)) :
    ∃ trace m, Execution settings plan trace m ∧
      exchangesOf trace = exchanges.filter Provider.IsCall ∧ m.coordinator = r.coordinator ∧
      ∀ report, result = .ok report → report = m.coordinator.report := by
  simp only [apply, hordered, Bool.not_true, Bool.false_eq_true, if_false] at hruns
  have hstart : Reached settings plan [] []
      { coordinator := .start plan, cancelAsked := settings.cancelAt = some 0 } :=
    ⟨[], _, [], [], .start hordered, rfl, rfl, rfl, .refl _⟩
  obtain ⟨⟨trace, c, jobs, done, hexec, hexchanges, rfl, -⟩, hreport⟩ := hstart.loop hruns
  exact ⟨trace, _, hexec, hexchanges, rfl, hreport⟩

end Run

end Converge
