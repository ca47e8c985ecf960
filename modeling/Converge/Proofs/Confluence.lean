import Converge.Proofs.Execution.Foresight

/-!
# Confluence

What an apply comes to does not depend on how many workers it may have, nor on the order in which
they end: two runs of one plan against a provider that answers alike come to the same, as long as
neither is cancelled. Only whom a step that was rolled back blames may differ.

Main statement: `Plan.confluent`.
-/

namespace Converge

/-- Whether two outcomes of a step agree on all but the texts of errors. -/
structure Outcome.Agrees (a b : Outcome) : Prop where
  index : a.index = b.index
  nodeId : a.nodeId = b.nodeId
  action : a.action = b.action
  status : a.status = b.status
  attempts : a.attempts = b.attempts
  providerId : a.providerId = b.providerId
  outputs : a.outputs = b.outputs
  applied : a.applied = b.applied

namespace Outcome.Agrees

variable {step : Step} {a b : Outcome}

theorem refl (a : Outcome) : a.Agrees a := ⟨rfl, rfl, rfl, rfl, rfl, rfl, rfl, rfl⟩

theorem of_untouched (ha : Schedule.Untouched step a) (hb : Schedule.Untouched step b)
    (hstatus : a.status = b.status) : a.Agrees b := by
  obtain ⟨_, _, rfl⟩ := ha
  obtain ⟨_, _, rfl⟩ := hb
  exact ⟨rfl, rfl, rfl, hstatus, rfl, rfl, rfl, rfl⟩

end Outcome.Agrees

variable {settings settings' : RunSettings} {plan : Plan} {trace trace' : List Event}
  {m m' : Moment} {answer : Provider.Response}

/-- A run that has ended and was not cancelled: every step has come to what was foreseen, or was
rolled back because something it waits for has not succeeded. -/
structure Moment.Over (policy : RetryPolicy) (answer : Provider.Response) (plan : Plan)
    (m : Moment) : Prop where
  informed : m.Informed plan
  blank : Schedule.Blank plan m.coordinator.schedule.outcomes
  ended : ∀ (k : Nat) (step : Step) (outcome : Outcome), plan.steps[k]? = some step →
    m.coordinator.schedule.outcomes[k]? = some outcome →
    outcome.status = .succeeded ∨ outcome.status = .failed →
      Coordinator.Foresees policy answer m.coordinator.schedule step outcome
  finished : ∀ (k : Nat) (step : Step), plan.steps[k]? = some step →
    ∃ outcome, m.coordinator.schedule.outcomes[k]? = some outcome ∧
      ((outcome.status = .succeeded ∨ outcome.status = .failed) ∧
          (∀ d ∈ step.dependsOn, m.statusAt? d = some .succeeded) ∨
        outcome.status = .rolledBack ∧ ∃ d ∈ step.dependsOn, m.statusAt? d ≠ some .succeeded)

theorem Moment.Over.of_execution {report : Report} (hsupplied : plan.Supplied)
    (run : Execution settings plan trace m) (hexact : report.Exact plan)
    (hreport : m.coordinator.report = report) (hprovided : Provided answer trace)
    (hcancelled : report.cancelled = false) : m.Over settings.retry answer plan := by
  subst hreport
  have hforeseen := run.foreseen hsupplied hprovided
  have hconsistent := run.closed.consistent
  refine ⟨run.informed hsupplied.single, hforeseen.blank, hforeseen.ended, fun k step hstep => ?_⟩
  have hlt := (List.getElem?_eq_some_iff.1 hstep).1
  obtain ⟨held, hheld⟩ := Option.ne_none_iff_exists'.1 ((run.ne_none_iff k).2 hlt)
  obtain ⟨outcome, houtcome, rfl⟩ := Schedule.statusAt?_eq_some_iff.1 hheld
  refine ⟨outcome, houtcome, ?_⟩
  have hstatus : ∀ status, m.coordinator.report.statusAt? k = some status →
      outcome.status = status :=
    fun status h => Option.some.inj (hheld.symm.trans h)
  rcases hexact.finished hcancelled k hlt with hdone | hdone | hdone
  · refine .inl ⟨.inl (hstatus _ hdone), ?_⟩
    exact hconsistent.begun hstep hdone (by decide) (by decide)
  · refine .inl ⟨.inr (hstatus _ hdone), ?_⟩
    exact hconsistent.begun hstep hdone (by decide) (by decide)
  · obtain ⟨d, hd, hbroken⟩ := hconsistent.blamed hstep hdone
    refine .inr ⟨hstatus _ hdone, d, hd, fun hsucceeded => ?_⟩
    rcases hbroken with hbroken | hbroken <;> exact nomatch hsucceeded.symm.trans hbroken

/-- Two runs that have ended agree on every step, since they agree on all that it waits for. -/
theorem Moment.Over.outcome_agrees {policy : RetryPolicy} (h : m.Over policy answer plan)
    (h' : m'.Over policy answer plan) (hsupplied : plan.Supplied)
    (hordered : plan.isWellOrdered = true) {k : Nat} {a b : Outcome}
    (ha : m.coordinator.schedule.outcomes[k]? = some a)
    (hb : m'.coordinator.schedule.outcomes[k]? = some b) (hlt : k < plan.steps.length) :
    a.Agrees b := by
  induction k using Nat.strongRecOn generalizing a b with
  | ind k ih =>
    have hstep := List.getElem?_eq_getElem hlt
    generalize plan.steps[k] = step at hstep
    obtain ⟨_, ha', hfinished⟩ := h.finished k step hstep
    obtain rfl := Option.some.inj (ha'.symm.trans ha)
    obtain ⟨_, hb', hfinished'⟩ := h'.finished k step hstep
    obtain rfl := Option.some.inj (hb'.symm.trans hb)
    -- What it waits for has come to the same.
    have hbefore : ∀ d ∈ step.dependsOn, ∃ x y, m.coordinator.schedule.outcomes[d]? = some x ∧
        m'.coordinator.schedule.outcomes[d]? = some y ∧ x.Agrees y := by
      intro d hd
      have hd' := Plan.lt_of_mem_dependsOn hordered hstep hd
      have hdstep := List.getElem?_eq_getElem (hd'.trans hlt)
      obtain ⟨x, hx, -⟩ := h.finished d _ hdstep
      obtain ⟨y, hy, -⟩ := h'.finished d _ hdstep
      exact ⟨x, y, hx, hy, ih d hd' hx hy (hd'.trans hlt)⟩
    have hsucceeded : ∀ d ∈ step.dependsOn,
        (m.statusAt? d = some .succeeded ↔ m'.statusAt? d = some .succeeded) := by
      intro d hd
      obtain ⟨x, y, hx, hy, hagrees⟩ := hbefore d hd
      unfold Moment.statusAt? Schedule.statusAt?
      rw [hx, hy, Option.map_some, Option.map_some, hagrees.status]
    rcases hfinished with ⟨hterminal, hdeps⟩ | ⟨hrolledBack, d, hd, hunmet⟩
    · rcases hfinished' with ⟨hterminal', hdeps'⟩ | ⟨-, d, hd, hunmet⟩
      · -- Both runs have given it the same, and go on alike from there.
        have hprepare : m.coordinator.schedule.prepare step =
            m'.coordinator.schedule.prepare step := by
          refine hsupplied.prepare_eq hstep ?_
          rintro d hd id ⟨producer, hproducer, rfl, hdelete⟩
          obtain ⟨x, y, hx, hy, hagrees⟩ := hbefore d hd
          have hdone : x.status = .succeeded := by
            have := hdeps d hd
            rw [Moment.statusAt?, Schedule.statusAt?, hx] at this
            exact Option.some.inj this
          have hrecorded := h.informed.recorded hproducer hx hdone hdelete
          have hrecorded' := h'.informed.recorded hproducer hy (hagrees.status ▸ hdone) hdelete
          exact hrecorded.trans (hagrees.outputs ▸ hrecorded'.symm)
        have hforeseen := (h.ended k step _ hstep ha hterminal).congr hprepare
        rw [hforeseen.unique (h'.ended k step _ hstep hb hterminal')]
        exact .refl _
      · exact absurd ((hsucceeded d hd).1 (hdeps d hd)) hunmet
    · rcases hfinished' with ⟨-, hdeps'⟩ | ⟨hrolledBack', -⟩
      · exact absurd ((hsucceeded d hd).2 (hdeps' d hd)) hunmet
      · have hblank := h.blank k step _ hstep ha (by simp [hrolledBack]) (by simp [hrolledBack])
        have hblank' := h'.blank k step _ hstep hb (by simp [hrolledBack']) (by simp [hrolledBack'])
        exact .of_untouched hblank hblank' (hrolledBack.trans hrolledBack'.symm)

namespace Plan

/-- Runs of a plan come to the same whatever their limits, their delays and the order in which their
workers end. -/
theorem confluent {declarations : List Declaration} {g : Graph} {prior : Option State}
    {now : Instant} {plan : Plan} (hg : Graph.ofDeclarations declarations = .ok g)
    (hplan : Plan.synthesize g prior now = .ok plan) (apply : ApplySettings) (limit limit' : Nat)
    {latencyMs latencyMs' : Nat} {cancelAt cancelAt' : Option Nat}
    {answer : Provider.Response} {trace trace' : List Event} {report report' : Report}
    (h : Reports { RunSettings.ofApply { apply with concurrency := limit } with
      latencyMs, cancelAt } plan trace report)
    (h' : Reports { RunSettings.ofApply { apply with concurrency := limit' } with
      latencyMs := latencyMs', cancelAt := cancelAt' } plan trace' report')
    (hprovided : Provided answer trace) (hprovided' : Provided answer trace')
    (hcancelled : report.cancelled = false) (hcancelled' : report'.cancelled = false) :
    List.Forall₂ Outcome.Agrees report.steps report'.steps := by
  have hsupplied := supplied_of_synthesize hg hplan
  have hexact := h.exact
  have hexact' := h'.exact
  obtain ⟨m, run, -, -, hreport⟩ := h
  obtain ⟨m', run', -, -, hreport'⟩ := h'
  have hover := Moment.Over.of_execution hsupplied run hexact hreport hprovided hcancelled
  have hover' := Moment.Over.of_execution hsupplied run' hexact' hreport' hprovided' hcancelled'
  have hlength := hexact.steps.length_eq
  refine List.forall₂_iff_get.2 ⟨hlength.symm.trans hexact'.steps.length_eq, fun k hk hk' => ?_⟩
  subst hreport hreport'
  exact hover.outcome_agrees hover' hsupplied run.isWellOrdered (List.getElem?_eq_getElem hk)
    (List.getElem?_eq_getElem hk') (hlength ▸ hk)

/-- Two target groups, and a listener that refers to one of them. -/
def pairedDeclarations : List Declaration := [
  { id := "blue", kind := .targetGroup },
  { id := "green", kind := .targetGroup },
  { id := "listener", kind := .listener, attributes := .ofList [("group", .output "blue" "arn")] }]

def pairedSteps : List Step := [
  { index := 0, nodeId := "blue", kind := .targetGroup, action := .create
    reason := "not yet created" },
  { index := 1, nodeId := "green", kind := .targetGroup, action := .create
    reason := "not yet created" },
  { index := 2, nodeId := "listener", kind := .listener, action := .create
    deferred := .ofList [("group", .output "blue" "arn")], dependsOn := [0]
    reason := "not yet created", dependencies := ["blue"] }]

/-- A provider that names every resource alike. -/
def namesAlike : Provider.Response
  | .create _ _, _ => .ok { providerId := "id-1", outputs := .ofList [("arn", .string "arn-1")] }
  | .update _ _ _, _ => .ok .empty
  | .delete _ _, _ => .ok ()
  | .pause _, _ => ()

/-- One worker makes one resource after the other, and two make the groups the other way round. -/
theorem confluent_reversed : ∃ plan trace trace' report report',
    Reports { RunSettings.ofApply { concurrency := 1 } with } plan trace report ∧
      Reports { RunSettings.ofApply { concurrency := 2 } with } plan trace' report' ∧
      (outcomesIn trace).map (·.index) = [0, 1, 2] ∧ (outcomesIn trace').map (·.index) = [1, 0, 2] ∧
      Provided namesAlike trace ∧ Provided namesAlike trace' ∧
      List.Forall₂ Outcome.Agrees report.steps report'.steps := by
  obtain ⟨g, hg, hsteps⟩ : ∃ g, Graph.ofDeclarations pairedDeclarations = .ok g ∧
      Synthesis.steps g none = .ok pairedSteps := ⟨_, rfl, rfl⟩
  let plan : Plan := {
    createdAt := ⟨0, 0⟩
    configHash := Fingerprint.ofGraph g
    steps := pairedSteps }
  have hplan : Plan.synthesize g none ⟨0, 0⟩ = .ok plan := bind_eq_ok_iff.2 ⟨_, hsteps, rfl⟩
  have a₀ : Execution { RunSettings.ofApply { concurrency := 1 } with } plan [] _ := .start rfl
  have a₁ := a₀.next (.start rfl)
  have a₂ := a₁.next (@Moment.Move.call _ _ [] _ _ _ _ rfl)
  have a₃ := a₂.next (@Moment.Move.finish _ _ [] _ _ _ _ (namesAlike _ 1) _ _ rfl rfl rfl)
  have a₄ := a₃.next (@Moment.Move.collect _ _ [] _ _ _)
  have a₅ := a₄.next (.start rfl)
  have a₆ := a₅.next (@Moment.Move.call _ _ [] _ _ _ _ rfl)
  have a₇ := a₆.next (@Moment.Move.finish _ _ [] _ _ _ _ (namesAlike _ 1) _ _ rfl rfl rfl)
  have a₈ := a₇.next (@Moment.Move.collect _ _ [] _ _ _)
  have a₉ := a₈.next (.start rfl)
  have a₁₀ := a₉.next (@Moment.Move.call _ _ [] _ _ _ _ rfl)
  have a₁₁ := a₁₀.next (@Moment.Move.finish _ _ [] _ _ _ _ (namesAlike _ 1) _ _ rfl rfl rfl)
  have a := a₁₁.next (@Moment.Move.collect _ _ [] _ _ _)
  have b₀ : Execution { RunSettings.ofApply { concurrency := 2 } with } plan [] _ := .start rfl
  have b₁ := b₀.next (.start rfl)
  have b₂ := b₁.next (.start rfl)
  have b₃ := b₂.next (@Moment.Move.call _ _ [_] _ _ _ _ rfl)
  have b₄ := b₃.next (@Moment.Move.finish _ _ [_] _ _ _ _ (namesAlike _ 1) _ _ rfl rfl rfl)
  have b₅ := b₄.next (@Moment.Move.collect _ _ [_] _ _ _)
  have b₆ := b₅.next (@Moment.Move.call _ _ [] _ _ _ _ rfl)
  have b₇ := b₆.next (@Moment.Move.finish _ _ [] _ _ _ _ (namesAlike _ 1) _ _ rfl rfl rfl)
  have b₈ := b₇.next (@Moment.Move.collect _ _ [] _ _ _)
  have b₉ := b₈.next (.start rfl)
  have b₁₀ := b₉.next (@Moment.Move.call _ _ [] _ _ _ _ rfl)
  have b₁₁ := b₁₀.next (@Moment.Move.finish _ _ [] _ _ _ _ (namesAlike _ 1) _ _ rfl rfl rfl)
  have b := b₁₁.next (@Moment.Move.collect _ _ [] _ _ _)
  have ha := show Reports _ _ _ _ from ⟨_, a, rfl, rfl, rfl⟩
  have hb := show Reports _ _ _ _ from ⟨_, b, rfl, rfl, rfl⟩
  refine ⟨plan, _, _, _, _, ha, hb, rfl, rfl, ?serial, ?paired,
    Plan.confluent hg hplan {} 1 2 ha hb ?serial ?paired rfl rfl⟩
  case serial =>
    simp only [provided_concat]
    exact ⟨⟨⟨⟨⟨⟨⟨⟨⟨⟨⟨⟨provided_nil, trivial⟩, trivial⟩, rfl⟩, trivial⟩, trivial⟩, trivial⟩, rfl⟩,
      trivial⟩, trivial⟩, trivial⟩, rfl⟩, trivial⟩
  case paired =>
    simp only [provided_concat]
    exact ⟨⟨⟨⟨⟨⟨⟨⟨⟨⟨⟨⟨provided_nil, trivial⟩, trivial⟩, trivial⟩, rfl⟩, trivial⟩, trivial⟩, rfl⟩,
      trivial⟩, trivial⟩, trivial⟩, rfl⟩, trivial⟩

end Plan

end Converge
