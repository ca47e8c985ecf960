import Converge.Proofs.Execution.Soundness
import Converge.Proofs.Plan.Resolution
import Converge.Proofs.Table

/-!
# Values of executions

The outputs that are recorded during an execution are those of the steps that have succeeded, and
none is replaced by another. So whatever a step was given when it started is what it would be given
at any later moment.

Main statement: `Execution.informed`.
-/

namespace Converge

/-! ## Tables of outputs that grow -/

namespace OutputTable

/-- Whether a table has everything that an earlier one had. -/
def Extends (earlier later : OutputTable) : Prop :=
  ∀ id outputs, earlier.outputs.get? id = some outputs → later.outputs.get? id = some outputs

variable {t t' : OutputTable}

theorem Extends.get? (h : t.Extends t') {r : Reference} {value : Json}
    (hvalue : t.get? r = some value) : t'.get? r = some value := by
  obtain ⟨outputs, houtputs, hvalue⟩ := Option.bind_eq_some_iff.1 hvalue
  exact Option.bind_eq_some_iff.2 ⟨outputs, h _ _ houtputs, hvalue⟩

theorem Extends.resolve (h : t.Extends t') {value : AttributeValue} {known : Json}
    (hknown : t.resolve value = .ok known) : t'.resolve value = .ok known := by
  rw [resolve_eq_ok_iff] at hknown ⊢
  rw [← hknown]
  refine AttributeValue.substitute_congr value fun r hr => ?_
  obtain ⟨a, ha⟩ := (AttributeValue.exists_substitute_iff value).1 ⟨known, hknown⟩ r hr
  rw [ha, h.get? ha]

theorem extends_record {id : String} (h : t.outputs.get? id = none) (outputs : Outputs) :
    t.Extends (t.record id outputs) := by
  intro other held hheld
  rw [record, Table.get?_insert, if_neg, hheld]
  rintro rfl
  exact nomatch hheld.symm.trans h

end OutputTable

/-! ## Attributes of steps -/

namespace Schedule

variable {t t' : OutputTable} {entries : List (String × AttributeValue)}
  {attributes prepared : Attributes}

theorem prepareAttributes_cons_eq_ok_iff {name : String} {value : AttributeValue} :
    prepareAttributes t ((name, value) :: entries) attributes = .ok prepared ↔
      ∃ known, t.resolve value = .ok known ∧
        prepareAttributes t entries (attributes.insert name known) = .ok prepared := by
  rw [prepareAttributes]
  cases t.resolve value <;> simp

theorem prepareAttributes_mono (h : t.Extends t')
    (hprepared : prepareAttributes t entries attributes = .ok prepared) :
    prepareAttributes t' entries attributes = .ok prepared := by
  induction entries generalizing attributes with
  | nil => exact hprepared
  | cons entry entries ih =>
    obtain ⟨name, value⟩ := entry
    rw [prepareAttributes_cons_eq_ok_iff] at hprepared ⊢
    obtain ⟨known, hknown, hrest⟩ := hprepared
    exact ⟨known, h.resolve hknown, ih hrest⟩

/-- The error names a deferred attribute, and a reference inside without a recorded output. -/
theorem of_prepareAttributes_eq_error {cause : String}
    (h : prepareAttributes t entries attributes = .error cause) :
    ∃ name value r, (name, value) ∈ entries ∧ r ∈ value.references ∧ t.get? r = none ∧
      cause = s!"unresolved reference '{r.render}' for attribute '{name}'" := by
  induction entries generalizing attributes with
  | nil => cases h
  | cons entry entries ih =>
    obtain ⟨name, value⟩ := entry
    rw [prepareAttributes] at h
    split at h
    · next target hresolve =>
      obtain ⟨hr, hnone⟩ := OutputTable.of_resolve_eq_error value hresolve
      exact ⟨name, value, target, List.mem_cons_self .., hr, hnone, (Except.error.inj h).symm⟩
    · obtain ⟨name', value', r, hmem, hrest⟩ := ih h
      exact ⟨name', value', r, List.mem_cons_of_mem _ hmem, hrest⟩

/-- Only the outputs that the entries refer to matter. -/
theorem prepareAttributes_congr
    (h : ∀ name value, (name, value) ∈ entries → ∀ r ∈ value.references, t.get? r = t'.get? r) :
    prepareAttributes t entries attributes = prepareAttributes t' entries attributes := by
  induction entries generalizing attributes with
  | nil => rfl
  | cons entry entries ih =>
    obtain ⟨name, value⟩ := entry
    rw [prepareAttributes, prepareAttributes,
      OutputTable.resolve_congr value (h name value (List.mem_cons_self ..))]
    split
    · rfl
    · exact ih fun name value hmem => h name value (List.mem_cons_of_mem _ hmem)

/-- Prepared attributes are what the recorded outputs make of the deferred ones, and the others as
they are. -/
theorem get?_prepareAttributes (hnodup : (entries.map (·.1)).Nodup)
    (h : prepareAttributes t entries attributes = .ok prepared) :
    (∀ name value, (name, value) ∈ entries →
      ∃ known, value.substitute t.get? = some known ∧ prepared.get? name = some known) ∧
    ∀ name, name ∉ entries.map (·.1) → prepared.get? name = attributes.get? name := by
  induction entries generalizing attributes with
  | nil =>
    obtain rfl := Except.ok.inj h
    simp
  | cons entry entries ih =>
    obtain ⟨first, value⟩ := entry
    obtain ⟨hfirst, hrest⟩ := List.nodup_cons.1 hnodup
    obtain ⟨known, hknown, h⟩ := prepareAttributes_cons_eq_ok_iff.1 h
    obtain ⟨hentries, hothers⟩ := ih hrest h
    constructor
    · intro name other hmem
      rcases List.mem_cons.1 hmem with heq | hmem
      · obtain ⟨rfl, rfl⟩ := Prod.mk.inj heq
        refine ⟨known, OutputTable.resolve_eq_ok_iff _ |>.1 hknown, ?_⟩
        rw [hothers _ hfirst, Table.get?_insert, if_pos rfl]
      · exact hentries name other hmem
    · intro name hname
      rw [List.map_cons, List.mem_cons, not_or] at hname
      rw [hothers name hname.2, Table.get?_insert, if_neg hname.1]

end Schedule

/-! ## The invariant -/

/-- Whether a plan has at most one step for every node, deletions apart. -/
def Plan.Single (plan : Plan) : Prop :=
  ∀ {i j : Nat} {a b : Step}, plan.steps[i]? = some a → plan.steps[j]? = some b →
    a.action ≠ .delete → b.action ≠ .delete → a.nodeId = b.nodeId → i = j

namespace Moment

/-- The outputs recorded so far. -/
def outputs (m : Moment) : OutputTable := m.coordinator.schedule.outputs

/-- What is recorded comes from the steps that have succeeded, and it is enough for all that have
started. -/
structure Informed (plan : Plan) (m : Moment) : Prop where
  recorded : ∀ {i : Nat} {step : Step} {outcome : Outcome}, plan.steps[i]? = some step →
    m.coordinator.schedule.outcomes[i]? = some outcome → outcome.status = .succeeded →
    step.action ≠ .delete → m.outputs.outputs.get? step.nodeId = some outcome.outputs
  source : ∀ {id : String} {outputs : Outputs}, m.outputs.outputs.get? id = some outputs →
    ∃ (i : Nat) (step : Step), plan.steps[i]? = some step ∧ step.nodeId = id ∧
      step.action ≠ .delete ∧ m.coordinator.schedule.statusAt? i = some .succeeded
  applied : ∀ {i : Nat} {step : Step} {outcome : Outcome}, plan.steps[i]? = some step →
    m.coordinator.schedule.outcomes[i]? = some outcome → outcome.status = .succeeded →
    m.coordinator.schedule.prepare step = .ok outcome.applied
  job : ∀ j ∈ m.jobs, m.coordinator.schedule.prepare j.worker.step = .ok j.worker.attributes
  finished : ∀ j ∈ m.jobs, ∀ {outcome : Outcome}, j.stage = .finished outcome →
    outcome.status = .succeeded → outcome.applied = j.worker.attributes

variable {plan : Plan} {m m' : Moment} {event : Event}

/-- No output is recorded for a node before its step has succeeded. -/
theorem Informed.get?_eq_none (h : m.Informed plan) (hsingle : plan.Single) {step : Step}
    (hplanned : plan.steps[step.index]? = some step) (hdelete : step.action ≠ .delete)
    (hunfinished : m.coordinator.schedule.statusAt? step.index ≠ some .succeeded) :
    m.outputs.outputs.get? step.nodeId = none := by
  refine Option.eq_none_iff_forall_ne_some.2 fun outputs houtputs => hunfinished ?_
  obtain ⟨i, other, hother, hid, haction, hsucceeded⟩ := h.source houtputs
  rwa [hsingle hplanned hother hdelete haction hid.symm]

theorem Informed.extends (h : m.Informed plan) (hsingle : plan.Single)
    (hadvance : m.Advance plan m' event) : m.outputs.Extends m'.outputs := by
  cases hadvance with
  | same schedule =>
    rw [outputs, outputs, schedule]
    exact fun _ _ h => h
  | started w planned unfinished taken =>
    cases taken with
    | started worker calls prepared own keeps outputs =>
      rw [Moment.outputs, Moment.outputs, outputs]
      exact fun _ _ h => h
  | ended step outcome planned unfinished label source ended =>
    rw [outputs, outputs, ended.outputs]
    split
    · next hdone =>
      have hdelete : step.action ≠ .delete := label.action ▸ hdone.2
      refine OutputTable.extends_record ?_ _
      rw [label.nodeId]
      exact h.get?_eq_none hsingle planned hdelete unfinished
    · exact fun _ _ h => h

theorem Informed.start (plan : Plan) : Informed plan ⟨.start plan, []⟩ := by
  have hnone : ∀ {i : Nat} {outcome : Outcome}, (Schedule.start plan).outcomes[i]? = some outcome →
      outcome.status ≠ .succeeded := by
    intro i outcome houtcome hsucceeded
    obtain ⟨step, -, rfl⟩ := List.mem_map.1 (List.mem_of_getElem? houtcome)
    cases hsucceeded
  refine ⟨fun _ houtcome hsucceeded => absurd hsucceeded (hnone houtcome), fun houtputs => ?_,
    fun _ houtcome hsucceeded => absurd hsucceeded (hnone houtcome), ?_, ?_⟩
  · cases houtputs
  · simp
  · simp

/-- An output that is recorded comes from a step that had succeeded, or from the one that just has. -/
theorem Informed.source_advance (h : m.Informed plan) (hadvance : m.Advance plan m' event)
    {id : String} {recorded : Outputs} (houtputs : m'.outputs.outputs.get? id = some recorded) :
    ∃ (i : Nat) (step : Step), plan.steps[i]? = some step ∧ step.nodeId = id ∧
      step.action ≠ .delete ∧ m'.coordinator.schedule.statusAt? i = some .succeeded := by
  have hold : m.outputs.outputs.get? id = some recorded → ∃ (i : Nat) (step : Step),
      plan.steps[i]? = some step ∧ step.nodeId = id ∧ step.action ≠ .delete ∧
        m'.coordinator.schedule.statusAt? i = some .succeeded := by
    intro houtputs
    obtain ⟨i, step, hstep, hid, hdelete, hsucceeded⟩ := h.source houtputs
    exact ⟨i, step, hstep, hid, hdelete, hadvance.succeeded_mono hsucceeded⟩
  cases hadvance with
  | same schedule =>
    rw [Moment.outputs, schedule] at houtputs
    exact hold houtputs
  | started w planned unfinished taken =>
    cases taken with
    | started worker calls prepared own keeps same =>
      rw [Moment.outputs, same] at houtputs
      exact hold houtputs
  | ended step outcome planned unfinished label source ended =>
    rw [Moment.outputs, ended.outputs] at houtputs
    split at houtputs
    · next hdone =>
      rw [OutputTable.record, Table.get?_insert] at houtputs
      split at houtputs
      · next heq =>
        refine ⟨step.index, step, planned, by rw [heq, label.nodeId], label.action ▸ hdone.2, ?_⟩
        exact Schedule.statusAt?_eq_some_iff.2 ⟨outcome, ended.own, hdone.1⟩
      · exact hold houtputs
    · exact hold houtputs

/-- What a job that ends well reports as applied is what its worker was given. -/
theorem Informed.finished_advance (h : m.Informed plan) {j : Job} (horigin : Origin m m' event j)
    {outcome : Outcome} (hstage : j.stage = .finished outcome)
    (hsucceeded : outcome.status = .succeeded) : outcome.applied = j.worker.attributes := by
  have hprogress : ∀ {policy reply finished}, j.stage = .finished finished →
      j.worker.afterCall policy reply = .finished finished →
      outcome.applied = j.worker.attributes := by
    intro policy reply finished hstage' hprogress
    obtain rfl := Stage.finished.inj (hstage.symm.trans hstage')
    obtain ⟨-, hfailed | ⟨-, happlied, -⟩⟩ := Worker.afterCall_finished hprogress
    · exact nomatch hsucceeded.symm.trans hfailed
    · exact happlied
  cases horigin with
  | before job => exact h.finished j job hstage hsucceeded
  | started worker stage => exact nomatch stage.symm.trans hstage
  | moved earlier job step attributes stage =>
    rcases stage with stage | stage <;> exact nomatch stage.symm.trans hstage
  | answered _ _ _ _ _ _ _ _ _ stage _ _ _ progress => exact hprogress stage progress
  | refused _ _ _ _ _ _ stage _ progress => exact hprogress stage progress

/-- What an event brings about is known afterwards. -/
theorem Informed.advance (h : m.Informed plan) (hsingle : plan.Single)
    (hadvance : m.Advance plan m' event) (horigin : ∀ j ∈ m'.jobs, Origin m m' event j) :
    m'.Informed plan := by
  have hextends := h.extends hsingle hadvance
  -- Outputs are never taken back, so what could be prepared can be prepared later, to the same.
  have hprepare : ∀ {step : Step} {attributes : Attributes},
      m.coordinator.schedule.prepare step = .ok attributes →
      m'.coordinator.schedule.prepare step = .ok attributes :=
    Schedule.prepareAttributes_mono hextends
  refine ⟨?_, h.source_advance hadvance, ?_, ?_, fun j hj _ => h.finished_advance (horigin j hj)⟩
  · intro i step outcome hstep houtcome hsucceeded hdelete
    rcases hadvance.succeeded houtcome hsucceeded with hold | ⟨step', hstep', hlabel, -, hended⟩
    · exact hextends _ _ (h.recorded hstep hold hsucceeded hdelete)
    · obtain rfl := Option.some.inj (hstep'.symm.trans hstep)
      rw [outputs, hended.outputs, if_pos ⟨hsucceeded, hlabel.action ▸ hdelete⟩,
        OutputTable.record, Table.get?_insert, if_pos hlabel.nodeId.symm]
  · intro i step outcome hstep houtcome hsucceeded
    rcases hadvance.succeeded houtcome hsucceeded with hold | ⟨step', hstep', -, source, -⟩
    · exact hprepare (h.applied hstep hold hsucceeded)
    · obtain rfl := Option.some.inj (hstep'.symm.trans hstep)
      cases source with
      | settled event result =>
        cases result with
        | failed status => exact nomatch hsucceeded.symm.trans status
        | succeeded status calls prepared => exact hprepare prepared
      | collected j job worker stage =>
        subst worker
        rw [h.finished j job stage hsucceeded]
        exact hprepare (h.job j job)
  · intro j hj
    cases horigin j hj with
    | before job => exact hprepare (h.job j job)
    | started worker =>
      cases worker with
      | started worker calls prepared => exact hprepare prepared
    | moved earlier job step attributes =>
      rw [step, attributes]
      exact hprepare (h.job earlier job)
    | answered earlier job _ _ _ _ _ _ worker =>
      rw [worker]
      exact hprepare (h.job earlier job)
    | refused earlier job _ _ _ worker =>
      rw [worker]
      exact hprepare (h.job earlier job)

end Moment

theorem Execution.informed {settings : RunSettings} {plan : Plan} {trace : List Event} {m : Moment}
    (h : Execution settings plan trace m) (hsingle : plan.Single) : m.Informed plan :=
  h.advance_induction (P := fun _ m => m.Informed plan) (.start plan)
    fun _ hinformed hadvance horigin => hinformed.advance hsingle hadvance horigin

end Converge
