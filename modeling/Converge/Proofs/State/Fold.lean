import Converge.Proofs.State.Records
import Converge.State.Fold

/-!
# What a report leaves in the state

A step changes the record of its own node only. So the record of a node after an apply is what its
last step that has succeeded made of it.

Main statements: `State.get?_applyReport_last` and `State.get?_applyReport_of_ne`.
-/

namespace Converge.State

variable {s : State} {plan : Plan} {step : Step} {outcome : Outcome} {now : Instant} {id : String}

/-! ## One step -/

theorem get?_setRecord_of_ne {r : Record} (h : r.id ≠ id) :
    (s.setRecord r now).get? id = s.get? id := by
  rw [setRecord]
  split <;> exact (Table.get?_insert ..).trans (if_neg h.symm)

theorem get?_setRecord_self {r : Record} :
    ∃ sequence, (s.setRecord r now).get? r.id = some { r with sequence } := by
  rw [setRecord]
  split
  · exact ⟨_, (Table.get?_insert ..).trans (if_pos rfl)⟩
  · exact ⟨_, (Table.get?_insert ..).trans (if_pos rfl)⟩

theorem get?_modifyRecord {other : String} {f : Record → Record} :
    (s.modifyRecord other f).get? id = if id = other then (s.get? id).map f else s.get? id := by
  rw [modifyRecord]
  split
  · next r hr =>
    rw [get?, Table.get?_insert]
    split
    · next heq => rw [heq, hr]; rfl
    · rfl
  · next hnone =>
    split
    · next heq => rw [heq, hnone]; rfl
    · rfl

theorem get?_remove {other : String} :
    (s.remove other now).get? id = if id = other then none else s.get? id := by
  rw [remove]
  split
  · exact Table.get?_erase ..
  · next hnot =>
    split
    · next heq =>
      rw [heq]
      exact Table.contains_eq_false_iff.1 (Bool.eq_false_iff.2 hnot)
    · rfl

/-- A step leaves the records of other nodes alone. -/
theorem get?_recordStep_of_ne (h : step.nodeId ≠ id) :
    (s.recordStep step outcome now).get? id = s.get? id := by
  rw [recordStep]
  split
  · rw [get?_remove, if_neg h.symm]
  · exact get?_setRecord_of_ne h
  · rw [get?_modifyRecord, if_neg h.symm]
  · split
    · rw [get?_modifyRecord, if_neg h.symm]
    · rw [get?_remove, if_neg h.symm]

theorem get?_recordStep_delete (h : step.action = .delete) :
    (s.recordStep step outcome now).get? step.nodeId = none := by
  simp only [recordStep, h]
  rw [get?_remove, if_pos rfl]

theorem get?_recordStep_create (h : step.action = .create) :
    ∃ sequence, (s.recordStep step outcome now).get? step.nodeId =
      some { createdRecord step outcome now with sequence } := by
  simp only [recordStep, h]
  exact get?_setRecord_self

theorem get?_recordStep_update (h : step.action = .update) :
    (s.recordStep step outcome now).get? step.nodeId = (s.get? step.nodeId).map fun r =>
      { r with
        attributes := outcome.applied
        outputs := outcome.outputs
        dependencies := step.dependencies
        removalPolicy := step.removalPolicy
        updatedAt := now } := by
  simp only [recordStep, h]
  rw [get?_modifyRecord, if_pos rfl]

theorem get?_recordStep_noop (h : step.action = .noop) :
    (s.recordStep step outcome now).get? step.nodeId =
      if step.managed then (s.get? step.nodeId).map fun r =>
        { r with dependencies := step.dependencies, removalPolicy := step.removalPolicy }
      else none := by
  simp only [recordStep, h]
  split
  · rw [get?_modifyRecord, if_pos rfl]
  · rw [get?_remove, if_pos rfl]

theorem KeysMatch.recordStep (h : s.KeysMatch) : (s.recordStep step outcome now).KeysMatch := by
  intro id r hr
  by_cases hid : step.nodeId = id
  · subst hid
    cases haction : step.action with
    | create =>
      obtain ⟨sequence, hcreated⟩ : ∃ sequence, (s.recordStep step outcome now).get? step.nodeId =
          some { createdRecord step outcome now with sequence } := get?_recordStep_create haction
      obtain rfl := Option.some.inj (hcreated.symm.trans hr)
      rfl
    | update =>
      rw [get?_recordStep_update haction] at hr
      obtain ⟨held, hheld, rfl⟩ := Option.map_eq_some_iff.1 hr
      exact (h hheld : held.id = step.nodeId)
    | delete =>
      rw [get?_recordStep_delete haction] at hr
      cases hr
    | noop =>
      rw [get?_recordStep_noop haction] at hr
      split at hr
      · obtain ⟨held, hheld, rfl⟩ := Option.map_eq_some_iff.1 hr
        exact (h hheld : held.id = step.nodeId)
      · cases hr
  · rw [get?_recordStep_of_ne hid] at hr
    exact h hr

/-! ## A report -/

theorem recordOutcome_of_succeeded (hstep : plan.steps[outcome.index]? = some step)
    (hsucceeded : outcome.status = .succeeded) :
    recordOutcome plan now s outcome = s.recordStep step outcome now := by
  rw [recordOutcome, if_pos hsucceeded, hstep]

/-- A fold of outcomes keeps what each of them keeps. -/
theorem foldl_recordOutcome {P : State → Prop} {outcomes : List Outcome} (hs : P s)
    (h : ∀ outcome ∈ outcomes, outcome.status = .succeeded →
      ∀ step, plan.steps[outcome.index]? = some step →
        ∀ s, P s → P (s.recordStep step outcome now)) :
    P (outcomes.foldl (recordOutcome plan now) s) := by
  refine List.foldlRecOn outcomes _ hs fun s hs outcome houtcome => ?_
  rw [recordOutcome]
  split
  · next hsucceeded =>
    split
    · next step hstep => exact h outcome houtcome hsucceeded step hstep s hs
    · exact hs
  · exact hs

/-- The record under an id stays if no outcome is about it. -/
theorem get?_foldl_of_ne {outcomes : List Outcome}
    (h : ∀ outcome ∈ outcomes, outcome.status = .succeeded →
      ∀ step, plan.steps[outcome.index]? = some step → step.nodeId ≠ id) :
    (outcomes.foldl (recordOutcome plan now) s).get? id = s.get? id :=
  foldl_recordOutcome (P := fun s' => s'.get? id = s.get? id) rfl
    fun outcome houtcome hsucceeded step hstep _ hs =>
      (get?_recordStep_of_ne (h outcome houtcome hsucceeded step hstep)).trans hs

theorem get?_applyReport {report : Report} {operation : Operation} :
    (s.applyReport plan report operation now).get? id =
      (report.steps.foldl (recordOutcome plan now) s).get? id := by
  simp only [applyReport]
  split <;> rfl

theorem KeysMatch.applyReport (h : s.KeysMatch) (report : Report) (operation : Operation) :
    (s.applyReport plan report operation now).KeysMatch := by
  intro id r hr
  rw [get?_applyReport] at hr
  exact foldl_recordOutcome (P := KeysMatch) h (fun _ _ _ _ _ _ hs => hs.recordStep) hr

section applyReport

variable {report : Report} {operation : Operation}

theorem get?_applyReport_of_ne
    (hindex : ∀ {k : Nat} {outcome : Outcome}, report.steps[k]? = some outcome → outcome.index = k)
    (h : ∀ {k : Nat} {outcome : Outcome} {step : Step}, report.steps[k]? = some outcome →
      outcome.status = .succeeded → plan.steps[k]? = some step → step.nodeId ≠ id) :
    (s.applyReport plan report operation now).get? id = s.get? id := by
  rw [get?_applyReport]
  refine get?_foldl_of_ne fun outcome houtcome hsucceeded step hstep => ?_
  obtain ⟨k, hk⟩ := List.mem_iff_getElem?.1 houtcome
  rw [hindex hk] at hstep
  exact h hk hsucceeded hstep

/-- The record of a node is what the last of its steps that has succeeded made of it. -/
theorem get?_applyReport_last
    (hindex : ∀ {k : Nat} {outcome : Outcome}, report.steps[k]? = some outcome → outcome.index = k)
    {k : Nat} (hk : report.steps[k]? = some outcome) (hsucceeded : outcome.status = .succeeded)
    (hstep : plan.steps[k]? = some step)
    (hlast : ∀ {j : Nat} {other : Step} {later : Outcome}, k < j → plan.steps[j]? = some other →
      report.steps[j]? = some later → later.status = .succeeded → other.nodeId ≠ step.nodeId) :
    (s.applyReport plan report operation now).get? step.nodeId =
      (((report.steps.take k).foldl (recordOutcome plan now) s).recordStep step outcome now).get?
        step.nodeId := by
  have hsplit : report.steps = report.steps.take k ++ outcome :: report.steps.drop (k + 1) := by
    obtain ⟨hlt, heq⟩ := List.getElem?_eq_some_iff.1 hk
    rw [← heq, List.getElem_cons_drop, List.take_append_drop]
  have hfold := congrArg (List.foldl (recordOutcome plan now) s) hsplit
  rw [List.foldl_append, List.foldl_cons,
    recordOutcome_of_succeeded ((hindex hk).symm ▸ hstep) hsucceeded] at hfold
  rw [get?_applyReport, hfold]
  refine get?_foldl_of_ne fun later hlater hdone other hother => ?_
  obtain ⟨j, hj⟩ := List.mem_iff_getElem?.1 hlater
  rw [List.getElem?_drop] at hj
  rw [hindex hj] at hother
  exact hlast (by omega) hother hj hdone

end applyReport

end Converge.State
