import Converge.Plan.Basic
import Converge.Proofs.Resource.Attribute
import Converge.Proofs.State.Lock

/-!
# Plans read back

A plan is read from its document step by step. What is written of a change does not tell a value that
is `null` from one that is not there, so of these nothing is left; everything else is read as it was
written.

Main statement: `Plan.ofJson_toJson`.
-/

namespace Converge

open Json

theorem Action.ofJson_toJson (action : Action) : ofJson action.toJson = .ok action := by
  cases action <;> rfl

/-! ## Changes -/

namespace Change

/-- A value that may be absent, as its document form has it: a `null` counts as absent. -/
def heard : Option Json → Option Json
  | some .null => none
  | value => value

/-- A change as its document form has it. -/
def withoutNulls (change : Change) : Change :=
  { change with old := heard change.old, new := heard change.new }

/-- Whether the values of a change can be written. -/
structure IsStorable (change : Change) : Prop where
  old : ∀ value ∈ change.old, value.IsStorable
  new : ∀ value ∈ change.new, value.IsStorable

theorem heard_of_ne {x : Option Json} (h : x ≠ some .null) : heard x = x := by
  rcases x with _ | _ | _ <;> first | rfl | exact absurd rfl h

theorem asOption_getD {x : Option Json} (h : ∀ value ∈ x, value.IsStorable) :
    asOption asValue (x.getD .null) = .ok (heard x) := by
  by_cases hnull : x = some .null
  · rw [hnull]
    rfl
  · rw [heard_of_ne hnull]
    have hread : asOption asValue (.ofOption id x) = .ok x :=
      asOption_ofOption (fun value hvalue => (h value hvalue).asValue)
        fun value hvalue heq => hnull (heq ▸ hvalue)
    rwa [ofOption, Option.map_id] at hread

theorem ofJson_toJson {change : Change} (h : change.IsStorable) :
    ofJson change.toJson = .ok change.withoutNulls := by
  refine bind_eq_ok rfl ?_
  refine bind_eq_ok (Decode.field?_of_mem (by simp) (asString_string change.name) (by simp)) ?_
  refine bind_eq_ok (Decode.fieldOr_of_mem (by simp) (asBool_bool change.deferred) (by simp)) ?_
  refine bind_eq_ok (Decode.fieldOr_of_mem (by simp)
    (asBool_bool change.forcesReplacement) (by simp)) ?_
  refine bind_eq_ok (Decode.optional_of_mem (by simp) (asOption_getD h.new) (by simp)) ?_
  exact bind_eq_ok (Decode.optional_of_mem (by simp) (asOption_getD h.old) (by simp)) rfl

/-- Whether one change is another, except for what becomes of values that are `null`. -/
structure SavedAs (change again : Change) : Prop where
  name : again.name = change.name
  old : change.old ≠ some .null → again.old = change.old
  new : change.new ≠ some .null → again.new = change.new
  deferred : again.deferred = change.deferred
  forcesReplacement : again.forcesReplacement = change.forcesReplacement

theorem savedAs_withoutNulls (change : Change) : change.SavedAs change.withoutNulls :=
  ⟨rfl, heard_of_ne, heard_of_ne, rfl, rfl⟩

end Change

/-! ## Steps -/

namespace Step

/-- A step as its document form has it. -/
def withoutNulls (step : Step) : Step :=
  { step with changes := step.changes.map Change.withoutNulls }

/-- Whether the values of a step can be written. -/
structure IsStorable (step : Step) : Prop where
  resolved : ∀ value ∈ step.resolved.values, value.IsStorable
  deferred : ∀ value ∈ step.deferred.values, value.IsStorable
  outputs : ∀ value ∈ step.outputs.values, value.IsStorable
  changes : ∀ change ∈ step.changes, change.IsStorable

variable {step : Step}

theorem nodup_names (step : Step) :
    ∀ fields, step.toJson = .object fields → (fields.map (·.1)).Nodup := by
  rintro _ ⟨⟩
  cases step.deferred.isEmpty <;> cases step.providerId <;> cases step.outputs.isEmpty <;>
    cases step.changes.isEmpty <;> simp

/-- The numbers of a step are its place and those of the steps it waits for. -/
theorem read_places (hlegible : step.toJson.IsLegible) :
    asUnsigned 64 (.natural step.index) = .ok step.index ∧
      asList (asUnsigned 64) (.array (step.dependsOn.map .natural)) = .ok step.dependsOn := by
  have hfields := isLegible_object.1 hlegible
  have hindex := hfields ("index", .natural step.index) (by simp)
  have hdependsOn := hfields ("depends_on", .array (step.dependsOn.map .natural)) (by simp)
  exact ⟨asUnsigned_natural_of_legible hindex, asList_array fun i hi =>
    asUnsigned_natural_of_legible (isLegible_array.1 hdependsOn _ (List.mem_map_of_mem hi))⟩

theorem ofJson_toJson (h : step.IsStorable) (hlegible : step.toJson.IsLegible) :
    ofJson step.toJson = .ok step.withoutNulls := by
  obtain ⟨hindex, hdependsOn⟩ := read_places hlegible
  have hdeferred : asTable AttributeValue.ofJson (.ofTable AttributeValue.toJson step.deferred) =
      .ok step.deferred :=
    asTable_ofTable fun value hvalue => (h.deferred value hvalue).ofJson_toJson
  have hchanges : asList Change.ofJson (.array (step.changes.map Change.toJson)) =
      .ok (step.changes.map Change.withoutNulls) :=
    asList_map fun change hchange => Change.ofJson_toJson (h.changes change hchange)
  have hunchanged : step.changes.isEmpty = true → step.changes.map Change.withoutNulls = [] := by
    simp +contextual
  have hnodup := step.nodup_names
  refine bind_eq_ok rfl ?_
  refine bind_eq_ok (Decode.field?_of_mem (hnodup _ rfl)
    step.action.ofJson_toJson (by simp)) ?_
  refine bind_eq_ok (Decode.fieldOr_of_skipped (hnodup _ rfl)
    hunchanged hchanges (by simp +contextual) (by simp +contextual)) ?_
  refine bind_eq_ok (Decode.fieldOr_of_skipped (hnodup _ rfl) Table.eq_empty_of_isEmpty hdeferred
    (by simp +contextual) (by simp +contextual)) ?_
  refine bind_eq_ok (Decode.fieldOr_of_mem (hnodup _ rfl)
    (asStrings_ofStrings step.dependencies) (by simp)) ?_
  refine bind_eq_ok (Decode.fieldOr_of_mem (hnodup _ rfl) hdependsOn (by simp)) ?_
  refine bind_eq_ok (Decode.field?_of_mem (hnodup _ rfl) hindex (by simp)) ?_
  refine bind_eq_ok (Decode.field?_of_mem (hnodup _ rfl) step.kind.ofJson_toJson (by simp)) ?_
  refine bind_eq_ok (Decode.fieldOr_of_mem (hnodup _ rfl) (asBool_bool step.managed) (by simp)) ?_
  refine bind_eq_ok (Decode.field?_of_mem (hnodup _ rfl) (asString_string step.nodeId) (by simp)) ?_
  refine bind_eq_ok (Decode.fieldOr_of_skipped (hnodup _ rfl) Table.eq_empty_of_isEmpty
    (asAttributes_ofAttributes h.outputs) (by simp +contextual) (by simp +contextual)) ?_
  refine bind_eq_ok (Decode.optional_of_option (hnodup _ rfl)
    (x := step.providerId) (fun id _ => asString_string id) (fun _ _ => nofun)
    (fun id hid => by simpa using hid) (by simp +contextual)) ?_
  refine bind_eq_ok (Decode.fieldOr_of_mem (hnodup _ rfl) (asString_string step.reason) (by simp)) ?_
  refine bind_eq_ok (Decode.fieldOr_of_mem (hnodup _ rfl)
    step.removalPolicy.ofJson_toJson (by simp)) ?_
  exact bind_eq_ok (Decode.fieldOr_of_mem (hnodup _ rfl)
    (asAttributes_ofAttributes h.resolved) (by simp)) rfl

theorem withoutNulls_eq_self (h : step.changes = []) : step.withoutNulls = step := by
  cases step
  cases h
  rfl

/-- Whether one step is another, except for what becomes of changes from or to `null`. -/
structure SavedAs (step again : Step) : Prop where
  changes : List.Forall₂ Change.SavedAs step.changes again.changes
  rest : again = { step with changes := again.changes }

theorem savedAs_withoutNulls (step : Step) : step.SavedAs step.withoutNulls where
  changes := List.forall₂_map_right_iff.2
    (List.forall₂_same.2 fun change _ => change.savedAs_withoutNulls)
  rest := rfl

end Step

/-! ## Plans -/

namespace Plan

/-- A plan as its document form has it. -/
def withoutNulls (plan : Plan) : Plan :=
  { plan with steps := plan.steps.map Step.withoutNulls }

/-- Whether the values of all steps nest at most `n` levels. -/
def NestsWithin (plan : Plan) (n : Nat) : Prop :=
  ∀ step ∈ plan.steps, (∀ value ∈ step.resolved.values, value.nesting ≤ n) ∧
    (∀ value ∈ step.deferred.values, value.toJson.nesting ≤ n) ∧
    (∀ value ∈ step.outputs.values, value.nesting ≤ n) ∧
    ∀ change ∈ step.changes, (∀ value ∈ change.old, value.nesting ≤ n) ∧
      ∀ value ∈ change.new, value.nesting ≤ n

variable {plan : Plan}

/-- What is read of a plan is what is read of its steps. -/
theorem ofJson_of_steps {steps : List Step} (hmoment : plan.createdAt.Legible)
    (hread : asList Step.ofJson (.array (plan.steps.map Step.toJson)) = .ok steps) :
    ofJson plan.toJson = .ok { plan with steps } := by
  refine bind_eq_ok rfl ?_
  refine bind_eq_ok (Decode.field?_of_mem (by simp) (asString_string plan.configHash) (by simp)) ?_
  refine bind_eq_ok (Decode.field?_of_mem (by simp) (Instant.ofJson_toJson hmoment) (by simp)) ?_
  exact bind_eq_ok (Decode.field?_of_mem (by simp) hread (by simp)) rfl

theorem ofJson_toJson (hsteps : ∀ step ∈ plan.steps, step.IsStorable)
    (hmoment : plan.createdAt.Legible) (hlegible : plan.toJson.IsLegible) :
    ofJson plan.toJson = .ok plan.withoutNulls := by
  have hitems := isLegible_array.1
    (isLegible_object.1 hlegible ("steps", .array (plan.steps.map Step.toJson)) (by simp))
  exact ofJson_of_steps hmoment (asList_map fun step hstep =>
    Step.ofJson_toJson (hsteps step hstep) (hitems _ (List.mem_map_of_mem hstep)))

theorem nesting_toJson_le {n : Nat} (h : plan.NestsWithin n) : plan.toJson.nesting ≤ n + 5 := by
  have hchange : ∀ step ∈ plan.steps, ∀ change ∈ step.changes, change.toJson.nesting ≤ n + 1 := by
    intro step hstep change hchange
    obtain ⟨-, -, -, hchanges⟩ := h step hstep
    obtain ⟨hold, hnew⟩ := hchanges change hchange
    refine nesting_object_le.2 ?_
    cases hold' : change.old <;> cases hnew' : change.new <;> simp_all
  have hstep : ∀ step ∈ plan.steps, step.toJson.nesting ≤ n + 3 := by
    intro step hstep
    obtain ⟨hresolved, hdeferred, houtputs, -⟩ := h step hstep
    have hdepends : (array (step.dependsOn.map .natural)).nesting ≤ n + 2 :=
      nesting_array_le.2 (by simp)
    have hchanges : (array (step.changes.map Change.toJson)).nesting ≤ n + 2 :=
      nesting_array_le.2 (List.forall_mem_map.2 (hchange step hstep))
    have hresolved := Nat.le_succ_of_le (nesting_ofAttributes_le.2 hresolved)
    have houtputs := Nat.le_succ_of_le (nesting_ofAttributes_le.2 houtputs)
    have hdeferred := Nat.le_succ_of_le (nesting_ofTable_le.2 hdeferred)
    refine nesting_object_le.2 ?_
    simp only [List.forall_mem_append, List.forall_mem_cons]
    split_ifs <;> simp [Kind.toJson, Action.toJson, RemovalPolicy.toJson, nesting_ofStrings_le, *]
  refine nesting_object_le.2 ?_
  simpa [Instant.toJson, nesting_array_le] using hstep

/-- Whether one plan is another in every field of every step, except for what becomes of changes from
or to `null`. -/
structure SavedAs (plan again : Plan) : Prop where
  createdAt : again.createdAt = plan.createdAt
  configHash : again.configHash = plan.configHash
  steps : List.Forall₂ Step.SavedAs plan.steps again.steps

theorem savedAs_withoutNulls (plan : Plan) : plan.SavedAs plan.withoutNulls where
  createdAt := rfl
  configHash := rfl
  steps := List.forall₂_map_right_iff.2
    (List.forall₂_same.2 fun step _ => step.savedAs_withoutNulls)

/-- A plan is read from its text, up to changes from or to `null`. -/
theorem read?_pretty (hsteps : ∀ step ∈ plan.steps, step.IsStorable)
    (hmoment : plan.createdAt.Legible) (hdepth : plan.NestsWithin 100)
    (hlegible : plan.toJson.IsLegible) :
    (Json.read? plan.toJson.pretty).map ofJson = some (.ok plan.withoutNulls) := by
  rw [Json.read?_pretty hlegible (Nat.le_trans (nesting_toJson_le hdepth) (by decide)),
    Option.map_some, ofJson_toJson hsteps hmoment hlegible]

end Plan

end Converge
