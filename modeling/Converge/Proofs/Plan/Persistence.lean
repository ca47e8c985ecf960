import Converge.Proofs.Graph.Rearrangement
import Converge.Proofs.Plan.Document
import Converge.Proofs.Plan.Synthesis
import Converge.Proofs.Stack.Check
import Converge.Proofs.Stack.Document
import Converge.Proofs.State.Document

/-!
# Saved plans

A plan that is made from a declared stack and a recorded state, both of which have been read from
documents, is read from its own document. All that its steps hold can be written: what is resolved
is declared data with recorded outputs in it, what is deferred is declared, and the rest is
recorded. The one thing that documents do not vouch for are the references that exposed ports bring:
they are made of ids as they stand, and an id that cannot stand in a reference is read differently.

Main statement: `Plan.read_saved`.
-/

namespace Converge

open Json

/-! ## Substitution -/

namespace AttributeValue

variable {f : Reference → Option Json}

theorem forall₂_substituteItems {items : List AttributeValue} {values : List Json}
    (h : substituteItems f items = some values) :
    List.Forall₂ (fun item value => item.substitute f = some value) items values := by
  induction items generalizing values with
  | nil =>
    obtain rfl := Option.some.inj h
    exact .nil
  | cons item rest ih =>
    obtain ⟨v, vs, hv, hvs, rfl⟩ := substituteItems_cons_eq_some_iff.1 h
    exact .cons hv (ih hvs)

theorem forall₂_substituteEntries {entries : List (String × AttributeValue)}
    {fields : List (String × Json)} (h : substituteEntries f entries = some fields) :
    List.Forall₂ (fun entry field => entry.1 = field.1 ∧ entry.2.substitute f = some field.2)
      entries fields := by
  induction entries generalizing fields with
  | nil =>
    obtain rfl := Option.some.inj h
    exact .nil
  | cons entry rest ih =>
    obtain ⟨v, vs, hv, hvs, rfl⟩ := substituteEntries_cons_eq_some_iff.1 h
    exact .cons ⟨rfl, hv⟩ (ih hvs)

/-- Storable data in the place of references makes storable data. -/
theorem IsStorable.substitute {a : AttributeValue} (h : a.IsStorable)
    (hf : ∀ r value, f r = some value → value.IsStorable) {known : Json}
    (hknown : a.substitute f = some known) : known.IsStorable := by
  induction h generalizing known with
  | null =>
    obtain rfl := Option.some.inj hknown
    exact .null
  | bool value =>
    obtain rfl := Option.some.inj hknown
    exact .bool value
  | number finite =>
    obtain rfl := Option.some.inj hknown
    exact .number finite
  | text value =>
    obtain rfl := Option.some.inj hknown
    exact .string value
  | list all ih =>
    obtain ⟨values, hvalues, rfl⟩ := Option.map_eq_some_iff.1 hknown
    refine .array fun value hvalue => ?_
    obtain ⟨item, hitem, hvalue⟩ := exists_of_forall₂ (forall₂_substituteItems hvalues) value hvalue
    exact ih item hitem hvalue
  | map sorted all unmarked ih =>
    obtain ⟨fields, hfields, rfl⟩ := Option.map_eq_some_iff.1 hknown
    have hentries := forall₂_substituteEntries hfields
    refine .object (pairwise_of_names (hentries.imp fun _ _ h => h.1) sorted) fun field hfield => ?_
    obtain ⟨entry, hentry, -, hvalue⟩ := exists_of_forall₂ hentries field hfield
    exact ih entry hentry hvalue
  | @reference target plain => exact hf target known hknown

end AttributeValue

/-! ## Decisions -/

/-- Whether the values of a node can be written. -/
structure Node.IsStorable (n : Node) : Prop where
  attributes : ∀ value ∈ n.attributes.values, value.IsStorable
  outputs : ∀ {providerId outputs}, n.lifecycle = .existing providerId outputs →
    ∀ value ∈ outputs.values, value.IsStorable

/-- Whether all outputs that later decisions know of can be written. -/
def Verdicts.IsStorable (verdicts : Verdicts) : Prop :=
  ∀ verdict ∈ verdicts.values, ∀ value ∈ verdict.outputs.values, value.IsStorable

theorem Verdicts.isStorable_empty : Verdicts.IsStorable .empty := List.forall_mem_nil _

theorem Verdicts.IsStorable.lookupIn {verdicts : Verdicts} (h : verdicts.IsStorable)
    {target : Reference} {value : Json}
    (hknown : (Verdict.lookupIn verdicts target).known? = some value) : value.IsStorable := by
  unfold Verdict.lookupIn at hknown
  split at hknown
  · next verdict hverdict =>
    refine h verdict (Table.mem_values.2 ⟨_, hverdict⟩) value (Table.mem_values.2 ⟨target.output, ?_⟩)
    unfold Verdict.lookup at hknown
    split at hknown
    · cases hknown
    · cases hknown
    · split at hknown
      · next hvalue =>
        split at hknown
        · cases hknown
        · exact hvalue.trans hknown
      · cases hknown
    · split at hknown
      · next hvalue => exact hvalue.trans hknown
      · cases hknown
    · split at hknown
      · next hvalue => exact hvalue.trans hknown
      · cases hknown
  · cases hknown

namespace NodePlan

/-- Whether the values of a decision can be written. -/
structure IsStorable (p : NodePlan) : Prop where
  node : p.node.IsStorable
  resolved : ∀ value ∈ p.resolved.values, value.IsStorable
  deferred : ∀ value ∈ p.deferred.values, value.IsStorable
  changes : ∀ change ∈ p.changes, change.IsStorable
  prior : ∀ r ∈ p.prior, r.HoldsStorable

variable {node : Node} {verdicts : Verdicts} {resolved : Attributes} {deferred : Declared}

theorem Parted.isStorable (hnode : node.IsStorable) (hverdicts : verdicts.IsStorable)
    (h : Parted (Verdict.lookupIn verdicts) node.attributes resolved deferred) :
    (∀ value ∈ resolved.values, value.IsStorable) ∧
      ∀ value ∈ deferred.values, value.IsStorable := by
  constructor
  · intro known hknown
    obtain ⟨name, hname⟩ := Table.mem_values.1 hknown
    obtain ⟨value, hvalue, hresolved⟩ := h.resolved.1 hname
    exact (hnode.attributes value (Table.mem_values.2 ⟨name, hvalue⟩)).substitute
      (fun _ _ hlookup => hverdicts.lookupIn hlookup)
      (AttributeValue.resolveWith_eq_resolved_iff value |>.1 hresolved)
  · intro value hvalue
    obtain ⟨name, hname⟩ := Table.mem_values.1 hvalue
    exact hnode.attributes value (Table.mem_values.2 ⟨name, (h.deferred.1 hname).1⟩)

theorem compare_changes {r : Record} {change : Change}
    (h : change ∈ (compare node r resolved deferred).2.1) :
    change ∈ (Patch.between node.kind resolved deferred r.attributes).changes := by
  unfold compare at h
  split at h
  · cases h
  · dsimp only at h
    split at h
    · cases h
    · exact h
    · exact h

theorem isStorable_of_mem_changes {kind : Kind} {prior : Attributes} {change : Change}
    (hresolved : ∀ value ∈ resolved.values, value.IsStorable)
    (hprior : ∀ value ∈ prior.values, value.IsStorable)
    (hchange : change ∈ (Patch.between kind resolved deferred prior).changes) :
    change.IsStorable := by
  have hnew : ∀ {name}, ∀ value ∈ resolved.get? name, value.IsStorable := fun value hvalue =>
    hresolved value (Table.mem_values.2 ⟨_, hvalue⟩)
  have hold : ∀ {name}, ∀ value ∈ prior.get? name, value.IsStorable := fun value hvalue =>
    hprior value (Table.mem_values.2 ⟨_, hvalue⟩)
  obtain ⟨name, -, hchange⟩ := List.mem_filterMap.1 hchange
  simp only [Patch.change?] at hchange
  split at hchange
  · obtain rfl := Option.some.inj hchange
    exact ⟨hold, fun value hnone => absurd hnone (Option.not_mem_none value)⟩
  · split at hchange
    · cases hchange
    · obtain rfl := Option.some.inj hchange
      exact ⟨hold, hnew⟩

theorem isStorable_of_decide {prior : Option Record} {own : NodePlan} (hnode : node.IsStorable)
    (hprior : ∀ r ∈ prior, r.HoldsStorable) (hverdicts : verdicts.IsStorable)
    (h : decide node prior verdicts = .ok own) : own.IsStorable := by
  rw [decide] at h
  split at h
  · obtain rfl := Except.ok.inj h
    exact ⟨hnode, List.forall_mem_nil _, List.forall_mem_nil _, List.forall_mem_nil _, hprior⟩
  · obtain ⟨⟨resolved, deferred⟩, hparts, h⟩ := bind_eq_ok_iff.1 h
    obtain ⟨hresolved, hdeferred⟩ :=
      (resolveAttributes_eq_ok_iff.1 hparts).isStorable hnode hverdicts
    cases prior with
    | none =>
      obtain rfl := pure_eq_ok_iff.1 h
      exact ⟨hnode, hresolved, hdeferred, List.forall_mem_nil _, hprior⟩
    | some recorded =>
      have hown : (pure {
          node
          decision := (compare node recorded resolved deferred).1
          resolved, deferred
          changes := (compare node recorded resolved deferred).2.1
          reason := (compare node recorded resolved deferred).2.2
          prior := some recorded } : Except PlanError NodePlan) = .ok own := h
      obtain rfl := pure_eq_ok_iff.1 hown
      refine ⟨hnode, hresolved, hdeferred, fun change hchange => ?_, hprior⟩
      exact isStorable_of_mem_changes hresolved (hprior recorded rfl).attributes
        (compare_changes hchange)

theorem IsStorable.force {p : NodePlan} (h : p.IsStorable) (reason : Option String) :
    (p.force reason).IsStorable := by
  unfold NodePlan.force
  split <;> exact ⟨h.node, h.resolved, h.deferred, h.changes, h.prior⟩

theorem IsStorable.verdict {p : NodePlan} (h : p.IsStorable) :
    ∀ value ∈ p.verdict.outputs.values, value.IsStorable := by
  unfold NodePlan.verdict
  split
  · next hlifecycle => exact h.node.outputs hlifecycle
  · next r _ hprior => exact (h.prior r hprior).outputs
  · next r _ hprior => exact (h.prior r hprior).outputs
  · exact List.forall_mem_nil _

theorem isStorable_of_decideAll {records : Table Record} {forced : Table String}
    {order : List Node} {plans : List NodePlan} (hnodes : ∀ node ∈ order, node.IsStorable)
    (hrecords : ∀ r ∈ records.values, r.HoldsStorable) (hverdicts : verdicts.IsStorable)
    (h : decideAll records forced verdicts order = .ok plans) : ∀ p ∈ plans, p.IsStorable := by
  induction order generalizing verdicts plans with
  | nil =>
    obtain rfl := Except.ok.inj h
    exact List.forall_mem_nil _
  | cons node rest ih =>
    obtain ⟨hnode, hrest⟩ := List.forall_mem_cons.1 hnodes
    obtain ⟨own, hown, h⟩ := bind_eq_ok_iff.1 h
    obtain ⟨others, hothers, h⟩ := bind_eq_ok_iff.1 h
    obtain rfl := pure_eq_ok_iff.1 h
    have hprior : ∀ r ∈ records.get? node.id, r.HoldsStorable := fun r hr =>
      hrecords r (Table.mem_values.2 ⟨node.id, hr⟩)
    have hforced := (isStorable_of_decide hnode hprior hverdicts hown).force (forced.get? node.id)
    refine List.forall_mem_cons.2 ⟨hforced, ih hrest ?_ hothers⟩
    intro verdict hverdict
    obtain ⟨name, hname⟩ := Table.mem_values.1 hverdict
    rw [Table.get?_insert] at hname
    split at hname
    · obtain rfl := Option.some.inj hname
      exact hforced.verdict
    · exact hverdicts verdict (Table.mem_values.2 ⟨name, hname⟩)

end NodePlan

/-! ## Steps -/

theorem Removal.isStorable_of_mem_stepsFor {s : State} {doomed : Doomed} {g : Graph}
    {ids : List String} {placed : Table Nat} {next : Nat} {step : Step}
    (hs : ∀ r ∈ s.resources.values, r.HoldsStorable)
    (hstep : step ∈ stepsFor s doomed g placed next ids) : step.IsStorable ∧ step.changes = [] := by
  induction ids generalizing placed next with
  | nil => cases hstep
  | cons id rest ih =>
    rw [stepsFor] at hstep
    split at hstep
    · exact ih hstep
    · next r hr =>
      rcases List.mem_cons.1 hstep with rfl | hstep
      · exact ⟨⟨List.forall_mem_nil _, List.forall_mem_nil _,
          (hs r (Table.mem_values.2 ⟨id, hr⟩)).outputs, List.forall_mem_nil _⟩, rfl⟩
      · exact ih hstep

theorem Removal.isStorable_of_mem_steps {s : State} {doomed : Doomed} {deletions : List Step}
    (hs : ∀ r ∈ s.resources.values, r.HoldsStorable) (h : steps s doomed = .ok deletions) :
    ∀ step ∈ deletions, step.IsStorable ∧ step.changes = [] := by
  obtain ⟨g, -, h⟩ := bind_eq_ok_iff.1 h
  obtain ⟨order, -, h⟩ := bind_eq_ok_iff.1 h
  obtain rfl := pure_eq_ok_iff.1 h
  exact fun step hstep => isStorable_of_mem_stepsFor hs hstep

namespace Synthesis

variable {g : Graph} {prior : Option State} {deleted placed : Table Nat}

theorem isStorable_stepFor {index : Nat} {p : NodePlan} (h : p.IsStorable) :
    (stepFor g deleted placed index p).IsStorable where
  resolved := stepFor_resolved ▸ h.resolved
  deferred := stepFor_deferred ▸ h.deferred
  outputs := by
    cases hlifecycle : p.node.lifecycle with
    | existing providerId outputs =>
      rw [stepFor_outputs_existing hlifecycle]
      exact h.node.outputs hlifecycle
    | managed =>
      simp only [stepFor, hlifecycle]
      cases hprior : p.prior with
      | none => cases p.decision <;> exact List.forall_mem_nil _
      | some r =>
        have houtputs := (h.prior r hprior).outputs
        cases p.decision <;> first | exact houtputs | exact List.forall_mem_nil _
  changes := stepFor_changes ▸ h.changes

theorem isStorable_of_mem_stepsFor {next : Nat} {plans : List NodePlan}
    (h : ∀ p ∈ plans, p.IsStorable) :
    ∀ step ∈ stepsFor g deleted placed next plans, step.IsStorable := by
  induction plans generalizing placed next with
  | nil => exact List.forall_mem_nil _
  | cons p rest ih =>
    obtain ⟨hp, hrest⟩ := List.forall_mem_cons.1 h
    exact List.forall_mem_cons.2 ⟨isStorable_stepFor hp, ih hrest⟩

/-- What the steps of a plan hold can be written if what is declared and recorded can. -/
theorem isStorable_of_synthesize (hg : g.Linked) (hnodes : ∀ node ∈ g.nodes, node.IsStorable)
    (hprior : ∀ s ∈ prior, ∀ r ∈ s.resources.values, r.HoldsStorable) {now : Instant} {plan : Plan}
    (h : Plan.synthesize g prior now = .ok plan) : ∀ step ∈ plan.steps, step.IsStorable := by
  obtain ⟨order, settlement, deletions, hsorted, houtcome, hremoval, rfl⟩ :=
    synthesize_eq_ok_iff.1 h
  obtain ⟨order', hsorted', hperm, -⟩ := hg.sortedNodes
  obtain rfl : order = order' := Except.ok.inj (hsorted.symm.trans hsorted')
  obtain ⟨fuel, hsettled⟩ := outcome_eq_ok_iff.1 houtcome
  obtain ⟨forced, further, -, hlast, -⟩ :=
    settle_spec (P := fun _ => True) (fun _ _ => trivial) trivial hsettled
  obtain ⟨plans, hplans, rfl, -⟩ := round_eq_ok_iff.1 hlast
  have hrecords : ∀ r ∈ (recordsOf prior).values, r.HoldsStorable := by
    cases prior with
    | none => exact List.forall_mem_nil _
    | some s => exact hprior s rfl
  have hplanned := NodePlan.isStorable_of_decideAll
    (fun node hnode => hnodes node (hperm.mem_iff.1 hnode)) hrecords Verdicts.isStorable_empty hplans
  refine List.forall_mem_append.2 ⟨?_, isStorable_of_mem_stepsFor hplanned⟩
  rcases hremoval with ⟨-, rfl⟩ | ⟨s, rfl, hremoval⟩
  · exact List.forall_mem_nil _
  · exact fun step hstep => (Removal.isStorable_of_mem_steps (hprior s rfl) hremoval step hstep).1

end Synthesis

/-! ## Declared nodes -/

theorem Node.isStorable_of_ofList {n : Node} {entries : List (String × AttributeValue)}
    (hattributes : n.attributes = .ofList entries) (hlifecycle : n.lifecycle = .managed)
    (h : ∀ entry ∈ entries, entry.2.IsStorable) : n.IsStorable where
  attributes := hattributes ▸ Table.forall_mem_values_ofList h
  outputs := fun hexisting => nomatch hlifecycle.symm.trans hexisting

namespace Exposure

open AttributeValue (isStorable_natural)

variable {exposure : Exposure} {service : String}

theorem isName_targetGroupId (n : Nat) : Reference.IsName (PortWiring.targetGroupId n) := by
  have htext : (PortWiring.targetGroupId n).toList = "TargetGroup".toList ++ Nat.toDigits 10 n := by
    rw [PortWiring.targetGroupId, ← Nat.toList_repr, ← String.toList_append]
    rfl
  have hletters : ∀ c ∈ "TargetGroup".toList, (c.isAlphanum || c == '-' || c == '_') = true :=
    List.all_eq_true.1 (by decide)
  refine .of_forall (by simp [htext]) fun c hc => not_isBlank_of_isAlphanum ?_
  rcases List.mem_append.1 (htext ▸ hc) with hc | hc
  · exact hletters c hc
  · have hdigit := Nat.isDigit_of_mem_toDigits (by decide) (by decide) hc
    simp [Char.isAlphanum, hdigit]

theorem isStorable_output {id : String} (h : Reference.IsName id) {name : String}
    (hname : Reference.IsSide name) : (AttributeValue.output id name).IsStorable :=
  .reference ⟨h, hname⟩

/-- The nodes of ports can be written if the ids they refer to can stand in references. -/
theorem isStorable_of_mem_portNodes
    (hnames : ∀ id ∈ service :: exposure.peers, Reference.IsName id) {node : Node}
    (hnode : node ∈ exposure.portNodes service) : node.IsStorable := by
  have hid : Reference.IsSide "id" := ⟨rfl, by decide +kernel⟩
  have harn : Reference.IsSide "arn" := ⟨rfl, by decide +kernel⟩
  obtain ⟨hservice, hnetwork, hgroup, hbalancer⟩ :
      Reference.IsName service ∧ Reference.IsName exposure.network ∧
        Reference.IsName exposure.securityGroup ∧ Reference.IsName exposure.loadBalancer := by
    simpa [peers] using hnames
  obtain ⟨port, -, hnode⟩ := List.mem_flatMap.1 hnode
  simp only [wirePort, PortWiring.nodes, List.mem_cons, List.not_mem_nil, or_false] at hnode
  rcases hnode with rfl | rfl | rfl
  · have hcheckNames : ["healthy_http_codes", "interval_secs", "path", "port", "protocol",
        "timeout_secs"].Pairwise (· < ·) := by decide
    have htargetNames : ["container", "port", "service"].Pairwise (· < ·) := by decide
    have hcheck : ∀ check, (PortWiring.healthCheck port.number check).IsStorable := fun check => by
      refine .map (List.pairwise_map.1 hcheckNames) ?_ rfl
      simp only [List.forall_mem_cons]
      exact ⟨.text _, isStorable_natural _, .text _, .text _, .text _, isStorable_natural _,
        List.forall_mem_nil _⟩
    have htarget : (AttributeValue.map [
        ("container", .text exposure.container),
        ("port", .natural port.number),
        ("service", .output service "id")]).IsStorable := by
      refine .map (List.pairwise_map.1 htargetNames) ?_ rfl
      simp only [List.forall_mem_cons]
      exact ⟨.text _, isStorable_natural _, isStorable_output hservice hid, List.forall_mem_nil _⟩
    refine Node.isStorable_of_ofList rfl rfl (List.forall_mem_append.2 ⟨?_, ?_⟩)
    · simp only [List.forall_mem_cons]
      exact ⟨isStorable_output hnetwork hid, isStorable_natural _, .text _, htarget, .text _,
        List.forall_mem_nil _⟩
    · exact List.forall_mem_map.2 fun check _ => hcheck check
  · refine Node.isStorable_of_ofList rfl rfl ?_
    simp only [List.forall_mem_cons]
    exact ⟨isStorable_output (isName_targetGroupId port.number) harn,
      isStorable_output hbalancer harn, isStorable_natural _, .text _, List.forall_mem_nil _⟩
  · refine Node.isStorable_of_ofList rfl rfl ?_
    simp only [List.forall_mem_cons]
    exact ⟨.text _, isStorable_natural _, .text _, isStorable_output hgroup hid, .text _,
      isStorable_natural _, List.forall_mem_nil _⟩

end Exposure

theorem Declaration.isStorable_of_mem_nodes {d : Declaration} (h : d.IsStorable)
    (hnames : ∀ exposure ∈ d.expose, ∀ id ∈ d.id :: exposure.peers, Reference.IsName id)
    {node : Node} (hnode : node ∈ d.nodes) : node.IsStorable := by
  rcases List.mem_cons.1 hnode with rfl | hport
  · refine ⟨h.attributes, fun hlifecycle => ?_⟩
    unfold Declaration.node at hlifecycle
    dsimp only at hlifecycle
    split at hlifecycle
    · next existing hexisting =>
      cases hlifecycle
      exact h.outputs existing hexisting
    · cases hlifecycle
  · cases hexpose : d.expose with
    | none =>
      rw [hexpose] at hport
      cases hport
    | some exposure =>
      rw [hexpose] at hport
      exact Exposure.isStorable_of_mem_portNodes (hnames exposure hexpose) hport

/-! ## Saved plans -/

namespace Plan

theorem withoutNulls_eq_self {plan : Plan} (h : ∀ step ∈ plan.steps, step.changes = []) :
    plan.withoutNulls = plan := by
  have hsteps : plan.steps.map Step.withoutNulls = plan.steps.map id :=
    List.map_congr_left fun step hstep => Step.withoutNulls_eq_self (h step hstep)
  rw [withoutNulls, hsteps, List.map_id]

/-- A plan that is made from what has been read from documents is read from its own document. If ids
can stand in references, what is read agrees with the plan in every field of every step, except for
what becomes of changes from or to `null`; and a plan that removes a stack is read as it is. -/
theorem read_saved {now : Instant} (hnow : now.Legible) :
    (∀ (value : Json) (stack : Stack) (g : Graph) (prior : Option State) (plan : Plan),
      Stack.ofJson value = .ok stack → stack.NamesPlainly → Graph.ofStack stack = .ok g →
      (∀ s ∈ prior, ∃ document, State.ofJson document = .ok s) →
      synthesize g prior now = .ok plan → plan.NestsWithin 100 → plan.toJson.IsLegible →
      ∃ again, (Json.read? plan.toJson.pretty).map ofJson = some (.ok again) ∧
        plan.SavedAs again) ∧
    ∀ (document : Json) (s : State) (plan : Plan), State.ofJson document = .ok s →
      synthesizeDestroy s now = .ok plan → plan.NestsWithin 100 → plan.toJson.IsLegible →
      (Json.read? plan.toJson.pretty).map ofJson = some (.ok plan) := by
  constructor
  · intro value stack g prior plan hstack hnames hgraph hprior hplan hdepth hlegible
    have hnodes : ∀ node ∈ g.nodes, node.IsStorable := by
      intro node hnode
      rw [Graph.nodes_ofDeclarations hgraph] at hnode
      obtain ⟨d, hd, hnode⟩ := List.mem_flatMap.1 hnode
      exact Declaration.isStorable_of_mem_nodes (Stack.yields value stack hstack d hd)
        (hnames d hd) hnode
    have hrecords : ∀ s ∈ prior, ∀ r ∈ s.resources.values, r.HoldsStorable := by
      intro s hs
      obtain ⟨document, hdocument⟩ := hprior s hs
      exact State.yields document s hdocument
    have hsteps := Synthesis.isStorable_of_synthesize (Graph.Linked.ofDeclarations hgraph)
      hnodes hrecords hplan
    obtain ⟨steps, -, hmade⟩ := bind_eq_ok_iff.1 hplan
    obtain rfl := pure_eq_ok_iff.1 hmade
    exact ⟨_, read?_pretty hsteps hnow hdepth hlegible, savedAs_withoutNulls _⟩
  · intro document s plan hdocument hplan hdepth hlegible
    obtain ⟨steps, hsteps, hmade⟩ := bind_eq_ok_iff.1 hplan
    obtain rfl := pure_eq_ok_iff.1 hmade
    have hsteps := Removal.isStorable_of_mem_steps (State.yields document s hdocument)
      (mapError_eq_ok_iff.1 hsteps)
    rw [read?_pretty (fun step hstep => (hsteps step hstep).1) hnow hdepth hlegible,
      withoutNulls_eq_self fun step hstep => (hsteps step hstep).2]

/-- A service that is its own network, security group and load balancer. -/
def portedDocument (id : String) : Json :=
  .object [
    ("project", .object [("name", .string "shop")]),
    ("resources", .array [.object [
      ("id", .string id),
      ("kind", .string "service"),
      ("attributes", .object [("note", .string "new")]),
      ("expose", .object [
        ("container", .string "app"),
        ("network", .string id),
        ("security_group", .string id),
        ("load_balancer", .string id),
        ("ports", .array [.natural 80])])]])]

/-- What is read as of `portedDocument`. -/
def portedStack (id : String) : Stack where
  project := { name := "shop" }
  resources := [{
    id, kind := .service, attributes := .ofList [("note", .text "new")]
    expose := some {
      container := "app", network := id, securityGroup := id, loadBalancer := id
      ports := [{ number := 80 }] } }]

/-- A state in which `null` is recorded for an attribute of the service. -/
def recordedDocument (id : String) : Json :=
  .object [
    ("version", .string "1.0"),
    ("project", .string "shop"),
    ("environment", .string "dev"),
    ("config_hash", .string ""),
    ("last_updated", .string "1970-01-01T00:00:00Z"),
    ("resources", .object [(id, .object [
      ("id", .string id),
      ("kind", .string "service"),
      ("provider_id", .string "service-1"),
      ("attributes", .object [("note", .null)]),
      ("created_at", .string "1970-01-01T00:00:00Z"),
      ("updated_at", .string "1970-01-01T00:00:00Z")])])]

/-- What is read as of `recordedDocument`. -/
def recordedState (id : String) : State where
  version := "1.0"
  project := "shop"
  environment := "dev"
  configHash := ""
  lastUpdated := { seconds := 0 }
  resources := .ofList [(id, {
    id, kind := .service, providerId := "service-1", attributes := .ofList [("note", .null)]
    createdAt := { seconds := 0 }, updatedAt := { seconds := 0 } })]

variable (id target configHash : String)

theorem ofJson_portedDocument : Stack.ofJson (portedDocument id) = .ok (portedStack id) := by
  with_unfolding_all rfl

theorem ofJson_recordedDocument : State.ofJson (recordedDocument id) = .ok (recordedState id) := by
  with_unfolding_all rfl

/-- The steps from `recordedState` to `portedStack` if references name the service `target` and
`old` is taken for the recorded value. -/
def portedSteps (old : Option Json) : List Step := [
  { index := 0, nodeId := id, kind := .service, action := .update
    resolved := .ofList [("note", .string "new")], providerId := some "service-1"
    changes := [{ name := "note", old, new := some (.string "new") }]
    reason := "1 attribute(s) changed" },
  { index := 1, nodeId := "TargetGroup80", kind := .targetGroup, action := .create
    resolved := .ofList [
      ("port", .natural 80), ("protocol", .string "TCP"), ("target_type", .string "ip")]
    deferred := .ofList [
      ("network", .output target "id"),
      ("target", .map [
        ("container", .text "app"), ("port", .natural 80), ("service", .output target "id")])]
    dependsOn := [0], reason := "not yet created", dependencies := [id] },
  { index := 2, nodeId := "Listener80", kind := .listener, action := .create
    resolved := .ofList [("port", .natural 80), ("protocol", .string "TCP")]
    deferred := .ofList [
      ("default_target_group", .output "TargetGroup80" "arn"),
      ("load_balancer", .output target "arn")]
    dependsOn := [0, 1], reason := "not yet created", dependencies := [id, "TargetGroup80"] },
  { index := 3, nodeId := "IngressRule80", kind := .ingressRule, action := .create
    resolved := .ofList [
      ("description", .string "Allow port 80 traffic"), ("from_port", .natural 80),
      ("protocol", .string "tcp"), ("source", .string "0.0.0.0/0"), ("to_port", .natural 80)]
    deferred := .ofList [("security_group", .output target "id")]
    dependsOn := [0], reason := "not yet created", dependencies := [id] }]

/-- A plan of `portedSteps` that is made at the first moment. -/
def portedPlan (old : Option Json) : Plan :=
  { createdAt := { seconds := 0 }, configHash, steps := portedSteps id target old }

/-- A plan to destroy what is recorded. -/
def wipePlan : Plan where
  createdAt := { seconds := 0 }
  configHash := ""
  steps := [
    { index := 0, nodeId := id, kind := .service, action := .delete
      providerId := some "service-1", reason := "stack destroyed" }]

theorem isLegible_portedPlan :
    (portedPlan id target configHash (some .null)).toJson.IsLegible := by
  have hnatural : ∀ n ≤ 80, (Json.natural n).IsLegible := fun n h =>
    isLegible_natural (Nat.le_trans h (by decide))
  have hdeclared : (Table.empty : Declared).isEmpty = true := rfl
  have houtputs : (Table.empty : Outputs).isEmpty = true := rfl
  simp [portedPlan, portedSteps, toJson, Instant.toJson, Step.toJson, Kind.toJson, Action.toJson,
    RemovalPolicy.toJson, Change.toJson, AttributeValue.output, AttributeValue.natural,
    AttributeValue.text, AttributeValue.toJson, AttributeValue.entriesToJson, isLegible_object,
    isLegible_array, isLegible_ofStrings, isLegible_ofTable_ofList, isLegible_ofAttributes_ofList,
    Table.isEmpty_ofList_cons, hnatural, hdeclared, houtputs]

theorem isLegible_wipePlan : (wipePlan id).toJson.IsLegible := by
  have hdeclared : (Table.empty : Declared).isEmpty = true := rfl
  have houtputs : (Table.empty : Outputs).isEmpty = true := rfl
  have hresolved : (ofAttributes .empty).IsLegible := isLegible_object.2 (by simp)
  have hindex : (Json.natural 0).IsLegible := isLegible_natural (by decide)
  simp [wipePlan, toJson, Instant.toJson, Step.toJson, Kind.toJson, Action.toJson,
    RemovalPolicy.toJson, isLegible_object, isLegible_array, isLegible_ofStrings, hdeclared,
    houtputs, hresolved, hindex]

theorem legible_start : Instant.Legible { seconds := 0 } := .of_year (by decide) (by decide)

/-- The plan of `portedStack` is `portedPlan` if its steps are. -/
theorem synthesize_ported
    (hsteps : (Graph.ofStack (portedStack id) >>= fun g =>
      Synthesis.steps g (some (recordedState id))) = .ok (portedSteps id id (some .null))) :
    ∃ g, Graph.ofStack (portedStack id) = .ok g ∧
      synthesize g (some (recordedState id)) { seconds := 0 } =
        .ok (portedPlan id id (Fingerprint.ofGraph g) (some .null)) := by
  obtain ⟨g, hgraph, hsteps⟩ := bind_eq_ok_iff.1 hsteps
  exact ⟨g, hgraph, bind_eq_ok hsteps rfl⟩

/-- With an id that can stand in references, the plan is read up to the recorded `null`, and the plan
to destroy what is recorded is read as it is. -/
theorem read_saved_ported : ∃ plan again,
    (∃ g, Stack.ofJson (portedDocument "App") = .ok (portedStack "App") ∧
      Graph.ofStack (portedStack "App") = .ok g ∧
      synthesize g (some (recordedState "App")) { seconds := 0 } = .ok plan) ∧
    (Json.read? plan.toJson.pretty).map ofJson = some (.ok again) ∧ plan.SavedAs again ∧
    synthesizeDestroy (recordedState "App") { seconds := 0 } = .ok (wipePlan "App") ∧
    (Json.read? (wipePlan "App").toJson.pretty).map ofJson = some (.ok (wipePlan "App")) := by
  have hnames : (portedStack "App").NamesPlainly := by
    intro d hd exposure hexposure id hid
    obtain rfl := List.mem_singleton.1 hd
    obtain rfl := Option.some.inj hexposure
    obtain rfl : id = "App" := by simpa [Exposure.peers, portedStack] using hid
    exact Reference.isName_of_isResourceId (by decide)
  have hsteps : (Graph.ofStack (portedStack "App") >>= fun g =>
      Synthesis.steps g (some (recordedState "App"))) =
        .ok (portedSteps "App" "App" (some .null)) := by
    with_unfolding_all rfl
  obtain ⟨g, hgraph, hplan⟩ := synthesize_ported "App" hsteps
  have hdepth : (portedPlan "App" "App" (Fingerprint.ofGraph g) (some .null)).NestsWithin 100 := by
    change (portedPlan "App" "App" "" (some .null)).NestsWithin 100
    unfold NestsWithin
    decide +kernel
  have hrecorded := ofJson_recordedDocument "App"
  have hwipe : synthesizeDestroy (recordedState "App") { seconds := 0 } =
      .ok (wipePlan "App") := by
    with_unfolding_all rfl
  obtain ⟨hmade, hremoved⟩ := read_saved legible_start
  obtain ⟨again, hread, hsaved⟩ := hmade _ _ g (some (recordedState "App")) _
    (ofJson_portedDocument "App") hnames hgraph
    (by rintro _ ⟨⟩; exact ⟨_, hrecorded⟩) hplan hdepth (isLegible_portedPlan ..)
  refine ⟨_, again, ⟨g, ofJson_portedDocument "App", hgraph, hplan⟩, hread, hsaved, hwipe, ?_⟩
  refine hremoved _ _ _ hrecorded hwipe ?_ (isLegible_wipePlan "App")
  unfold NestsWithin
  decide +kernel

/-- A reference to an id that starts with a blank is read as one to another id, and for a `null` that
was recorded no value is read. -/
theorem read_saved_otherwise : ∃ g plan again,
    Stack.ofJson (portedDocument " App") = .ok (portedStack " App") ∧
    Graph.ofStack (portedStack " App") = .ok g ∧
    State.ofJson (recordedDocument " App") = .ok (recordedState " App") ∧
    synthesize g (some (recordedState " App")) { seconds := 0 } = .ok plan ∧
    plan.NestsWithin 100 ∧ plan.toJson.IsLegible ∧
    (Json.read? plan.toJson.pretty).map ofJson = some (.ok again) ∧
    plan.steps = portedSteps " App" " App" (some .null) ∧
    again.steps = portedSteps " App" "App" none ∧ again ≠ plan := by
  have hsteps : (Graph.ofStack (portedStack " App") >>= fun g =>
      Synthesis.steps g (some (recordedState " App"))) =
        .ok (portedSteps " App" " App" (some .null)) := by
    with_unfolding_all rfl
  obtain ⟨g, hgraph, hplan⟩ := synthesize_ported " App" hsteps
  have hread : asList Step.ofJson (.array ((portedSteps " App" " App" (some .null)).map
      Step.toJson)) = .ok (portedSteps " App" "App" none) := by
    with_unfolding_all rfl
  have hdepth : (portedPlan " App" " App" (Fingerprint.ofGraph g) (some .null)).NestsWithin 100 := by
    change (portedPlan " App" " App" "" (some .null)).NestsWithin 100
    unfold NestsWithin
    decide +kernel
  have hlegible := isLegible_portedPlan " App" " App" (Fingerprint.ofGraph g)
  refine ⟨g, _, portedPlan " App" "App" (Fingerprint.ofGraph g) none, ofJson_portedDocument " App",
    hgraph, ofJson_recordedDocument " App", hplan, hdepth, hlegible, ?_, rfl, rfl, ?_⟩
  · rw [Json.read?_pretty hlegible (Nat.le_trans (nesting_toJson_le hdepth) (by decide)),
      Option.map_some, ofJson_of_steps legible_start hread]
    rfl
  · intro heq
    cases congrArg (fun plan => plan.steps.map (·.changes.map (·.old))) heq

end Plan

end Converge
