import Converge.Proofs.Plan.Synthesis
import Mathlib.Order.Bounds.Basic

/-!
# Which nodes are replaced

Replacing nodes has consequences: what refers to them cannot be resolved yet, and what was recorded
as depending on them has to go first. `Replacement.Closed` gives the rules for a set of nodes that
contains its consequences. A plan replaces the least such set, however its rounds find it.

Main statement: `Replacement.isLeast_replaced`.
-/

namespace Converge

open Graph (Ordered)

namespace Replacement

/-! ## The rules -/

/-- The patch of a node against its record, unless one of its references is missing. -/
def patch? (verdicts : Verdicts) (node : Node) (r : Record) : Option Patch :=
  match NodePlan.resolveAttributes node verdicts node.attributes.entries with
  | .ok (resolved, deferred) => some (.between node.kind resolved deferred r.attributes)
  | .error _ => none

open Classical in
/-- What is known of a node if just the nodes in `X` are replaced. -/
noncomputable def verdict (records : Table Record) (X : Set String) (verdicts : Verdicts)
    (node : Node) : Verdict :=
  match node.lifecycle, records.get? node.id with
  | .existing _ outputs, _ => { decision := .existing, outputs }
  | .managed, none => { decision := .create }
  | .managed, some r =>
    if node.id ∈ X then { decision := .replace }
    else
      match patch? verdicts node r with
      | none | some ⟨[]⟩ => { decision := .keep, outputs := r.outputs }
      | some patch => { decision := .update, outputs := r.outputs, changing := patch.changed }

/-- What is known of all nodes if just those in `X` are replaced. -/
noncomputable def verdicts (records : Table Record) (X : Set String) (order : List Node) :
    Verdicts :=
  .along (verdict records X) order

/-- A set of recorded managed nodes that holds every node which has to be replaced if the set is:
for its kind, for a change, or because something that it depends on is deleted. -/
structure Closed (g : Graph) (order : List Node) (records : Table Record) (X : Set String) :
    Prop where
  recorded : ∀ id ∈ X, Cascade.Manages g id ∧ ∃ r, records.get? id = some r
  kind : ∀ node ∈ g.nodes, node.lifecycle = .managed → ∀ r, records.get? node.id = some r →
    r.kind ≠ node.kind → node.id ∈ X
  change : ∀ node ∈ g.nodes, node.lifecycle = .managed → ∀ r, records.get? node.id = some r →
    ∀ patch, patch? (verdicts records X order) node r = some patch →
      ∀ change ∈ patch.changes, change.forcesReplacement = true → node.id ∈ X
  dependency : ∀ node ∈ g.nodes, node.lifecycle = .managed →
    ∀ r, records.get? node.id = some r →
      ∀ dependency ∈ r.dependencies, Cascade.Removed g records X dependency → node.id ∈ X

/-! ## Verdicts on single nodes -/

section verdict

variable {records : Table Record} {X : Set String} {known : Verdicts} {node : Node} {r : Record}
  {resolved : Attributes} {deferred : Declared}

theorem patch?_eq (h : NodePlan.Parted (Verdict.lookupIn known) node.attributes resolved deferred) :
    patch? known node r = some (.between node.kind resolved deferred r.attributes) := by
  rw [patch?, NodePlan.resolveAttributes_eq_ok_iff.2 h]

theorem verdict_existing {providerId : String} {outputs : Outputs}
    (h : node.lifecycle = .existing providerId outputs) :
    verdict records X known node = { decision := .existing, outputs } := by
  rw [verdict, h]

theorem verdict_create (h : node.lifecycle = .managed) (hrecord : records.get? node.id = none) :
    verdict records X known node = { decision := .create } := by
  rw [verdict, h, hrecord]

theorem verdict_replace (h : node.lifecycle = .managed) (hrecord : records.get? node.id = some r)
    (hmem : node.id ∈ X) : verdict records X known node = { decision := .replace } := by
  rw [verdict, h, hrecord]
  exact if_pos hmem

theorem verdict_keep (h : node.lifecycle = .managed) (hrecord : records.get? node.id = some r)
    (hmem : node.id ∉ X) {patch : Patch} (hpatch : patch? known node r = some patch)
    (hchanges : patch.changes = []) :
    verdict records X known node = { decision := .keep, outputs := r.outputs } := by
  obtain rfl : patch = ⟨[]⟩ := congrArg Patch.mk hchanges
  simp only [verdict, h, hrecord, hpatch, if_neg hmem]

theorem verdict_update (h : node.lifecycle = .managed) (hrecord : records.get? node.id = some r)
    (hmem : node.id ∉ X) {patch : Patch} (hpatch : patch? known node r = some patch)
    (hchanges : patch.changes ≠ []) :
    verdict records X known node =
      { decision := .update, outputs := r.outputs, changing := patch.changed } := by
  obtain ⟨changes⟩ := patch
  cases changes with
  | nil => exact absurd rfl hchanges
  | cons change changes => simp only [verdict, h, hrecord, hpatch, if_neg hmem]

theorem local_verdict : Verdicts.Local (verdict records X) := by
  intro v w node h
  have hlookup : ∀ {name : String} {value : AttributeValue},
      node.attributes.get? name = some value →
      ∀ r ∈ value.references, Verdict.lookupIn v r = Verdict.lookupIn w r :=
    fun hvalue r hr => Verdict.lookupIn_congr (h _ (Verdict.mem_dependencyIds hvalue hr))
  have hpatch : ∀ r, patch? v node r = patch? w node r := by
    intro r
    have hof : ∀ {v w : Verdicts} {patch : Patch},
        (∀ {name : String} {value : AttributeValue}, node.attributes.get? name = some value →
          ∀ r ∈ value.references, Verdict.lookupIn v r = Verdict.lookupIn w r) →
        patch? v node r = some patch → patch? w node r = some patch := by
      intro v w patch hsame hv
      rw [patch?] at hv
      split at hv
      · next resolved deferred hparts =>
        have hparted := NodePlan.resolveAttributes_eq_ok_iff.1 hparts
        rw [← hv]
        exact patch?_eq (hparted.congr fun _ _ hvalue r hr => (hsame hvalue r hr).symm)
      · cases hv
    exact Option.ext fun patch => ⟨hof hlookup, hof fun hvalue r hr => (hlookup hvalue r hr).symm⟩
  simp only [verdict, hpatch]

end verdict

/-! ## Every closed set holds what is replaced -/

/-- Whether less is known of a node by `w` than by `v`: of an output the same, or that it shows only
later. -/
def Fades (v w : Verdict) : Prop :=
  ∀ output, w.lookup output = v.lookup output ∨ w.lookup output = .deferred

theorem Fades.refl (v : Verdict) : Fades v v := fun _ => .inl rfl

theorem fades_of_replaced {v w : Verdict} (h : w.decision = .create ∨ w.decision = .replace) :
    Fades v w := fun output => .inr (Verdict.lookup_of_replaced h output)

/-- A node that is updated instead of being kept, or changed in more places, shows less. -/
theorem fades_update {outputs : Outputs} {changing changing' : List String}
    (h : ∀ name ∈ changing, name ∈ changing') :
    Fades { decision := .update, outputs, changing }
      { decision := .update, outputs, changing := changing' } := by
  intro output
  simp only [Verdict.lookup]
  cases outputs.get? output with
  | none => exact .inl rfl
  | some value =>
    by_cases hmem : output ∈ changing'
    · simp [hmem]
    · simpa [hmem] using fun hmem' => hmem (h output hmem')

theorem fades_keep_update {outputs : Outputs} {changing : List String} :
    Fades { decision := .keep, outputs } { decision := .update, outputs, changing } := by
  intro output
  simp only [Verdict.lookup]
  cases outputs.get? output with
  | none => exact .inr rfl
  | some value => by_cases hmem : output ∈ changing <;> simp [hmem]

/-- Where less is known of what a node refers to, its patch changes at least as much, and of what
changes the kind alone says whether it forces replacement. -/
theorem patch?_fades {v w : Verdicts} {node : Node} {resolved : Attributes}
    {deferred : Declared} (r : Record)
    (hparted : NodePlan.Parted (Verdict.lookupIn v) node.attributes resolved deferred)
    (hfades : ∀ {name : String} {value : AttributeValue}, node.attributes.get? name = some value →
      ∀ ref ∈ value.references,
        Verdict.lookupIn w ref = Verdict.lookupIn v ref ∨ Verdict.lookupIn w ref = .deferred) :
    ∃ patch, patch? w node r = some patch ∧
      (∀ name ∈ (Patch.between node.kind resolved deferred r.attributes).changed,
        name ∈ patch.changed) ∧
      ∀ change ∈ patch.changes, change.forcesReplacement = Patch.forces node.kind change.name := by
  obtain ⟨resolved', deferred', hparted', hmono, hresolved⟩ := hparted.fades hfades
  exact ⟨_, patch?_eq hparted', fun name hname => Patch.changed_mono hmono hresolved hname,
    fun change hchange => Patch.forcesReplacement_eq hchange⟩

section least

variable {g : Graph} {order : List Node} {prior : Option State} {forced : Table String}
  {plans : List NodePlan} {X : Set String}

open Synthesis (recordsOf)

/-- Decisions that replace nothing outside of a closed set but what the rules ask for stay within
it, and make of every node as much known as the set does. -/
theorem decided_within (hperm : order.Perm g.nodes) (ho : Ordered order)
    (hnodes : plans.map (·.node) = order)
    (hverdict : ∀ p ∈ plans, (Verdicts.ofPlans plans).get? p.node.id = some p.verdict)
    (hdecided : ∀ p ∈ plans, p.Decided (recordsOf prior) forced (Verdicts.ofPlans plans))
    (hX : Closed g order (recordsOf prior) X)
    (hforced : ∀ id, forced.contains id = true → id ∈ X) :
    ∀ node ∈ order, ∀ p ∈ plans, p.node = node →
      (p.decision = .replace → node.id ∈ X) ∧
        ∃ w, (verdicts (recordsOf prior) X order).get? node.id = some w ∧ Fades p.verdict w := by
  refine ho.induction fun node hnode ih => ?_
  rintro p hp rfl
  have hw : (verdicts (recordsOf prior) X order).get? p.node.id =
      some (verdict (recordsOf prior) X (verdicts (recordsOf prior) X order) p.node) :=
    Verdicts.along_get? local_verdict ho p.node hnode
  have hdeclared : p.node ∈ g.nodes := hperm.mem_iff.1 hnode
  -- By induction less is known of everything that the node refers to.
  have hfades : ∀ {name value}, p.node.attributes.get? name = some value →
      ∀ r ∈ value.references,
        Verdict.lookupIn (verdicts (recordsOf prior) X order) r =
            Verdict.lookupIn (Verdicts.ofPlans plans) r ∨
          Verdict.lookupIn (verdicts (recordsOf prior) X order) r = .deferred := by
    intro name value hvalue r hr
    have hid := Verdict.mem_dependencyIds hvalue hr
    obtain ⟨other, hother, hotherId⟩ := ho.exists_of_mem hnode hid
    obtain ⟨q, hq, rfl⟩ : ∃ q ∈ plans, q.node = other := by
      rw [← hnodes, List.mem_map] at hother
      exact hother
    obtain ⟨-, w, hw, hqw⟩ := ih q.node hother (hotherId ▸ hid) q hq rfl
    rw [hotherId] at hw
    have hq' := hverdict q hq
    rw [hotherId] at hq'
    rw [Verdict.lookupIn, Verdict.lookupIn, hw, hq']
    exact hqw r.output
  cases hdecided p hp with
  | existing providerId outputs lifecycle decision =>
    refine ⟨by simp [decision], _, hw, ?_⟩
    rw [verdict_existing lifecycle, NodePlan.verdict_existing lifecycle decision]
    exact .refl _
  | create lifecycle record decision parted =>
    refine ⟨by simp [decision], _, hw, ?_⟩
    rw [verdict_create lifecycle record]
    exact fades_of_replaced (.inl rfl)
  | replace r lifecycle record decision parted cause =>
    have hmem : p.node.id ∈ X := by
      rcases cause with hkind | ⟨change, hchange, hforces⟩ | hforce
      · exact hX.kind p.node hdeclared lifecycle r record hkind
      · obtain ⟨patch, hpatch, hmono, hforces'⟩ := patch?_fades r parted hfades
        obtain ⟨change', hchange', hname⟩ :=
          List.mem_map.1 (hmono change.name (List.mem_map_of_mem hchange))
        refine hX.change p.node hdeclared lifecycle r record patch hpatch change' hchange' ?_
        rw [hforces' change' hchange', hname, ← Patch.forcesReplacement_eq hchange, hforces]
      · exact hforced _ hforce
    refine ⟨fun _ => hmem, _, hw, ?_⟩
    rw [verdict_replace lifecycle record hmem]
    exact fades_of_replaced (.inr rfl)
  | update r lifecycle record hprior decision parted kind patch changes stays unforced =>
    refine ⟨by simp [decision], _, hw, ?_⟩
    by_cases hmem : p.node.id ∈ X
    · rw [verdict_replace lifecycle record hmem]
      exact fades_of_replaced (.inr rfl)
    · obtain ⟨patch', hpatch, hmono, -⟩ := patch?_fades r parted hfades
      have hchanges : patch'.changes ≠ [] := by
        intro hnil
        obtain ⟨change, rest, hcons⟩ := List.exists_cons_of_ne_nil changes
        have hname := hmono change.name (List.mem_map_of_mem (patch ▸ hcons ▸ List.mem_cons_self ..))
        rw [Patch.changed, hnil] at hname
        cases hname
      rw [verdict_update lifecycle record hmem hpatch hchanges,
        NodePlan.verdict_update decision hprior, patch]
      exact fades_update hmono
  | keep r lifecycle record hprior decision parted kind unchanged unforced =>
    refine ⟨by simp [decision], _, hw, ?_⟩
    rw [NodePlan.verdict_keep decision hprior]
    by_cases hmem : p.node.id ∈ X
    · rw [verdict_replace lifecycle record hmem]
      exact fades_of_replaced (.inr rfl)
    · obtain ⟨patch', hpatch, -, -⟩ := patch?_fades r parted hfades
      by_cases hchanges : patch'.changes = []
      · rw [verdict_keep lifecycle record hmem hpatch hchanges]
        exact .refl _
      · rw [verdict_update lifecycle record hmem hpatch hchanges]
        exact fades_keep_update

/-- What a round forces on top of nodes of a closed set stays within the set. -/
theorem further_within (hg : g.Linked) (hprior : ∀ s, prior = some s → s.KeysMatch)
    (hsorted : g.sortedNodes = .ok order) (hX : Closed g order (recordsOf prior) X)
    (hforced : ∀ id, forced.contains id = true → id ∈ X) {settlement : Synthesis.Settlement}
    {further : Table String}
    (h : Synthesis.round g order prior forced = .ok (settlement, further)) :
    ∀ id, (forced.merge further).contains id = true → id ∈ X := by
  obtain ⟨plans, hplans, rfl, rfl⟩ := Synthesis.round_eq_ok_iff.1 h
  obtain ⟨order', hsorted', hperm, ho⟩ := hg.sortedNodes
  obtain rfl : order = order' := Except.ok.inj (hsorted.symm.trans hsorted')
  have hnodes := NodePlan.decideAll_nodes hplans
  have hspec := NodePlan.decideAll_spec ho hplans
  have hwithin := decided_within hperm ho hnodes (fun p hp => (hspec p hp).1)
    (fun p hp => (hspec p hp).2) hX hforced
  intro id hid
  rw [Table.contains, Table.get?_merge, Option.isSome_or, Bool.or_eq_true] at hid
  rcases hid with hid | hid
  · cases prior with
    | none => cases hid
    | some s =>
      refine Cascade.forcedBy_subset hg.coherent (hprior s rfl) (X := X) ?_ ?_ hid
      · rintro r hr ⟨node, hnode, hnodeId, hmanaged⟩ dependency hmem hremoved
        exact hnodeId ▸ hX.dependency node hnode hmanaged r (hnodeId ▸ hr) dependency hmem hremoved
      · intro id hdoomed
        rcases Doomed.contains_ofPlans.1 hdoomed with ⟨hdeclared, -⟩ | ⟨p, hp, hreplace, rfl⟩
        · exact .inl hdeclared
        · have hmem : p.node ∈ order := hnodes ▸ List.mem_map_of_mem hp
          exact .inr ((hwithin p.node hmem p hp rfl).1 hreplace)
  · exact hforced id hid

/-- The ids of planned nodes that are replaced. -/
def replacedBy (plans : List NodePlan) : Set String :=
  {id | ∃ p ∈ plans, p.decision = .replace ∧ p.node.id = id}

/-- A synthesized plan replaces nodes of every closed set only. -/
theorem exists_origin (hg : g.Linked) (hprior : ∀ s, prior = some s → s.KeysMatch)
    {now : Instant} {plan : Plan} (h : Plan.synthesize g prior now = .ok plan) :
    ∃ order forced plans deletions,
      Synthesis.Origin g prior plan order forced plans deletions ∧
        ∀ X, Closed g order (recordsOf prior) X → replacedBy plans ⊆ X := by
  obtain ⟨order, forced, plans, deletions, hforced, horigin⟩ :=
    Synthesis.Origin.of_synthesize hg hprior h
      (P := fun order forced => ∀ X, Closed g order (recordsOf prior) X →
        ∀ id, forced.contains id = true → id ∈ X)
      (fun _ _ _ _ hid => nomatch hid)
      (fun hsorted hforced hround X hX => further_within hg hprior hsorted hX (hforced X hX) hround)
  refine ⟨order, forced, plans, deletions, horigin, fun X hX => ?_⟩
  rintro id ⟨p, hp, hreplace, rfl⟩
  have hwithin := decided_within horigin.perm horigin.ordered horigin.nodes horigin.verdict
    horigin.decided hX (hforced X hX)
  exact (hwithin p.node (horigin.node_mem hp) p hp rfl).1 hreplace

/-! ## What is replaced is closed -/

variable {plan : Plan} {deletions : List Step}

theorem manages_of_mem {node : Node} (hnode : node ∈ g.nodes) (h : node.lifecycle = .managed) :
    Cascade.Manages g node.id :=
  ⟨node, hnode, rfl, h⟩

/-- The patch of a node is that of its plan under all verdicts that agree with the plans of what it
depends on. -/
theorem patch?_ofPlans (h : Synthesis.Origin g prior plan order forced plans deletions)
    {p : NodePlan} (hp : p ∈ plans) {v : Verdicts}
    (hv : ∀ q ∈ plans, q.node.id ∈ p.node.dependencyIds → v.get? q.node.id = some q.verdict)
    {r : Record} (hparted : NodePlan.Parted (Verdict.lookupIn (Verdicts.ofPlans plans))
      p.node.attributes p.resolved p.deferred) :
    patch? v p.node r = some (.between p.node.kind p.resolved p.deferred r.attributes) := by
  refine patch?_eq (hparted.congr fun name value hvalue reference hreference => ?_)
  have hid := Verdict.mem_dependencyIds hvalue hreference
  obtain ⟨other, hother, hotherId⟩ := h.ordered.exists_of_mem (h.node_mem hp) hid
  obtain ⟨q, hq, rfl⟩ := h.exists_plan hother
  refine Verdict.lookupIn_congr ?_
  rw [← hotherId, hv q hq (hotherId ▸ hid), h.verdict q hq]

/-- The set of replaced nodes makes of every node as much known as the decisions do. -/
theorem verdicts_replacedBy (h : Synthesis.Origin g prior plan order forced plans deletions) :
    ∀ node ∈ order, ∀ p ∈ plans, p.node = node →
      (verdicts (recordsOf prior) (replacedBy plans) order).get? node.id = some p.verdict := by
  refine h.ordered.induction fun node hnode ih => ?_
  rintro p hp rfl
  rw [verdicts, Verdicts.along_get? local_verdict h.ordered p.node hnode, ← verdicts]
  refine congrArg some ?_
  have hearlier : ∀ q ∈ plans, q.node.id ∈ p.node.dependencyIds →
      (verdicts (recordsOf prior) (replacedBy plans) order).get? q.node.id = some q.verdict :=
    fun q hq hid => ih q.node (h.node_mem hq) hid q hq rfl
  have hmem : p.node.id ∈ replacedBy plans ↔ p.decision = .replace := by
    constructor
    · rintro ⟨q, hq, hreplace, hid⟩
      exact h.plan_ext hq hp hid ▸ hreplace
    · exact fun hreplace => ⟨p, hp, hreplace, rfl⟩
  cases h.decided p hp with
  | existing providerId outputs lifecycle decision =>
    rw [verdict_existing lifecycle, NodePlan.verdict_existing lifecycle decision]
  | create lifecycle record decision parted =>
    rw [verdict_create lifecycle record, NodePlan.verdict_create decision]
  | replace r lifecycle record decision parted cause =>
    rw [verdict_replace lifecycle record (hmem.2 decision), NodePlan.verdict_replace decision]
  | update r lifecycle record hprior decision parted kind patch changes stays unforced =>
    have hkept : p.node.id ∉ replacedBy plans := by simp [hmem, decision]
    rw [verdict_update lifecycle record hkept (patch?_ofPlans h hp hearlier parted)
      (patch ▸ changes), NodePlan.verdict_update decision hprior, patch]
    rfl
  | keep r lifecycle record hprior decision parted kind unchanged unforced =>
    have hkept : p.node.id ∉ replacedBy plans := by simp [hmem, decision]
    rw [verdict_keep lifecycle record hkept (patch?_ofPlans h hp hearlier parted) unchanged,
      NodePlan.verdict_keep decision hprior]

theorem patch?_replacedBy (h : Synthesis.Origin g prior plan order forced plans deletions)
    {p : NodePlan} (hp : p ∈ plans) {r : Record}
    (hparted : NodePlan.Parted (Verdict.lookupIn (Verdicts.ofPlans plans)) p.node.attributes
      p.resolved p.deferred) :
    patch? (verdicts (recordsOf prior) (replacedBy plans) order) p.node r =
      some (.between p.node.kind p.resolved p.deferred r.attributes) :=
  patch?_ofPlans h hp (fun q hq _ => verdicts_replacedBy h q.node (h.node_mem hq) q hq rfl)
    hparted

theorem closed_replacedBy (hg : g.Linked) (hprior : ∀ s, prior = some s → s.KeysMatch)
    (h : Synthesis.Origin g prior plan order forced plans deletions) :
    Closed g order (recordsOf prior) (replacedBy plans) := by
  have hplan : ∀ {node}, node ∈ g.nodes → ∃ p ∈ plans, p.node = node := fun hnode =>
    h.exists_plan (h.perm.mem_iff.2 hnode)
  refine ⟨?_, ?_, ?_, ?_⟩
  · rintro id ⟨p, hp, hreplace, rfl⟩
    have hnode : p.node ∈ g.nodes := h.perm.mem_iff.1 (h.node_mem hp)
    obtain ⟨hmanaged, hrecord⟩ := (h.decided p hp).recorded hreplace
    exact ⟨manages_of_mem hnode hmanaged, hrecord⟩
  · intro node hnode hmanaged r hrecord hkind
    obtain ⟨p, hp, rfl⟩ := hplan hnode
    rcases (h.decided p hp).replace_or_stays hmanaged hrecord with hreplace | ⟨hsame, -⟩
    · exact ⟨p, hp, hreplace, rfl⟩
    · exact absurd hsame hkind
  · intro node hnode hmanaged r hrecord patch hpatch change hchange hforces
    obtain ⟨p, hp, rfl⟩ := hplan hnode
    rcases (h.decided p hp).replace_or_stays hmanaged hrecord with
      hreplace | ⟨-, -, hparted, hstays⟩
    · exact ⟨p, hp, hreplace, rfl⟩
    · rw [patch?_replacedBy h hp hparted] at hpatch
      obtain rfl := Option.some.inj hpatch
      rw [hstays change hchange] at hforces
      cases hforces
  · intro node hnode hmanaged r hrecord dependency hdependency hremoved
    obtain ⟨rd, hrd, hdestroy, hout⟩ := hremoved
    have hgone : (Doomed.ofPlans g (Synthesis.recordsOf prior) plans).contains dependency = true :=
      Doomed.contains_ofPlans.2 (hout.imp_left fun hdeclared => ⟨hdeclared, rd, hrd⟩)
    have howned : ∀ other ∈ g.nodes, other.id = node.id → other.lifecycle = .managed := by
      intro other hother hid
      rwa [hg.node_ext hother hnode hid]
    rcases Doomed.contains_ofPlans.1 (h.doomed_of_dependency hg.coherent hprior hrecord
      hdependency hrd hdestroy hgone howned) with ⟨hdeclared, -⟩ | hreplaced
    · rw [Graph.contains_iff.2 (Graph.mem_ids.2 ⟨node, hnode, rfl⟩)] at hdeclared
      cases hdeclared
    · exact hreplaced

end least

/-- A plan replaces the least set of nodes that holds its own consequences, so that no managed node
is kept when something that it was recorded as depending on is deleted. -/
theorem isLeast_replaced {declarations : List Declaration} {g : Graph} {prior : Option State}
    {now : Instant} {plan : Plan} (hg : Graph.ofDeclarations declarations = .ok g)
    (hprior : ∀ s, prior = some s → s.KeysMatch)
    (hplan : Plan.synthesize g prior now = .ok plan) :
    ∃ order, g.sortedNodes = .ok order ∧
      IsLeast {X | Closed g order (Synthesis.recordsOf prior) X} plan.replaced ∧
      ∀ step ∈ plan.steps, step.action = .delete → step.removalPolicy = .destroy →
        ∀ node ∈ g.nodes, node.lifecycle = .managed →
          ∀ r, (Synthesis.recordsOf prior).get? node.id = some r →
            step.nodeId ∈ r.dependencies → node.id ∈ plan.replaced := by
  have hlinked := Graph.Linked.ofDeclarations hg
  obtain ⟨order, forced, plans, deletions, horigin, hleast⟩ := exists_origin hlinked hprior hplan
  have hreplaced : plan.replaced = replacedBy plans := Set.ext fun _ => horigin.mem_replaced
  have hclosed := closed_replacedBy hlinked hprior horigin
  rw [hreplaced]
  refine ⟨order, horigin.sorted, ⟨hclosed, hleast⟩, ?_⟩
  intro step hstep hdelete hdestroy node hnode hmanaged r hrecord hdependency
  obtain ⟨hdoomed, rd, hrd, -, -, -, hpolicy⟩ :=
    horigin.removal.record step (horigin.mem_deletions_iff.2 ⟨hstep, hdelete⟩)
  refine hclosed.dependency node hnode hmanaged r hrecord _ hdependency
    ⟨rd, hrd, hpolicy ▸ hdestroy, ?_⟩
  exact (Doomed.contains_ofPlans.1 hdoomed).imp_left And.left

/-- A target group and a listener that has to wait for it. -/
def movedDeclarations : List Declaration := [
  { id := "group", kind := .targetGroup, attributes := .ofList [("port", .natural 81)] },
  { id := "listener", kind := .listener, dependsOn := ["group"] }]

/-- The two as they were recorded when the target group had another port, which it cannot change. -/
def movedState : State :=
  { State.new "shop" "test" ⟨0, 0⟩ with
    resources := .ofList [
      ("group", { Record.new "group" .targetGroup "tg-1" ⟨0, 0⟩ with
        attributes := .ofList [("port", .natural 80)] }),
      ("listener", { Record.new "listener" .listener "li-1" ⟨0, 0⟩ with
        dependencies := ["group"], sequence := 1 })] }

/-- Both are replaced: the target group for its port, and the listener because it was recorded as
depending on it. -/
theorem isLeast_replaced_moved :
    ∃ g plan order, Graph.ofDeclarations movedDeclarations = .ok g ∧
      Plan.synthesize g (some movedState) ⟨0, 0⟩ = .ok plan ∧ g.sortedNodes = .ok order ∧
      IsLeast {X | Closed g order movedState.resources X} plan.replaced ∧
      plan.replaced = {"group", "listener"} := by
  have hsteps : ((Graph.ofDeclarations movedDeclarations >>= fun g =>
      Synthesis.steps g (some movedState)).toOption.map fun steps =>
        steps.map fun step => (step.nodeId, step.action)) =
      some [("listener", .delete), ("group", .delete), ("group", .create), ("listener", .create)] := by
    decide +kernel
  obtain ⟨steps, hok, hactions⟩ := Option.map_eq_some_iff.1 hsteps
  obtain ⟨g, hg, hok⟩ := bind_eq_ok_iff.1 (toOption_eq_some_iff.1 hok)
  let plan : Plan := { createdAt := ⟨0, 0⟩, configHash := Fingerprint.ofGraph g, steps }
  have hplan : Plan.synthesize g (some movedState) ⟨0, 0⟩ = .ok plan :=
    bind_eq_ok_iff.2 ⟨steps, hok, rfl⟩
  have hkeys : ∀ s, some movedState = some s → s.KeysMatch := by
    rintro s ⟨⟩
    decide +kernel
  obtain ⟨order, hsorted, hleast, -⟩ := isLeast_replaced hg hkeys hplan
  refine ⟨g, plan, order, hg, hplan, hsorted, hleast, Set.ext fun id => ?_⟩
  have hmem : ∀ action, (∃ step ∈ plan.steps, step.nodeId = id ∧ step.action = action) ↔
      (id, action) ∈ steps.map fun step => (step.nodeId, step.action) := by
    intro action
    simp [plan]
  rw [Plan.replaced, Set.mem_ofPred_eq, hmem, hmem, hactions]
  simp only [List.mem_cons, Prod.mk.injEq, reduceCtorEq, List.not_mem_nil, Set.mem_insert_iff,
    Set.mem_singleton_iff]
  tauto

end Replacement

end Converge
