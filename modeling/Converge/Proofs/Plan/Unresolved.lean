import Converge.Proofs.Plan.Replacement

/-!
# References that cannot be resolved

The more nodes are replaced, the less is known of what they bring; nothing that was known or could
be waited for goes missing. So deciding fails as soon as it is first tried, with nothing forced, or
not at all. But what is forced later may be just what would have brought a missing output.

Main statement: `Plan.fails_unforced`.
-/

namespace Converge

open Graph (Ordered)
open Replacement (Fades)

namespace Verdicts

/-- Whether less is known by one table of verdicts than by another: of an output the same, or that it
shows only later. -/
def Fade (v w : Verdicts) : Prop :=
  ∀ r, Verdict.lookupIn w r = Verdict.lookupIn v r ∨ Verdict.lookupIn w r = .deferred

theorem Fade.refl (v : Verdicts) : Fade v v := fun _ => .inl rfl

theorem Fade.insert {v w : Verdicts} (h : Fade v w) {own own' : Verdict} (hown : Fades own own')
    (id : String) : Fade (v.insert id own) (w.insert id own') := by
  intro r
  rw [Verdict.lookupIn, Verdict.lookupIn, Table.get?_insert, Table.get?_insert]
  by_cases heq : r.nodeId = id
  · rw [if_pos heq, if_pos heq]
    exact hown r.output
  · rw [if_neg heq, if_neg heq]
    exact h r

end Verdicts

namespace NodePlan

variable {node : Node} {records : Table Record} {forced forced' : Table String}
  {v w : Verdicts} {p q : NodePlan}

/-! ## Later rounds -/

/-- Where less is known, at least as much changes. -/
theorem Parted.changed_mono {resolved resolved' : Attributes} {deferred deferred' : Declared}
    (h : Parted (Verdict.lookupIn v) node.attributes resolved deferred)
    (h' : Parted (Verdict.lookupIn w) node.attributes resolved' deferred') (hfade : v.Fade w)
    (r : Record) {name : String}
    (hname : name ∈ (Patch.between node.kind resolved deferred r.attributes).changed) :
    name ∈ (Patch.between node.kind resolved' deferred' r.attributes).changed := by
  obtain ⟨patch, hpatch, hmono, -⟩ := Replacement.patch?_fades r h fun _ ref _ => hfade ref
  obtain rfl := Option.some.inj ((Replacement.patch?_eq h').symm.trans hpatch)
  exact hmono name hname

/-- What is replaced where more is known is replaced where less is. -/
theorem Decided.replace_of_fade (hp : p.Decided records forced v) (hq : q.Decided records forced' w)
    (hnode : p.node = q.node) (hfade : v.Fade w)
    (hforced : ∀ id, forced.contains id = true → forced'.contains id = true)
    (hreplace : p.decision = .replace) : q.decision = .replace := by
  obtain ⟨hmanaged, r, hr⟩ := hp.recorded hreplace
  rcases hq.replace_or_stays (hnode ▸ hmanaged) (hnode ▸ hr) with
    hreplace' | ⟨hkind, hunforced, hparted, hstays⟩
  · exact hreplace'
  cases hp with
  | replace r' _ record _ parted cause =>
    obtain rfl := Option.some.inj (hr.symm.trans record)
    rcases cause with hkind' | ⟨change, hchange, hforces⟩ | hforce
    · exact absurd (hnode ▸ hkind) hkind'
    · rw [hnode] at parted hchange
      obtain ⟨change', hchange', hname⟩ := List.mem_map.1
        (parted.changed_mono hparted hfade r (List.mem_map_of_mem hchange))
      have hstays' := hstays change' hchange'
      rw [Patch.forcesReplacement_eq hchange', hname, ← Patch.forcesReplacement_eq hchange,
        hforces] at hstays'
      cases hstays'
    · cases hunforced.symm.trans (hnode ▸ hforced _ hforce)
  | existing _ _ _ decision => cases hreplace.symm.trans decision
  | create _ _ decision => cases hreplace.symm.trans decision
  | update _ _ _ _ decision => cases hreplace.symm.trans decision
  | keep _ _ _ _ decision => cases hreplace.symm.trans decision

/-- Where less is known before a node and at least as many nodes are forced, less is known of it. -/
theorem Decided.fades (hp : p.Decided records forced v) (hq : q.Decided records forced' w)
    (hnode : p.node = q.node) (hfade : v.Fade w)
    (hforced : ∀ id, forced.contains id = true → forced'.contains id = true) :
    Fades p.verdict q.verdict := by
  cases hlifecycle : q.node.lifecycle with
  | existing providerId outputs =>
    rw [hp.verdict_of_existing (hnode ▸ hlifecycle), hq.verdict_of_existing hlifecycle]
    exact .refl _
  | managed =>
    cases hr : records.get? q.node.id with
    | none =>
      rw [verdict_create (hq.create_of_unrecorded hlifecycle hr)]
      exact Replacement.fades_of_replaced (.inl rfl)
    | some r =>
    by_cases hgone : q.decision = .replace
    · rw [verdict_replace hgone]
      exact Replacement.fades_of_replaced (.inr rfl)
    obtain ⟨hparted, hverdict⟩ := hp.verdict_of_stays (hnode ▸ hlifecycle) (hnode ▸ hr)
      fun h => hgone (hp.replace_of_fade hq hnode hfade hforced h)
    obtain ⟨hparted', hverdict'⟩ := hq.verdict_of_stays hlifecycle hr hgone
    rw [hnode] at hparted hverdict
    have hmono : ∀ name ∈ (Patch.between q.node.kind p.resolved p.deferred r.attributes).changed,
        name ∈ (Patch.between q.node.kind q.resolved q.deferred r.attributes).changed :=
      fun name => hparted.changed_mono hparted' hfade r
    rcases hverdict with ⟨hverdict, -⟩ | ⟨hverdict, hchanged⟩ <;>
      rcases hverdict' with ⟨hverdict', hunchanged⟩ | ⟨hverdict', -⟩ <;> rw [hverdict, hverdict']
    · exact .refl _
    · exact Replacement.fades_keep_update
    · rw [hunchanged] at hmono
      exact absurd (List.eq_nil_iff_forall_not_mem.2 fun name hname =>
        List.not_mem_nil (hmono name hname)) hchanged
    · exact Replacement.fades_update hmono

theorem exists_decide_of_fade {recorded : Option Record} {own : NodePlan}
    (h : decide node recorded v = .ok own) (hfade : v.Fade w) :
    ∃ own', decide node recorded w = .ok own' := by
  rw [decide] at h ⊢
  split at h
  · next hexisting => exact ⟨_, if_pos hexisting⟩
  · next hexisting =>
    obtain ⟨⟨resolved, deferred⟩, hparts, -⟩ := bind_eq_ok_iff.1 h
    obtain ⟨resolved', deferred', hparted, -⟩ :=
      (resolveAttributes_eq_ok_iff.1 hparts).fades fun _ r _ => hfade r
    rw [if_neg hexisting, resolveAttributes_eq_ok_iff.2 hparted]
    cases recorded <;> exact ⟨_, rfl⟩

/-- Where at least as many nodes are forced, deciding succeeds as well, and less is known. -/
theorem exists_decideAll_of_forced {order : List Node} {plans : List NodePlan}
    (hforced : ∀ id, forced.contains id = true → forced'.contains id = true)
    (h : decideAll records forced .empty order = .ok plans) :
    ∃ plans', decideAll records forced' .empty order = .ok plans' ∧
      (Verdicts.ofPlans plans).Fade (Verdicts.ofPlans plans') := by
  induction order using List.reverseRecOn generalizing plans with
  | nil =>
    obtain rfl := Except.ok.inj h
    exact ⟨[], rfl, .refl _⟩
  | append_singleton order last ih =>
    obtain ⟨before, own, hbefore, hown, rfl⟩ := decideAll_concat.1 h
    obtain ⟨before', hbefore', hfade⟩ := ih hbefore
    obtain ⟨own', hown'⟩ := exists_decide_of_fade hown hfade
    have hlast := decide_node hown
    have hlast' := decide_node hown'
    refine ⟨_, decideAll_concat.2 ⟨before', own', hbefore', hown', rfl⟩, ?_⟩
    rw [Verdicts.ofPlans_concat, Verdicts.ofPlans_concat, force_node, force_node, hlast, hlast']
    refine hfade.insert ((Decided.of_decide hown).fades (Decided.of_decide hown') ?_ hfade hforced) _
    rw [force_node, force_node, hlast, hlast']

/-! ## Why deciding fails -/

/-- Whether a node that stays as it is does not have an output: one that is declared as existing
without it, or one for which nothing else is wanted than what is recorded, without it. -/
inductive Lacks (records : Table Record) (p : NodePlan) (output : String) : Prop
  | existing (providerId : String) (outputs : Outputs)
    (lifecycle : p.node.lifecycle = .existing providerId outputs)
    (missing : outputs.get? output = none)
  | kept (r : Record)
    (lifecycle : p.node.lifecycle = .managed)
    (record : records.get? p.node.id = some r)
    (decision : p.decision = .keep)
    (kind : r.kind = p.node.kind)
    (unchanged : (Patch.between p.node.kind p.resolved p.deferred r.attributes).changes = [])
    (missing : r.outputs.get? output = none)

theorem Decided.lacks (h : p.Decided records forced v) {output : String}
    (hmissing : p.verdict.lookup output = .missing) : p.Lacks records output := by
  obtain ⟨hdecision, houtput⟩ := Verdict.of_lookup_eq_missing hmissing
  cases h with
  | existing providerId outputs lifecycle decision =>
    rw [verdict_existing lifecycle decision] at houtput
    exact .existing providerId outputs lifecycle houtput
  | create _ _ decision =>
    rw [verdict_create decision] at hdecision
    rcases hdecision with hdecision | hdecision <;> cases hdecision
  | replace _ _ _ decision =>
    rw [verdict_replace decision] at hdecision
    rcases hdecision with hdecision | hdecision <;> cases hdecision
  | update r _ _ prior decision =>
    rw [verdict_update decision prior] at hdecision
    rcases hdecision with hdecision | hdecision <;> cases hdecision
  | keep r lifecycle record prior decision _ kind unchanged =>
    rw [verdict_keep decision prior] at houtput
    exact .kept r lifecycle record decision kind unchanged houtput

theorem of_resolveAttributes_eq_error {entries : List (String × AttributeValue)} {cause : PlanError}
    (h : resolveAttributes node v entries = .error cause) :
    ∃ name value r, cause = .unresolvedReference node.id name ∧ (name, value) ∈ entries ∧
      r ∈ value.references ∧ Verdict.lookupIn v r = .missing := by
  induction entries with
  | nil => cases h
  | cons entry rest ih =>
    obtain ⟨name, value⟩ := entry
    have hmore : resolveAttributes node v rest = .error cause →
        ∃ name' value' r, cause = .unresolvedReference node.id name' ∧
          (name', value') ∈ (name, value) :: rest ∧ r ∈ value'.references ∧
          Verdict.lookupIn v r = .missing := by
      intro hrest
      obtain ⟨name', value', r, hcause, hmem, hr, hmissing⟩ := ih hrest
      exact ⟨name', value', r, hcause, List.mem_cons_of_mem _ hmem, hr, hmissing⟩
    rw [resolveAttributes] at h
    split at h
    · next target htarget =>
      obtain ⟨r, hr, hmissing⟩ := (AttributeValue.exists_unresolved_iff value).1 ⟨target, htarget⟩
      exact ⟨name, value, r, (Except.error.inj h).symm, List.mem_cons_self .., hr, hmissing⟩
    · rcases bind_eq_error_iff.1 h with hrest | ⟨_, -, hdone⟩
      · exact hmore hrest
      · cases hdone
    · rcases bind_eq_error_iff.1 h with hrest | ⟨_, -, hdone⟩
      · exact hmore hrest
      · cases hdone

/-- A decision fails for an attribute of a managed node, and a reference in that. -/
theorem of_decide_eq_error {recorded : Option Record} {cause : PlanError}
    (h : decide node recorded v = .error cause) :
    node.lifecycle = .managed ∧ ∃ name value r, cause = .unresolvedReference node.id name ∧
      node.attributes.get? name = some value ∧ r ∈ value.references ∧
      Verdict.lookupIn v r = .missing := by
  rw [decide] at h
  split at h
  · cases h
  · next hexisting =>
    refine ⟨isExisting_eq_false_iff.1 (Bool.eq_false_iff.2 hexisting), ?_⟩
    rcases bind_eq_error_iff.1 h with hparts | ⟨_, -, hdone⟩
    · obtain ⟨name, value, r, hcause, hmem, hr, hmissing⟩ := of_resolveAttributes_eq_error hparts
      exact ⟨name, value, r, hcause, Table.mem_entries.1 hmem, hr, hmissing⟩
    · cases recorded <;> cases hdone

theorem of_decideAll_eq_error_from {order : List Node} {start : Verdicts} {cause : PlanError}
    (h : decideAll records forced start order = .error cause) :
    ∃ before node after plans, order = before ++ node :: after ∧
      decideAll records forced start before = .ok plans ∧
      decide node (records.get? node.id)
        (plans.foldl (fun verdicts p => verdicts.insert p.node.id p.verdict) start) =
          .error cause := by
  induction order generalizing start with
  | nil => cases h
  | cons first rest ih =>
    rcases bind_eq_error_iff.1 h with hown | ⟨own, hown, h⟩
    · exact ⟨[], first, rest, [], rfl, rfl, hown⟩
    rcases bind_eq_error_iff.1 h with hrest | ⟨_, -, hdone⟩
    case inr => cases hdone
    obtain ⟨before, node, after, plans, rfl, hplans, hfails⟩ := ih hrest
    refine ⟨first :: before, node, after, own.force (forced.get? first.id) :: plans, rfl, ?_, ?_⟩
    · exact bind_eq_ok_iff.2 ⟨own, hown, bind_eq_ok_iff.2 ⟨plans, hplans, rfl⟩⟩
    · rwa [List.foldl_cons, force_node, decide_node hown]

/-- Deciding fails with the first decision that does. -/
theorem of_decideAll_eq_error {order : List Node} {cause : PlanError}
    (h : decideAll records forced .empty order = .error cause) :
    ∃ before node after plans, order = before ++ node :: after ∧
      decideAll records forced .empty before = .ok plans ∧
      decide node (records.get? node.id) (Verdicts.ofPlans plans) = .error cause :=
  of_decideAll_eq_error_from h

/-- A missing output is one that a node before lacks. -/
theorem exists_lacks {before after : List Node} {plans : List NodePlan}
    (ho : Ordered (before ++ node :: after))
    (hplans : decideAll records forced .empty before = .ok plans) {name : String}
    {value : AttributeValue} {r : Reference} (hvalue : node.attributes.get? name = some value)
    (hr : r ∈ value.references)
    (hmissing : Verdict.lookupIn (Verdicts.ofPlans plans) r = .missing) :
    ∃ p ∈ plans, p.node.id = r.nodeId ∧ p.Lacks records r.output := by
  obtain ⟨producer, hproducer, hid⟩ :=
    ho.before _ _ _ rfl r.nodeId (Verdict.mem_dependencyIds hvalue hr)
  obtain ⟨p, hp, rfl⟩ : ∃ p ∈ plans, p.node = producer := by
    rwa [← decideAll_nodes hplans, List.mem_map] at hproducer
  obtain ⟨hverdict, hdecided⟩ := decideAll_spec ho.of_append hplans p hp
  rw [Verdict.lookupIn, ← hid, hverdict] at hmissing
  exact ⟨p, hp, hid, hdecided.lacks hmissing⟩

end NodePlan

/-! ## Rounds -/

namespace Synthesis

variable {g : Graph} {order : List Node} {prior : Option State}

/-- Rounds do not fail if deciding does not with nothing forced. -/
theorem settle_ne_error {plans : List NodePlan}
    (h : NodePlan.decideAll (recordsOf prior) .empty .empty order = .ok plans) (fuel : Nat)
    (forced : Table String) (cause : PlanError) :
    settle g order prior fuel forced ≠ .error cause := by
  induction fuel generalizing forced with
  | zero => exact fun hfails => by cases hfails
  | succ fuel ih =>
    have hforced : ∀ id, (Table.empty : Table String).contains id = true →
        forced.contains id = true := fun id hid => by cases hid
    obtain ⟨plans', hplans, -⟩ := NodePlan.exists_decideAll_of_forced hforced h
    intro hfails
    rw [settle] at hfails
    rcases bind_eq_error_iff.1 hfails with hround | ⟨⟨settlement, further⟩, -, hrest⟩
    · rcases bind_eq_error_iff.1 hround with hfails' | ⟨_, -, hdone⟩
      · cases hplans.symm.trans hfails'
      · cases hdone
    · by_cases hempty : further.isEmpty = true
      · cases (if_pos hempty).symm.trans hrest
      · exact ih _ ((if_neg hempty).symm.trans hrest)

/-- Deciding fails if and only if it does with nothing forced. -/
theorem outcome_eq_error_iff {cause : PlanError} : outcome g order prior = some (.error cause) ↔
    NodePlan.decideAll (recordsOf prior) .empty .empty order = .error cause := by
  have hfirst : ∀ {cause}, NodePlan.decideAll (recordsOf prior) .empty .empty order = .error cause →
      outcome g order prior = some (.error cause) := by
    intro cause h
    refine outcome_eq_some_iff.2 ⟨1, ?_⟩
    rw [settle, round, h]
    rfl
  refine ⟨fun h => ?_, hfirst⟩
  cases hplans : NodePlan.decideAll (recordsOf prior) .empty .empty order with
  | ok plans =>
    obtain ⟨fuel, hsettle⟩ := outcome_eq_some_iff.1 h
    exact absurd hsettle (settle_ne_error hplans fuel .empty cause)
  | error other =>
    have hsame := (hfirst hplans).symm.trans h
    rw [Except.error.inj (Option.some.inj hsame)]

end Synthesis

namespace Plan

variable {g : Graph} {order : List Node} {prior : Option State}

/-- There is no plan for the reason that deciding fails if and only if it does. -/
theorem synthesize_eq_error_iff (hsorted : g.sortedNodes = .ok order) (now : Instant)
    {cause : PlanError} : synthesize g prior now = .error (.plan cause) ↔
      Synthesis.outcome g order prior = some (.error cause) := by
  constructor
  · intro h
    rcases bind_eq_error_iff.1 h with hsteps | ⟨_, -, hdone⟩
    case inr => cases hdone
    rcases bind_eq_error_iff.1 hsteps with horder | ⟨order', horder, hsteps⟩
    · obtain ⟨_, -, hcause⟩ := mapError_eq_error_iff.1 horder
      cases hcause
    obtain rfl := Except.ok.inj (hsorted.symm.trans (mapError_eq_ok_iff.1 horder))
    cases houtcome : Synthesis.outcome g order prior with
    | none =>
      rw [houtcome] at hsteps
      cases hsteps
    | some result =>
      rw [houtcome] at hsteps
      rcases bind_eq_error_iff.1 hsteps with hfails | ⟨settlement, -, hsteps⟩
      · obtain ⟨inner, rfl, hcause⟩ := mapError_eq_error_iff.1 hfails
        rw [Error.plan.inj hcause]
      cases prior with
      | none => cases hsteps
      | some s =>
        rcases bind_eq_error_iff.1 hsteps with hfails | ⟨_, -, hdone⟩
        · obtain ⟨_, -, hcause⟩ := mapError_eq_error_iff.1 hfails
          cases hcause
        · cases hdone
  · intro h
    have hsteps : Synthesis.steps g prior = .error (.plan cause) := by
      refine bind_eq_error_iff.2 (.inr ⟨order, mapError_eq_ok_iff.2 hsorted, ?_⟩)
      rw [h]
      rfl
    exact bind_eq_error_iff.2 (.inl hsteps)

/-- Deciding fails at once or not at all, and the first attribute at which it does has a reference to
a node before that lacks the output: one that is existing, or that would be kept if nothing were
forced. -/
theorem fails_unforced {declarations : List Declaration}
    (hg : Graph.ofDeclarations declarations = .ok g) (prior : Option State) (now : Instant) :
    ∃ order, g.sortedNodes = .ok order ∧
      (∀ cause, synthesize g prior now = .error (.plan cause) ↔
        NodePlan.decideAll (Synthesis.recordsOf prior) .empty .empty order = .error cause) ∧
      ∀ cause, synthesize g prior now = .error (.plan cause) →
        ∃ before node after plans name value r p, order = before ++ node :: after ∧
          NodePlan.decideAll (Synthesis.recordsOf prior) .empty .empty before = .ok plans ∧
          cause = .unresolvedReference node.id name ∧ node.lifecycle = .managed ∧
          node.attributes.get? name = some value ∧ r ∈ value.references ∧
          p ∈ plans ∧ p.node.id = r.nodeId ∧ p.Lacks (Synthesis.recordsOf prior) r.output := by
  obtain ⟨order, hsorted, -, ho⟩ := (Graph.Linked.ofDeclarations hg).sortedNodes
  have hfails : ∀ cause, synthesize g prior now = .error (.plan cause) ↔
      NodePlan.decideAll (Synthesis.recordsOf prior) .empty .empty order = .error cause :=
    fun cause => (synthesize_eq_error_iff hsorted now).trans Synthesis.outcome_eq_error_iff
  refine ⟨order, hsorted, hfails, fun cause h => ?_⟩
  obtain ⟨before, node, after, plans, rfl, hplans, hdecide⟩ :=
    NodePlan.of_decideAll_eq_error ((hfails cause).1 h)
  obtain ⟨hmanaged, name, value, r, hcause, hvalue, hr, hmissing⟩ :=
    NodePlan.of_decide_eq_error hdecide
  obtain ⟨p, hp, hid, hlacks⟩ := NodePlan.exists_lacks ho hplans hvalue hr hmissing
  exact ⟨before, node, after, plans, name, value, r, p, rfl, hplans, hcause, hmanaged, hvalue, hr,
    hp, hid, hlacks⟩

def forwardGroup : Declaration :=
  { id := "group", kind := .targetGroup, attributes := .ofList [("port", .natural 80)] }

/-- A listener that hands on to a target group. -/
def forwardListener : Declaration :=
  { id := "listener", kind := .listener,
    attributes := .ofList [("default_target_group", .output "group" "arn")] }

def forwardDeclarations : List Declaration := [forwardGroup, forwardListener]

/-- The target group as it was recorded without outputs, and a network. -/
def forwardState (dependencies : List String) : State :=
  { State.new "shop" "test" ⟨0, 0⟩ with
    resources := .ofList [
      ("network", .new "network" .network "ne-1" ⟨0, 0⟩),
      ("group", { Record.new "group" .targetGroup "tg-1" ⟨0, 0⟩ with
        attributes := .ofList [("port", .natural 80)], dependencies, sequence := 1 })] }

theorem fails_forward (dependencies : List String) (h : dependencies ∈ [[], ["network"]]) :
    ∃ g, Graph.ofDeclarations forwardDeclarations = .ok g ∧
      synthesize g (some (forwardState dependencies)) ⟨0, 0⟩ =
        .error (.plan (.unresolvedReference "listener" "default_target_group")) := by
  have hdecide : ∀ dependencies ∈ [[], ["network"]],
      ((Graph.ofDeclarations forwardDeclarations).toOption.bind fun g =>
        g.sortedNodes.toOption.map fun order =>
          (NodePlan.decideAll (forwardState dependencies).resources .empty .empty order).map
            fun _ => ()) =
        some (.error (.unresolvedReference "listener" "default_target_group")) := by
    decide +kernel
  obtain ⟨g, hg, hdecide⟩ := Option.bind_eq_some_iff.1 (hdecide dependencies h)
  obtain ⟨order, hsorted, hdecide⟩ := Option.map_eq_some_iff.1 hdecide
  rw [toOption_eq_some_iff] at hg hsorted
  refine ⟨g, hg, (synthesize_eq_error_iff hsorted _).2 (Synthesis.outcome_eq_error_iff.2 ?_)⟩
  cases hplans : NodePlan.decideAll (forwardState dependencies).resources .empty .empty order with
  | ok plans =>
    rw [hplans] at hdecide
    cases hdecide
  | error cause =>
    rw [hplans] at hdecide
    rw [← Except.error.inj hdecide]
    exact hplans

/-- The target group is kept, and its address was never recorded. -/
theorem fails_unforced_forward :
    ∃ g, Graph.ofDeclarations forwardDeclarations = .ok g ∧
      synthesize g (some (forwardState [])) ⟨0, 0⟩ =
        .error (.plan (.unresolvedReference "listener" "default_target_group")) ∧
      ∃ (node : Node) (value : AttributeValue) (r : Reference) (p : NodePlan),
        node.id = "listener" ∧ node.attributes.get? "default_target_group" = some value ∧
        r ∈ value.references ∧ p.node.id = r.nodeId ∧
        p.Lacks (forwardState []).resources r.output := by
  obtain ⟨g, hg, hfails⟩ := fails_forward [] (by simp)
  obtain ⟨order, -, -, hlacks⟩ := fails_unforced hg (some (forwardState [])) ⟨0, 0⟩
  obtain ⟨before, node, after, plans, name, value, r, p, -, -, hcause, -, hvalue, hr, -, hid, hp⟩ :=
    hlacks _ hfails
  obtain ⟨hnode, rfl⟩ := PlanError.unresolvedReference.inj hcause
  exact ⟨g, hg, hfails, node, value, r, p, hnode.symm, hvalue, hr, hid, hp⟩

/-- The target group was recorded as depending on a network that is no longer declared, so that it
has to be replaced. That would bring the address which is reported as one that nothing brings. -/
theorem fails_replaced :
    ∃ g order, Graph.ofDeclarations forwardDeclarations = .ok g ∧ g.sortedNodes = .ok order ∧
      (forwardState ["network"]).KeysMatch ∧
      synthesize g (some (forwardState ["network"])) ⟨0, 0⟩ =
        .error (.plan (.unresolvedReference "listener" "default_target_group")) ∧
      (∀ node ∈ g.nodes, node.id = "listener" →
        node.attributes.get? "default_target_group" = some (.output "group" "arn")) ∧
      ∀ X, Replacement.Closed g order (forwardState ["network"]).resources X → "group" ∈ X := by
  obtain ⟨g, hg, hnodes, hundeclared⟩ : ∃ g, Graph.ofDeclarations forwardDeclarations = .ok g ∧
      g.nodes = forwardDeclarations.map (·.node) ∧ g.contains "network" = false :=
    ⟨_, rfl, rfl, rfl⟩
  obtain ⟨g', hg', hfails⟩ := fails_forward ["network"] (by simp)
  obtain rfl := Except.ok.inj (hg.symm.trans hg')
  obtain ⟨order, hsorted, -⟩ := (Graph.Linked.ofDeclarations hg).sortedNodes
  have hkeys : (forwardState ["network"]).KeysMatch := by
    decide +kernel
  refine ⟨g, order, hg, hsorted, hkeys, hfails, ?_, fun X hX => ?_⟩
  · intro node hnode hid
    simp only [hnodes, forwardDeclarations, List.map_cons, List.map_nil, List.mem_cons,
      List.not_mem_nil, or_false] at hnode
    rcases hnode with rfl | rfl
    · exact absurd hid (by decide)
    · rfl
  · have hgroup : forwardGroup.node ∈ g.nodes := by
      rw [hnodes]
      exact List.mem_cons_self ..
    exact hX.dependency _ hgroup rfl _ rfl "network" (List.mem_cons_self ..)
      ⟨_, rfl, rfl, .inl hundeclared⟩

end Plan

end Converge
