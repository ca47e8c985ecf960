import Converge.Proofs.Execution.Values
import Converge.Proofs.Plan.Replacement

/-!
# Nodes that a plan leaves alone

A node is up to date if its record holds what its declaration comes to under the outputs of its
dependencies, and these are up to date as well. The next plan leaves such a node alone, whatever
becomes of all others.

Main statements: `UpToDate.action_eq_noop` for the nodes of any plan, and `UpToDate.synthesize` if
all nodes are up to date.
-/

namespace Converge

open Graph (Ordered)

/-! ## Verdicts on nodes that stay -/

namespace Verdict

/-- Whether the verdict leaves a node alone, with the given outputs. -/
def Stays (v : Verdict) (outputs : Outputs) : Prop :=
  (v.decision = .keep ∨ v.decision = .existing) ∧ v.outputs = outputs

theorem Stays.lookup {v : Verdict} {outputs : Outputs} (h : v.Stays outputs) {output : String}
    {value : Json} (hvalue : outputs.get? output = some value) :
    v.lookup output = .known value := by
  obtain ⟨hdecision, rfl⟩ := h
  rcases hdecision with hdecision | hdecision <;> simp [Verdict.lookup, hdecision, hvalue]

theorem Stays.get?_of_lookup {v : Verdict} {outputs : Outputs} (h : v.Stays outputs)
    {output : String} {value : Json} (hvalue : v.lookup output = .known value) :
    outputs.get? output = some value := by
  obtain ⟨hdecision, rfl⟩ := h
  rcases hdecision with hdecision | hdecision <;> rw [Verdict.lookup, hdecision] at hvalue <;>
    cases hheld : v.outputs.get? output <;> simp_all

/-- What is known of a node that is updated is not about to change. -/
theorem get?_of_lookup_update {outputs : Outputs} {changing : List String} {output : String}
    {value : Json}
    (h : ({ decision := .update, outputs, changing } : Verdict).lookup output = .known value) :
    outputs.get? output = some value ∧ output ∉ changing := by
  simp only [Verdict.lookup] at h
  cases hheld : outputs.get? output with
  | none => rw [hheld] at h; cases h
  | some held =>
    rw [hheld] at h
    by_cases hmem : output ∈ changing
    · simp [hmem] at h
    · simp only [List.contains_eq_mem, hmem, decide_false, Bool.false_eq_true, if_false] at h
      exact ⟨congrArg some (Lookup.known.inj h), hmem⟩

/-- A reference to a node that stays is what the recorded outputs say. -/
theorem Stays.lookupIn {verdicts : Verdicts} {t : OutputTable} {r : Reference} {v : Verdict}
    {outputs : Outputs} (h : v.Stays outputs) (hv : verdicts.get? r.nodeId = some v)
    (ht : t.outputs.get? r.nodeId = some outputs) {value : Json} (hvalue : t.get? r = some value) :
    Verdict.lookupIn verdicts r = .known value := by
  have houtput : outputs.get? r.output = some value := by
    rw [OutputTable.get?, ht] at hvalue
    exact hvalue
  rw [Verdict.lookupIn, hv]
  exact h.lookup houtput

end Verdict

/-! ## Nodes that are up to date -/

/-- Whether recorded attributes are what declared ones come to under recorded outputs. -/
structure Matches (t : OutputTable) (declared : Declared) (recorded : Attributes) : Prop where
  wanted : ∀ {name : String} {value : AttributeValue}, declared.get? name = some value →
    ∃ known old, value.substitute t.get? = some known ∧ recorded.get? name = some old ∧
      known.agrees old = true
  held : ∀ {name : String} {old : Json}, recorded.get? name = some old →
    ∃ value, declared.get? name = some value

/-- Whether what is recorded of a node is what it is declared to be, and this depends on nodes of a
set only. -/
structure UpToDate (records : Table Record) (t : OutputTable) (S : Set String) (node : Node) :
    Prop where
  dependencies : ∀ id ∈ node.dependencyIds, id ∈ S
  existing : ∀ {providerId : String} {outputs : Outputs},
    node.lifecycle = .existing providerId outputs → t.outputs.get? node.id = some outputs
  managed : node.lifecycle = .managed → ∃ r, records.get? node.id = some r ∧ r.kind = node.kind ∧
    t.outputs.get? node.id = some r.outputs ∧ (∀ id ∈ r.dependencies, id ∈ S) ∧
      Matches t node.attributes r.attributes

/-- Whether the nodes of a set stay by given verdicts. -/
def Settled (t : OutputTable) (S : Set String) (verdicts : Verdicts) : Prop :=
  ∀ id ∈ S, ∃ v outputs, verdicts.get? id = some v ∧ t.outputs.get? id = some outputs ∧
    v.Stays outputs

variable {records : Table Record} {t : OutputTable} {S X : Set String} {verdicts : Verdicts}
  {node : Node}

/-- If all that a node refers to stays, nothing about it is deferred, and nothing changes. -/
theorem Matches.parted {r : Record} (h : Matches t node.attributes r.attributes)
    (hsettled : Settled t {id | id ∈ node.dependencyIds} verdicts) :
    ∃ resolved deferred,
      NodePlan.Parted (Verdict.lookupIn verdicts) node.attributes resolved deferred ∧
        (Patch.between node.kind resolved deferred r.attributes).changes = [] := by
  have hlookup : ∀ {name : String} {value : AttributeValue},
      node.attributes.get? name = some value → ∀ r ∈ value.references,
        ∃ known, t.get? r = some known ∧ Verdict.lookupIn verdicts r = .known known := by
    intro name value hvalue r hr
    obtain ⟨known, old, hknown, -⟩ := h.wanted hvalue
    obtain ⟨found, hfound⟩ := (AttributeValue.exists_substitute_iff value).1 ⟨known, hknown⟩ r hr
    obtain ⟨v, outputs, hv, ht, hstays⟩ := hsettled _ (Verdict.mem_dependencyIds hvalue hr)
    exact ⟨found, hfound, hstays.lookupIn hv ht hfound⟩
  have hresolved : ∀ {name : String} {value : AttributeValue},
      node.attributes.get? name = some value → ∃ known old,
        value.resolveWith (Verdict.lookupIn verdicts) = .resolved known ∧
          r.attributes.get? name = some old ∧ known.agrees old = true := by
    intro name value hvalue
    obtain ⟨known, old, hknown, hold, hagrees⟩ := h.wanted hvalue
    refine ⟨known, old, (AttributeValue.resolveWith_eq_resolved_iff value).2 ?_, hold, hagrees⟩
    rw [← hknown]
    refine AttributeValue.substitute_congr value fun r hr => ?_
    obtain ⟨found, hfound, hlookup⟩ := hlookup hvalue r hr
    rw [hlookup, hfound]
    rfl
  obtain ⟨⟨resolved, deferred⟩, hparts⟩ : ∃ parts,
      NodePlan.resolveAttributes node verdicts node.attributes.entries = .ok parts := by
    refine NodePlan.exists_resolveAttributes node fun name value hmem r hr hmissing => ?_
    obtain ⟨found, -, hfound⟩ := hlookup (Table.mem_entries.1 hmem) r hr
    rw [hfound] at hmissing
    cases hmissing
  have hparted := NodePlan.resolveAttributes_eq_ok_iff.1 hparts
  refine ⟨resolved, deferred, hparted, Patch.changes_eq_nil ?_ ?_⟩
  · intro name
    refine Option.eq_none_iff_forall_ne_some.2 fun value hvalue => ?_
    obtain ⟨hattribute, hdeferred⟩ := hparted.deferred.1 hvalue
    obtain ⟨known, old, hknown, -⟩ := hresolved hattribute
    rw [hknown] at hdeferred
    cases hdeferred
  · intro name hname
    obtain ⟨value, hvalue⟩ : ∃ value, node.attributes.get? name = some value := by
      rcases hname with hname | hname
      · obtain ⟨known, hknown⟩ := Table.contains_iff.1 hname
        obtain ⟨value, hvalue, -⟩ := hparted.resolved.1 hknown
        exact ⟨value, hvalue⟩
      · obtain ⟨old, hold⟩ := Table.contains_iff.1 hname
        exact h.held hold
    obtain ⟨known, old, hknown, hold, hagrees⟩ := hresolved hvalue
    rw [hparted.resolved.2 ⟨value, hvalue, hknown⟩, hold]
    exact hagrees

/-! ## Attributes that match -/

section matching

variable {lookup : Reference → Lookup} {declared : Declared} {resolved recorded : Attributes}
  {deferred : Declared} {kind : Kind}

theorem exists_known_of_resolved {value : AttributeValue} {known : Json}
    (hvalue : value.resolveWith lookup = .resolved known) :
    ∀ r ∈ value.references, ∃ x, lookup r = .known x := by
  intro r hr
  obtain ⟨x, hx⟩ := (AttributeValue.exists_substitute_iff value).1
    ⟨known, (AttributeValue.resolveWith_eq_resolved_iff value).1 hvalue⟩ r hr
  cases hfound : lookup r with
  | known found => exact ⟨found, rfl⟩
  | deferred => rw [hfound] at hx; cases hx
  | missing => rw [hfound] at hx; cases hx

/-- What was known of a value when the plan was made is what it comes to with other outputs that
agree with those. -/
theorem exists_substitute_of_known {f : Reference → Option Json} {value : AttributeValue}
    {known : Json} (hvalue : value.resolveWith lookup = .resolved known)
    (hknown : ∀ r ∈ value.references, ∀ x, lookup r = .known x →
      ∃ y, f r = some y ∧ y.agrees x = true) :
    ∃ now, value.substitute f = some now ∧ now.agrees known = true := by
  have hlookup : ∀ r ∈ value.references, ∃ x y, lookup r = .known x ∧ f r = some y ∧
      y.agrees x = true := by
    intro r hr
    obtain ⟨x, hx⟩ := exists_known_of_resolved hvalue r hr
    obtain ⟨y, hy, hagrees⟩ := hknown r hr x hx
    exact ⟨x, y, hx, hy, hagrees⟩
  obtain ⟨now, hnow⟩ := (AttributeValue.exists_substitute_iff value).2 fun r hr => by
    obtain ⟨x, y, -, hy, -⟩ := hlookup r hr
    exact ⟨y, hy⟩
  refine ⟨now, hnow, AttributeValue.agrees_of_substitute value (fun r hr y x hy hx => ?_) hnow
    ((AttributeValue.resolveWith_eq_resolved_iff value).1 hvalue)⟩
  obtain ⟨x', y', hx', hy', hagrees⟩ := hlookup r hr
  rw [hx'] at hx
  obtain rfl := Option.some.inj (hy'.symm.trans hy)
  obtain rfl := Option.some.inj hx
  exact hagrees

/-- Whether recorded attributes are what was known of the declared ones, and what the outputs make
of those that were deferred. -/
structure Written (lookup : Reference → Lookup) (t : OutputTable) (declared : Declared)
    (recorded : Attributes) : Prop where
  parts : ∀ {name : String} {value : AttributeValue}, declared.get? name = some value →
    (∃ known old, value.resolveWith lookup = .resolved known ∧ recorded.get? name = some old ∧
      known.agrees old = true) ∨
    value.resolveWith lookup = .deferred ∧
      ∃ now, value.substitute t.get? = some now ∧ recorded.get? name = some now
  held : ∀ {name : String} {old : Json}, recorded.get? name = some old →
    ∃ value, declared.get? name = some value

theorem Written.of_prepared (hparted : NodePlan.Parted lookup declared resolved deferred)
    (hprepared : Schedule.prepareAttributes t deferred.entries resolved = .ok recorded) :
    Written lookup t declared recorded := by
  obtain ⟨hlater, hothers⟩ :=
    Schedule.get?_prepareAttributes (Table.nodup_names deferred) hprepared
  refine ⟨fun {name value} hvalue => ?_, fun {name old} hold => ?_⟩
  · cases hresolution : value.resolveWith lookup with
    | resolved known =>
      refine .inl ⟨known, known, rfl, ?_, Json.agrees_refl known⟩
      rw [hothers name, hparted.resolved.2 ⟨value, hvalue, hresolution⟩]
      intro hname
      obtain ⟨value', hvalue'⟩ := Table.mem_names.1 hname
      obtain ⟨hsame, hdeferred⟩ := hparted.deferred.1 hvalue'
      obtain rfl := Option.some.inj (hvalue.symm.trans hsame)
      rw [hresolution] at hdeferred
      cases hdeferred
    | deferred =>
      exact .inr ⟨rfl, hlater name value
        (Table.mem_entries.2 (hparted.deferred.2 ⟨hvalue, hresolution⟩))⟩
    | unresolved target =>
      obtain ⟨r, hr, hmissing⟩ :=
        (AttributeValue.exists_unresolved_iff value).1 ⟨target, hresolution⟩
      exact absurd hmissing (hparted.found hvalue r hr)
  · by_cases hname : name ∈ deferred.names
    · obtain ⟨value, hvalue⟩ := Table.mem_names.1 hname
      exact ⟨value, (hparted.deferred.1 hvalue).1⟩
    · rw [hothers name hname] at hold
      obtain ⟨value, hvalue, -⟩ := hparted.resolved.1 hold
      exact ⟨value, hvalue⟩

/-- Recorded attributes that need no change are what is known of the declared ones. -/
theorem Written.of_unchanged (hparted : NodePlan.Parted lookup declared resolved deferred)
    (hunchanged : (Patch.between kind resolved deferred recorded).changes = []) :
    Written lookup t declared recorded := by
  obtain ⟨hdeferred, hsame⟩ := Patch.same_of_changes_eq_nil hunchanged
  have hboth : ∀ name, resolved.contains name = true ∨ recorded.contains name = true →
      ∃ known old, resolved.get? name = some known ∧ recorded.get? name = some old ∧
        known.agrees old = true := by
    intro name hname
    have hvalue := hsame name hname
    cases hknown : resolved.get? name with
    | none => rw [hknown] at hvalue; cases hvalue
    | some known =>
      cases hold : recorded.get? name with
      | none => rw [hknown, hold] at hvalue; cases hvalue
      | some old =>
        rw [hknown, hold] at hvalue
        exact ⟨known, old, rfl, rfl, hvalue⟩
  refine ⟨fun {name value} hvalue => ?_, fun {name old} hold => ?_⟩
  · cases hresolution : value.resolveWith lookup with
    | resolved known =>
      have hresolved := hparted.resolved.2 ⟨value, hvalue, hresolution⟩
      obtain ⟨known', old, hknown', hold, hagrees⟩ :=
        hboth name (.inl (Table.contains_iff.2 ⟨known, hresolved⟩))
      obtain rfl := Option.some.inj (hresolved.symm.trans hknown')
      exact .inl ⟨known, old, rfl, hold, hagrees⟩
    | deferred =>
      exact nomatch (hdeferred name).symm.trans (hparted.deferred.2 ⟨hvalue, hresolution⟩)
    | unresolved target =>
      obtain ⟨r, hr, hmissing⟩ :=
        (AttributeValue.exists_unresolved_iff value).1 ⟨target, hresolution⟩
      exact absurd hmissing (hparted.found hvalue r hr)
  · obtain ⟨known, -, hresolved, -⟩ := hboth name (.inr (Table.contains_iff.2 ⟨old, hold⟩))
    obtain ⟨value, hvalue, -⟩ := hparted.resolved.1 hresolved
    exact ⟨value, hvalue⟩

/-- What has been written matches what is declared if the outputs are those that were known. -/
theorem Written.matches (h : Written lookup t declared recorded)
    (hknown : ∀ {name : String} {value : AttributeValue}, declared.get? name = some value →
      ∀ r ∈ value.references, ∀ x, lookup r = .known x →
        ∃ y, t.get? r = some y ∧ y.agrees x = true) :
    Matches t declared recorded := by
  refine ⟨fun hvalue => ?_, h.held⟩
  rcases h.parts hvalue with ⟨known, old, hresolved, hold, hagrees⟩ | ⟨-, now, hnow, hrecorded⟩
  · obtain ⟨now, hnow, hsame⟩ := exists_substitute_of_known hresolved (hknown hvalue)
    exact ⟨now, old, hnow, hold, Json.agrees_trans now hsame hagrees⟩
  · exact ⟨now, now, hnow, hrecorded, Json.agrees_refl now⟩

end matching

section settled

variable {order : List Node}

/-- Nodes that are up to date stay if none of them is replaced. -/
theorem settled_verdicts (ho : Ordered order) (hids : ∀ id ∈ S, ∃ node ∈ order, node.id = id)
    (hS : ∀ node ∈ order, node.id ∈ S → UpToDate records t S node) (hX : ∀ id ∈ S, id ∉ X) :
    Settled t S (Replacement.verdicts records X order) := by
  have hnode : ∀ node ∈ order, node.id ∈ S → ∃ v outputs,
      (Replacement.verdicts records X order).get? node.id = some v ∧
        t.outputs.get? node.id = some outputs ∧ v.Stays outputs := by
    refine ho.induction fun node hnode ih hmem => ?_
    have hup := hS node hnode hmem
    have hv : (Replacement.verdicts records X order).get? node.id =
        some (Replacement.verdict records X (Replacement.verdicts records X order) node) :=
      Verdicts.along_get? Replacement.local_verdict ho node hnode
    have hdependencies : Settled t {id | id ∈ node.dependencyIds}
        (Replacement.verdicts records X order) := by
      intro id hid
      obtain ⟨other, hother, rfl⟩ := ho.exists_of_mem hnode hid
      exact ih other hother hid (hup.dependencies _ hid)
    cases hlifecycle : node.lifecycle with
    | existing providerId outputs =>
      refine ⟨_, outputs, hv, hup.existing hlifecycle, ?_⟩
      rw [Replacement.verdict_existing hlifecycle]
      exact ⟨.inr rfl, rfl⟩
    | managed =>
      obtain ⟨r, hrecord, hkind, houtputs, -, hmatches⟩ := hup.managed hlifecycle
      obtain ⟨resolved, deferred, hparted, hunchanged⟩ := hmatches.parted hdependencies
      refine ⟨_, r.outputs, hv, houtputs, ?_⟩
      rw [Replacement.verdict_keep hlifecycle hrecord (hX _ hmem)
        (Replacement.patch?_eq hparted) hunchanged]
      exact ⟨.inl rfl, rfl⟩
  intro id hid
  obtain ⟨node, hmem, rfl⟩ := hids id hid
  exact hnode node hmem hid

/-- The recorded managed nodes of a graph but for those of a set. -/
def othersOf (g : Graph) (records : Table Record) (S : Set String) : Set String :=
  {id | (Cascade.Manages g id ∧ ∃ r, records.get? id = some r) ∧ id ∉ S}

/-- All recorded managed nodes but those that are up to date may be replaced without consequences
for these. -/
theorem closed_othersOf {g : Graph} (hperm : order.Perm g.nodes) (ho : Ordered order)
    (hids : ∀ id ∈ S, ∃ node ∈ order, node.id = id)
    (hS : ∀ node ∈ order, node.id ∈ S → UpToDate records t S node) :
    Replacement.Closed g order records (othersOf g records S) := by
  have hsettled : Settled t S (Replacement.verdicts records (othersOf g records S) order) :=
    settled_verdicts ho hids hS fun id hid hmem => hmem.2 hid
  -- A recorded managed node is in the set unless it is up to date.
  have hin : ∀ node ∈ g.nodes, node.lifecycle = .managed → ∀ r, records.get? node.id = some r →
      (node.id ∈ S → UpToDate records t S node → False) → node.id ∈ othersOf g records S := by
    intro node hnode hmanaged r hrecord hnot
    exact ⟨⟨Replacement.manages_of_mem hnode hmanaged, r, hrecord⟩,
      fun hid => hnot hid (hS node (hperm.mem_iff.2 hnode) hid)⟩
  refine ⟨fun id hid => hid.1, ?_, ?_, ?_⟩
  · intro node hnode hmanaged r hrecord hkind
    refine hin node hnode hmanaged r hrecord fun _ hup => hkind ?_
    obtain ⟨r', hrecord', hkind', -⟩ := hup.managed hmanaged
    rw [Option.some.inj (hrecord.symm.trans hrecord'), hkind']
  · intro node hnode hmanaged r hrecord patch hpatch change hchange _
    refine hin node hnode hmanaged r hrecord fun _ hup => ?_
    obtain ⟨r', hrecord', -, -, -, hmatches⟩ := hup.managed hmanaged
    obtain rfl := Option.some.inj (hrecord.symm.trans hrecord')
    obtain ⟨resolved, deferred, hparted, hunchanged⟩ :=
      hmatches.parted fun id hid => hsettled id (hup.dependencies id hid)
    obtain rfl := Option.some.inj (hpatch.symm.trans (Replacement.patch?_eq hparted))
    rw [hunchanged] at hchange
    cases hchange
  · intro node hnode hmanaged r hrecord dependency hdependency hremoved
    refine hin node hnode hmanaged r hrecord fun _ hup => ?_
    obtain ⟨r', hrecord', -, -, hdependencies, -⟩ := hup.managed hmanaged
    obtain rfl := Option.some.inj (hrecord.symm.trans hrecord')
    have hmem := hdependencies dependency hdependency
    obtain ⟨-, -, -, hundeclared | hreplaced⟩ := hremoved
    · obtain ⟨other, hother, rfl⟩ := hids dependency hmem
      rw [Graph.contains_iff.2 (Graph.mem_ids.2 ⟨other, hperm.mem_iff.1 hother, rfl⟩)]
        at hundeclared
      cases hundeclared
    · exact hreplaced.2 hmem

end settled

/-! ## Plans for nodes that are up to date -/

theorem NodePlan.verdict_decision (p : NodePlan) : p.verdict.decision = p.decision := by
  rw [verdict]
  split <;> simp_all

/-- The steps of a plan for nodes that are up to date do nothing. -/
theorem UpToDate.action_eq_noop {g : Graph} {prior : Option State} {now : Instant} {plan : Plan}
    (hg : g.Linked) (hprior : ∀ s, prior = some s → s.KeysMatch)
    (hids : ∀ id ∈ S, ∃ node ∈ g.nodes, node.id = id)
    (hS : ∀ node ∈ g.nodes, node.id ∈ S → UpToDate (Synthesis.recordsOf prior) t S node)
    (hplan : Plan.synthesize g prior now = .ok plan) {id : String} (hid : id ∈ S) :
    (∃ step ∈ plan.steps, step.nodeId = id) ∧
      ∀ step ∈ plan.steps, step.nodeId = id → step.action = .noop := by
  obtain ⟨order, forced, plans, deletions, horigin, hleast⟩ :=
    Replacement.exists_origin hg hprior hplan
  have hperm := horigin.perm
  have hids' : ∀ id ∈ S, ∃ node ∈ order, node.id = id := by
    intro id hid
    obtain ⟨node, hnode, heq⟩ := hids id hid
    exact ⟨node, hperm.mem_iff.2 hnode, heq⟩
  have hS' : ∀ node ∈ order, node.id ∈ S → UpToDate (Synthesis.recordsOf prior) t S node :=
    fun node hnode => hS node (hperm.mem_iff.1 hnode)
  have hkept : ∀ id ∈ S, id ∉ Replacement.replacedBy plans := fun id hid hmem =>
    (hleast _ (closed_othersOf hperm horigin.ordered hids' hS') hmem).2 hid
  have hstays : ∀ p ∈ plans, p.node.id ∈ S → p.decision = .keep ∨ p.decision = .existing := by
    intro p hp hmem
    obtain ⟨v, outputs, hv, -, hdecision, -⟩ :=
      settled_verdicts horigin.ordered hids' hS' hkept p.node.id hmem
    rw [Replacement.verdicts_replacedBy horigin p.node (horigin.node_mem hp) p hp rfl] at hv
    obtain rfl := Option.some.inj hv
    rwa [NodePlan.verdict_decision] at hdecision
  constructor
  · obtain ⟨node, hnode, rfl⟩ := hids' id hid
    obtain ⟨p, hp, rfl⟩ := horigin.exists_plan hnode
    obtain ⟨i, hi⟩ := List.mem_iff_getElem?.1 hp
    exact ⟨_, horigin.mem_steps.2 (.inr ⟨i, p, hi, rfl⟩), Synthesis.stepFor_nodeId⟩
  · rintro step hstep rfl
    rcases horigin.mem_steps.1 hstep with hdeletion | ⟨i, p, hp, rfl⟩
    · obtain ⟨hdoomed, -⟩ := horigin.removal.record step hdeletion
      rcases Doomed.contains_ofPlans.1 hdoomed with ⟨hundeclared, -⟩ | hreplaced
      · obtain ⟨node, hnode, heq⟩ := hids step.nodeId hid
        rw [← heq, Graph.contains_iff.2 (Graph.mem_ids.2 ⟨node, hnode, rfl⟩)] at hundeclared
        cases hundeclared
      · exact absurd hreplaced (hkept step.nodeId hid)
    · rw [Synthesis.stepFor_nodeId] at hid
      rw [Synthesis.stepFor_action]
      rcases hstays p (List.mem_of_getElem? hp) hid with hdecision | hdecision <;>
        rw [hdecision] <;> rfl

/-! ## Graphs that are up to date -/

/-- A node that is up to date stays, if all that it refers to does. -/
theorem UpToDate.exists_decide (h : UpToDate records t S node)
    (hsettled : Settled t {id | id ∈ node.dependencyIds} verdicts) :
    ∃ own, NodePlan.decide node (records.get? node.id) verdicts = .ok own ∧
      ∃ outputs, t.outputs.get? own.node.id = some outputs ∧ own.verdict.Stays outputs := by
  cases hlifecycle : node.lifecycle with
  | existing providerId outputs =>
    refine ⟨_, if_pos (NodePlan.isExisting_iff.2 ⟨providerId, outputs, hlifecycle⟩), outputs,
      h.existing hlifecycle, ?_⟩
    rw [NodePlan.verdict_existing hlifecycle rfl]
    exact ⟨.inr rfl, rfl⟩
  | managed =>
    obtain ⟨r, hrecord, hkind, houtputs, -, hmatches⟩ := h.managed hlifecycle
    obtain ⟨resolved, deferred, hparted, hunchanged⟩ := hmatches.parted hsettled
    have hcompare : NodePlan.compare node r resolved deferred = (.keep, [], "") := by
      simp [NodePlan.compare, hkind, Patch.extent_eq_unchanged_iff.2 hunchanged]
    have hdecide : NodePlan.decide node (records.get? node.id) verdicts =
        .ok { node, decision := .keep, resolved, deferred, reason := "", prior := some r } := by
      rw [NodePlan.decide, NodePlan.isExisting_eq_false_iff.2 hlifecycle, hrecord,
        NodePlan.resolveAttributes_eq_ok_iff.2 hparted]
      refine bind_eq_ok_iff.2 ⟨(resolved, deferred), rfl, ?_⟩
      dsimp only
      rw [hcompare]
      rfl
    refine ⟨_, hdecide, r.outputs, houtputs, ?_⟩
    rw [NodePlan.verdict_keep rfl rfl]
    exact ⟨.inl rfl, rfl⟩

/-- All nodes of an order that is up to date stay. -/
theorem exists_decideAll {order : List Node} (ho : Ordered order)
    (hall : ∀ node ∈ order, UpToDate records t S node) :
    ∃ plans, NodePlan.decideAll records .empty .empty order = .ok plans ∧
      ∀ p ∈ plans, ∃ outputs, t.outputs.get? p.node.id = some outputs ∧
        p.verdict.Stays outputs := by
  induction order using List.reverseRecOn with
  | nil => exact ⟨[], rfl, by simp⟩
  | append_singleton order last ih =>
    obtain ⟨before, hbefore, hstays⟩ :=
      ih ho.prefix_concat fun node hnode => hall node (List.mem_append_left _ hnode)
    have hup := hall last (by simp)
    have hdependencies : Settled t {id | id ∈ last.dependencyIds} (Verdicts.ofPlans before) := by
      intro id hid
      obtain ⟨other, hother, rfl⟩ := ho.exists_of_concat hid
      obtain ⟨p, hp, rfl⟩ : ∃ p ∈ before, p.node = other := by
        rwa [← NodePlan.decideAll_nodes hbefore, List.mem_map] at hother
      obtain ⟨outputs, houtputs, hp'⟩ := hstays p hp
      exact ⟨_, outputs, (NodePlan.decideAll_spec ho.prefix_concat hbefore p hp).1, houtputs, hp'⟩
    obtain ⟨own, hown, outputs, houtputs, hverdict⟩ := hup.exists_decide hdependencies
    refine ⟨_, NodePlan.decideAll_concat.2 ⟨before, own, hbefore, hown, rfl⟩, fun p hp => ?_⟩
    rcases List.mem_append.1 hp with hp | hp
    · exact hstays p hp
    · obtain rfl := List.mem_singleton.1 hp
      rw [Table.get?_empty, NodePlan.force_none]
      exact ⟨outputs, houtputs, hverdict⟩

theorem Removal.steps_of_nothing {s : State} {doomed : Doomed}
    (h : ∀ r ∈ s.inCreationOrder, doomed.contains r.id = false) :
    Removal.steps s doomed = .ok [] := by
  have hrecords : Removal.records s doomed = [] := by
    rw [Removal.records, List.filter_eq_nil_iff]
    intro r hr
    rw [h r hr]
    decide
  rw [Removal.steps, Removal.graph, hrecords]
  rfl

/-- If every node is up to date, and nothing else is recorded, there is a plan, and it does
nothing. -/
theorem UpToDate.synthesize {g : Graph} {s : State} {now : Instant} (hg : g.Linked)
    (hs : s.KeysMatch)
    (hdeclared : ∀ {id : String} {r : Record}, s.get? id = some r → ∃ node ∈ g.nodes, node.id = id)
    (hall : ∀ node ∈ g.nodes, UpToDate s.resources t S node) :
    ∃ plan, Plan.synthesize g (some s) now = .ok plan ∧
      ∀ step ∈ plan.steps, step.action = .noop := by
  obtain ⟨order, hsorted, hperm, ho⟩ := hg.sortedNodes
  obtain ⟨plans, hplans, hstays⟩ :=
    exists_decideAll ho fun node hnode => hall node (hperm.mem_iff.1 hnode)
  have hkept : ∀ p ∈ plans, p.decision ≠ .replace := by
    intro p hp hreplace
    obtain ⟨outputs, -, hdecision, -⟩ := hstays p hp
    rw [NodePlan.verdict_decision, hreplace] at hdecision
    simp at hdecision
  -- Nothing is doomed, so that nothing is forced and nothing is deleted.
  have hdoomed : ∀ id, (Doomed.ofPlans g s.resources plans).contains id = false := by
    intro id
    refine Bool.eq_false_iff.2 fun hdoomed => ?_
    rcases Doomed.contains_ofPlans.1 hdoomed with ⟨hundeclared, r, hr⟩ | ⟨p, hp, hreplace, -⟩
    · obtain ⟨node, hnode, rfl⟩ := hdeclared hr
      rw [Graph.contains_iff.2 (Graph.mem_ids.2 ⟨node, hnode, rfl⟩)] at hundeclared
      cases hundeclared
    · exact hkept p hp hreplace
  have hforced : (Cascade.forcedBy g s (Doomed.ofPlans g s.resources plans)).isEmpty = true := by
    refine Table.isEmpty_iff.2 fun id => Table.contains_eq_false_iff.1 (Bool.eq_false_iff.2 ?_)
    intro hforced
    refine Cascade.forcedBy_subset hg.coherent hs (X := ∅) ?_ ?_ hforced
    · rintro r - - dependency - ⟨rd, hrd, -, hundeclared | hmem⟩
      · obtain ⟨node, hnode, rfl⟩ := hdeclared hrd
        rw [Graph.contains_iff.2 (Graph.mem_ids.2 ⟨node, hnode, rfl⟩)] at hundeclared
        cases hundeclared
      · exact hmem
    · intro id hid
      rw [hdoomed id] at hid
      cases hid
  have hround : Synthesis.round g order (some s) .empty =
      .ok (⟨plans, Doomed.ofPlans g s.resources plans⟩,
        Cascade.forcedBy g s (Doomed.ofPlans g s.resources plans)) :=
    Synthesis.round_eq_ok_iff.2 ⟨plans, hplans, rfl, rfl⟩
  have hsteps : Synthesis.steps g (some s) =
      .ok (Synthesis.stepsFor g (Synthesis.indicesByNode []) .empty 0 plans) := by
    have houtcome : Synthesis.outcome g order (some s) =
        some (.ok ⟨plans, Doomed.ofPlans g s.resources plans⟩) := by
      refine Synthesis.outcome_eq_ok_iff.2 ⟨1, ?_⟩
      rw [Synthesis.settle, hround]
      exact if_pos hforced
    refine bind_eq_ok_iff.2 ⟨order, mapError_eq_ok_iff.2 hsorted, ?_⟩
    rw [houtcome]
    exact bind_eq_ok_iff.2 ⟨_, mapError_eq_ok_iff.2 rfl, bind_eq_ok_iff.2 ⟨[],
      mapError_eq_ok_iff.2 (Removal.steps_of_nothing fun r _ => hdoomed r.id), rfl⟩⟩
  refine ⟨_, bind_eq_ok_iff.2 ⟨_, hsteps, rfl⟩, fun step hstep => ?_⟩
  obtain ⟨i, hi⟩ := List.mem_iff_getElem?.1 hstep
  rw [Synthesis.getElem?_stepsFor] at hi
  obtain ⟨p, hp, rfl⟩ := Option.map_eq_some_iff.1 hi
  obtain ⟨outputs, -, hdecision, -⟩ := hstays p (List.mem_of_getElem? hp)
  rw [NodePlan.verdict_decision] at hdecision
  rw [Synthesis.stepFor_action]
  rcases hdecision with hdecision | hdecision <;> rw [hdecision] <;> rfl

end Converge
