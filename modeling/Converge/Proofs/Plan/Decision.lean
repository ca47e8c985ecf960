import Converge.Plan.Decision
import Converge.Proofs.Graph.Build
import Converge.Proofs.Plan.Patch
import Converge.Proofs.Plan.Resolution

/-!
# Decisions under one table of verdicts

Decisions are made one after the other, each knowing the verdicts before it. As every node comes
after all that it refers to, each decision is also the one that knows the verdicts on all nodes.

Main statement: `NodePlan.decideAll_spec`.
-/

namespace Converge

open Graph (Ordered)

/-! ## Tables of verdicts -/

namespace Verdicts

variable {verdicts : Verdicts} {order : List Node}

/-- The verdicts on nodes that `f` reaches one after the other. -/
def along (f : Verdicts → Node → Verdict) (order : List Node) : Verdicts :=
  order.foldl (fun verdicts node => verdicts.insert node.id (f verdicts node)) .empty

/-- A function of the verdicts on the dependencies of a node only. -/
def Local (f : Verdicts → Node → Verdict) : Prop :=
  ∀ {v w : Verdicts} {node : Node}, (∀ id ∈ node.dependencyIds, v.get? id = w.get? id) →
    f v node = f w node

/-- The verdicts on planned nodes. -/
def ofPlans (plans : List NodePlan) : Verdicts :=
  plans.foldl (fun verdicts p => verdicts.insert p.node.id p.verdict) .empty

theorem ofPlans_concat (plans : List NodePlan) (p : NodePlan) :
    ofPlans (plans ++ [p]) = (ofPlans plans).insert p.node.id p.verdict := by
  simp [ofPlans]

theorem along_concat (f : Verdicts → Node → Verdict) (node : Node) :
    along f (order ++ [node]) =
      (along f order).insert node.id (f (along f order) node) := by
  simp [along]

/-- Later nodes are no dependencies of earlier ones. -/
theorem get?_insert_of_mem {node last : Node} {id : String} (h : Ordered (order ++ [last]))
    (hnode : node ∈ order) (hid : id ∈ node.dependencyIds) (verdict : Verdict) :
    (verdicts.insert last.id verdict).get? id = verdicts.get? id := by
  obtain ⟨other, hother, rfl⟩ := h.prefix_concat.exists_of_mem hnode hid
  rw [Table.get?_insert, if_neg (h.ne_of_concat hother)]

theorem get?_insert_of_last {last : Node} {id : String} (h : Ordered (order ++ [last]))
    (hid : id ∈ last.dependencyIds) (verdict : Verdict) :
    (verdicts.insert last.id verdict).get? id = verdicts.get? id := by
  obtain ⟨other, hother, rfl⟩ := h.exists_of_concat hid
  rw [Table.get?_insert, if_neg (h.ne_of_concat hother)]

/-- Verdicts that are reached along an order are those that the final table gives. -/
theorem along_get? {f : Verdicts → Node → Verdict} (hf : Local f) (h : Ordered order) :
    ∀ node ∈ order, (along f order).get? node.id = some (f (along f order) node) := by
  induction order using List.reverseRecOn with
  | nil => simp
  | append_singleton order last ih =>
    intro node hnode
    rw [along_concat]
    rcases List.mem_append.1 hnode with hnode | hnode
    · rw [Table.get?_insert, if_neg (h.ne_of_concat hnode), ih h.prefix_concat node hnode]
      exact congrArg some (hf fun id hid => (get?_insert_of_mem h hnode hid _).symm)
    · obtain rfl := List.mem_singleton.1 hnode
      rw [Table.get?_insert, if_pos rfl]
      exact congrArg some (hf fun id hid => (get?_insert_of_last h hid _).symm)

end Verdicts

namespace Verdict

/-- The node of a reference is one of the dependencies. -/
theorem mem_dependencyIds {node : Node} {name : String} {value : AttributeValue} {r : Reference}
    (hvalue : node.attributes.get? name = some value) (hr : r ∈ value.references) :
    r.nodeId ∈ node.dependencyIds := by
  have hreference : r ∈ node.references :=
    List.mem_flatMap.2 ⟨value, Table.mem_values.2 ⟨name, hvalue⟩, hr⟩
  rw [Node.dependencyIds, mem_sortedNames, List.mem_append, Node.referencedIds, mem_sortedNames]
  exact .inr (List.mem_map_of_mem hreference)

theorem lookupIn_congr {v w : Verdicts} {r : Reference} (h : v.get? r.nodeId = w.get? r.nodeId) :
    lookupIn v r = lookupIn w r := by
  rw [lookupIn, lookupIn, h]

theorem lookup_of_replaced {v : Verdict} (h : v.decision = .create ∨ v.decision = .replace)
    (output : String) : v.lookup output = .deferred := by
  rcases h with h | h <;> simp [lookup, h]

/-- Only of what stays as it is an output is missing. -/
theorem of_lookup_eq_missing {v : Verdict} {output : String} (h : v.lookup output = .missing) :
    (v.decision = .keep ∨ v.decision = .existing) ∧ v.outputs.get? output = none := by
  obtain ⟨decision, outputs, changing⟩ := v
  cases decision <;> cases houtput : outputs.get? output <;>
    simp only [lookup, houtput] at h ⊢ <;> try cases h
  · split at h <;> cases h
  · exact ⟨.inl trivial, trivial⟩
  · exact ⟨.inr trivial, trivial⟩

end Verdict

namespace NodePlan

variable {node : Node} {verdicts : Verdicts} {records : Table Record} {forced : Table String}

/-! ## Known and deferred attributes -/

/-- Attributes without missing references, parted into those that are known and those that are
deferred. -/
structure Parted (lookup : Reference → Lookup) (attributes : Declared) (resolved : Attributes)
    (deferred : Declared) : Prop where
  found : ∀ {name value}, attributes.get? name = some value →
    ∀ r ∈ value.references, lookup r ≠ .missing
  resolved : ∀ {name known}, resolved.get? name = some known ↔
    ∃ value, attributes.get? name = some value ∧ value.resolveWith lookup = .resolved known
  deferred : ∀ {name value}, deferred.get? name = some value ↔
    attributes.get? name = some value ∧ value.resolveWith lookup = .deferred

theorem resolveAttributes_spec {entries : List (String × AttributeValue)}
    (hnodup : (entries.map (·.1)).Nodup) {resolved : Attributes} {deferred : Declared}
    (h : resolveAttributes node verdicts entries = .ok (resolved, deferred)) :
    (∀ name value, (name, value) ∈ entries →
        ∀ r ∈ value.references, Verdict.lookupIn verdicts r ≠ .missing) ∧
      (∀ name known, resolved.get? name = some known ↔ ∃ value, (name, value) ∈ entries ∧
        value.resolveWith (Verdict.lookupIn verdicts) = .resolved known) ∧
      ∀ name value, deferred.get? name = some value ↔ (name, value) ∈ entries ∧
        value.resolveWith (Verdict.lookupIn verdicts) = .deferred := by
  induction entries generalizing resolved deferred with
  | nil =>
    obtain ⟨rfl, rfl⟩ := Prod.mk.inj (Except.ok.inj h)
    simp
  | cons entry rest ih =>
    obtain ⟨first, held⟩ := entry
    have hnodup' := List.nodup_cons.1 hnodup
    have hfirst : ∀ {value}, (first, value) ∈ (first, held) :: rest ↔ value = held := by
      intro value
      refine ⟨fun hmem => ?_, fun heq => heq ▸ List.mem_cons_self ..⟩
      rcases List.mem_cons.1 hmem with heq | hmem
      · exact (Prod.mk.inj heq).2
      · exact absurd (List.mem_map_of_mem (f := (·.1)) hmem) hnodup'.1
    -- What the first entry does not resolve to, only the rest can.
    have hrest : ∀ {result name value}, held.resolveWith (Verdict.lookupIn verdicts) ≠ result →
        ((name, value) ∈ (first, held) :: rest ∧
            value.resolveWith (Verdict.lookupIn verdicts) = result ↔
          (name, value) ∈ rest ∧ value.resolveWith (Verdict.lookupIn verdicts) = result) := by
      intro result name value hne
      rw [List.mem_cons, or_and_right]
      exact or_iff_right fun ⟨heq, hvalue⟩ => hne ((Prod.mk.inj heq).2 ▸ hvalue)
    have hfound : ∀ {known}, held.resolveWith (Verdict.lookupIn verdicts) = known →
        (∀ target, known ≠ .unresolved target) →
        (∀ name value, (name, value) ∈ rest →
          ∀ r ∈ value.references, Verdict.lookupIn verdicts r ≠ .missing) →
        ∀ name value, (name, value) ∈ (first, held) :: rest →
          ∀ r ∈ value.references, Verdict.lookupIn verdicts r ≠ .missing := by
      rintro known rfl hne hothers name value hmem r hr hmissing
      rcases List.mem_cons.1 hmem with heq | hmem
      · obtain ⟨rfl, rfl⟩ := Prod.mk.inj heq
        obtain ⟨target, htarget⟩ :=
          (AttributeValue.exists_unresolved_iff value).2 ⟨r, hr, hmissing⟩
        exact hne target htarget
      · exact hothers name value hmem r hr hmissing
    rw [resolveAttributes] at h
    split at h
    · cases h
    · next known hknown =>
      obtain ⟨⟨resolved', deferred'⟩, hparts, hpure⟩ := bind_eq_ok_iff.1 h
      obtain ⟨rfl, rfl⟩ := Prod.mk.inj (pure_eq_ok_iff.1 hpure)
      obtain ⟨hothers, hresolved, hdeferred⟩ := ih hnodup'.2 hparts
      refine ⟨hfound hknown (by simp) hothers, fun name value => ?_, fun name value => ?_⟩
      · rw [Table.get?_insert]
        split
        · next heq => simp [heq, hfirst, hknown]
        · next hne => simp [hresolved, hne]
      · rw [hdeferred]
        exact (hrest (by simp [hknown])).symm
    · next hdefer =>
      obtain ⟨⟨resolved', deferred'⟩, hparts, hpure⟩ := bind_eq_ok_iff.1 h
      obtain ⟨rfl, rfl⟩ := Prod.mk.inj (pure_eq_ok_iff.1 hpure)
      obtain ⟨hothers, hresolved, hdeferred⟩ := ih hnodup'.2 hparts
      refine ⟨hfound hdefer (by simp) hothers, fun name value => ?_, fun name value => ?_⟩
      · rw [hresolved]
        exact exists_congr fun other => (hrest (by simp [hdefer])).symm
      · rw [Table.get?_insert]
        split
        · next heq =>
          rw [heq, hfirst]
          constructor
          · rintro ⟨⟩
            exact ⟨rfl, hdefer⟩
          · rintro ⟨rfl, -⟩
            rfl
        · next hne => simp [hdeferred, hne]

theorem exists_resolveAttributes (node : Node) {verdicts : Verdicts}
    {entries : List (String × AttributeValue)}
    (h : ∀ name value, (name, value) ∈ entries →
      ∀ r ∈ value.references, Verdict.lookupIn verdicts r ≠ .missing) :
    ∃ parts, resolveAttributes node verdicts entries = .ok parts := by
  induction entries with
  | nil => exact ⟨_, rfl⟩
  | cons entry rest ih =>
    obtain ⟨name, value⟩ := entry
    obtain ⟨⟨resolved, deferred⟩, hrest⟩ :=
      ih fun other value hmem => h other value (List.mem_cons_of_mem _ hmem)
    rw [resolveAttributes]
    cases hvalue : value.resolveWith (Verdict.lookupIn verdicts) with
    | unresolved target =>
      obtain ⟨r, hr, hmissing⟩ := (AttributeValue.exists_unresolved_iff value).1 ⟨target, hvalue⟩
      exact absurd hmissing (h name value (List.mem_cons_self ..) r hr)
    | resolved known => exact ⟨_, by rw [hrest]; rfl⟩
    | deferred => exact ⟨_, by rw [hrest]; rfl⟩

/-- Parting the attributes of a node comes to the one way to part them, if there is one. -/
theorem resolveAttributes_eq_ok_iff {resolved : Attributes} {deferred : Declared} :
    resolveAttributes node verdicts node.attributes.entries = .ok (resolved, deferred) ↔
      Parted (Verdict.lookupIn verdicts) node.attributes resolved deferred := by
  constructor
  · intro h
    obtain ⟨hfound, hresolved, hdeferred⟩ :=
      resolveAttributes_spec (Table.nodup_names node.attributes) h
    simp only [Table.mem_entries] at hfound hresolved hdeferred
    exact ⟨fun h => hfound _ _ h, hresolved _ _, hdeferred _ _⟩
  · intro h
    obtain ⟨⟨resolved', deferred'⟩, hparts⟩ := exists_resolveAttributes node
      fun name value hmem => h.found (Table.mem_entries.1 hmem)
    obtain ⟨-, hresolved, hdeferred⟩ :=
      resolveAttributes_spec (Table.nodup_names node.attributes) hparts
    simp only [Table.mem_entries] at hresolved hdeferred
    have hresolvedEq : resolved' = resolved := Table.ext_get? fun name => Option.ext fun known => by
      rw [hresolved, h.resolved]
    have hdeferredEq : deferred' = deferred := Table.ext_get? fun name => Option.ext fun value => by
      rw [hdeferred, h.deferred]
    rw [hparts, hresolvedEq, hdeferredEq]

theorem Parted.congr {lookup later : Reference → Lookup} {attributes : Declared}
    {resolved : Attributes} {deferred : Declared} (h : Parted lookup attributes resolved deferred)
    (heq : ∀ name value, attributes.get? name = some value →
      ∀ r ∈ value.references, later r = lookup r) :
    Parted later attributes resolved deferred := by
  have hsame : ∀ {name value}, attributes.get? name = some value →
      value.resolveWith later = value.resolveWith lookup := fun {name value} hvalue =>
    AttributeValue.resolveWith_congr value (heq name value hvalue) (h.found hvalue)
  refine ⟨fun hvalue r hr => heq _ _ hvalue r hr ▸ h.found hvalue r hr, ?_, ?_⟩
  · intro name known
    rw [h.resolved]
    exact exists_congr fun value => and_congr_right fun hvalue => by rw [hsame hvalue]
  · intro name value
    rw [h.deferred]
    exact and_congr_right fun hvalue => by rw [hsame hvalue]

/-- If less is known of what a node refers to, its attributes stay as they were or are deferred. -/
theorem Parted.fades {later : Verdicts} {resolved : Attributes} {deferred : Declared}
    (h : Parted (Verdict.lookupIn verdicts) node.attributes resolved deferred)
    (hfades : ∀ {name value}, node.attributes.get? name = some value → ∀ r ∈ value.references,
      Verdict.lookupIn later r = Verdict.lookupIn verdicts r ∨
        Verdict.lookupIn later r = .deferred) :
    ∃ resolved' deferred',
      Parted (Verdict.lookupIn later) node.attributes resolved' deferred' ∧
        (∀ name, deferred.contains name = true → deferred'.contains name = true) ∧
        ∀ name, resolved'.get? name = resolved.get? name ∨ deferred'.contains name = true := by
  have hfound : ∀ {name value}, node.attributes.get? name = some value →
      ∀ r ∈ value.references, Verdict.lookupIn later r ≠ .missing := by
    intro name value hvalue r hr hmissing
    rcases hfades hvalue r hr with heq | heq
    · exact h.found hvalue r hr (heq ▸ hmissing)
    · rw [hmissing] at heq
      cases heq
  obtain ⟨⟨resolved', deferred'⟩, hparts⟩ := exists_resolveAttributes node
    fun name value hmem => hfound (Table.mem_entries.1 hmem)
  have hparted := resolveAttributes_eq_ok_iff.1 hparts
  refine ⟨resolved', deferred', hparted, fun name hname => ?_, fun name => ?_⟩
  · obtain ⟨value, hvalue⟩ := Table.contains_iff.1 hname
    obtain ⟨hattribute, hdeferred⟩ := h.deferred.1 hvalue
    refine Table.contains_iff.2 ⟨value, hparted.deferred.2 ⟨hattribute, ?_⟩⟩
    rcases AttributeValue.resolveWith_fades (hfades hattribute) (h.found hattribute) with
      heq | heq
    · rw [heq, hdeferred]
    · exact heq
  · cases hattribute : node.attributes.get? name with
    | none =>
      left
      ext known
      rw [hparted.resolved, h.resolved, hattribute]
      simp
    | some value =>
      rcases AttributeValue.resolveWith_fades (hfades hattribute) (h.found hattribute) with
        heq | heq
      · left
        ext known
        rw [hparted.resolved, h.resolved, hattribute]
        simp [heq]
      · exact .inr (Table.contains_iff.2 ⟨value, hparted.deferred.2 ⟨hattribute, heq⟩⟩)

/-! ## One decision -/

/-- How the decision on a node has come about. -/
inductive Decided (records : Table Record) (forced : Table String) (verdicts : Verdicts)
    (p : NodePlan) : Prop
  | existing (providerId : String) (outputs : Outputs)
    (lifecycle : p.node.lifecycle = .existing providerId outputs)
    (decision : p.decision = .existing)
    (deferred : p.deferred = .empty)
  | create
    (lifecycle : p.node.lifecycle = .managed)
    (record : records.get? p.node.id = none)
    (decision : p.decision = .create)
    (parted : Parted (Verdict.lookupIn verdicts) p.node.attributes p.resolved p.deferred)
  | replace (r : Record)
    (lifecycle : p.node.lifecycle = .managed)
    (record : records.get? p.node.id = some r)
    (decision : p.decision = .replace)
    (parted : Parted (Verdict.lookupIn verdicts) p.node.attributes p.resolved p.deferred)
    (cause : r.kind ≠ p.node.kind ∨
      (∃ change ∈ (Patch.between p.node.kind p.resolved p.deferred r.attributes).changes,
        change.forcesReplacement = true) ∨ forced.contains p.node.id = true)
  | update (r : Record)
    (lifecycle : p.node.lifecycle = .managed)
    (record : records.get? p.node.id = some r)
    (prior : p.prior = some r)
    (decision : p.decision = .update)
    (parted : Parted (Verdict.lookupIn verdicts) p.node.attributes p.resolved p.deferred)
    (kind : r.kind = p.node.kind)
    (patch : p.changes = (Patch.between p.node.kind p.resolved p.deferred r.attributes).changes)
    (changes : p.changes ≠ [])
    (stays : ∀ change ∈ p.changes, change.forcesReplacement = false)
    (unforced : forced.contains p.node.id = false)
  | keep (r : Record)
    (lifecycle : p.node.lifecycle = .managed)
    (record : records.get? p.node.id = some r)
    (prior : p.prior = some r)
    (decision : p.decision = .keep)
    (parted : Parted (Verdict.lookupIn verdicts) p.node.attributes p.resolved p.deferred)
    (kind : r.kind = p.node.kind)
    (unchanged : (Patch.between p.node.kind p.resolved p.deferred r.attributes).changes = [])
    (unforced : forced.contains p.node.id = false)

theorem force_none (p : NodePlan) : p.force none = p := by
  unfold force
  split <;> simp_all

theorem force_some {p : NodePlan} (h : p.decision = .update ∨ p.decision = .keep)
    (reason : String) : p.force (some reason) = { p with decision := .replace, reason } := by
  rcases h with h | h <;> simp [force, h]

theorem force_eq_self {p : NodePlan} (h : p.decision ≠ .update) (h' : p.decision ≠ .keep)
    (reason : Option String) : p.force reason = p := by
  unfold force
  split <;> simp_all

theorem force_node (p : NodePlan) (reason : Option String) : (p.force reason).node = p.node := by
  unfold force
  split <;> rfl

theorem decide_node {prior : Option Record} {own : NodePlan}
    (h : decide node prior verdicts = .ok own) : own.node = node := by
  rw [decide] at h
  split at h
  · exact (Except.ok.inj h) ▸ rfl
  · obtain ⟨parts, -, hown⟩ := bind_eq_ok_iff.1 h
    cases prior with
    | none => exact (pure_eq_ok_iff.1 hown) ▸ rfl
    | some r => exact (pure_eq_ok_iff.1 hown) ▸ rfl

theorem isExisting_eq_false_iff : node.isExisting = false ↔ node.lifecycle = .managed := by
  rw [Node.isExisting]
  cases node.lifecycle <;> simp [Lifecycle.isExisting]

theorem isExisting_iff : node.isExisting = true ↔
    ∃ providerId outputs, node.lifecycle = .existing providerId outputs := by
  rw [Node.isExisting]
  cases node.lifecycle <;> simp [Lifecycle.isExisting]

section compare

variable {r : Record} {resolved : Attributes} {deferred : Declared}

theorem compare_of_kind_ne (resolved : Attributes) (deferred : Declared)
    (h : r.kind ≠ node.kind) : (compare node r resolved deferred).1 = .replace := by
  simp [compare, h]

theorem compare_replace (h : r.kind = node.kind)
    (hextent : (Patch.between node.kind resolved deferred r.attributes).extent = .replace) :
    (compare node r resolved deferred).1 = .replace := by
  simp [compare, h, hextent]

theorem compare_unchanged (h : r.kind = node.kind)
    (hextent : (Patch.between node.kind resolved deferred r.attributes).extent = .unchanged) :
    (compare node r resolved deferred).1 = .keep := by
  simp [compare, h, hextent]

theorem compare_update (h : r.kind = node.kind)
    (hextent : (Patch.between node.kind resolved deferred r.attributes).extent = .update) :
    (compare node r resolved deferred).1 = .update ∧
      (compare node r resolved deferred).2.1 =
        (Patch.between node.kind resolved deferred r.attributes).changes := by
  simp [compare, h, hextent]

end compare

/-- A decision that is made, and made stricter if the node is forced, is one of the five. -/
theorem Decided.of_decide {own : NodePlan}
    (h : decide node (records.get? node.id) verdicts = .ok own) :
    Decided records forced verdicts (own.force (forced.get? node.id)) := by
  rw [decide] at h
  split at h
  · next hexisting =>
    obtain rfl := Except.ok.inj h
    obtain ⟨providerId, outputs, hlifecycle⟩ := isExisting_iff.1 hexisting
    rw [force_eq_self (by simp) (by simp)]
    exact .existing providerId outputs hlifecycle rfl rfl
  · next hexisting =>
    have hmanaged : node.lifecycle = .managed := isExisting_eq_false_iff.1 (by simpa using hexisting)
    obtain ⟨⟨resolved, deferred⟩, hparts, hown⟩ := bind_eq_ok_iff.1 h
    have hparted := resolveAttributes_eq_ok_iff.1 hparts
    cases hrecord : records.get? node.id with
    | none =>
      rw [hrecord] at hown
      obtain rfl := pure_eq_ok_iff.1 hown
      rw [force_eq_self (by simp) (by simp)]
      exact .create hmanaged hrecord rfl hparted
    | some r =>
      rw [hrecord] at hown
      have hown' : (pure {
          node
          decision := (compare node r resolved deferred).1
          resolved, deferred
          changes := (compare node r resolved deferred).2.1
          reason := (compare node r resolved deferred).2.2
          prior := some r } : Except PlanError NodePlan) = .ok own := hown
      obtain rfl := pure_eq_ok_iff.1 hown'
      by_cases hkind : r.kind = node.kind
      · cases hextent : (Patch.between node.kind resolved deferred r.attributes).extent with
        | replace =>
          have hdecision := compare_replace hkind hextent
          rw [force_eq_self (by simp [hdecision]) (by simp [hdecision])]
          exact .replace r hmanaged hrecord hdecision hparted
            (.inr (.inl (Patch.extent_eq_replace_iff.1 hextent)))
        | unchanged =>
          have hdecision := compare_unchanged hkind hextent
          cases hforced : forced.get? node.id with
          | none =>
            rw [force_none]
            exact .keep r hmanaged hrecord rfl hdecision hparted hkind
              (Patch.extent_eq_unchanged_iff.1 hextent) (Table.contains_eq_false_iff.2 hforced)
          | some reason =>
            rw [force_some (.inr hdecision)]
            exact .replace r hmanaged hrecord rfl hparted
              (.inr (.inr (Table.contains_iff.2 ⟨reason, hforced⟩)))
        | update =>
          obtain ⟨hdecision, hchanges⟩ := compare_update hkind hextent
          cases hforced : forced.get? node.id with
          | none =>
            rw [force_none]
            refine .update r hmanaged hrecord rfl hdecision hparted hkind hchanges ?_ ?_
              (Table.contains_eq_false_iff.2 hforced)
            · intro hnil
              rw [Patch.extent_eq_unchanged_iff.2 (hchanges ▸ hnil)] at hextent
              cases hextent
            · intro change hchange
              refine Bool.eq_false_iff.2 fun hforces => ?_
              rw [Patch.extent_eq_replace_iff.2 ⟨change, hchanges ▸ hchange, hforces⟩] at hextent
              cases hextent
          | some reason =>
            rw [force_some (.inl hdecision)]
            exact .replace r hmanaged hrecord rfl hparted
              (.inr (.inr (Table.contains_iff.2 ⟨reason, hforced⟩)))
      · have hdecision := compare_of_kind_ne resolved deferred hkind
        rw [force_eq_self (by simp [hdecision]) (by simp [hdecision])]
        exact .replace r hmanaged hrecord hdecision hparted (.inl hkind)

section verdict

variable {p : NodePlan}

theorem verdict_existing {providerId : String} {outputs : Outputs}
    (hlifecycle : p.node.lifecycle = .existing providerId outputs)
    (hdecision : p.decision = .existing) :
    p.verdict = { decision := .existing, outputs } := by
  simp [verdict, hdecision, hlifecycle]

theorem verdict_create (h : p.decision = .create) : p.verdict = { decision := .create } := by
  simp [verdict, h]

theorem verdict_replace (h : p.decision = .replace) : p.verdict = { decision := .replace } := by
  simp [verdict, h]

theorem verdict_keep {r : Record} (hdecision : p.decision = .keep) (hprior : p.prior = some r) :
    p.verdict = { decision := .keep, outputs := r.outputs } := by
  simp [verdict, hdecision, hprior]

theorem verdict_update {r : Record} (hdecision : p.decision = .update)
    (hprior : p.prior = some r) :
    p.verdict =
      { decision := .update, outputs := r.outputs, changing := p.changes.map (·.name) } := by
  simp [verdict, hdecision, hprior]

end verdict

/-- A decision depends on the verdicts on the dependencies of its node only. -/
theorem Decided.congr {p : NodePlan} {later : Verdicts} (h : Decided records forced verdicts p)
    (heq : ∀ id ∈ p.node.dependencyIds, later.get? id = verdicts.get? id) :
    Decided records forced later p := by
  have hparted : Parted (Verdict.lookupIn verdicts) p.node.attributes p.resolved p.deferred →
      Parted (Verdict.lookupIn later) p.node.attributes p.resolved p.deferred := fun hparted =>
    hparted.congr fun name value hvalue r hr =>
      Verdict.lookupIn_congr (heq _ (Verdict.mem_dependencyIds hvalue hr))
  cases h with
  | existing providerId outputs lifecycle decision deferred =>
    exact .existing providerId outputs lifecycle decision deferred
  | create lifecycle record decision parted =>
    exact .create lifecycle record decision (hparted parted)
  | replace r lifecycle record decision parted cause =>
    exact .replace r lifecycle record decision (hparted parted) cause
  | update r lifecycle record prior decision parted kind patch changes stays unforced =>
    exact .update r lifecycle record prior decision (hparted parted) kind patch changes stays
      unforced
  | keep r lifecycle record prior decision parted kind unchanged unforced =>
    exact .keep r lifecycle record prior decision (hparted parted) kind unchanged unforced

/-- Only recorded managed nodes are replaced. -/
theorem Decided.recorded {p : NodePlan} (h : Decided records forced verdicts p)
    (hdecision : p.decision = .replace) :
    p.node.lifecycle = .managed ∧ ∃ r, records.get? p.node.id = some r := by
  cases h with
  | replace r lifecycle record => exact ⟨lifecycle, r, record⟩
  | existing _ _ _ decision => rw [hdecision] at decision; cases decision
  | create _ _ decision => rw [hdecision] at decision; cases decision
  | update _ _ _ _ decision => rw [hdecision] at decision; cases decision
  | keep _ _ _ _ decision => rw [hdecision] at decision; cases decision

/-- Only managed nodes without a record are created anew. -/
theorem Decided.unrecorded {p : NodePlan} (h : Decided records forced verdicts p)
    (hdecision : p.decision = .create) :
    p.node.lifecycle = .managed ∧ records.get? p.node.id = none := by
  cases h with
  | create lifecycle record => exact ⟨lifecycle, record⟩
  | existing _ _ _ decision => rw [hdecision] at decision; cases decision
  | replace _ _ _ decision => rw [hdecision] at decision; cases decision
  | update _ _ _ _ decision => rw [hdecision] at decision; cases decision
  | keep _ _ _ _ decision => rw [hdecision] at decision; cases decision

/-- Only recorded managed nodes of the recorded kind are updated. -/
theorem Decided.updated {p : NodePlan} (h : Decided records forced verdicts p)
    (hdecision : p.decision = .update) : p.node.lifecycle = .managed ∧
      ∃ r, records.get? p.node.id = some r ∧ p.prior = some r ∧ r.kind = p.node.kind := by
  cases h with
  | update r lifecycle record prior _ _ kind => exact ⟨lifecycle, r, record, prior, kind⟩
  | existing _ _ _ decision => rw [hdecision] at decision; cases decision
  | create _ _ decision => rw [hdecision] at decision; cases decision
  | replace _ _ _ decision => rw [hdecision] at decision; cases decision
  | keep _ _ _ _ decision => rw [hdecision] at decision; cases decision

/-- A recorded managed node is replaced, or nothing asks for that. -/
theorem Decided.replace_or_stays {p : NodePlan} (h : Decided records forced verdicts p)
    (hmanaged : p.node.lifecycle = .managed) {r : Record}
    (hrecord : records.get? p.node.id = some r) :
    p.decision = .replace ∨
      (r.kind = p.node.kind ∧ forced.contains p.node.id = false ∧
        Parted (Verdict.lookupIn verdicts) p.node.attributes p.resolved p.deferred ∧
        ∀ change ∈ (Patch.between p.node.kind p.resolved p.deferred r.attributes).changes,
          change.forcesReplacement = false) := by
  cases h with
  | existing _ _ lifecycle => rw [hmanaged] at lifecycle; cases lifecycle
  | create _ record => rw [hrecord] at record; cases record
  | replace _ _ _ decision => exact .inl decision
  | update _ _ record _ _ parted kind patch _ stays unforced =>
    obtain rfl := Option.some.inj (hrecord.symm.trans record)
    exact .inr ⟨kind, unforced, parted, patch ▸ stays⟩
  | keep _ _ record _ _ parted kind unchanged unforced =>
    obtain rfl := Option.some.inj (hrecord.symm.trans record)
    exact .inr ⟨kind, unforced, parted, by simp [unchanged]⟩

theorem Decided.verdict_of_existing {p : NodePlan} (h : p.Decided records forced verdicts)
    {providerId : String} {outputs : Outputs}
    (hexisting : p.node.lifecycle = .existing providerId outputs) :
    p.verdict = { decision := .existing, outputs } := by
  cases h with
  | existing _ _ lifecycle decision =>
    obtain ⟨rfl, rfl⟩ := Lifecycle.existing.inj (hexisting.symm.trans lifecycle)
    exact verdict_existing lifecycle decision
  | create lifecycle => cases hexisting.symm.trans lifecycle
  | replace _ lifecycle => cases hexisting.symm.trans lifecycle
  | update _ lifecycle => cases hexisting.symm.trans lifecycle
  | keep _ lifecycle => cases hexisting.symm.trans lifecycle

theorem Decided.create_of_unrecorded {p : NodePlan} (h : p.Decided records forced verdicts)
    (hmanaged : p.node.lifecycle = .managed) (hnone : records.get? p.node.id = none) :
    p.decision = .create := by
  cases h with
  | existing _ _ lifecycle => cases hmanaged.symm.trans lifecycle
  | create _ _ decision => exact decision
  | replace _ _ record => cases hnone.symm.trans record
  | update _ _ record => cases hnone.symm.trans record
  | keep _ _ record => cases hnone.symm.trans record

/-- What is known of a recorded managed node that is not replaced: its recorded outputs, but for those
that its patch changes. -/
theorem Decided.verdict_of_stays {p : NodePlan} (h : p.Decided records forced verdicts)
    (hmanaged : p.node.lifecycle = .managed) {r : Record} (hr : records.get? p.node.id = some r)
    (hstays : p.decision ≠ .replace) :
    Parted (Verdict.lookupIn verdicts) p.node.attributes p.resolved p.deferred ∧
      (p.verdict = { decision := .keep, outputs := r.outputs } ∧
          (Patch.between p.node.kind p.resolved p.deferred r.attributes).changed = [] ∨
        p.verdict = {
            decision := .update
            outputs := r.outputs
            changing := (Patch.between p.node.kind p.resolved p.deferred r.attributes).changed } ∧
          (Patch.between p.node.kind p.resolved p.deferred r.attributes).changed ≠ []) := by
  cases h with
  | existing _ _ lifecycle => cases hmanaged.symm.trans lifecycle
  | create _ record => cases hr.symm.trans record
  | replace _ _ _ decision => exact absurd decision hstays
  | update r' _ record prior decision parted _ patch changes =>
    obtain rfl := Option.some.inj (hr.symm.trans record)
    refine ⟨parted, .inr ⟨?_, ?_⟩⟩
    · rw [verdict_update decision prior, patch]
      rfl
    · rw [Patch.changed, ← patch]
      exact fun hnil => changes (List.map_eq_nil_iff.1 hnil)
  | keep r' _ record prior decision parted _ unchanged =>
    obtain rfl := Option.some.inj (hr.symm.trans record)
    refine ⟨parted, .inl ⟨verdict_keep decision prior, ?_⟩⟩
    rw [Patch.changed, unchanged]
    rfl

/-- The attributes of a managed node are parted, whatever is decided. -/
theorem Decided.parted {p : NodePlan} (h : Decided records forced verdicts p)
    (hmanaged : p.node.lifecycle = .managed) :
    Parted (Verdict.lookupIn verdicts) p.node.attributes p.resolved p.deferred := by
  cases h with
  | existing _ _ lifecycle => exact nomatch hmanaged.symm.trans lifecycle
  | create _ _ _ parted => exact parted
  | replace _ _ _ _ parted => exact parted
  | update _ _ _ _ _ parted => exact parted
  | keep _ _ _ _ _ parted => exact parted

/-- What is deferred is declared. -/
theorem Decided.attribute_of_deferred {p : NodePlan} (h : Decided records forced verdicts p)
    {name : String} {value : AttributeValue} (hdeferred : p.deferred.get? name = some value) :
    p.node.attributes.get? name = some value := by
  cases h with
  | existing _ _ _ _ deferred =>
    rw [deferred, Table.get?_empty] at hdeferred
    cases hdeferred
  | create _ _ _ parted => exact (parted.deferred.1 hdeferred).1
  | replace _ _ _ _ parted => exact (parted.deferred.1 hdeferred).1
  | update _ _ _ _ _ parted => exact (parted.deferred.1 hdeferred).1
  | keep _ _ _ _ _ parted => exact (parted.deferred.1 hdeferred).1

/-! ## All decisions -/

theorem decideAll_concat_from {order : List Node} {start : Verdicts} {plans : List NodePlan} :
    decideAll records forced start (order ++ [node]) = .ok plans ↔
      ∃ before own, decideAll records forced start order = .ok before ∧
        decide node (records.get? node.id)
          (before.foldl (fun verdicts p => verdicts.insert p.node.id p.verdict) start) = .ok own ∧
        before ++ [own.force (forced.get? node.id)] = plans := by
  induction order generalizing start plans with
  | nil => simp [decideAll, bind_eq_ok_iff]
  | cons first rest ih =>
    simp only [List.cons_append, decideAll, bind_eq_ok_iff, pure_eq_ok_iff, ih]
    constructor
    · rintro ⟨own, hown, plans, ⟨before, last, hbefore, hlast, rfl⟩, rfl⟩
      refine ⟨_, last, ⟨own, hown, before, hbefore, rfl⟩, ?_, rfl⟩
      simpa [force_node, decide_node hown] using hlast
    · rintro ⟨_, last, ⟨own, hown, before, hbefore, rfl⟩, hlast, rfl⟩
      refine ⟨own, hown, _, ⟨before, last, hbefore, ?_, rfl⟩, rfl⟩
      simpa [force_node, decide_node hown] using hlast

/-- The last decision knows the verdicts of those before it. -/
theorem decideAll_concat {order : List Node} {plans : List NodePlan} :
    decideAll records forced .empty (order ++ [node]) = .ok plans ↔
      ∃ before own, decideAll records forced .empty order = .ok before ∧
        decide node (records.get? node.id) (Verdicts.ofPlans before) = .ok own ∧
        before ++ [own.force (forced.get? node.id)] = plans :=
  decideAll_concat_from

theorem decideAll_nodes {order : List Node} {plans : List NodePlan}
    (h : decideAll records forced .empty order = .ok plans) : plans.map (·.node) = order := by
  induction order using List.reverseRecOn generalizing plans with
  | nil =>
    obtain rfl := Except.ok.inj h
    rfl
  | append_singleton order last ih =>
    obtain ⟨before, own, hbefore, hown, rfl⟩ := decideAll_concat.1 h
    rw [List.map_append, ih hbefore]
    simp [force_node, decide_node hown]

/-- Decisions that are made in dependency order are made under the verdicts on all nodes. -/
theorem decideAll_spec {order : List Node} {plans : List NodePlan} (ho : Ordered order)
    (h : decideAll records forced .empty order = .ok plans) :
    ∀ p ∈ plans, (Verdicts.ofPlans plans).get? p.node.id = some p.verdict ∧
      Decided records forced (Verdicts.ofPlans plans) p := by
  induction order using List.reverseRecOn generalizing plans with
  | nil =>
    obtain rfl := Except.ok.inj h
    simp
  | append_singleton order last ih =>
    obtain ⟨before, own, hbefore, hown, rfl⟩ := decideAll_concat.1 h
    have hnodes := decideAll_nodes hbefore
    have hlast : (own.force (forced.get? last.id)).node = last := by
      rw [force_node, decide_node hown]
    intro p hp
    rw [Verdicts.ofPlans_concat, hlast]
    rcases List.mem_append.1 hp with hp | hp
    · have hnode : p.node ∈ order := hnodes ▸ List.mem_map_of_mem hp
      obtain ⟨hverdict, hdecided⟩ := ih ho.prefix_concat hbefore p hp
      refine ⟨?_, hdecided.congr fun id hid => Verdicts.get?_insert_of_mem ho hnode hid _⟩
      rw [Table.get?_insert, if_neg (ho.ne_of_concat hnode), hverdict]
    · obtain rfl := List.mem_singleton.1 hp
      rw [hlast, Table.get?_insert, if_pos rfl]
      refine ⟨rfl, (Decided.of_decide hown).congr fun id hid => ?_⟩
      exact Verdicts.get?_insert_of_last ho (hlast ▸ hid) _

end NodePlan

end Converge
