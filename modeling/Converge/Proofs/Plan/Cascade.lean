import Converge.Plan.Removal
import Converge.Proofs.Graph.Coherence
import Converge.Proofs.State.Records

/-!
# The spread of deletions

A cascade forces what has to go because something that it was recorded as depending on is deleted,
and nothing else. What has to go is described by rules on sets of ids, so that nothing here depends
on the order in which records are visited.

Main statements: `Cascade.forcedBy_subset` says that the cascade stays within every set that obeys
the rules, and `Cascade.contains_forcedBy` that nothing is missed.
-/

namespace Converge.Cascade

variable {g : Graph} {s : State} {doomed : Doomed} {c : Cascade} {r : Record}

/-- Whether an id is that of a managed node. -/
def Manages (g : Graph) (id : String) : Prop :=
  ∃ node ∈ g.nodes, node.id = id ∧ node.lifecycle = .managed

theorem node?_managed_iff (hg : g.Coherent) {id : String} :
    ((g.node? id).map fun node => !node.isExisting).getD false = true ↔ Manages g id := by
  cases hnode : g.node? id with
  | none =>
    refine ⟨fun h => (nomatch h), ?_⟩
    rintro ⟨node, hmem, hid, -⟩
    rw [(Graph.node?_eq_some_iff hg.nodup).2 ⟨hmem, hid⟩] at hnode
    cases hnode
  | some node =>
    obtain ⟨hmem, hid⟩ := (Graph.node?_eq_some_iff hg.nodup).1 hnode
    constructor
    · intro h
      refine ⟨node, hmem, hid, ?_⟩
      cases hlifecycle : node.lifecycle with
      | managed => rfl
      | existing providerId outputs =>
        simp [Node.isExisting, Lifecycle.isExisting, hlifecycle] at h
    · rintro ⟨other, hother, hotherId, hmanaged⟩
      rw [(Graph.node?_eq_some_iff hg.nodup).2 ⟨hother, hotherId⟩] at hnode
      obtain rfl := Option.some.inj hnode
      simp [Node.isExisting, Lifecycle.isExisting, hmanaged]

theorem mem_start {id : String} : id ∈ (start s doomed).removed ↔
    doomed.contains id = true ∧ ∃ r, s.get? id = some r ∧ r.removalPolicy = .destroy := by
  rw [start, List.mem_filter, Table.mem_names, ← Table.contains_iff]
  refine and_congr_right fun _ => ?_
  cases s.get? id <;> simp

/-! ## One visit -/

/-- A visit changes nothing, or forces a managed node that depends on a deleted resource. -/
theorem visit_cases (hg : g.Coherent) (doomed : Doomed) (c : Cascade) (r : Record) :
    visit g doomed c r = c ∨
      (Manages g r.id ∧ doomed.contains r.id = false ∧
        (∃ dependency ∈ r.dependencies, dependency ∈ c.removed) ∧
        (visit g doomed c r).removed =
          (if r.removalPolicy = .destroy then r.id :: c.removed else c.removed) ∧
        ∃ reason, (visit g doomed c r).forced = c.forced.insert r.id reason) := by
  simp only [visit]
  split
  · exact .inl rfl
  · next hskip =>
    cases hfind : r.dependencies.find? c.removed.contains with
    | none => exact .inl rfl
    | some dependency =>
      simp only [Bool.or_eq_true, Bool.not_eq_true', not_or, Bool.not_eq_false,
        Bool.not_eq_true] at hskip
      refine .inr ⟨(node?_managed_iff hg).1 hskip.1.1, hskip.1.2, ?_, rfl, _, rfl⟩
      exact ⟨dependency, List.mem_of_find?_eq_some hfind,
        by simpa using List.find?_some hfind⟩

/-- A visit does force what it has to. -/
theorem contains_forced_visit (hg : g.Coherent) (hmanaged : Manages g r.id)
    (hstays : doomed.contains r.id = false)
    (hdependency : ∃ dependency ∈ r.dependencies, dependency ∈ c.removed) :
    (visit g doomed c r).forced.contains r.id = true := by
  obtain ⟨dependency, hmem, hremoved⟩ := hdependency
  simp only [visit, (node?_managed_iff hg).2 hmanaged, hstays, Bool.not_true, Bool.false_or]
  split
  · assumption
  · cases hfind : r.dependencies.find? c.removed.contains with
    | none =>
      have hnone := List.find?_eq_none.1 hfind dependency hmem
      simp [hremoved] at hnone
    | some found => simp [Table.contains]

/-- What is forced or removed stays so. -/
theorem visit_mono (hg : g.Coherent) (doomed : Doomed) (c : Cascade) (r : Record) :
    c.removed ⊆ (visit g doomed c r).removed ∧
      ∀ {id}, c.forced.contains id = true →
        (visit g doomed c r).forced.contains id = true := by
  rcases visit_cases hg doomed c r with heq | ⟨-, -, -, hremoved, reason, hforced⟩
  · rw [heq]
    exact ⟨List.Subset.refl _, id⟩
  · rw [hremoved, hforced]
    refine ⟨?_, fun {id} h => ?_⟩
    · split
      · exact List.subset_cons_self ..
      · exact List.Subset.refl _
    · rw [Table.contains, Table.get?_insert]
      split
      · rfl
      · exact h

/-! ## Passes -/

/-- What every visit of a record keeps, a cascade keeps. -/
theorem spread_induction {P : Cascade → Prop}
    (hvisit : ∀ c r, r ∈ s.inCreationOrder → P c → P (visit g doomed c r)) (fuel : Nat)
    (h : P c) : P (spread g s doomed fuel c) := by
  have hpass : ∀ c, P c → P (c.pass g s doomed) := fun c hc =>
    List.foldlRecOn s.inCreationOrder (visit g doomed) hc fun c hc r hr => hvisit c r hr hc
  induction fuel generalizing c with
  | zero => exact h
  | succ fuel ih =>
    rw [spread]
    split
    · exact hpass c h
    · exact ih (hpass c h)

theorem contains_forced_foldl (hg : g.Coherent) {rs : List Record} (hr : r ∈ rs)
    (hmanaged : Manages g r.id) (hstays : doomed.contains r.id = false)
    (hdependency : ∃ dependency ∈ r.dependencies, dependency ∈ c.removed) :
    (rs.foldl (visit g doomed) c).forced.contains r.id = true := by
  induction rs generalizing c with
  | nil => cases hr
  | cons first rs ih =>
    obtain ⟨dependency, hmem, hremoved⟩ := hdependency
    rcases List.mem_cons.1 hr with rfl | hr
    · exact List.foldlRecOn (motive := fun c => c.forced.contains r.id = true) rs (visit g doomed)
        (contains_forced_visit hg hmanaged hstays ⟨dependency, hmem, hremoved⟩)
        fun c hc other _ => (visit_mono hg doomed c other).2 hc
    · exact ih hr ⟨dependency, hmem, (visit_mono hg doomed c first).1 hremoved⟩

/-- A managed node that was recorded as depending on a doomed resource is forced, unless it is
doomed itself or that resource is only forgotten. -/
theorem contains_forcedBy (hg : g.Coherent) (hr : r ∈ s.inCreationOrder)
    (hmanaged : Manages g r.id) (hstays : doomed.contains r.id = false) {dependency : String}
    (hmem : dependency ∈ r.dependencies) (hremoved : dependency ∈ (start s doomed).removed) :
    (forcedBy g s doomed).contains r.id = true := by
  have hpass : ((start s doomed).pass g s doomed).forced.contains r.id = true :=
    contains_forced_foldl hg hr hmanaged hstays ⟨dependency, hmem, hremoved⟩
  rw [forcedBy, spread]
  split
  · exact hpass
  · exact spread_induction (P := fun c => c.forced.contains r.id = true)
      (fun c other _ hc => (visit_mono hg doomed c other).2 hc) _ hpass

/-- What is forced is a managed node that is not doomed, and a record bears its id and depends on
something. -/
theorem of_contains_forcedBy (hg : g.Coherent) {id : String}
    (h : (forcedBy g s doomed).contains id = true) :
    Manages g id ∧ doomed.contains id = false ∧
      ∃ r ∈ s.inCreationOrder, r.id = id ∧ r.dependencies ≠ [] := by
  refine spread_induction (s := s) (P := fun c => ∀ {id}, c.forced.contains id = true →
    Manages g id ∧ doomed.contains id = false ∧
      ∃ r ∈ s.inCreationOrder, r.id = id ∧ r.dependencies ≠ []) ?_ _ ?_ h
  · intro c r hr hc id hid
    rcases visit_cases hg doomed c r with
      heq | ⟨hmanaged, hstays, ⟨dependency, hmem, -⟩, -, reason, hforced⟩
    · exact hc (heq ▸ hid)
    · rw [hforced, Table.contains, Table.get?_insert] at hid
      split at hid
      · next heq => exact heq ▸ ⟨hmanaged, hstays, r, hr, rfl, List.ne_nil_of_mem hmem⟩
      · exact hc hid
  · intro id hid
    cases hid

/-! ## The rules -/

/-- The resources that are deleted, and not just forgotten, if the nodes in `X` are replaced. -/
def Removed (g : Graph) (records : Table Record) (X : Set String) (id : String) : Prop :=
  ∃ r, records.get? id = some r ∧ r.removalPolicy = .destroy ∧ (g.contains id = false ∨ id ∈ X)

/-- A cascade from within a set stays within it, if the set holds every managed node that was
recorded as depending on what is deleted for it. -/
theorem forcedBy_subset (hg : g.Coherent) (hs : s.KeysMatch) {X : Set String}
    (hclosed : ∀ r, s.get? r.id = some r → Manages g r.id →
      ∀ dependency ∈ r.dependencies, Removed g s.resources X dependency → r.id ∈ X)
    (hdoomed : ∀ id, doomed.contains id = true → g.contains id = false ∨ id ∈ X) {id : String}
    (h : (forcedBy g s doomed).contains id = true) : id ∈ X := by
  have hkept : ∀ c r, r ∈ s.inCreationOrder →
      ((∀ id ∈ c.removed, Removed g s.resources X id) ∧
        ∀ id, c.forced.contains id = true → id ∈ X) →
      (∀ id ∈ (visit g doomed c r).removed, Removed g s.resources X id) ∧
        ∀ id, (visit g doomed c r).forced.contains id = true → id ∈ X := by
    rintro c r hr ⟨hremoved, hforced⟩
    rcases visit_cases hg doomed c r with
      heq | ⟨hmanaged, -, ⟨dependency, hmem, hgone⟩, hremoved', reason, hforced'⟩
    · rw [heq]
      exact ⟨hremoved, hforced⟩
    · have hrecord : s.get? r.id = some r := hs.mem_inCreationOrder.1 hr
      have hin : r.id ∈ X :=
        hclosed r hrecord hmanaged dependency hmem (hremoved dependency hgone)
      rw [hremoved', hforced']
      refine ⟨fun id hid => ?_, fun id hid => ?_⟩
      · split at hid
        · next hdestroy =>
          rcases List.mem_cons.1 hid with rfl | hid
          · exact ⟨r, hrecord, hdestroy, .inr hin⟩
          · exact hremoved id hid
        · exact hremoved id hid
      · rw [Table.contains, Table.get?_insert] at hid
        split at hid
        · next heq => exact heq ▸ hin
        · exact hforced id hid
  refine (spread_induction hkept _ ⟨fun id hid => ?_, fun id hid => ?_⟩).2 id h
  · obtain ⟨hid, r, hr, hdestroy⟩ := mem_start.1 hid
    exact ⟨r, hr, hdestroy, hdoomed id hid⟩
  · cases hid

end Converge.Cascade
