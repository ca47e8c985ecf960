import Converge.Proofs.Graph.Build
import Converge.Proofs.Plan.Cascade

/-!
# Deletion steps

The steps that remove what is doomed: one for every doomed record, in an order in which each comes
after the steps of all that were recorded as depending on it, and waits for them.

Main statement: `Removal.steps_spec`.
-/

namespace Converge

/-! ## Numbers of a list of names -/

namespace Table

variable {placed : Table Nat} {names : List String} {name : String}

/-- Gives the names of a list the numbers from `next` on. -/
def number (placed : Table Nat) (next : Nat) : List String → Table Nat
  | [] => placed
  | name :: rest => (placed.insert name next).number (next + 1) rest

theorem get?_number {next k : Nat} (h : names.Nodup) :
    (placed.number next names).get? name = some k ↔
      (∃ i, names[i]? = some name ∧ next + i = k) ∨
        (name ∉ names ∧ placed.get? name = some k) := by
  induction names generalizing placed next with
  | nil => simp [number]
  | cons first rest ih =>
    obtain ⟨hfirst, hrest⟩ := List.nodup_cons.1 h
    rw [number, ih hrest, get?_insert]
    constructor
    · rintro (⟨i, hi, rfl⟩ | ⟨hnot, hplaced⟩)
      · exact .inl ⟨i + 1, by simpa using hi, by omega⟩
      · split at hplaced
        · next heq => exact .inl ⟨0, by simp [heq], Option.some.inj hplaced⟩
        · next hne => exact .inr ⟨by simp [hne, hnot], hplaced⟩
    · rintro (⟨i, hi, rfl⟩ | ⟨hnot, hplaced⟩)
      · cases i with
        | zero =>
          obtain rfl : first = name := by simpa using hi
          exact .inr ⟨hfirst, by simp⟩
        | succ i => exact .inl ⟨i, by simpa using hi, by omega⟩
      · rw [List.mem_cons, not_or] at hnot
        exact .inr ⟨hnot.2, by rw [if_neg hnot.1, hplaced]⟩

theorem get?_number_empty {next k : Nat} (h : names.Nodup) :
    ((empty : Table Nat).number next names).get? name = some k ↔
      ∃ i, names[i]? = some name ∧ next + i = k := by
  rw [get?_number h]
  simp

end Table

namespace Removal

variable {s : State} {doomed : Doomed} {g g' : Graph}

theorem mem_indicesIn {placed : Table Nat} {ids : List String} {i : Nat} :
    i ∈ indicesIn placed ids ↔ ∃ id ∈ ids, placed.get? id = some i := by
  simp [indicesIn]

theorem mem_records (hs : s.KeysMatch) {r : Record} :
    r ∈ records s doomed ↔ s.get? r.id = some r ∧ doomed.contains r.id = true := by
  rw [records, List.mem_filter, hs.mem_inCreationOrder]

/-- Whether a resource goes: it is recorded, and doomed. -/
def Goes (s : State) (doomed : Doomed) (id : String) : Prop :=
  doomed.contains id = true ∧ ∃ r, s.get? id = some r

theorem mem_map_records (hs : s.KeysMatch) {id : String} :
    id ∈ (records s doomed).map (·.id) ↔ Goes s doomed id := by
  rw [List.mem_map]
  constructor
  · rintro ⟨r, hr, rfl⟩
    obtain ⟨hrecord, hdoomed⟩ := (mem_records hs).1 hr
    exact ⟨hdoomed, r, hrecord⟩
  · rintro ⟨hdoomed, r, hrecord⟩
    obtain rfl : r.id = id := hs hrecord
    exact ⟨r, (mem_records hs).2 ⟨hrecord, hdoomed⟩, rfl⟩

/-! ## The graph of what goes -/

theorem addRecords_spec {rs : List Record} (hg : g.Unlinked)
    (h : rs.foldlM addRecord g = .ok g') :
    g'.Unlinked ∧ g'.ids = g.ids ++ rs.map (·.id) := by
  induction rs generalizing g with
  | nil =>
    rw [List.foldlM_nil, pure_eq_ok_iff] at h
    subst h
    exact ⟨hg, by simp⟩
  | cons r rs ih =>
    rw [List.foldlM_cons] at h
    obtain ⟨next, hnext, hrest⟩ := bind_eq_ok_iff.1 h
    obtain ⟨hunlinked, hids⟩ := ih (hg.addNode hnext) hrest
    refine ⟨hunlinked, ?_⟩
    rw [hids, Graph.ids_eq, Graph.nodes_addNode hnext, Graph.ids_eq]
    simp

/-- The graph of what goes has the recorded dependencies among the doomed records. -/
theorem graph_spec (h : graph s doomed = .ok g) :
    g.Coherent ∧ g.ids = (records s doomed).map (·.id) ∧
      ∀ id dependency, dependency ∈ g.dependencies id ↔
        ∃ r ∈ records s doomed, id = r.id ∧ dependency ∈ r.dependencies ∧ dependency ∈ g.ids := by
  obtain ⟨unlinked, hunlinked, hlink⟩ := bind_eq_ok_iff.1 h
  obtain ⟨hbare, hids⟩ := addRecords_spec .empty hunlinked
  obtain ⟨hcoherent, hnodes, hdeps⟩ := Graph.foldlM_edges
    (fun r id dependency =>
      id = r.id ∧ dependency ∈ r.dependencies ∧ dependency ∈ unlinked.ids)
    (fun {g g' r} hg (hnodes : g.nodes = unlinked.nodes) hadd => by
      obtain ⟨hcoherent, hnodes', hdeps⟩ := Graph.addEdges_spec hg hadd
      refine ⟨hcoherent, hnodes'.trans hnodes, fun id dependency => ?_⟩
      rw [hdeps, List.mem_filter, Graph.contains_iff, Graph.ids_eq, hnodes, ← Graph.ids_eq])
    hbare.coherent rfl hlink
  have hids' : g.ids = unlinked.ids := by rw [Graph.ids_eq, Graph.ids_eq, hnodes]
  refine ⟨hcoherent, by rw [hids', hids]; rfl, fun id dependency => ?_⟩
  rw [hdeps, hids', or_iff_left hbare.mem_dependencies]

/-- Whether a resource that goes was recorded as depending on another that goes. -/
def Depends (s : State) (doomed : Doomed) (id dependency : String) : Prop :=
  Goes s doomed id ∧ Goes s doomed dependency ∧
    ∃ r, s.get? id = some r ∧ dependency ∈ r.dependencies

theorem mem_dependencies_iff (hs : s.KeysMatch) (hgraph : graph s doomed = .ok g)
    {id dependency : String} :
    dependency ∈ g.dependencies id ↔ Depends s doomed id dependency := by
  obtain ⟨-, hids, hdeps⟩ := graph_spec hgraph
  rw [hdeps, hids, mem_map_records hs]
  constructor
  · rintro ⟨r, hr, rfl, hmem, hgoes⟩
    obtain ⟨hrecord, hdoomed⟩ := (mem_records hs).1 hr
    exact ⟨⟨hdoomed, r, hrecord⟩, hgoes, r, hrecord, hmem⟩
  · rintro ⟨⟨hdoomed, -⟩, hgoes, r, hrecord, hmem⟩
    obtain rfl : r.id = id := hs hrecord
    exact ⟨r, (mem_records hs).2 ⟨hrecord, hdoomed⟩, rfl, hmem, hgoes⟩

/-! ## The steps -/

/-- The step that deletes one record. -/
def deletion (doomed : Doomed) (g : Graph) (placed : Table Nat) (index : Nat) (id : String)
    (r : Record) : Step where
  index
  nodeId := id
  kind := r.kind
  action := .delete
  dependsOn := indicesIn placed (g.dependents id)
  providerId := some r.providerId
  outputs := r.outputs
  reason := (doomed.get? id).getD ""
  dependencies := r.dependencies
  removalPolicy := r.removalPolicy

theorem getElem?_stepsFor {ids : List String} (hids : ∀ id ∈ ids, ∃ r, s.get? id = some r)
    {placed : Table Nat} {next i : Nat} {step : Step} :
    (stepsFor s doomed g placed next ids)[i]? = some step ↔
      ∃ id r, ids[i]? = some id ∧ s.get? id = some r ∧
        deletion doomed g (placed.number next (ids.take i)) (next + i) id r = step := by
  induction ids generalizing placed next i with
  | nil => simp [stepsFor]
  | cons id rest ih =>
    obtain ⟨r, hr⟩ := hids id (List.mem_cons_self ..)
    have hsteps : stepsFor s doomed g placed next (id :: rest) =
        deletion doomed g placed next id r ::
          stepsFor s doomed g (placed.insert id next) (next + 1) rest := by
      rw [stepsFor, hr]
      rfl
    rw [hsteps]
    cases i with
    | zero => simp [hr, Table.number]
    | succ i =>
      rw [List.getElem?_cons_succ, List.getElem?_cons_succ, List.take_succ_cons, Table.number,
        ih fun other hother => hids other (List.mem_cons_of_mem _ hother), Nat.add_right_comm,
        Nat.add_assoc next i 1]

theorem bare_of_mem_stepsFor {ids : List String} {placed : Table Nat} {next : Nat} {step : Step}
    (hstep : step ∈ stepsFor s doomed g placed next ids) :
    step.action = .delete ∧ step.deferred = .empty := by
  induction ids generalizing placed next with
  | nil => cases hstep
  | cons id rest ih =>
    rw [stepsFor] at hstep
    split at hstep
    · exact ih hstep
    · rcases List.mem_cons.1 hstep with rfl | hstep
      · exact ⟨rfl, rfl⟩
      · exact ih hstep

/-- Whatever is recorded, the steps that remove it delete, and defer nothing. -/
theorem bare_of_mem_steps {deletions : List Step} (h : steps s doomed = .ok deletions) {step : Step}
    (hstep : step ∈ deletions) : step.action = .delete ∧ step.deferred = .empty := by
  obtain ⟨g, -, hrest⟩ := bind_eq_ok_iff.1 h
  obtain ⟨order, -, hpure⟩ := bind_eq_ok_iff.1 hrest
  obtain rfl := pure_eq_ok_iff.1 hpure
  exact bare_of_mem_stepsFor hstep

/-- Of steps of different nodes each stands at one place only. -/
theorem eq_of_nodeId_eq {steps : List Step} (hnodup : (steps.map (·.nodeId)).Nodup) {i j : Nat}
    {earlier later : Step} (hearlier : steps[i]? = some earlier) (hlater : steps[j]? = some later)
    (hid : earlier.nodeId = later.nodeId) : i = j := by
  have hi : i < (steps.map (·.nodeId)).length := by
    rw [List.length_map]
    exact (List.getElem?_eq_some_iff.1 hearlier).1
  refine (List.getElem?_inj hi hnodup).1 ?_
  rw [List.getElem?_map, List.getElem?_map, hearlier, hlater, Option.map_some, Option.map_some, hid]

/-! ## The order of what goes -/

/-- What goes, in an order in which each record stands before all that it depends on. -/
structure Arranged (s : State) (doomed : Doomed) (g : Graph) (ids : List String) : Prop where
  nodup : ids.Nodup
  mem : ∀ {id : String}, id ∈ ids ↔ doomed.contains id = true ∧ ∃ r, s.get? id = some r
  dependents : ∀ {id other : String}, other ∈ g.dependents id ↔ id ∈ g.dependencies other
  dependency : ∀ {id other : String} {r : Record}, other ∈ ids → s.get? other = some r →
    id ∈ ids → id ∈ r.dependencies → id ∈ g.dependencies other
  before : ∀ {i j : Nat} {id other : String}, ids[i]? = some id → ids[j]? = some other →
    id ∈ g.dependencies other → j < i

/-- In a list that stands in the reverse of an order, dependents stand before dependencies. -/
theorem lt_of_reverse {ids : List String} (hnodup : ids.Nodup) {i j : Nat} {id other : String}
    (hi : ids[i]? = some id) (hj : ids[j]? = some other)
    (hbefore : ∀ before after, ids.reverse = before ++ other :: after → id ∈ before) : j < i := by
  obtain ⟨hjlt, hjeq⟩ := List.getElem?_eq_some_iff.1 hj
  have hsplit : ids = ids.take j ++ other :: ids.drop (j + 1) := by
    rw [← hjeq, List.getElem_cons_drop, List.take_append_drop]
  have hmem : id ∈ ids.drop (j + 1) := by
    have hreverse : ids.reverse = (ids.drop (j + 1)).reverse ++ other :: (ids.take j).reverse := by
      conv_lhs => rw [hsplit]
      simp
    exact List.mem_reverse.1 (hbefore _ _ hreverse)
  obtain ⟨k, hk⟩ := List.mem_iff_getElem?.1 hmem
  rw [List.getElem?_drop] at hk
  have hlt : i < ids.length := (List.getElem?_eq_some_iff.1 hi).1
  have heq : i = j + 1 + k := (List.getElem?_inj hlt hnodup).1 (hi.trans hk.symm)
  omega

theorem Arranged.of_order (hs : s.KeysMatch) (hgraph : graph s doomed = .ok g)
    {order : List String} (horder : g.order = .ok order) : Arranged s doomed g order.reverse := by
  obtain ⟨hcoherent, hgids, hdeps⟩ := graph_spec hgraph
  obtain ⟨hperm, hbefore⟩ := Graph.order_spec hcoherent horder
  have hnodup : order.reverse.Nodup := List.nodup_reverse.2 (hperm.nodup_iff.2 hcoherent.nodup)
  have hmem : ∀ {id}, id ∈ order.reverse ↔ Goes s doomed id := by
    intro id
    rw [List.mem_reverse, hperm.mem_iff, hgids, mem_map_records hs]
  refine ⟨hnodup, hmem, hcoherent.mem_dependents, ?_, ?_⟩
  · intro id other r hother hr hid hdep
    have hrid : r.id = other := hs hr
    have hrecord : r ∈ records s doomed :=
      (mem_records hs).2 ⟨hrid ▸ hr, hrid ▸ (hmem.1 hother).1⟩
    rw [List.mem_reverse, hperm.mem_iff] at hid
    exact (hdeps _ _).2 ⟨r, hrecord, hrid.symm, hdep, hid⟩
  · intro i j id other hi hj hdep
    exact lt_of_reverse hnodup hi hj fun before after hsplit =>
      hbefore before _ after (by simpa using hsplit) _ hdep

section arranged

variable {ids : List String} {i j : Nat} {step : Step}

/-- Every step is a deletion at its place in the order. -/
theorem Arranged.getElem?_steps (h : Arranged s doomed g ids)
    (hstep : (stepsFor s doomed g .empty 0 ids)[i]? = some step) :
    ∃ r, ids[i]? = some step.nodeId ∧ s.get? step.nodeId = some r ∧
      deletion doomed g (.number .empty 0 (ids.take i)) i step.nodeId r = step := by
  obtain ⟨id, r, hid, hr, rfl⟩ := (getElem?_stepsFor fun id hid => (h.mem.1 hid).2).1 hstep
  exact ⟨r, hid, hr, by rw [Nat.zero_add]; rfl⟩

theorem Arranged.mem_steps (h : Arranged s doomed g ids)
    (hstep : step ∈ stepsFor s doomed g .empty 0 ids) :
    ∃ i, ∃ r, ids[i]? = some step.nodeId ∧ s.get? step.nodeId = some r ∧
      deletion doomed g (.number .empty 0 (ids.take i)) i step.nodeId r = step := by
  obtain ⟨i, hi⟩ := List.mem_iff_getElem?.1 hstep
  exact ⟨i, h.getElem?_steps hi⟩

theorem Arranged.nodeIds (h : Arranged s doomed g ids) :
    (stepsFor s doomed g .empty 0 ids).map (·.nodeId) = ids := by
  refine List.ext_getElem? fun i => Option.ext fun id => ?_
  rw [List.getElem?_map, Option.map_eq_some_iff]
  constructor
  · rintro ⟨step, hstep, rfl⟩
    obtain ⟨r, hid, -⟩ := h.getElem?_steps hstep
    exact hid
  · intro hid
    obtain ⟨r, hr⟩ := (h.mem.1 (List.mem_of_getElem? hid)).2
    exact ⟨_, (getElem?_stepsFor fun id hid => (h.mem.1 hid).2).2 ⟨id, r, hid, hr, rfl⟩, rfl⟩

/-- A deletion waits for the steps of the recorded dependents that stand before it. -/
theorem Arranged.mem_dependsOn (h : Arranged s doomed g ids) {id : String} {r : Record} :
    j ∈ (deletion doomed g (.number .empty 0 (ids.take i)) i id r).dependsOn ↔
      j < i ∧ ∃ other, ids[j]? = some other ∧ id ∈ g.dependencies other := by
  simp only [deletion, mem_indicesIn, h.dependents,
    Table.get?_number_empty (h.nodup.sublist (List.take_sublist ..)), Nat.zero_add,
    exists_eq_right, List.getElem?_take]
  grind

end arranged

/-! ## The steps as a whole -/

/-- Steps that delete what is doomed, each after the steps of all that depend on it. -/
structure Sound (records : Table Record) (doomed : Doomed) (steps : List Step) : Prop where
  index : ∀ {i : Nat} {step : Step}, steps[i]? = some step → step.index = i
  action : ∀ step ∈ steps, step.action = .delete
  record : ∀ step ∈ steps, doomed.contains step.nodeId = true ∧
    ∃ r, records.get? step.nodeId = some r ∧ step.providerId = some r.providerId ∧
      step.kind = r.kind ∧ step.dependencies = r.dependencies ∧
      step.removalPolicy = r.removalPolicy
  complete : ∀ {id : String} {r : Record}, records.get? id = some r → doomed.contains id = true →
    ∃ step ∈ steps, step.nodeId = id
  nodup : (steps.map (·.nodeId)).Nodup
  earlier : ∀ step ∈ steps, ∀ i ∈ step.dependsOn, i < step.index
  waits : ∀ step ∈ steps, ∀ other ∈ steps, step.nodeId ∈ other.dependencies →
    other.index ∈ step.dependsOn

theorem Sound.nil {records : Table Record} : Sound records .empty [] where
  index hstep := absurd hstep (by simp)
  action _ hstep := absurd hstep List.not_mem_nil
  record _ hstep := absurd hstep List.not_mem_nil
  complete {id _} _ hdoomed :=
    nomatch (Table.contains_eq_false_iff.2 (Table.get?_empty id)).symm.trans hdoomed
  nodup := .nil
  earlier _ hstep := absurd hstep List.not_mem_nil
  waits _ hstep := absurd hstep List.not_mem_nil

/-- There is one deletion for every node. -/
theorem Sound.unique {records : Table Record} {deletions : List Step}
    (h : Sound records doomed deletions) {k l : Nat} {a b : Step} (ha : deletions[k]? = some a)
    (hb : deletions[l]? = some b) (hid : a.nodeId = b.nodeId) : k = l :=
  eq_of_nodeId_eq h.nodup ha hb hid

theorem Arranged.sound {ids : List String} (h : Arranged s doomed g ids) :
    Sound s.resources doomed (stepsFor s doomed g .empty 0 ids) := by
  refine ⟨?_, ?_, ?_, ?_, ?_, ?_, ?_⟩
  · intro i step hstep
    obtain ⟨r, -, -, heq⟩ := h.getElem?_steps hstep
    exact heq ▸ rfl
  · intro step hstep
    obtain ⟨i, r, -, -, heq⟩ := h.mem_steps hstep
    exact heq ▸ rfl
  · intro step hstep
    obtain ⟨i, r, hid, hr, heq⟩ := h.mem_steps hstep
    refine ⟨(h.mem.1 (List.mem_of_getElem? hid)).1, r, hr, ?_⟩
    rw [← heq]
    exact ⟨rfl, rfl, rfl, rfl⟩
  · intro id r hr hdoomed
    have hid : id ∈ ids := h.mem.2 ⟨hdoomed, r, hr⟩
    rw [← h.nodeIds, List.mem_map] at hid
    exact hid
  · rw [h.nodeIds]
    exact h.nodup
  · intro step hstep j hj
    obtain ⟨i, r, -, -, heq⟩ := h.mem_steps hstep
    rw [← heq] at hj ⊢
    exact (h.mem_dependsOn.1 hj).1
  · intro step hstep other hother hdep
    obtain ⟨i, r, hid, hr, heq⟩ := h.mem_steps hstep
    obtain ⟨j, r', hid', hr', heq'⟩ := h.mem_steps hother
    have hrecorded : step.nodeId ∈ r'.dependencies := by
      rw [← heq'] at hdep
      exact hdep
    have hlinked : step.nodeId ∈ g.dependencies other.nodeId :=
      h.dependency (List.mem_of_getElem? hid') hr' (List.mem_of_getElem? hid) hrecorded
    have hindex : other.index = j := by rw [← heq']; rfl
    rw [hindex, ← heq]
    exact h.mem_dependsOn.2 ⟨h.before hid hid' hlinked, other.nodeId, hid', hlinked⟩

theorem steps_spec (hs : s.KeysMatch) {deletions : List Step}
    (h : steps s doomed = .ok deletions) : Sound s.resources doomed deletions := by
  obtain ⟨g, hgraph, hrest⟩ := bind_eq_ok_iff.1 h
  obtain ⟨order, horder, hpure⟩ := bind_eq_ok_iff.1 hrest
  obtain rfl := pure_eq_ok_iff.1 hpure
  exact (Arranged.of_order hs hgraph horder).sound

end Removal

end Converge
