import Converge.Graph.Order
import Converge.Proofs.Graph.Coherence
import Mathlib.Data.List.Perm.Subperm

/-!
# Dependency order

What a sort has done after any number of placements: the placed positions stand after all that they
depend on, every count of pending dependencies is exact, and ready is just what could be placed
next.

Main statements: `Sorting.Sound.step` keeps this invariant, and from it `Graph.sort_spec`,
`Graph.sortedNodes_spec` and `Graph.order_spec` say that a sort that succeeds gives every node once,
each after everything it depends on.
-/

namespace Converge

namespace Graph

/-- Every position of a list stands after all positions that it depends on. -/
def Orders (g : Graph) (order : List Nat) : Prop :=
  ∀ before i after, order = before ++ i :: after → ∀ j ∈ g.dependenciesAt i, j ∈ before

variable {g : Graph}

theorem Orders.nil : g.Orders [] := by
  intro before i after h
  simp at h

theorem Orders.concat {order : List Nat} (h : g.Orders order) {i : Nat}
    (hi : ∀ j ∈ g.dependenciesAt i, j ∈ order) : g.Orders (order ++ [i]) := by
  intro before k after heq j hj
  rcases List.eq_nil_or_concat after with rfl | ⟨after', last, rfl⟩
  · obtain ⟨rfl, hk⟩ := List.append_inj' heq rfl
    simp only [List.cons.injEq, and_true] at hk
    exact hi j (hk ▸ hj)
  · have heq' : order ++ [i] = (before ++ k :: after') ++ [last] := by simpa using heq
    obtain ⟨horder, -⟩ := List.append_inj' heq' rfl
    exact h before k after' horder j hj

theorem Orders.dependencies_mem {order : List Nat} (h : g.Orders order) {i j : Nat}
    (hi : i ∈ order) (hj : j ∈ g.dependenciesAt i) : j ∈ order := by
  obtain ⟨before, after, rfl⟩ := List.append_of_mem hi
  exact List.mem_append_left _ (h before i after rfl j hj)

end Graph

namespace Sorting

variable {g : Graph} {s : Sorting}

/-- The invariant of a sort. -/
structure Sound (g : Graph) (s : Sorting) : Prop where
  nodup : s.placed.Nodup
  lt : ∀ i ∈ s.placed, i < g.size
  orders : g.Orders s.placed
  length : s.pending.length = g.size
  pending : ∀ i < g.size, s.pending.getD i 0 = (g.dependenciesAt i).countP (· ∉ s.placed)
  increasing : s.ready.Pairwise (· < ·)
  ready : ∀ i, i ∈ s.ready ↔ i < g.size ∧ i ∉ s.placed ∧ ∀ j ∈ g.dependenciesAt i, j ∈ s.placed

theorem dependenciesAt_eq (g : Graph) {i : Nat} (h : i < g.size) :
    g.dependenciesAt i = g.vertices[i].dependencies := by
  rw [Graph.dependenciesAt, List.getElem?_eq_getElem h]
  rfl

theorem Sound.start (g : Graph) : Sound g (start g) := by
  refine ⟨List.nodup_nil, by simp [Sorting.start], .nil, ?_, ?_, ?_, ?_⟩
  · simp [Sorting.start, Graph.size]
  · intro i hi
    have hcount : (g.dependenciesAt i).countP (· ∉ (Sorting.start g).placed) =
        (g.dependenciesAt i).length := List.countP_eq_length.2 (by simp [Sorting.start])
    rw [hcount, dependenciesAt_eq g hi, Sorting.start, List.getD_eq_getElem?_getD,
      List.getElem?_map, List.getElem?_eq_getElem hi]
    rfl
  · exact List.pairwise_lt_range.filter _
  · intro i
    simp [Sorting.start, List.eq_nil_iff_forall_not_mem]

/-! ## Releasing dependents -/

/-- What releasing a list of positions does to the counts and to what is ready. -/
theorem foldl_release (ds : List Nat) (hnodup : ds.Nodup) (s : Sorting)
    (hlt : ∀ k ∈ ds, k < s.pending.length) :
    let r := ds.foldl release s
    r.placed = s.placed ∧ r.pending.length = s.pending.length ∧
      (∀ k, r.pending.getD k 0 = if k ∈ ds then s.pending.getD k 0 - 1 else s.pending.getD k 0) ∧
      (s.ready.Pairwise (· < ·) → r.ready.Pairwise (· < ·)) ∧
      ∀ k, k ∈ r.ready ↔ k ∈ s.ready ∨ (k ∈ ds ∧ s.pending.getD k 0 - 1 = 0) := by
  induction ds generalizing s with
  | nil => simp
  | cons d ds ih =>
    have hd := List.nodup_cons.1 hnodup
    have hdlt : d < s.pending.length := hlt d (List.mem_cons_self ..)
    have hlength : (s.release d).pending.length = s.pending.length := by simp [release]
    have hcount : ∀ k, (s.release d).pending.getD k 0 =
        if k = d then s.pending.getD k 0 - 1 else s.pending.getD k 0 := by
      intro k
      simp only [release, List.getD_eq_getElem?_getD, List.getElem?_set]
      by_cases hk : d = k
      · subst hk
        simp [hdlt]
      · simp [hk, Ne.symm hk]
    have hready : ∀ k, k ∈ (s.release d).ready ↔
        k ∈ s.ready ∨ (k = d ∧ s.pending.getD k 0 - 1 = 0) := by
      intro k
      simp only [release]
      split
      · next hzero =>
        rw [Positions.mem_insert]
        constructor
        · rintro (rfl | hk)
          · exact .inr ⟨rfl, hzero⟩
          · exact .inl hk
        · rintro (hk | ⟨rfl, -⟩)
          · exact .inr hk
          · exact .inl rfl
      · next hzero =>
        constructor
        · exact .inl
        · rintro (hk | ⟨rfl, hk⟩)
          · exact hk
          · exact absurd hk hzero
    obtain ⟨hplaced, hlen, hpending, hincreasing, hmem⟩ := ih hd.2 (s.release d) fun k hk => by
      rw [hlength]
      exact hlt k (List.mem_cons_of_mem _ hk)
    refine ⟨hplaced, hlen.trans hlength, ?_, ?_, ?_⟩
    · intro k
      rw [List.foldl_cons, hpending k, hcount k]
      by_cases hkd : k = d
      · subst hkd
        simp [hd.1]
      · simp [hkd]
    · intro h
      refine hincreasing ?_
      simp only [release]
      split
      · exact Positions.pairwise_insert d h
      · exact h
    · intro k
      rw [List.foldl_cons, hmem k, hready k, hcount k, List.mem_cons]
      by_cases hkd : k = d
      · subst hkd
        simp [hd.1]
      · simp [hkd]

/-! ## One placement -/

/-- Placing a position takes it off the count of what is missing, as often as it is counted. -/
theorem countP_concat (deps : List Nat) {placed : List Nat} {i : Nat} (hi : i ∉ placed) :
    deps.countP (· ∉ placed) = deps.countP (· ∉ placed ++ [i]) + deps.count i := by
  induction deps with
  | nil => rfl
  | cons d deps ih =>
    rw [List.countP_cons, List.countP_cons, List.count_cons, ih]
    by_cases hdi : d = i
    · subst hdi
      have hnew : d ∈ placed ++ [d] := List.mem_append_right _ (List.mem_singleton.2 rfl)
      simp only [hi, hnew, not_false_eq_true, not_true_eq_false, decide_true, decide_false,
        beq_self_eq_true, if_true, Bool.false_eq_true, if_false]
      omega
    · have hiff : d ∉ placed ++ [i] ↔ d ∉ placed := by simp [hdi]
      simp only [hiff, beq_eq_false_iff_ne.2 hdi, Bool.false_eq_true, if_false]
      omega

/-- A placement takes one off the count of every dependent. -/
theorem Sound.pending_concat (hg : g.Coherent) (h : Sound g s) {i k : Nat} (hi : i ∉ s.placed)
    (hk : k < g.size) :
    (g.dependenciesAt k).countP (· ∉ s.placed ++ [i]) =
      if k ∈ g.dependentsAt i then s.pending.getD k 0 - 1 else s.pending.getD k 0 := by
  rw [h.pending k hk, countP_concat _ hi]
  have hnodup := Positions.nodup_of_pairwise (hg.dependencies_increasing k)
  split
  · next hki =>
    rw [List.count_eq_one_of_mem hnodup (hg.converse.2 hki)]
    omega
  · next hki =>
    rw [List.count_eq_zero_of_not_mem fun hmem => hki (hg.converse.1 hmem)]
    omega

/-- Ready after a placement is what was ready besides, and the dependents that missed nothing else. -/
theorem Sound.ready_concat (hg : g.Coherent) (h : Sound g s) {i : Nat} {ready : List Nat}
    (hready : s.ready = i :: ready) (k : Nat) :
    k ∈ ready ∨ (k ∈ g.dependentsAt i ∧ s.pending.getD k 0 - 1 = 0) ↔
      k < g.size ∧ k ∉ s.placed ++ [i] ∧ ∀ j ∈ g.dependenciesAt k, j ∈ s.placed ++ [i] := by
  obtain ⟨hi, hiplaced, hideps⟩ := (h.ready i).1 (hready ▸ List.mem_cons_self ..)
  constructor
  · rintro (hk | ⟨hk, hzero⟩)
    · -- What was ready stays ready; it is not the placed position, as ready is increasing.
      obtain ⟨hlt, hnot, hdeps⟩ := (h.ready k).1 (hready ▸ List.mem_cons_of_mem _ hk)
      have hincreasing := List.pairwise_cons.1 (hready ▸ h.increasing)
      have hne : k ≠ i := Nat.ne_of_gt (hincreasing.1 k hk)
      exact ⟨hlt, by simp [hnot, hne], fun j hj => List.mem_append_left _ (hdeps j hj)⟩
    · have hki : i ∈ g.dependenciesAt k := hg.converse.2 hk
      have hlt : k < g.size := Graph.lt_of_mem_dependenciesAt hki
      have hnot : k ∉ s.placed := fun hkp => hiplaced (h.orders.dependencies_mem hkp hki)
      have hne : k ≠ i := fun heq => hiplaced (hideps i (heq ▸ hki))
      have hcount := h.pending_concat hg hiplaced hlt
      rw [if_pos hk, hzero] at hcount
      refine ⟨hlt, by simp [hnot, hne], fun j hj => ?_⟩
      have hmissing := List.countP_eq_zero.1 hcount j hj
      exact Decidable.not_not.1 fun hnot => hmissing (decide_eq_true hnot)
  · rintro ⟨hlt, hnot, hdeps⟩
    have hnot' : k ∉ s.placed := fun hk => hnot (List.mem_append_left _ hk)
    by_cases hki : i ∈ g.dependenciesAt k
    · right
      have hk : k ∈ g.dependentsAt i := hg.converse.1 hki
      have hcount := h.pending_concat hg hiplaced hlt
      rw [if_pos hk] at hcount
      refine ⟨hk, hcount ▸ List.countP_eq_zero.2 fun j hj hmissing => ?_⟩
      exact of_decide_eq_true hmissing (hdeps j hj)
    · left
      have hready' : k ∈ s.ready := (h.ready k).2 ⟨hlt, hnot', fun j hj => by
        rcases List.mem_append.1 (hdeps j hj) with hj' | hj'
        · exact hj'
        · exact absurd (List.mem_singleton.1 hj' ▸ hj) hki⟩
      rw [hready] at hready'
      rcases List.mem_cons.1 hready' with rfl | hk
      · exact absurd (List.mem_append_right _ (List.mem_singleton.2 rfl)) hnot
      · exact hk

/-- A step places the first of the ready positions after the others. -/
theorem placed_step {i : Nat} {ready : List Nat} (h : s.ready = i :: ready) :
    (s.step g).placed = s.placed ++ [i] := by
  have hkept : ∀ (ds : List Nat) (s : Sorting), (ds.foldl release s).placed = s.placed := by
    intro ds
    induction ds with
    | nil => exact fun s => rfl
    | cons d ds ih => exact fun s => ih (s.release d)
  rw [Sorting.step, h]
  exact hkept ..

theorem Sound.step (hg : g.Coherent) (h : Sound g s) : Sound g (s.step g) := by
  rw [Sorting.step]
  split
  · exact h
  · next i ready hready =>
    obtain ⟨hi, hiplaced, hideps⟩ := (h.ready i).1 (hready ▸ List.mem_cons_self ..)
    have hincreasing := List.pairwise_cons.1 (hready ▸ h.increasing)
    have hdependents : (g.dependentsAt i).Nodup :=
      Positions.nodup_of_pairwise (hg.dependents_increasing i)
    obtain ⟨hplaced, hlength, hpending, hsorted, hmem⟩ :=
      foldl_release (g.dependentsAt i) hdependents { s with ready, placed := s.placed ++ [i] }
        fun k hk => by
          rw [h.length]
          exact Graph.lt_of_mem_dependenciesAt (hg.converse.2 hk)
    refine ⟨?_, ?_, ?_, ?_, ?_, ?_, ?_⟩
    · rw [hplaced]
      exact List.nodup_append.2 ⟨h.nodup, by simp, fun k hk j hj heq => by
        rw [List.mem_singleton] at hj
        exact hiplaced (hj ▸ heq ▸ hk)⟩
    · rw [hplaced]
      intro k hk
      rcases List.mem_append.1 hk with hk | hk
      · exact h.lt k hk
      · exact List.mem_singleton.1 hk ▸ hi
    · rw [hplaced]
      exact h.orders.concat hideps
    · exact hlength.trans h.length
    · intro k hk
      rw [hpending k, hplaced, h.pending_concat hg hiplaced hk]
    · exact hsorted hincreasing.2
    · intro k
      rw [hmem k, hplaced]
      exact h.ready_concat hg hready k

theorem Sound.run (hg : g.Coherent) (h : Sound g s) (count : Nat) : Sound g (run g count s) := by
  induction count generalizing s with
  | zero => exact h
  | succ count ih => exact ih (h.step hg)

end Sorting

namespace Graph

variable {g : Graph}

/-- A sort gives what it has placed if that is all there is. -/
theorem sort_eq_ok_iff {order : List Nat} : g.sort = .ok order ↔
    g.size ≤ (Sorting.finish g).placed.length ∧ (Sorting.finish g).placed = order := by
  rw [sort]
  split
  · next hleft => simp [Nat.not_le.2 hleft]
  · next hdone => simp [Nat.le_of_not_lt hdone]

theorem sort_eq_error_iff {cause : GraphError} : g.sort = .error cause ↔
    (Sorting.finish g).placed.length < g.size ∧
      .cycle (g.idsAt (g.cycle (Sorting.finish g).pending)) = cause := by
  rw [sort]
  split
  · next hleft => simp [hleft]
  · next hdone => simp [hdone]

/-- A sort that succeeds gives every position once, each after all that it depends on. -/
theorem sort_spec (hg : g.Coherent) {order : List Nat} (h : g.sort = .ok order) :
    order.Perm (List.range g.size) ∧ g.Orders order := by
  have hsound : Sorting.Sound g (Sorting.finish g) := (Sorting.Sound.start g).run hg g.size
  obtain ⟨hlength, rfl⟩ := sort_eq_ok_iff.1 h
  have hsub : (Sorting.finish g).placed.Subperm (List.range g.size) :=
    hsound.nodup.subperm fun i hi => List.mem_range.2 (hsound.lt i hi)
  exact ⟨hsub.perm_of_length_le (List.length_range ▸ hlength), hsound.orders⟩

theorem filterMap_range_getElem? {α : Type} (xs : List α) :
    (List.range xs.length).filterMap (fun i => xs[i]?) = xs := by
  induction xs with
  | nil => rfl
  | cons x xs ih =>
    rw [List.length_cons, List.range_succ_eq_map, List.filterMap_cons, List.filterMap_map]
    exact congrArg (x :: ·) ih

/-- What a sort gives, for any data of the nodes. -/
theorem pick_spec {α : Type} (hg : g.Coherent) {order : List Nat} (h : g.sort = .ok order)
    (xs : List α) (hsize : xs.length = g.size) :
    (order.filterMap fun i => xs[i]?).Perm xs ∧
      ∀ before x after, (order.filterMap fun i => xs[i]?) = before ++ x :: after →
        ∃ i, xs[i]? = some x ∧ ∀ j ∈ g.dependenciesAt i, ∃ y ∈ before, xs[j]? = some y := by
  obtain ⟨hperm, horders⟩ := sort_spec hg h
  refine ⟨?_, ?_⟩
  · rw [← hsize] at hperm
    exact (hperm.filterMap fun i => xs[i]?).trans (.of_eq (filterMap_range_getElem? xs))
  · intro before x after heq
    obtain ⟨pre, post, rfl, hpre, hpost⟩ := List.filterMap_eq_append_iff.1 heq
    obtain ⟨skipped, i, rest, rfl, hskipped, hi, -⟩ := List.filterMap_eq_cons_iff.1 hpost
    refine ⟨i, hi, fun j hj => ?_⟩
    have hlt : j < xs.length := hsize ▸ hg.lt hj
    have hmem : j ∈ pre ++ skipped := horders (pre ++ skipped) i rest (by simp) j hj
    rcases List.mem_append.1 hmem with hj' | hj'
    · exact ⟨xs[j], hpre ▸ List.mem_filterMap.2 ⟨j, hj', List.getElem?_eq_getElem hlt⟩,
        List.getElem?_eq_getElem hlt⟩
    · have := hskipped j hj'
      rw [List.getElem?_eq_getElem hlt] at this
      cases this

/-- The nodes in dependency order are the nodes of the graph, each after all that it depends on. -/
theorem sortedNodes_spec (hg : g.Coherent) {nodes : List Node} (h : g.sortedNodes = .ok nodes) :
    nodes.Perm g.nodes ∧
      ∀ before node after, nodes = before ++ node :: after →
        ∀ dependency ∈ g.dependencies node.id, ∃ other ∈ before, other.id = dependency := by
  cases hsort : g.sort with
  | error e => rw [sortedNodes, hsort] at h; cases h
  | ok order =>
    rw [sortedNodes, hsort] at h
    simp only [← nodes_getElem?] at h
    cases h
    obtain ⟨hperm, hbefore⟩ := pick_spec hg hsort g.nodes (by simp [nodes, size])
    refine ⟨hperm, fun before node after heq dependency hdep => ?_⟩
    obtain ⟨i, hi, hdeps⟩ := hbefore before node after heq
    obtain ⟨k, j, hk, hj, hmem⟩ := hg.mem_dependencies.1 hdep
    have hid : g.ids[i]? = some node.id := by rw [ids_eq, List.getElem?_map, hi]; rfl
    obtain rfl : i = k := ids_inj hg.nodup hid hk
    obtain ⟨other, hother, hjother⟩ := hdeps j hmem
    refine ⟨other, hother, ?_⟩
    rw [ids_eq, List.getElem?_map, hjother] at hj
    exact Option.some.inj hj

/-- The ids in dependency order are those of the nodes in that order. -/
theorem order_of_sortedNodes {nodes : List Node} (h : g.sortedNodes = .ok nodes) :
    g.order = .ok (nodes.map (·.id)) := by
  cases hsort : g.sort with
  | error e => rw [sortedNodes, hsort] at h; cases h
  | ok order =>
    rw [sortedNodes, hsort] at h
    cases h
    rw [Graph.order, hsort, List.map_filterMap]
    simp only [Option.map_map]
    rfl

/-- Whether a list gives every id of a graph once, each after all that it depends on. -/
structure IsOrder (g : Graph) (ids : List String) : Prop where
  perm : ids.Perm g.ids
  after : ∀ before id after, ids = before ++ id :: after → ∀ d ∈ g.dependencies id, d ∈ before

/-- The ids in dependency order are those of the graph, each after all that it depends on. -/
theorem order_spec (hg : g.Coherent) {ids : List String} (h : g.order = .ok ids) :
    g.IsOrder ids := by
  cases hsort : g.sort with
  | error e => rw [order, hsort] at h; cases h
  | ok order =>
    rw [Graph.order, hsort] at h
    simp only [idsAt, ← ids_getElem?] at h
    cases h
    obtain ⟨hperm, hbefore⟩ := pick_spec hg hsort g.ids g.length_ids
    refine ⟨hperm, fun before id after heq dependency hdep => ?_⟩
    obtain ⟨i, hi, hdeps⟩ := hbefore before id after heq
    obtain ⟨k, j, hk, hj, hmem⟩ := hg.mem_dependencies.1 hdep
    obtain rfl : i = k := ids_inj hg.nodup hi hk
    obtain ⟨other, hother, hjother⟩ := hdeps j hmem
    rw [hjother] at hj
    exact Option.some.inj hj ▸ hother

end Graph

end Converge
