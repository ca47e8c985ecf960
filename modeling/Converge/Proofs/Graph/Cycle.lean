import Converge.Proofs.Graph.Acyclic
import Mathlib.Data.List.Chain
import Mathlib.Data.List.GetD
import Mathlib.Data.List.TakeWhile

/-!
# The cycle that an error shows

A sort that comes to a stop leaves nodes over: those that lie on a cycle, and those that only wait for
one. Each of them waits for another that is left over as well. So a walk from one to the next goes on
until it comes to a node that it has passed, and what it has passed since then is a cycle; the way
that led there is cut off.

Main statements: `Sorting.Sound.stuck` says what is left over, `Graph.closeWalk_closes` that the walk
closes, and `Graph.order_error_isCycle` what the error says of the graph.
-/

namespace Converge

/-! ## What is left over -/

namespace Sorting

variable {g : Graph} {s : Sorting} {pending : List Nat}

theorem lt_of_waiting {i : Nat} (h : 0 < pending.getD i 0) : i < pending.length := by
  by_contra hi
  rw [List.getD_eq_default _ _ (Nat.le_of_not_lt hi)] at h
  exact Nat.lt_irrefl 0 h

/-- Where nothing is ready, the positions that wait are those that are not placed. -/
theorem Sound.waiting_iff (h : Sound g s) (hready : s.ready = []) {i : Nat} (hi : i < g.size) :
    0 < s.pending.getD i 0 ↔ i ∉ s.placed := by
  rw [h.pending i hi, List.countP_pos_iff]
  constructor
  · rintro ⟨j, hj, hmissing⟩ hplaced
    exact of_decide_eq_true hmissing (h.orders.dependencies_mem hplaced hj)
  · intro hnew
    by_contra hnone
    have hall : ∀ j ∈ g.dependenciesAt i, j ∈ s.placed := fun j hj => by
      by_contra hmissing
      exact hnone ⟨j, hj, decide_eq_true hmissing⟩
    have hnext : i ∈ s.ready := (h.ready i).2 ⟨hi, hnew, hall⟩
    rw [hready] at hnext
    cases hnext

/-- The counts of a sort that has come to a stop with positions left over: one of them waits for
others, and whichever does waits for one that does. -/
structure Stuck (g : Graph) (pending : List Nat) : Prop where
  length : pending.length = g.size
  exists_waiting : ∃ i, 0 < pending.getD i 0
  waits : ∀ i, 0 < pending.getD i 0 → ∃ j ∈ g.dependenciesAt i, 0 < pending.getD j 0

theorem Sound.stuck (hg : g.Coherent) (h : Sound g s) (hready : s.ready = [])
    (hleft : s.placed.length < g.size) : Stuck g s.pending where
  length := h.length
  exists_waiting := by
    by_contra hnone
    have hall : List.range g.size ⊆ s.placed := fun i hi => by
      by_contra hnew
      exact hnone ⟨i, (h.waiting_iff hready (List.mem_range.1 hi)).2 hnew⟩
    have hle := (List.nodup_range.subperm hall).length_le
    rw [List.length_range] at hle
    exact Nat.not_lt.2 hle hleft
  waits i hi := by
    have hlt : i < g.size := h.length ▸ lt_of_waiting hi
    rw [h.pending i hlt, List.countP_pos_iff] at hi
    obtain ⟨j, hj, hmissing⟩ := hi
    exact ⟨j, hj, (h.waiting_iff hready (hg.lt hj)).2 (of_decide_eq_true hmissing)⟩

namespace Stuck

/-- There is a position from which to start. -/
theorem exists_first (h : Stuck g pending) : ∃ i, pending.findIdx? (0 < ·) = some i := by
  obtain ⟨i, hi⟩ := h.exists_waiting
  have hlt := lt_of_waiting hi
  rw [List.getD_eq_getElem _ _ hlt] at hi
  have hany : pending.any (0 < ·) = true :=
    List.any_eq_true.2 ⟨_, List.getElem_mem hlt, decide_eq_true hi⟩
  exact Option.isSome_iff_exists.1 (List.findIdx?_isSome.trans hany)

/-- From each position that waits there is a way on. -/
theorem exists_next (h : Stuck g pending) {i : Nat} (hi : 0 < pending.getD i 0) :
    ∃ j, (g.dependenciesAt i).find? (fun j => 0 < pending.getD j 0) = some j := by
  obtain ⟨j, hj, hwaits⟩ := h.waits i hi
  exact Option.isSome_iff_exists.1 (List.find?_isSome.2 ⟨j, hj, decide_eq_true hwaits⟩)

end Stuck

end Sorting

namespace Graph

variable {g : Graph} {pending passed : List Nat} {i j : Nat}

/-! ## The walk -/

/-- Where the walk that looks for a cycle comes by, from the first position that waits to the first
dependency that does: the positions it has passed, and the one where it stands. -/
inductive Walks (g : Graph) (pending : List Nat) : List Nat → Nat → Prop where
  | start {i : Nat} (h : pending.findIdx? (0 < ·) = some i) : Walks g pending [] i
  | next {passed : List Nat} {i j : Nat} (h : Walks g pending passed i) (hnew : i ∉ passed)
      (hj : (g.dependenciesAt i).find? (fun j => 0 < pending.getD j 0) = some j) :
      Walks g pending (passed ++ [i]) j

namespace Walks

theorem waiting (h : g.Walks pending passed i) : 0 < pending.getD i 0 := by
  cases h with
  | start hstart =>
    obtain ⟨hi, hwaits, -⟩ := List.findIdx?_eq_some_iff_getElem.1 hstart
    rw [List.getD_eq_getElem _ _ hi]
    exact of_decide_eq_true hwaits
  | next h hnew hj => simpa using List.find?_some hj

theorem forall_waiting (h : g.Walks pending passed i) :
    ∀ k ∈ passed ++ [i], 0 < pending.getD k 0 := by
  induction h with
  | start hstart => exact List.forall_mem_singleton.2 (start (g := g) hstart).waiting
  | next h hnew hj ih =>
    exact List.forall_mem_append.2 ⟨ih, List.forall_mem_singleton.2 (next h hnew hj).waiting⟩

theorem nodup (h : g.Walks pending passed i) : passed.Nodup := by
  induction h with
  | start hstart => exact .nil
  | next h hnew hj ih => exact List.concat_eq_append ▸ ih.concat hnew

/-- The walk follows dependencies. -/
theorem isChain (h : g.Walks pending passed i) :
    (passed ++ [i]).IsChain fun k l => l ∈ g.dependenciesAt k := by
  induction h with
  | start hstart => exact List.isChain_singleton _
  | @next passed i j h hnew hj ih =>
    refine List.isChain_append.2 ⟨ih, List.isChain_singleton _, ?_⟩
    intro k hk l hl
    obtain rfl : i = k := by simpa using hk
    obtain rfl : j = l := by simpa using hl
    exact List.mem_of_find?_eq_some hj

theorem forall_lt (h : g.Walks pending passed i) (hlength : pending.length = g.size) :
    ∀ k ∈ passed ++ [i], k < g.size := fun k hk =>
  hlength ▸ Sorting.lt_of_waiting (h.forall_waiting k hk)

/-- The walk passes no more positions than there are. -/
theorem length_le (h : g.Walks pending passed i) (hlength : pending.length = g.size) :
    passed.length ≤ g.size := by
  have hsub : passed ⊆ List.range g.size := fun k hk =>
    List.mem_range.2 (h.forall_lt hlength k (List.mem_append_left _ hk))
  simpa using (h.nodup.subperm hsub).length_le

end Walks

/-- From wherever the walk comes by, what is left of its steps takes it back to a position that it
has passed. -/
theorem closeWalk_closes (hstuck : Sorting.Stuck g pending) (fuel : Nat)
    (h : g.Walks pending passed i) (hfuel : fuel + passed.length = g.size + 1) :
    ∃ walk j, g.Walks pending walk j ∧ j ∈ walk ∧
      g.closeWalk pending fuel passed i = walk.dropWhile (· != j) ++ [j] := by
  induction fuel generalizing passed i with
  | zero =>
    have hle := h.length_le hstuck.length
    omega
  | succ fuel ih =>
    rw [closeWalk]
    by_cases hpassed : i ∈ passed
    · exact ⟨passed, i, h, hpassed, by rw [if_pos (List.contains_iff_mem.2 hpassed)]⟩
    · obtain ⟨j, hj⟩ := hstuck.exists_next h.waiting
      rw [if_neg (mt List.contains_iff_mem.1 hpassed), hj]
      exact ih (h.next hpassed hj) (by rw [List.length_append, List.length_singleton]; omega)

/-! ## The cycle -/

/-- Whether a list of ids is a cycle: from its first id to its last, which are the same, each depends
on the next, and no id besides comes twice. -/
structure IsCycle (g : Graph) (path : List String) : Prop where
  length : 2 ≤ path.length
  closed : path.head? = path.getLast?
  nodup : path.dropLast.Nodup
  follows : path.IsChain fun id dependency => dependency ∈ g.dependencies id

/-- The ids at positions of the graph. -/
theorem idsAt_eq_map {positions : List Nat} (h : ∀ i ∈ positions, i < g.size) :
    g.idsAt positions = positions.map fun i => g.ids.getD i "" := by
  rw [idsAt, ← List.filterMap_eq_map]
  refine List.filterMap_congr fun i hi => ?_
  have hlt : i < g.ids.length := g.length_ids ▸ h i hi
  rw [← ids_getElem?, List.getElem?_eq_getElem hlt, Function.comp_apply, List.getD_eq_getElem _ _ hlt]

/-- Cut off before an item of it, a list begins with that item. -/
theorem exists_dropWhile_ne (hj : j ∈ passed) : ∃ rest, passed.dropWhile (· != j) = j :: rest := by
  cases hloop : passed.dropWhile (· != j) with
  | nil => simpa using List.dropWhile_eq_nil_iff.1 hloop j hj
  | cons k rest =>
    have hstops := List.head?_dropWhile_not (· != j) passed
    rw [hloop] at hstops
    obtain rfl : k = j := by simpa using hstops
    exact ⟨rest, rfl⟩

/-- What a walk has passed since it was last where it stands is a cycle. -/
theorem Walks.isCycle (hg : g.Coherent) (h : g.Walks pending passed j)
    (hlength : pending.length = g.size) (hj : j ∈ passed) :
    g.IsCycle (g.idsAt (passed.dropWhile (· != j) ++ [j])) := by
  have hsuffix : passed.dropWhile (· != j) <:+ passed := List.dropWhile_suffix _
  have hsuffix' : passed.dropWhile (· != j) ++ [j] <:+ passed ++ [j] :=
    List.suffix_append_self_iff.2 hsuffix
  have hnodup := h.nodup.sublist hsuffix.sublist
  have hchain := h.isChain.suffix hsuffix'
  have hlt := fun k hk => h.forall_lt hlength k (hsuffix'.mem hk)
  obtain ⟨rest, hloop⟩ := exists_dropWhile_ne hj
  rw [idsAt_eq_map hlt]
  rw [hloop] at hnodup hchain hlt ⊢
  have hid : ∀ k ∈ j :: rest ++ [j], g.ids[k]? = some (g.ids.getD k "") := fun k hk => by
    have hk' : k < g.ids.length := g.length_ids ▸ hlt k hk
    rw [List.getElem?_eq_getElem hk', List.getD_eq_getElem _ _ hk']
  refine ⟨by simp, ?_, ?_, ?_⟩
  · rw [List.map_append, List.map_singleton, List.getLast?_concat]
    rfl
  · rw [List.map_append, List.map_singleton, List.dropLast_concat]
    refine hnodup.map_on fun k hk l hl heq => ?_
    have hk' := hid k (List.mem_append_left _ hk)
    have hl' := hid l (List.mem_append_left _ hl)
    exact ids_inj hg.nodup hk' (heq ▸ hl')
  · rw [List.isChain_map]
    exact hchain.imp_of_mem_imp fun k l hk hl hdep =>
      hg.mem_dependencies.2 ⟨k, l, hid k hk, hid l hl, hdep⟩

theorem order_eq_error_iff {cause : GraphError} : g.order = .error cause ↔
    (Sorting.finish g).placed.length < g.size ∧
      .cycle (g.idsAt (g.cycle (Sorting.finish g).pending)) = cause := by
  rw [order, bind_eq_error_iff, sort_eq_error_iff]
  refine or_iff_left ?_
  rintro ⟨order, -, hdone⟩
  exact pure_ne_error hdone

/-- A graph that is made by adding nodes and edges fails to have an order with a cycle that it has.
The cycle is what the walk closes: the walk has a place to start, and goes on from everywhere until
it comes to a node that it has passed. -/
theorem order_error_isCycle (additions : List Addition) {cause : GraphError}
    (h : (make additions).order = .error cause) :
    let g := make additions
    let pending := (Sorting.finish g).pending
    (∃ path, cause = .cycle path ∧ g.IsCycle path ∧
      ∃ passed j, g.Walks pending passed j ∧ j ∈ passed ∧
        path = g.idsAt (passed.dropWhile (· != j) ++ [j])) ∧
    (∃ i, g.Walks pending [] i) ∧
    ∀ passed i, g.Walks pending passed i → i ∉ passed →
      ∃ j, g.Walks pending (passed ++ [i]) j := by
  intro g pending
  have hg : g.Coherent := Coherent.make additions
  have hsound : Sorting.Sound g (Sorting.finish g) := (Sorting.Sound.start g).run hg g.size
  obtain ⟨hleft, rfl⟩ := order_eq_error_iff.1 h
  have hstuck : Sorting.Stuck g pending := by
    refine hsound.stuck hg ?_ hleft
    refine (Sorting.run_length (Sorting.start g) g.size).resolve_right fun hlength => ?_
    exact Nat.not_le.2 hleft (hlength.ge.trans' (Nat.le_add_left ..))
  obtain ⟨i, hi⟩ := hstuck.exists_first
  obtain ⟨passed, j, hwalk, hj, hclosed⟩ :=
    closeWalk_closes hstuck (g.size + 1) (.start hi) rfl
  have hcycle : g.cycle pending = passed.dropWhile (· != j) ++ [j] := by
    rw [cycle, hi]
    exact hclosed
  refine ⟨⟨_, rfl, ?_, passed, j, hwalk, hj, congrArg g.idsAt hcycle⟩, ⟨i, .start hi⟩, ?_⟩
  · exact hcycle ▸ hwalk.isCycle hg hstuck.length hj
  · intro passed i hwalk hnew
    obtain ⟨j, hj⟩ := hstuck.exists_next hwalk.waiting
    exact ⟨j, hwalk.next hnew hj⟩

/-- A node that is declared first and only waits for a cycle, a node that waits for nothing, and the
two nodes of the cycle, of which one waits for both others. -/
def entangled : List Addition :=
  [.node { id := "site", kind := .dnsRecord }, .node { id := "net", kind := .network },
    .node { id := "app", kind := .service }, .node { id := "sink", kind := .logSink },
    .edge "site" "app", .edge "app" "net", .edge "app" "sink", .edge "sink" "app"]

/-- The walk starts at the node that is on no cycle, which the error does not name. -/
theorem order_error_isCycle_entangled :
    (make entangled).order = .error (.cycle ["app", "sink", "app"]) ∧
      (make entangled).IsCycle ["app", "sink", "app"] ∧
      (make entangled).Walks (Sorting.finish (make entangled)).pending [] 0 := by
  have h : (make entangled).order = .error (.cycle ["app", "sink", "app"]) := by rfl
  obtain ⟨⟨path, hpath, hcycle, -⟩, -, -⟩ := order_error_isCycle entangled h
  obtain rfl := GraphError.cycle.inj hpath
  exact ⟨h, hcycle, .start rfl⟩

end Graph

end Converge
