import Converge.Proofs.Graph.Cycle
import Converge.Proofs.Table
import Mathlib.Algebra.BigOperators.Fin

/-!
# What depends on a node

The search for all that depends on a node works off a queue of positions. One whose id has been
found is passed over; any other joins what is found and queues its dependents. Nothing marks the
node itself at the start, so it is found like any other if a cycle leads back to it. The queue
comes to an end on every graph, since a position queues its dependents once.

Main statements: `Graph.worksOff_downstreamAt` says that the search ends, `Graph.mem_downstream_iff`
what it finds, and `Graph.downstream_exact` both for all graphs that additions make.
-/

namespace Converge

open Relation (ReflTransGen TransGen)

namespace Graph

variable {g : Graph}

/-! ## The search without a bound -/

/-- How a search works off its queue, however long that takes. At a position it looks up an id and
the positions to queue after it, and goes on only where there is something to look up. -/
inductive WorksOff (look? : Nat → Option (String × List Nat)) :
    List Nat → Finset String → Finset String → Prop
  | done (found : Finset String) : WorksOff look? [] found found
  | skip {i : Nat} {queue next : List Nat} {found result : Finset String} {id : String}
    (look : look? i = some (id, next)) (old : id ∈ found)
    (rest : WorksOff look? queue found result) : WorksOff look? (i :: queue) found result
  | visit {i : Nat} {queue next : List Nat} {found result : Finset String} {id : String}
    (look : look? i = some (id, next)) (new : id ∉ found)
    (rest : WorksOff look? (queue ++ next) (insert id found) result) :
    WorksOff look? (i :: queue) found result

namespace WorksOff

variable {look? : Nat → Option (String × List Nat)} {queue : List Nat}
  {found result other : Finset String}

/-- A search comes to one end. -/
theorem unique (h : WorksOff look? queue found result) (h' : WorksOff look? queue found other) :
    result = other := by
  induction h with
  | done => cases h'; rfl
  | skip look old rest ih =>
    cases h' with
    | skip look' old' rest' => exact ih rest'
    | visit look' new' rest' =>
      obtain ⟨rfl, rfl⟩ := Prod.mk.inj (Option.some.inj (look.symm.trans look'))
      exact absurd old new'
  | visit look new rest ih =>
    cases h' with
    | skip look' old' rest' =>
      obtain ⟨rfl, rfl⟩ := Prod.mk.inj (Option.some.inj (look.symm.trans look'))
      exact absurd old' new
    | visit look' new' rest' =>
      obtain ⟨rfl, rfl⟩ := Prod.mk.inj (Option.some.inj (look.symm.trans look'))
      exact ih rest'

/-- What holds of all that is queued, and passes on to what is queued after it, holds of all that is
found. -/
theorem forall_found (h : WorksOff look? queue found result) {P : String → Prop}
    (hpass : ∀ {i j : Nat} {id other : String} {next more : List Nat}, look? i = some (id, next) →
      P id → j ∈ next → look? j = some (other, more) → P other)
    (hqueue : ∀ i ∈ queue, ∀ {id next}, look? i = some (id, next) → P id)
    (hfound : ∀ id ∈ found, P id) : ∀ id ∈ result, P id := by
  induction h with
  | done => exact hfound
  | skip look old rest ih => exact ih (fun i hi => hqueue i (List.mem_cons_of_mem _ hi)) hfound
  | @visit i queue next found result id look new rest ih =>
    have hid : P id := hqueue i (List.mem_cons_self ..) look
    refine ih (fun j hj => ?_) (fun other hother => ?_)
    · rcases List.mem_append.1 hj with hj | hj
      · exact hqueue j (List.mem_cons_of_mem _ hj)
      · exact hpass look hid hj
    · rcases Finset.mem_insert.1 hother with rfl | hother
      · exact hid
      · exact hfound other hother

/-- What was found stays so, and all that is queued is found. -/
theorem queue_found (h : WorksOff look? queue found result) :
    found ⊆ result ∧ ∀ i ∈ queue, ∀ {id next}, look? i = some (id, next) → id ∈ result := by
  induction h with
  | done => exact ⟨Finset.Subset.refl _, by simp⟩
  | skip look old rest ih =>
    refine ⟨ih.1, fun j hj => ?_⟩
    rcases List.mem_cons.1 hj with rfl | hj
    · intro id next hlook
      obtain ⟨rfl, -⟩ := Prod.mk.inj (Option.some.inj (look.symm.trans hlook))
      exact ih.1 old
    · exact ih.2 j hj
  | visit look new rest ih =>
    refine ⟨fun id hid => ih.1 (Finset.mem_insert_of_mem hid), fun j hj => ?_⟩
    rcases List.mem_cons.1 hj with rfl | hj
    · intro id next hlook
      obtain ⟨rfl, -⟩ := Prod.mk.inj (Option.some.inj (look.symm.trans hlook))
      exact ih.1 (Finset.mem_insert_self ..)
    · exact ih.2 j (List.mem_append_left _ hj)

/-- Where an id has one position, all that is queued after something found is found. What is found
on the way may have some of it in the queue still. -/
theorem next_found (h : WorksOff look? queue found result)
    (hsame : ∀ {i j : Nat} {id : String} {next more : List Nat}, look? i = some (id, next) →
      look? j = some (id, more) → i = j)
    (hfound : ∀ {i j : Nat} {id other : String} {next more : List Nat}, look? i = some (id, next) →
      id ∈ found → j ∈ next → look? j = some (other, more) → other ∈ found ∨ j ∈ queue)
    {i j : Nat} {id other : String} {next more : List Nat} (hi : look? i = some (id, next))
    (hid : id ∈ result) (hj : j ∈ next) (hother : look? j = some (other, more)) :
    other ∈ result := by
  induction h with
  | done => exact (hfound hi hid hj hother).resolve_right (List.not_mem_nil)
  | @skip k queue _ found result known look old rest ih =>
    refine ih ?_ hid
    intro i j id other next more hi hid hj hother
    rcases hfound hi hid hj hother with hother' | hqueued
    · exact .inl hother'
    rcases List.mem_cons.1 hqueued with rfl | hqueued
    · obtain ⟨rfl, -⟩ := Prod.mk.inj (Option.some.inj (look.symm.trans hother))
      exact .inl old
    · exact .inr hqueued
  | @visit k queue after found result visited look new rest ih =>
    refine ih ?_ hid
    intro i j id other next more hi hid hj hother
    rcases Finset.mem_insert.1 hid with rfl | hid
    · obtain rfl := hsame hi look
      obtain ⟨-, rfl⟩ := Prod.mk.inj (Option.some.inj (look.symm.trans hi))
      exact .inr (List.mem_append_right _ hj)
    rcases hfound hi hid hj hother with hother' | hqueued
    · exact .inl (Finset.mem_insert_of_mem hother')
    rcases List.mem_cons.1 hqueued with rfl | hqueued
    · obtain ⟨rfl, -⟩ := Prod.mk.inj (Option.some.inj (look.symm.trans hother))
      exact .inl (Finset.mem_insert_self ..)
    · exact .inr (List.mem_append_left _ hqueued)

end WorksOff

/-! ## The search ends -/

/-- The id at a position, and the positions that depend on it. -/
def look? (g : Graph) (i : Nat) : Option (String × List Nat) :=
  g.vertices[i]?.map fun v => (v.node.id, v.dependents)

theorem look?_eq_some_iff {i : Nat} {id : String} {next : List Nat} :
    g.look? i = some (id, next) ↔ g.ids[i]? = some id ∧ g.dependentsAt i = next := by
  rw [look?, ids_getElem?, dependentsAt]
  cases g.vertices[i]? <;> simp

/-- How many positions can still be queued: those that depend on a position that is not found. -/
def budget (g : Graph) (found : List Nat) : Nat :=
  ∑ i ∈ (Finset.range g.size).filter (· ∉ found), (g.dependentsAt i).length

theorem budget_nil : g.budget [] = (g.vertices.map (·.dependents.length)).sum := by
  have hall : (Finset.range g.size).filter (· ∉ ([] : List Nat)) = Finset.range g.size := by simp
  rw [budget, hall, size, Finset.sum_range, ← Fin.sum_univ_fun_getElem]
  refine Finset.sum_congr rfl fun i _ => ?_
  simp [dependentsAt]

/-- A position that is found spends what it adds to the queue. -/
theorem budget_insert {i : Nat} {found : List Nat} (hi : i < g.size) (hnew : i ∉ found) :
    g.budget (Positions.insert i found) + (g.dependentsAt i).length = g.budget found := by
  have hleft : (Finset.range g.size).filter (· ∉ Positions.insert i found) =
      ((Finset.range g.size).filter (· ∉ found)).erase i := by
    ext k
    simp only [Finset.mem_filter, Finset.mem_erase, Positions.mem_insert, not_or]
    tauto
  rw [budget, hleft]
  exact Finset.sum_erase_add _ _ (Finset.mem_filter.2 ⟨Finset.mem_range.2 hi, hnew⟩)

theorem Coherent.lt_of_mem_dependentsAt (hg : g.Coherent) {i j : Nat}
    (hj : j ∈ g.dependentsAt i) : j < g.size :=
  lt_of_mem_dependenciesAt (hg.converse.2 hj)

/-- The queue is worked off before the steps are used up. -/
theorem worksOff_reach (hg : g.Coherent) {fuel : Nat} {queue found : List Nat}
    (hqueue : ∀ i ∈ queue, i < g.size) (hfuel : queue.length + g.budget found ≤ fuel) :
    WorksOff g.look? queue (g.idsAt found).toFinset
      (g.idsAt (g.reach fuel queue found)).toFinset := by
  induction fuel generalizing queue found with
  | zero =>
    obtain rfl : queue = [] := List.eq_nil_of_length_eq_zero (by omega)
    exact .done _
  | succ fuel ih =>
    cases queue with
    | nil => exact .done _
    | cons i queue =>
      have hi : i < g.size := hqueue i (List.mem_cons_self ..)
      have hrest : ∀ j ∈ queue, j < g.size := fun j hj => hqueue j (List.mem_cons_of_mem _ hj)
      obtain ⟨id, hid⟩ : ∃ id, g.ids[i]? = some id :=
        ⟨_, List.getElem?_eq_getElem (g.length_ids ▸ hi)⟩
      have hlook : g.look? i = some (id, g.dependentsAt i) := look?_eq_some_iff.2 ⟨hid, rfl⟩
      -- No other position has its id.
      have hfound : id ∈ (g.idsAt found).toFinset ↔ i ∈ found := by
        rw [List.mem_toFinset, mem_idsAt]
        constructor
        · rintro ⟨j, hj, hjd⟩
          exact ids_inj hg.nodup hjd hid ▸ hj
        · exact fun hi => ⟨i, hi, hid⟩
      rw [List.length_cons] at hfuel
      rw [reach]
      by_cases hold : i ∈ found
      · rw [if_pos (List.contains_iff_mem.2 hold)]
        exact .skip hlook (hfound.2 hold) (ih hrest (by omega))
      · rw [if_neg (mt List.contains_iff_mem.1 hold)]
        have hbudget := budget_insert hi hold
        have hinsert : insert id (g.idsAt found).toFinset =
            (g.idsAt (Positions.insert i found)).toFinset := by
          ext other
          simp only [Finset.mem_insert, List.mem_toFinset, mem_idsAt, Positions.mem_insert]
          grind
        refine .visit hlook (mt hfound.1 hold) (hinsert ▸ ih (fun j hj => ?_) ?_)
        · rcases List.mem_append.1 hj with hj | hj
          · exact hrest j hj
          · exact hg.lt_of_mem_dependentsAt hj
        · rw [List.length_append]
          omega

/-- The search from a position ends with the ids downstream of it. -/
theorem worksOff_downstreamAt (hg : g.Coherent) (i : Nat) :
    WorksOff g.look? (g.dependentsAt i) ∅ (g.idsAt (g.downstreamAt i)).toFinset := by
  have hsum : ∀ n, g.vertices.foldl (fun n v => n + v.dependents.length) n =
      n + (g.vertices.map (·.dependents.length)).sum := by
    intro n
    rw [List.sum_eq_foldl_nat, ← List.foldl_map]
    exact @List.foldl_assoc Nat (· + ·) _ _ n 0
  change WorksOff g.look? (g.dependentsAt i) (g.idsAt []).toFinset _
  refine worksOff_reach hg (fun j hj => hg.lt_of_mem_dependentsAt hj) ?_
  rw [budget_nil, hsum]
  omega

/-! ## What it finds -/

/-- One position is queued after another where its id depends on that of the other. -/
theorem Coherent.mem_next_iff (hg : g.Coherent) {i j : Nat} {id other : String}
    {next more : List Nat} (hi : g.look? i = some (id, next))
    (hj : g.look? j = some (other, more)) :
    j ∈ next ↔ id ∈ g.dependencies other := by
  obtain ⟨hid, rfl⟩ := look?_eq_some_iff.1 hi
  obtain ⟨hother, -⟩ := look?_eq_some_iff.1 hj
  rw [hg.mem_dependencies, ← hg.converse]
  constructor
  · exact fun hmem => ⟨j, i, hother, hid, hmem⟩
  · rintro ⟨k, l, hk, hl, hmem⟩
    obtain rfl : k = j := ids_inj hg.nodup hk hother
    obtain rfl : l = i := ids_inj hg.nodup hl hid
    exact hmem

theorem Coherent.exists_look (hg : g.Coherent) {id dependency : String}
    (h : dependency ∈ g.dependencies id) : ∃ i next, g.look? i = some (id, next) := by
  obtain ⟨i, -, hi, -⟩ := hg.mem_dependencies.1 h
  exact ⟨i, _, look?_eq_some_iff.2 ⟨hi, rfl⟩⟩

theorem Coherent.look_inj (hg : g.Coherent) {i j : Nat} {id : String} {next more : List Nat}
    (hi : g.look? i = some (id, next)) (hj : g.look? j = some (id, more)) : i = j :=
  ids_inj hg.nodup (look?_eq_some_iff.1 hi).1 (look?_eq_some_iff.1 hj).1

/-- A search from the dependents of a position finds the ids from which its id is reached. -/
theorem Coherent.mem_found_iff (hg : g.Coherent) {i : Nat} {id : String} {next : List Nat}
    (hi : g.look? i = some (id, next)) {result : Finset String}
    (h : WorksOff g.look? next ∅ result) {other : String} :
    other ∈ result ↔ TransGen (fun id dependency => dependency ∈ g.dependencies id) other id := by
  constructor
  · refine h.forall_found (P := fun other => TransGen _ other id) ?_ ?_ (by simp) other
    · intro i j known other next more hi hknown hj hother
      exact hknown.head ((hg.mem_next_iff hi hother).1 hj)
    · intro j hj other more hother
      exact .single ((hg.mem_next_iff hi hother).1 hj)
  · intro hreach
    induction hreach using TransGen.head_induction_on with
    | single hstep =>
      obtain ⟨j, more, hj⟩ := hg.exists_look hstep
      exact h.queue_found.2 j ((hg.mem_next_iff hi hj).2 hstep) hj
    | @head other between hstep hreach ih =>
      obtain ⟨j, more, hj⟩ := hg.exists_look hstep
      obtain ⟨k, after, hk⟩ : ∃ k after, g.look? k = some (between, after) := by
        obtain ⟨-, k, -, hk, -⟩ := hg.mem_dependencies.1 hstep
        exact ⟨k, _, look?_eq_some_iff.2 ⟨hk, rfl⟩⟩
      exact h.next_found hg.look_inj (by simp) hk ih ((hg.mem_next_iff hk hj).2 hstep) hj

theorem look?_of_position? {id : String} {i : Nat} (h : g.position? id = some i) :
    g.look? i = some (id, g.dependentsAt i) :=
  look?_eq_some_iff.2 ⟨ids_getElem?_of_position? h, rfl⟩

theorem downstream_eq_nil {id : String} (h : id ∉ g.ids) : g.downstream id = [] := by
  rw [downstream, position?_eq_none_iff.2 h]

theorem toFinset_downstream {id : String} {i : Nat} (h : g.position? id = some i) :
    (g.downstream id).toFinset = (g.idsAt (g.downstreamAt i)).toFinset := by
  ext other
  rw [downstream, h, List.mem_toFinset, mem_sortedNames, List.mem_toFinset]

/-- Downstream of an id are the ids that depend on it, directly or not. -/
theorem mem_downstream_iff (hg : g.Coherent) {id other : String} :
    other ∈ g.downstream id ↔
      TransGen (fun id dependency => dependency ∈ g.dependencies id) other id := by
  cases hi : g.position? id with
  | some i =>
    rw [← List.mem_toFinset, toFinset_downstream hi]
    exact hg.mem_found_iff (look?_of_position? hi) (worksOff_downstreamAt hg i)
  | none =>
    have hnone : id ∉ g.ids := position?_eq_none_iff.1 hi
    rw [downstream_eq_nil hnone]
    refine ⟨fun h => (List.not_mem_nil h).elim, fun h => ?_⟩
    -- What something depends on is a node.
    obtain ⟨between, -, hlast⟩ := TransGen.tail'_iff.1 h
    obtain ⟨-, k, -, hk, -⟩ := hg.mem_dependencies.1 hlast
    exact absurd (List.mem_of_getElem? hk) hnone

end Graph

/-- What is listed in the order of names is listed once. -/
theorem pairwise_sortedNames (names : List String) : (sortedNames names).Pairwise (· < ·) :=
  List.pairwise_map.2 (Table.ofList (names.map (·, ()))).sorted

/-! ## Cycles -/

/-- Where one thing leads to another in any number of steps, it does so without passing anything
twice. -/
theorem exists_nodup_isChain {α : Type} {r : α → α → Prop} {a b : α} (h : ReflTransGen r a b) :
    ∃ rest, (a :: rest).IsChain r ∧ (a :: rest).Nodup ∧ (a :: rest).getLast? = some b := by
  induction h using ReflTransGen.head_induction_on with
  | refl => exact ⟨[], List.isChain_singleton _, List.nodup_singleton _, rfl⟩
  | @head a c hstep hrest ih =>
    obtain ⟨rest, hchain, hnodup, hlast⟩ := ih
    by_cases hpassed : a ∈ c :: rest
    · -- The way goes on from where it comes by again.
      obtain ⟨before, after, heq⟩ := List.append_of_mem hpassed
      have hsuffix : a :: after <:+ c :: rest := ⟨before, heq.symm⟩
      refine ⟨after, hchain.suffix hsuffix, hnodup.sublist hsuffix.sublist, ?_⟩
      rw [heq, List.getLast?_append] at hlast
      simpa using hlast
    · refine ⟨c :: rest, List.isChain_cons_cons.2 ⟨hstep, hchain⟩,
        List.nodup_cons.2 ⟨hpassed, hnodup⟩, ?_⟩
      rw [List.getLast?_cons_cons, hlast]

namespace Graph

variable {g : Graph}

/-- An id depends on itself, directly or not, where a cycle begins with it. -/
theorem exists_isCycle_iff {id : String} :
    (∃ path, g.IsCycle path ∧ path.head? = some id) ↔
      TransGen (fun id dependency => dependency ∈ g.dependencies id) id id := by
  constructor
  · rintro ⟨path, hcycle, hhead⟩
    obtain ⟨rest, rfl⟩ := List.head?_eq_some_iff.1 hhead
    cases rest with
    | nil => exact absurd hcycle.length (by simp)
    | cons next rest =>
      obtain ⟨hstep, hchain⟩ := List.isChain_cons_cons.1 hcycle.follows
      have hlast : (next :: rest).getLast (List.cons_ne_nil next rest) = id := by
        have hclosed := hcycle.closed
        rw [List.head?_cons, List.getLast?_cons_cons, List.getLast?_eq_some_getLast
          (List.cons_ne_nil next rest)] at hclosed
        exact (Option.some.inj hclosed).symm
      exact .head' hstep (List.relationReflTransGen_of_exists_isChain_cons rest hchain hlast)
  · intro h
    obtain ⟨next, hstep, hrest⟩ := TransGen.head'_iff.1 h
    obtain ⟨rest, hchain, hnodup, hlast⟩ := exists_nodup_isChain hrest
    obtain ⟨init, hinit⟩ := List.getLast?_eq_some_iff.1 hlast
    refine ⟨id :: next :: rest, ⟨by simp, ?_, ?_, ?_⟩, rfl⟩
    · rw [List.head?_cons, List.getLast?_cons_cons, hlast]
    · rw [hinit] at hnodup ⊢
      have hnew := (List.nodup_append.1 hnodup).2.2
      rw [← List.cons_append, List.dropLast_concat]
      refine List.nodup_cons.2 ⟨fun hmem => ?_, (List.nodup_append.1 hnodup).1⟩
      exact hnew id hmem id (List.mem_singleton_self id) rfl
    · exact List.isChain_cons_cons.2 ⟨hstep, hchain⟩

/-- On a graph that is made by adding nodes and edges, the search downstream of an id ends, whatever
cycles there are. It finds each id once from which the given one is reached by one edge or more, so
that one itself just if it lies on a cycle, and nothing downstream of an id that no node has. -/
theorem downstream_exact (additions : List Addition) (id : String) :
    let g := make additions
    (∀ i, g.position? id = some i → ∀ found,
      WorksOff g.look? (g.dependentsAt i) ∅ found ↔ found = (g.downstream id).toFinset) ∧
    (g.downstream id).Pairwise (· < ·) ∧
    (∀ other, other ∈ g.downstream id ↔
      TransGen (fun id dependency => dependency ∈ g.dependencies id) other id) ∧
    (id ∈ g.downstream id ↔ ∃ path, g.IsCycle path ∧ path.head? = some id) ∧
    (id ∉ g.ids → g.downstream id = []) := by
  intro g
  have hg : g.Coherent := Coherent.make additions
  refine ⟨fun i hi found => ?_, ?_, fun other => mem_downstream_iff hg, ?_, downstream_eq_nil⟩
  · have hends := worksOff_downstreamAt hg i
    rw [toFinset_downstream hi]
    exact ⟨fun h => h.unique hends, fun h => h ▸ hends⟩
  · rw [downstream]
    split
    · exact pairwise_sortedNames _
    · exact .nil
  · rw [mem_downstream_iff hg, exists_isCycle_iff]

/-- Downstream of the node that two others wait for are both of them and what waits for these, and
each node of the cycle is downstream of itself. -/
example :
    let g := make [
      .node { id := "site", kind := .dnsRecord }, .node { id := "net", kind := .network },
      .node { id := "app", kind := .service }, .node { id := "sink", kind := .logSink },
      .edge "site" "app", .edge "app" "net", .edge "app" "sink", .edge "sink" "app"]
    g.downstream "net" = ["app", "sink", "site"] ∧
      g.downstream "sink" = ["app", "sink", "site"] := by
  decide +kernel

end Graph

end Converge
