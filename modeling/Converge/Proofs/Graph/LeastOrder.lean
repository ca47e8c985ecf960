import Converge.Proofs.Graph.Acyclic

/-!
# The least dependency order

A graph that is made by adding nodes and edges has a dependency order just if it has no cycle. Of all
orders that put every node after what it depends on, a sort gives the one that comes first when two
orders are compared place by place, by the declaration of the nodes.

Main statements: `Sorting.Sound.leads_step` says what one placement keeps, `Graph.sort_lt` draws the
conclusion for positions, and `Graph.order_least` for ids.
-/

namespace Converge

/-! ## Placing the least position first -/

namespace Sorting

variable {g : Graph} {s : Sorting} {xs : List Nat}

/-- Whether the positions placed so far begin a list, or have become less than it at the first place
where the two differ. -/
def Leads (placed xs : List Nat) : Prop :=
  placed <+: xs ∨ ∃ common i j, common ++ [i] <+: placed ∧ common ++ [j] <+: xs ∧ i < j

theorem Leads.nil : Leads [] xs := .inl List.nil_prefix

/-- What leads stays ahead if it goes on with no greater position than the list does. -/
theorem Leads.concat {placed : List Nat} (h : Leads placed xs) {i : Nat}
    (hleast : ∀ j, placed ++ [j] <+: xs → i ≤ j) (hmore : placed.length < xs.length) :
    Leads (placed ++ [i]) xs := by
  rcases h with ⟨rest, rfl⟩ | ⟨common, a, b, hplaced, hxs, hlt⟩
  · cases rest with
    | nil => simp at hmore
    | cons j rest =>
      have hnext : placed ++ [j] <+: placed ++ j :: rest := ⟨rest, by simp⟩
      rcases Nat.eq_or_lt_of_le (hleast j hnext) with rfl | hlt
      · exact .inl hnext
      · exact .inr ⟨placed, i, j, List.prefix_rfl, hnext, hlt⟩
  · exact .inr ⟨common, a, b, List.prefix_append_of_prefix hplaced, hxs, hlt⟩

/-- A list that leads another of its length is that list, or less. -/
theorem Leads.eq_or_lt {placed : List Nat} (h : Leads placed xs)
    (hlength : placed.length = xs.length) : placed = xs ∨ placed < xs := by
  rcases h with hbegins | ⟨common, i, j, ⟨rest, rfl⟩, ⟨rest', rfl⟩, hlt⟩
  · exact .inl (hbegins.eq_of_length hlength)
  · right
    rw [List.append_assoc, List.append_assoc]
    exact List.append_left_lt (List.cons_lt_cons_iff.2 (.inl hlt))

/-- A placement keeps the lead over every order: the next position of an order could be placed now,
and the least of those is. -/
theorem Sound.leads_step (h : Sound g s) (hperm : xs.Perm (List.range g.size))
    (horders : g.Orders xs) (hleads : Leads s.placed xs) : Leads (s.step g).placed xs := by
  cases hready : s.ready with
  | nil =>
    rw [Sorting.step, hready]
    exact hleads
  | cons i ready =>
    rw [placed_step hready]
    obtain ⟨hi, hnew, -⟩ := (h.ready i).1 (hready ▸ List.mem_cons_self ..)
    refine hleads.concat ?_ ?_
    · rintro j ⟨rest, rfl⟩
      have hnodup : (s.placed ++ [j] ++ rest).Nodup := hperm.nodup_iff.2 List.nodup_range
      have hj : j ∈ s.ready := by
        refine (h.ready j).2 ⟨List.mem_range.1 (hperm.mem_iff.1 (by simp)), fun hmem => ?_, ?_⟩
        · exact (List.nodup_append.1 hnodup.of_append_left).2.2 j hmem j (by simp) rfl
        · exact horders s.placed j rest (by simp)
      rw [hready] at hj
      rcases List.mem_cons.1 hj with rfl | hlater
      · exact Nat.le_refl _
      · exact Nat.le_of_lt ((List.pairwise_cons.1 (hready ▸ h.increasing)).1 j hlater)
    · -- The position that is placed now is one of the order that is not placed yet.
      have hsub : (i :: s.placed).Subperm xs :=
        (List.nodup_cons.2 ⟨hnew, h.nodup⟩).subperm fun k hk => by
          refine hperm.mem_iff.2 (List.mem_range.2 ?_)
          rcases List.mem_cons.1 hk with rfl | hk
          · exact hi
          · exact h.lt k hk
      exact hsub.length_le

/-- A sort leads every order at any time. -/
theorem Sound.leads_run (h : Sound g s) (hperm : xs.Perm (List.range g.size))
    (horders : g.Orders xs) (hleads : Leads s.placed xs) (hg : g.Coherent) (count : Nat) :
    Leads (Sorting.run g count s).placed xs := by
  induction count generalizing s with
  | zero => exact hleads
  | succ count ih => exact ih (h.step hg) (h.leads_step hperm horders hleads)

end Sorting

/-- Nothing that a list can be rearranged to comes before it if it is in order. -/
theorem not_lex_of_perm {α : Type} {before : α → α → Prop}
    (hasymm : ∀ {a b}, before a b → ¬ before b a) {xs ys : List α} (hperm : xs.Perm ys)
    (h : ys.Pairwise before) : ¬ List.Lex before xs ys := by
  intro hlex
  induction hlex with
  | nil => simpa using hperm.length_eq
  | @rel a xs b ys hab =>
    rcases List.mem_cons.1 (hperm.mem_iff.1 (List.mem_cons_self ..)) with rfl | ha
    · exact hasymm hab hab
    · exact hasymm hab ((List.pairwise_cons.1 h).1 a ha)
  | cons _ ih => exact ih ((List.perm_cons _).1 hperm) (List.pairwise_cons.1 h).2

namespace Graph

variable {g : Graph}

/-- Of all orders of the positions a sort gives the least. -/
theorem sort_lt (hg : g.Coherent) {order xs : List Nat} (h : g.sort = .ok order)
    (hperm : xs.Perm (List.range g.size)) (horders : g.Orders xs) : order = xs ∨ order < xs := by
  have hlength : order.length = xs.length := ((sort_spec hg h).1.trans hperm.symm).length_eq
  have hleads := (Sorting.Sound.start g).leads_run hperm horders .nil hg g.size
  obtain ⟨-, rfl⟩ := sort_eq_ok_iff.1 h
  exact hleads.eq_or_lt hlength

/-! ## Orders of ids -/

theorem isOrder_iff {ids : List String} : g.IsOrder ids ↔ ids.Perm g.ids ∧
    ∀ k (h : k < ids.length), ∀ d ∈ g.dependencies ids[k], d ∈ ids.take k := by
  refine ⟨fun h => ⟨h.perm, fun k hk d hd => ?_⟩, fun ⟨hperm, hafter⟩ => ⟨hperm, ?_⟩⟩
  · refine h.after (ids.take k) ids[k] (ids.drop (k + 1)) ?_ d hd
    rw [← List.drop_eq_getElem_cons, List.take_append_drop]
  · rintro before id after rfl d hd
    simpa using hafter before.length (by simp) d (by simpa using hd)

instance (g : Graph) (ids : List String) : Decidable (g.IsOrder ids) :=
  decidable_of_iff _ isOrder_iff.symm

/-- The place of an id in declaration order; that of an unknown one is after all others. -/
def place (g : Graph) (id : String) : Nat := (g.position? id).getD g.size

theorem place_eq (hg : g.Coherent) {i : Nat} {id : String} (h : g.ids[i]? = some id) :
    g.place id = i := by
  rw [place, (position?_eq_some_iff hg.nodup).2 h, Option.getD_some]

theorem map_place_idsAt (hg : g.Coherent) {order : List Nat} (h : ∀ i ∈ order, i < g.size) :
    (g.idsAt order).map g.place = order := by
  simp only [idsAt, ← ids_getElem?]
  induction order with
  | nil => rfl
  | cons i order ih =>
    obtain ⟨hi, horder⟩ := List.forall_mem_cons.1 h
    rw [← length_ids] at hi
    have hid := List.getElem?_eq_getElem hi
    rw [List.filterMap_cons_some hid, List.map_cons, place_eq hg hid, ih horder]

theorem idsAt_map_place (hg : g.Coherent) {ids : List String} (h : ∀ id ∈ ids, id ∈ g.ids) :
    g.idsAt (ids.map g.place) = ids := by
  simp only [idsAt, ← ids_getElem?]
  induction ids with
  | nil => rfl
  | cons id ids ih =>
    obtain ⟨hid, hids⟩ := List.forall_mem_cons.1 h
    obtain ⟨i, hi⟩ := List.mem_iff_getElem?.1 hid
    rw [List.map_cons, place_eq hg hi, List.filterMap_cons_some hi, ih hids]

theorem map_place_ids (hg : g.Coherent) : g.ids.map g.place = List.range g.size := by
  refine List.ext_getElem? fun i => ?_
  rw [List.getElem?_map, ← length_ids]
  by_cases hi : i < g.ids.length
  · rw [List.getElem?_eq_getElem hi, List.getElem?_range hi, Option.map_some,
      place_eq hg (List.getElem?_eq_getElem hi)]
  · have hle := Nat.le_of_not_lt hi
    rw [List.getElem?_eq_none hle, List.getElem?_eq_none (by simpa using hle), Option.map_none]

/-- Ids compare as their places do, by any relation in which they are declared. -/
theorem lex_of_map_place (hg : g.Coherent) {before : String → String → Prop}
    (hbefore : g.ids.Pairwise before) {ids other : List String} (hids : ∀ id ∈ ids, id ∈ g.ids)
    (hother : ∀ id ∈ other, id ∈ g.ids) (h : ids.map g.place < other.map g.place) :
    List.Lex before ids other := by
  induction ids generalizing other with
  | nil =>
    cases other with
    | nil => cases h
    | cons id other => exact .nil
  | cons id ids ih =>
    cases other with
    | nil => cases h
    | cons id' other =>
      obtain ⟨hid, hrest⟩ := List.forall_mem_cons.1 hids
      obtain ⟨hid', hrest'⟩ := List.forall_mem_cons.1 hother
      obtain ⟨i, hi⟩ := List.mem_iff_getElem?.1 hid
      obtain ⟨j, hj⟩ := List.mem_iff_getElem?.1 hid'
      rw [List.map_cons, List.map_cons, place_eq hg hi, place_eq hg hj] at h
      rcases List.cons_lt_cons_iff.1 h with hlt | ⟨rfl, hlt⟩
      · obtain ⟨hilt, rfl⟩ := List.getElem?_eq_some_iff.1 hi
        obtain ⟨hjlt, rfl⟩ := List.getElem?_eq_some_iff.1 hj
        exact .rel (List.pairwise_iff_getElem.1 hbefore i j hilt hjlt hlt)
      · obtain rfl := Option.some.inj (hi.symm.trans hj)
        exact .cons (ih hrest hrest' hlt)

namespace IsOrder

variable {ids : List String}

/-- The places of an order of ids are an order of the positions. -/
theorem perm_places (h : g.IsOrder ids) (hg : g.Coherent) :
    (ids.map g.place).Perm (List.range g.size) :=
  map_place_ids hg ▸ h.perm.map g.place

theorem orders_places (h : g.IsOrder ids) (hg : g.Coherent) : g.Orders (ids.map g.place) := by
  intro before i after heq j hj
  obtain ⟨pre, post, rfl, rfl, hpost⟩ := List.map_eq_append_iff.1 heq
  obtain ⟨id, rest, rfl, rfl, -⟩ := List.map_eq_cons_iff.1 hpost
  obtain ⟨k, hk⟩ := List.mem_iff_getElem?.1 (h.perm.mem_iff.1 (by simp : id ∈ pre ++ id :: rest))
  rw [place_eq hg hk] at hj
  have hlt : j < g.ids.length := g.length_ids ▸ hg.lt hj
  have hdependency := List.getElem?_eq_getElem hlt
  have hbefore := h.after pre id rest rfl _
    (hg.mem_dependencies.2 ⟨k, j, hk, hdependency, hj⟩)
  exact List.mem_map.2 ⟨_, hbefore, place_eq hg hdependency⟩

end IsOrder

/-- Of all orders of the ids the one that a graph gives comes first. -/
theorem IsOrder.eq_or_lt {ids other : List String} (hother : g.IsOrder other) (hg : g.Coherent)
    (h : g.order = .ok ids) : ids = other ∨ ids.map g.place < other.map g.place := by
  obtain ⟨order, hsort, hids⟩ := bind_eq_ok_iff.1 h
  obtain rfl := pure_eq_ok_iff.1 hids
  have hplaces : (g.idsAt order).map g.place = order :=
    map_place_idsAt hg fun i hi => List.mem_range.1 ((sort_spec hg hsort).1.mem_iff.1 hi)
  rcases sort_lt hg hsort (hother.perm_places hg) (hother.orders_places hg) with heq | hlt
  · left
    rw [heq, idsAt_map_place hg fun id hid => hother.perm.mem_iff.1 hid]
  · exact .inr (hplaces.symm ▸ hlt)

/-- Where the nodes are declared in some order, the order that a graph gives comes first by that. -/
theorem IsOrder.eq_or_lex {before : String → String → Prop} {ids other : List String}
    (hother : g.IsOrder other) (hg : g.Coherent) (hbefore : g.ids.Pairwise before)
    (h : g.order = .ok ids) : ids = other ∨ List.Lex before ids other := by
  refine (hother.eq_or_lt hg h).imp_right fun hlt => lex_of_map_place hg hbefore ?_ ?_ hlt
  · exact fun id hid => (order_spec hg h).perm.mem_iff.1 hid
  · exact fun id hid => hother.perm.mem_iff.1 hid

/-- If declaration order is an order already, the graph gives that. -/
theorem IsOrder.order_eq (h : g.IsOrder g.ids) (hg : g.Coherent) : g.order = .ok g.ids := by
  obtain ⟨ids, hids⟩ := (exists_order_iff hg).2 (h.acyclic hg)
  rcases h.eq_or_lt hg hids with rfl | hlt
  · exact hids
  · have hperm := (order_spec hg hids).perm_places hg
    rw [map_place_ids hg] at hlt
    exact absurd hlt (not_lex_of_perm Nat.lt_asymm hperm List.pairwise_lt_range)

/-- A graph that is made by adding nodes and edges has an order just if it has no cycle. The order
gives every id once, each after all that it depends on, and of all such orders it comes first. -/
theorem order_least (additions : List Addition) :
    ((∃ ids, (make additions).order = .ok ids) ↔ (make additions).Acyclic) ∧
      ∀ ids, (make additions).order = .ok ids → (make additions).IsOrder ids ∧
        ∀ other, (make additions).IsOrder other → ids = other ∨
          ids.map (make additions).place < other.map (make additions).place :=
  have hg := Coherent.make additions
  ⟨exists_order_iff hg, fun _ h =>
    ⟨order_spec hg h, fun _ hother => hother.eq_or_lt hg h⟩⟩

/-- A node that is declared first and waits for the one that is declared last, and two requests that
fail. -/
def waitingFirst : List Addition :=
  [.node { id := "c", kind := .network }, .node { id := "a", kind := .network },
    .node { id := "b", kind := .network }, .edge "c" "d", .node { id := "d", kind := .network },
    .node { id := "a", kind := .cluster }, .edge "c" "d"]

/-- The node that waits comes last although it is declared first, and not right after the one that it
waits for. -/
theorem order_least_waiting : (make waitingFirst).Acyclic ∧
    (make waitingFirst).order = .ok ["a", "b", "d", "c"] ∧
    (make waitingFirst).IsOrder ["a", "b", "d", "c"] ∧
    (make waitingFirst).IsOrder ["d", "c", "a", "b"] ∧
    ["a", "b", "d", "c"].map (make waitingFirst).place <
      ["d", "c", "a", "b"].map (make waitingFirst).place := by
  have horder : (make waitingFirst).order = .ok ["a", "b", "d", "c"] := by rfl
  have hother : (make waitingFirst).IsOrder ["d", "c", "a", "b"] := by decide +kernel
  obtain ⟨hexists, hleast⟩ := order_least waitingFirst
  obtain ⟨hids, hfirst⟩ := hleast _ horder
  exact ⟨hexists.1 ⟨_, horder⟩, horder, hids, hother, (hfirst _ hother).resolve_left (by decide)⟩

end Graph

end Converge
