import Converge.Proofs.Graph.Build
import Mathlib.Data.Fintype.EquivFin
import Mathlib.Logic.Relation

/-!
# Acyclic graphs

A graph has a dependency order just if none of its nodes depends on itself, directly or not: as long
as nodes are left over, one of them waits for nothing that is left over.

Main statements: `Graph.exists_order_iff` and `Graph.Linked.acyclic`.
-/

namespace Converge

open Relation (TransGen)

namespace Graph

variable {g : Graph}

/-- Whether no node depends on itself, directly or not. -/
def Acyclic (g : Graph) : Prop :=
  ∀ id, ¬ TransGen (fun id dependency => dependency ∈ g.dependencies id) id id

/-- Among the positions of an acyclic graph the dependencies are well-founded. -/
theorem Acyclic.wellFounded (hg : g.Coherent) (h : g.Acyclic) :
    WellFounded fun i j : Fin g.size => i.1 ∈ g.dependenciesAt j.1 := by
  let r : Fin g.size → Fin g.size → Prop := fun i j => i.1 ∈ g.dependenciesAt j.1
  let name : Fin g.size → String := fun i => g.ids.get (i.cast (length_ids g).symm)
  have hedge : ∀ i j, r i j → name i ∈ g.dependencies (name j) := fun i j hij =>
    hg.mem_dependencies.2 ⟨j.1, i.1, List.getElem?_eq_getElem _, List.getElem?_eq_getElem _, hij⟩
  have hirrefl : Std.Irrefl (TransGen r) := by
    refine ⟨fun i hi => h (name i) ?_⟩
    have hcycle :
        TransGen (fun id dependency => id ∈ g.dependencies dependency) (name i) (name i) :=
      hi.lift name hedge
    exact Relation.transGen_swap.1 hcycle
  have htrans : IsTrans (Fin g.size) (TransGen r) := ⟨fun _ _ _ => TransGen.trans⟩
  have hwf := Finite.wellFounded_of_trans_of_irrefl (TransGen r)
  exact Subrelation.wf (fun hij => TransGen.single hij) hwf

end Graph

namespace Sorting

variable {g : Graph} {s : Sorting}

/-- A step places one more position, unless nothing is ready. -/
theorem step_length (s : Sorting) :
    s.ready = [] ∧ s.step g = s ∨ (s.step g).placed.length = s.placed.length + 1 := by
  cases hready : s.ready with
  | nil => exact .inl ⟨rfl, by rw [Sorting.step, hready]⟩
  | cons i ready => exact .inr (by rw [placed_step hready]; simp)

theorem run_length (s : Sorting) (count : Nat) :
    (Sorting.run g count s).ready = [] ∨
      (Sorting.run g count s).placed.length = s.placed.length + count := by
  induction count generalizing s with
  | zero => exact .inr rfl
  | succ count ih =>
    rcases step_length s with ⟨hready, hstays⟩ | hlength
    · -- Nothing is ready, now or later.
      have hidle : ∀ n, Sorting.run g n s = s := by
        intro n
        induction n with
        | zero => rfl
        | succ n ih => rw [Sorting.run, hstays, ih]
      exact .inl (by rw [hidle, hready])
    · rcases ih (s.step g) with hready | hmore
      · exact .inl hready
      · exact .inr (by rw [Sorting.run, hmore, hlength]; omega)

/-- When nothing is ready in an acyclic graph, everything is placed. -/
theorem Sound.mem_placed (hg : g.Coherent) (hacyclic : g.Acyclic) (h : Sound g s)
    (hready : s.ready = []) {i : Nat} (hi : i < g.size) : i ∈ s.placed := by
  induction hk : (⟨i, hi⟩ : Fin g.size) using (hacyclic.wellFounded hg).induction generalizing i with
  | _ k ih =>
    subst hk
    by_contra hnot
    have hdone : ∀ j ∈ g.dependenciesAt i, j ∈ s.placed := fun j hj =>
      ih ⟨j, hg.lt hj⟩ hj (hg.lt hj) rfl
    have hnext : i ∈ s.ready := (h.ready i).2 ⟨hi, hnot, hdone⟩
    rw [hready] at hnext
    cases hnext

end Sorting

namespace Graph

variable {g : Graph}

/-- A coherent graph without cycles has a dependency order. -/
theorem Acyclic.exists_sort (hg : g.Coherent) (h : g.Acyclic) : ∃ order, g.sort = .ok order := by
  have hsound : Sorting.Sound g (Sorting.finish g) := (Sorting.Sound.start g).run hg g.size
  have hlength : g.size ≤ (Sorting.finish g).placed.length := by
    rcases Sorting.run_length (Sorting.start g) g.size with hready | hlength
    · have hall : List.range g.size ⊆ (Sorting.finish g).placed := fun i hi =>
        hsound.mem_placed hg h hready (List.mem_range.1 hi)
      simpa using (List.nodup_range.subperm hall).length_le
    · exact hlength.ge.trans' (Nat.le_add_left ..)
  exact ⟨_, sort_eq_ok_iff.2 ⟨hlength, rfl⟩⟩

theorem Acyclic.exists_order (hg : g.Coherent) (h : g.Acyclic) :
    ∃ ids, g.order = .ok ids := by
  obtain ⟨order, horder⟩ := h.exists_sort hg
  exact ⟨_, by rw [Graph.order, horder]; rfl⟩

/-- No id of an order depends on itself, not even by way of others. -/
theorem IsOrder.acyclic {ids : List String} (h : g.IsOrder ids) (hg : g.Coherent) : g.Acyclic := by
  have hnodup : ids.Nodup := h.perm.nodup_iff.2 hg.nodup
  have hfalls : ∀ {id d}, d ∈ g.dependencies id → ids.idxOf d < ids.idxOf id := by
    intro id d hd
    obtain ⟨i, j, hi, -⟩ := hg.mem_dependencies.1 hd
    obtain ⟨before, after, rfl⟩ := List.append_of_mem (h.perm.mem_iff.2 (List.mem_of_getElem? hi))
    have hbefore := h.after before id after rfl d hd
    have hid : id ∉ before := fun hmem => (List.nodup_append.1 hnodup).2.2 id hmem id (by simp) rfl
    rw [List.idxOf_append_of_mem hbefore, List.idxOf_append_of_notMem hid, List.idxOf_cons_self]
    exact Nat.lt_of_lt_of_le (List.idxOf_lt_length_iff.2 hbefore) (Nat.le_add_right ..)
  intro id hcycle
  have hpath : ∀ {other}, TransGen (fun id d => d ∈ g.dependencies id) id other →
      ids.idxOf other < ids.idxOf id := by
    intro other hpath
    induction hpath with
    | single hd => exact hfalls hd
    | tail _ hd ih => exact Nat.lt_trans (hfalls hd) ih
  exact Nat.lt_irrefl _ (hpath hcycle)

/-- Coherent graphs without cycles are those that have an order. -/
theorem exists_order_iff (hg : g.Coherent) : (∃ ids, g.order = .ok ids) ↔ g.Acyclic :=
  ⟨fun ⟨_, h⟩ => (order_spec hg h).acyclic hg, Acyclic.exists_order hg⟩

/-- A graph that is built has no cycle. -/
theorem Linked.acyclic (h : g.Linked) : g.Acyclic := by
  obtain ⟨order, hsort⟩ := h.sorts
  exact (exists_order_iff h.coherent).1 ⟨_, by rw [Graph.order, hsort]; rfl⟩

end Graph

end Converge
