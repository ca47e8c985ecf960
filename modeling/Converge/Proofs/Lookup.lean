import Mathlib.Data.List.GetD

/-!
# Look-ups that have to succeed

What looks up one position after another has an outcome only if all of them are there, and what
counts down has one only as long as there is something left to count. Where each look-up on the way
is known to succeed, the outcome is that of the same work on what is found.

Main statements: `countDown?_eq_some` for counts, and `mapM_eq_some_filterMap`, `filterM_eq_some`
and `findM?_eq_some` for look-ups in lists.
-/

namespace Converge

/-- Takes one off the count at a position, which has to be there and more than zero. -/
def countDown? (counts : List Nat) (i : Nat) : Option (List Nat) :=
  match counts[i]? with
  | some (left + 1) => some (counts.set i left)
  | _ => none

theorem countDown?_eq_some {counts : List Nat} {i : Nat} (h : 0 < counts.getD i 0) :
    countDown? counts i = some (counts.set i (counts.getD i 0 - 1)) := by
  rw [List.getD_eq_getElem?_getD] at h ⊢
  rw [countDown?]
  cases hi : counts[i]? with
  | none => simp [hi] at h
  | some left =>
    cases left with
    | zero => simp [hi] at h
    | succ left => rfl

variable {α β : Type} {xs : List α}

theorem mapM_eq_some_filterMap {f : α → Option β} (h : ∀ x ∈ xs, (f x).isSome) :
    xs.mapM f = some (xs.filterMap f) := by
  induction xs with
  | nil => rfl
  | cons x xs ih =>
    obtain ⟨y, hy⟩ := Option.isSome_iff_exists.1 (h x (List.mem_cons_self ..))
    rw [List.mapM_cons, hy, ih fun z hz => h z (List.mem_cons_of_mem _ hz),
      List.filterMap_cons_some hy]
    rfl

theorem filterM_eq_some {f : α → Option Bool} {g : α → Bool} (h : ∀ x ∈ xs, f x = some (g x)) :
    xs.filterM f = some (xs.filter g) := by
  have hrest : ∀ (xs kept : List α), (∀ x ∈ xs, f x = some (g x)) →
      xs.filterAuxM f kept = some ((xs.filter g).reverse ++ kept) := by
    intro xs
    induction xs with
    | nil => exact fun _ _ => rfl
    | cons x xs ih =>
      intro kept h
      rw [List.filterAuxM, h x (List.mem_cons_self ..), Option.bind_eq_bind, Option.bind_some,
        ih _ fun y hy => h y (List.mem_cons_of_mem _ hy)]
      cases hx : g x <;> simp [hx]
  rw [List.filterM, hrest xs [] h]
  simp

theorem findM?_eq_some {f : α → Option Bool} {g : α → Bool} (h : ∀ x ∈ xs, f x = some (g x)) :
    xs.findM? f = some (xs.find? g) := by
  induction xs with
  | nil => rfl
  | cons x xs ih =>
    rw [List.findM?, h x (List.mem_cons_self ..), List.find?_cons]
    cases g x with
    | true => rfl
    | false => exact ih fun y hy => h y (List.mem_cons_of_mem _ hy)

end Converge
