/-!
# Sets of positions

A set of positions in a list is kept as an increasing list of naturals, so that its first entry is
its least one.
-/

namespace Converge.Positions

/-- Adds a position to an increasing list that may hold it already. -/
def insert (i : Nat) : List Nat → List Nat
  | [] => [i]
  | j :: rest =>
    if i < j then i :: j :: rest
    else if i = j then j :: rest
    else j :: insert i rest

/-- An increasing list of the positions in `items`, each once. -/
def ofList (items : List Nat) : List Nat := items.foldl (fun set i => insert i set) []

@[simp] theorem mem_insert {i j : Nat} {set : List Nat} :
    j ∈ insert i set ↔ j = i ∨ j ∈ set := by
  induction set with
  | nil => simp [insert]
  | cons head rest ih => grind [insert]

theorem pairwise_insert (i : Nat) {set : List Nat} (h : set.Pairwise (· < ·)) :
    (insert i set).Pairwise (· < ·) := by
  induction set with
  | nil => simp [insert]
  | cons head rest ih =>
    have hrest := List.pairwise_cons.1 h
    rw [insert]
    split
    · next hlt => exact List.pairwise_cons.2 ⟨by grind, h⟩
    · split
      · exact h
      · exact List.pairwise_cons.2 ⟨by grind [mem_insert], ih hrest.2⟩

end Converge.Positions
