/-!
# Sorting

A stable sort: of two items that may stand either way round, the one that stood first stays first.
-/

namespace Converge

universe u

variable {α : Type u}

/-- Puts an item in front of the first one that it may precede. -/
def insertBy (precedes : α → α → Bool) (item : α) : List α → List α
  | [] => [item]
  | first :: rest =>
    if precedes item first then item :: first :: rest
    else first :: insertBy precedes item rest

/-- The items in the order of `precedes`. -/
def sortBy (precedes : α → α → Bool) : List α → List α
  | [] => []
  | item :: rest => insertBy precedes item (sortBy precedes rest)

theorem perm_insertBy (precedes : α → α → Bool) (item : α) (items : List α) :
    (insertBy precedes item items).Perm (item :: items) := by
  induction items with
  | nil => exact .refl _
  | cons first rest ih =>
    rw [insertBy]
    split
    · exact .refl _
    · exact (ih.cons first).trans (.swap ..)

theorem perm_sortBy (precedes : α → α → Bool) (items : List α) :
    (sortBy precedes items).Perm items := by
  induction items with
  | nil => exact .nil
  | cons item rest ih => exact (perm_insertBy ..).trans (ih.cons item)

@[simp] theorem mem_sortBy {precedes : α → α → Bool} {item : α} {items : List α} :
    item ∈ sortBy precedes items ↔ item ∈ items :=
  (perm_sortBy precedes items).mem_iff

section order

variable {precedes : α → α → Bool} (total : ∀ a b, precedes a b = true ∨ precedes b a = true)
  (trans : ∀ a b c, precedes a b = true → precedes b c = true → precedes a c = true)
  {items : List α}

include total trans

/-- An item that stood before all others is put before those that it may stand either way round
with. -/
theorem pairwise_insertBy {before : α → α → Prop} {item : α}
    (hitem : ∀ other ∈ items, before item other)
    (h : items.Pairwise fun a b => precedes a b = true ∧ (precedes b a = true → before a b)) :
    (insertBy precedes item items).Pairwise fun a b =>
      precedes a b = true ∧ (precedes b a = true → before a b) := by
  induction items with
  | nil => exact List.pairwise_singleton ..
  | cons first rest ih =>
    obtain ⟨hfirst, hrest⟩ := List.pairwise_cons.1 h
    obtain ⟨-, hitems⟩ := List.forall_mem_cons.1 hitem
    rw [insertBy]
    split
    · next hle =>
      refine List.pairwise_cons.2 ⟨fun other hother => ⟨?_, fun _ => hitem other hother⟩, h⟩
      rcases List.mem_cons.1 hother with rfl | hother
      · exact hle
      · exact trans _ _ _ hle (hfirst other hother).1
    · next hgt =>
      refine List.pairwise_cons.2 ⟨fun other hother => ?_, ih hitems hrest⟩
      rcases List.mem_cons.1 ((perm_insertBy precedes item rest).mem_iff.1 hother) with rfl | hother
      · exact ⟨(total _ _).resolve_left hgt, fun hle => absurd hle hgt⟩
      · exact hfirst other hother

/-- Sorting puts items in order, if the order is total, and leaves those that may stand either way
round in the order in which they stood. -/
theorem pairwise_sortBy_stable {before : α → α → Prop} (h : items.Pairwise before) :
    (sortBy precedes items).Pairwise fun a b =>
      precedes a b = true ∧ (precedes b a = true → before a b) := by
  induction items with
  | nil => exact .nil
  | cons item rest ih =>
    obtain ⟨hitem, hrest⟩ := List.pairwise_cons.1 h
    exact pairwise_insertBy total trans (fun other hother => hitem other (mem_sortBy.1 hother))
      (ih hrest)

end order

/-- Sorting by a number puts items in the order of their numbers, and items of one number in the order
in which they stood. -/
theorem pairwise_sortBy_key (key : α → Nat) {before : α → α → Prop} {items : List α}
    (h : items.Pairwise before) :
    (sortBy (fun a b => key a ≤ key b) items).Pairwise fun a b =>
      key a < key b ∨ key a = key b ∧ before a b := by
  have htotal : ∀ a b : α, decide (key a ≤ key b) = true ∨ decide (key b ≤ key a) = true := by
    simpa using fun a b => Nat.le_total (key a) (key b)
  have htrans : ∀ a b c : α, decide (key a ≤ key b) = true → decide (key b ≤ key c) = true →
      decide (key a ≤ key c) = true := by
    simpa using fun _ _ _ => Nat.le_trans
  refine (pairwise_sortBy_stable htotal htrans h).imp fun ⟨hle, hbefore⟩ => ?_
  rcases Nat.lt_or_eq_of_le (of_decide_eq_true hle) with hlt | heq
  · exact .inl hlt
  · exact .inr ⟨heq, hbefore (decide_eq_true (Nat.le_of_eq heq.symm))⟩

/-- Numbers that are listed once are sorted to increase. -/
theorem increasing_sortBy {items : List Nat} (h : items.Nodup) :
    (sortBy (· ≤ ·) items).Pairwise (· < ·) :=
  (pairwise_sortBy_key id h).imp fun
    | .inl hlt => hlt
    | .inr ⟨heq, hne⟩ => absurd heq hne

end Converge
