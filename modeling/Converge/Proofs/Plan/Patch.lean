import Converge.Plan.Patch
import Converge.Proofs.Table

/-!
# Changes of a patch

A patch changes an attribute if its wanted value shows only later or differs from the recorded one.
Whether that forces a replacement is a matter of the kind and the name of the attribute.

Main statements: `Patch.mem_changed` says which attributes a patch changes, and
`Patch.extent_eq_replace_iff` when it amounts to a replacement.
-/

namespace Converge.Patch

variable {kind : Kind} {resolved : Attributes} {deferred : Declared} {prior : Attributes}
  {name : String}

/-- The attributes that a patch changes. -/
def changed (patch : Patch) : List String := patch.changes.map (·.name)

/-- Whether a resource of the kind has to be replaced when the attribute changes. -/
def forces (kind : Kind) (name : String) : Bool := kind.isImmutable name || !kind.updatesInPlace

theorem change?_spec {change : Change}
    (h : change? kind resolved deferred prior name = some change) :
    change.name = name ∧ change.forcesReplacement = forces kind name := by
  simp only [change?] at h
  split at h
  · obtain rfl := Option.some.inj h
    exact ⟨rfl, rfl⟩
  · split at h
    · cases h
    · obtain rfl := Option.some.inj h
      exact ⟨rfl, rfl⟩

theorem change?_isSome_iff (kind : Kind) :
    (∃ change, change? kind resolved deferred prior name = some change) ↔
      deferred.contains name = true ∨
        sameValue (resolved.get? name) (prior.get? name) = false := by
  simp only [change?]
  split <;> simp_all

theorem mem_names : name ∈ names resolved deferred prior ↔
    resolved.contains name = true ∨ deferred.contains name = true ∨
      prior.contains name = true := by
  simp [names, Table.mem_names, Table.contains_iff]

/-- A patch changes what is wanted or recorded and does not stay the same. -/
theorem mem_changed : name ∈ (between kind resolved deferred prior).changed ↔
    name ∈ names resolved deferred prior ∧
      (deferred.contains name = true ∨
        sameValue (resolved.get? name) (prior.get? name) = false) := by
  rw [← change?_isSome_iff kind]
  simp only [changed, between, List.mem_map, List.mem_filterMap]
  constructor
  · rintro ⟨change, ⟨other, hother, hchange⟩, rfl⟩
    obtain rfl := (change?_spec hchange).1
    exact ⟨hother, change, hchange⟩
  · rintro ⟨hname, change, hchange⟩
    exact ⟨change, ⟨name, hname, hchange⟩, (change?_spec hchange).1⟩

theorem forcesReplacement_eq {change : Change}
    (h : change ∈ (between kind resolved deferred prior).changes) :
    change.forcesReplacement = forces kind change.name := by
  obtain ⟨name, -, hchange⟩ := List.mem_filterMap.1 h
  obtain ⟨rfl, hforces⟩ := change?_spec hchange
  exact hforces

/-! ## Extent -/

theorem extent_eq_replace_iff {patch : Patch} :
    patch.extent = .replace ↔ ∃ change ∈ patch.changes, change.forcesReplacement = true := by
  have htrigger : patch.trigger?.isSome = true ↔
      ∃ change ∈ patch.changes, change.forcesReplacement = true := by
    simp [trigger?, List.find?_isSome]
  rw [← htrigger, extent]
  split
  · simp_all
  · split <;> simp_all

theorem extent_eq_unchanged_iff {patch : Patch} : patch.extent = .unchanged ↔ patch.changes = [] := by
  rw [extent]
  constructor
  · intro h
    split at h
    · cases h
    · split at h
      · next hempty => exact List.isEmpty_iff.1 hempty
      · cases h
  · intro h
    simp [trigger?, h]

theorem changes_eq_nil_iff {patch : Patch} :
    patch.changes = [] ↔ ∀ name, name ∉ patch.changed := by
  rw [← List.eq_nil_iff_forall_not_mem, changed, List.map_eq_nil_iff]

/-- A patch changes nothing if the wanted attributes are the recorded ones. -/
theorem changes_eq_nil (hdeferred : ∀ name, deferred.get? name = none)
    (hsame : ∀ name, resolved.contains name = true ∨ prior.contains name = true →
      sameValue (resolved.get? name) (prior.get? name) = true) :
    (between kind resolved deferred prior).changes = [] := by
  rw [changes_eq_nil_iff]
  intro name hname
  have hnone : deferred.contains name = false := Table.contains_eq_false_iff.2 (hdeferred name)
  rw [mem_changed, mem_names, hnone] at hname
  simp only [Bool.false_eq_true, false_or] at hname
  rw [hsame name hname.1] at hname
  cases hname.2

/-- If a patch changes nothing, no attribute is deferred and each is what it was. -/
theorem same_of_changes_eq_nil (h : (between kind resolved deferred prior).changes = []) :
    (∀ name, deferred.get? name = none) ∧
      ∀ name, resolved.contains name = true ∨ prior.contains name = true →
        sameValue (resolved.get? name) (prior.get? name) = true := by
  have hstays : ∀ name, resolved.contains name = true ∨ deferred.contains name = true ∨
      prior.contains name = true →
        deferred.contains name = false ∧
          sameValue (resolved.get? name) (prior.get? name) = true := by
    intro name hname
    have hnot := changes_eq_nil_iff.1 h name
    rw [mem_changed, mem_names] at hnot
    simpa [hname] using hnot
  constructor
  · intro name
    refine Table.contains_eq_false_iff.1 (Bool.eq_false_iff.2 fun hname => ?_)
    rw [(hstays name (.inr (.inl hname))).1] at hname
    cases hname
  · intro name hname
    exact (hstays name (hname.imp_right .inr)).2

/-- If attributes that were resolved become deferred, a patch changes at least what it did. -/
theorem changed_mono {resolved' : Attributes} {deferred' : Declared}
    (hdeferred : ∀ name, deferred.contains name = true → deferred'.contains name = true)
    (hresolved : ∀ name, resolved'.get? name = resolved.get? name ∨
      deferred'.contains name = true)
    (h : name ∈ (between kind resolved deferred prior).changed) :
    name ∈ (between kind resolved' deferred' prior).changed := by
  rw [mem_changed, mem_names] at h ⊢
  obtain ⟨hname, hdiffers⟩ := h
  rcases hresolved name with heq | hlater
  · rw [Table.contains, heq]
    refine ⟨hname.imp id (Or.imp (hdeferred name) id), hdiffers.imp (hdeferred name) id⟩
  · exact ⟨.inr (.inl hlater), .inl hlater⟩

end Converge.Patch
