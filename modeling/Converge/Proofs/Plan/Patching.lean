import Converge.Proofs.Agreement
import Converge.Proofs.Plan.Patch

/-!
# Making the changes of a patch

A patch lists, in the order of their names, just the attributes that have to change. When the
changes whose values are known are made to the recorded attributes, and what shows only later is
left out, there remains what is wanted; and no list of changes that leads there spares a listed one.
Two attributes are the same here if their values agree, so the two zeros are.

Main statements: `Patch.changed_eq` says what a patch lists, `Patch.agree_applied` where making its
changes leads, and `Patch.between_exact` puts together all that a patch tells.
-/

namespace Converge

/-- Whether two values that may be absent are both absent, or agree. -/
abbrev Json.Same (a b : Option Json) : Prop := Option.Rel (fun a b => a.agrees b = true) a b

theorem Json.Same.refl : (a : Option Json) → Json.Same a a
  | none => .none
  | some a => .some (Json.agrees_refl a)

theorem Json.Same.symm {a b : Option Json} : Json.Same a b → Json.Same b a
  | .none => .none
  | .some h => .some (Json.agrees_symm _ h)

/-- Whether two sets of attributes have the same names, with values that agree. -/
def Attributes.Agree (a b : Attributes) : Prop := ∀ name, Json.Same (a.get? name) (b.get? name)

/-- Makes a change: its new value is stored, or nothing is left under its name. -/
def Change.make (attributes : Attributes) (change : Change) : Attributes :=
  match change.new with
  | some value => attributes.insert change.name value
  | none => attributes.erase change.name

namespace Change

variable {attributes : Attributes} {change : Change} {changes : List Change} {name : String}

theorem get?_make : (change.make attributes).get? name =
    if name = change.name then change.new else attributes.get? name := by
  rw [make]
  split
  · next value hnew => rw [Table.get?_insert, hnew]
  · next hnew => rw [Table.get?_erase, hnew]

/-- Changes leave attributes of other names alone. -/
theorem get?_makeAll_of_notMem (h : name ∉ changes.map (·.name)) :
    (changes.foldl make attributes).get? name = attributes.get? name := by
  induction changes generalizing attributes with
  | nil => rfl
  | cons change rest ih =>
    rw [List.map_cons, List.mem_cons, not_or] at h
    rw [List.foldl_cons, ih h.2, get?_make, if_neg h.1]

/-- Of changes with distinct names each has its own effect. -/
theorem get?_makeAll_of_mem (hnodup : (changes.map (·.name)).Nodup) (h : change ∈ changes) :
    (changes.foldl make attributes).get? change.name = change.new := by
  induction changes generalizing attributes with
  | nil => cases h
  | cons first rest ih =>
    obtain ⟨hnew, hrest⟩ := List.nodup_cons.1 hnodup
    rw [List.foldl_cons]
    rcases List.mem_cons.1 h with rfl | hlater
    · rw [get?_makeAll_of_notMem hnew, get?_make, if_pos rfl]
    · exact ih hrest hlater

end Change

namespace Patch

variable {kind : Kind} {resolved : Attributes} {deferred : Declared} {prior : Attributes}
  {name : String}

/-- The changes whose values are known. -/
def known (patch : Patch) : List Change := patch.changes.filter (!·.deferred)

/-- Whether the value of an attribute shows only later. -/
def defers (patch : Patch) (name : String) : Bool :=
  patch.changes.any fun change => change.deferred && change.name == name

/-- Attributes after the changes whose values are known, without those whose values show only
later. -/
def applied (patch : Patch) (attributes : Attributes) : Attributes :=
  (patch.known.foldl Change.make attributes).filter fun name _ => !patch.defers name

/-! ## What is listed -/

/-- What is said of a listed attribute. -/
def entry (kind : Kind) (resolved : Attributes) (deferred : Declared) (prior : Attributes)
    (name : String) : Change where
  name
  old := prior.get? name
  new := if deferred.contains name = true then none else resolved.get? name
  deferred := deferred.contains name
  forcesReplacement := forces kind name

theorem change?_eq : change? kind resolved deferred prior name =
    if deferred.contains name || !sameValue (resolved.get? name) (prior.get? name) then
      some (entry kind resolved deferred prior name)
    else none := by
  by_cases hdeferred : deferred.contains name = true
  · simp only [change?, entry, forces, hdeferred, if_true, Bool.true_or]
  · rw [Bool.not_eq_true] at hdeferred
    simp only [change?, entry, forces, hdeferred, Bool.false_eq_true, if_false, Bool.false_or]
    cases sameValue (resolved.get? name) (prior.get? name) <;> rfl

/-- A patch lists the names that occur and are deferred or do not stay the same, in their order. -/
theorem changed_eq : (between kind resolved deferred prior).changed =
    (names resolved deferred prior).filter fun name =>
      deferred.contains name || !sameValue (resolved.get? name) (prior.get? name) := by
  rw [changed, between, List.map_filterMap, ← List.filterMap_eq_filter]
  refine List.filterMap_congr fun name _ => ?_
  rw [change?_eq, Option.guard]
  split <;> rfl

theorem sorted_changed : (between kind resolved deferred prior).changed.Pairwise (· < ·) := by
  rw [changed_eq]
  exact (List.pairwise_map.2 (Table.ofList _).sorted).filter _

theorem nodup_changed : (between kind resolved deferred prior).changed.Nodup :=
  sorted_changed.imp fun h => String.ne_of_lt h

/-- A name is listed if it is deferred, or its values differ or one is absent. -/
theorem mem_changed_iff : name ∈ (between kind resolved deferred prior).changed ↔
    deferred.contains name = true ∨ ¬ Json.Same (resolved.get? name) (prior.get? name) := by
  rw [mem_changed, mem_names]
  by_cases hdeferred : deferred.contains name = true
  · simp [hdeferred]
  · rw [Bool.not_eq_true] at hdeferred
    rw [hdeferred, Table.contains, Table.contains]
    cases resolved.get? name <;> cases prior.get? name <;> simp [sameValue]

theorem of_mem_changes {change : Change}
    (h : change ∈ (between kind resolved deferred prior).changes) :
    change = entry kind resolved deferred prior change.name := by
  obtain ⟨name, -, hchange⟩ := List.mem_filterMap.1 h
  rw [change?_eq, Option.ite_none_right_eq_some] at hchange
  obtain rfl := Option.some.inj hchange.2
  rfl

theorem changes_eq : (between kind resolved deferred prior).changes =
    (between kind resolved deferred prior).changed.map (entry kind resolved deferred prior) := by
  rw [changed, List.map_map]
  exact (List.map_id'' (fun _ => rfl) _).symm.trans (List.map_congr_left fun _ => of_mem_changes)

/-! ## Where it leads -/

theorem defers_iff : (between kind resolved deferred prior).defers name = true ↔
    deferred.contains name = true := by
  rw [defers, List.any_eq_true]
  constructor
  · rintro ⟨change, hchange, hdefers⟩
    obtain ⟨hdeferred, hname⟩ := Bool.and_eq_true_iff.1 hdefers
    rw [of_mem_changes hchange, beq_iff_eq] at hname
    rw [of_mem_changes hchange] at hdeferred
    exact hname ▸ hdeferred
  · intro hdeferred
    have hlisted : name ∈ (between kind resolved deferred prior).changed :=
      mem_changed_iff.2 (.inl hdeferred)
    obtain ⟨change, hchange, rfl⟩ := List.mem_map.1 hlisted
    refine ⟨change, hchange, Bool.and_eq_true_iff.2 ⟨?_, beq_self_eq_true _⟩⟩
    rw [of_mem_changes hchange]
    exact hdeferred

theorem get?_applied {patch : Patch} {attributes : Attributes} :
    (patch.applied attributes).get? name =
      if patch.defers name then none else (patch.known.foldl Change.make attributes).get? name := by
  rw [applied, Table.get?_filter]
  cases patch.defers name <;> ext <;> simp

/-- An attribute that is not deferred comes to be as it is wanted, or was so before. -/
theorem get?_applied_between (hdeferred : deferred.contains name = false) :
    ((between kind resolved deferred prior).applied prior).get? name =
      if name ∈ (between kind resolved deferred prior).changed then resolved.get? name
      else prior.get? name := by
  have hnodup : ((between kind resolved deferred prior).known.map (·.name)).Nodup :=
    nodup_changed.sublist (List.filter_sublist.map _)
  have hkept : (between kind resolved deferred prior).defers name = false := by
    rw [Bool.eq_false_iff, Ne, defers_iff, hdeferred]
    decide
  rw [get?_applied, hkept, if_neg Bool.false_ne_true]
  split
  · next hlisted =>
    obtain ⟨change, hchange, rfl⟩ := List.mem_map.1 hlisted
    have hspec := of_mem_changes hchange
    have hknown : change ∈ (between kind resolved deferred prior).known :=
      List.mem_filter.2 ⟨hchange, by rw [hspec, entry, hdeferred]; rfl⟩
    rw [Change.get?_makeAll_of_mem hnodup hknown]
    rw [hspec, entry, hdeferred]
    rfl
  · next hnot =>
    refine Change.get?_makeAll_of_notMem fun hmem => hnot ?_
    exact (List.filter_sublist.map _).subset hmem

/-- The changes of a patch lead from what is recorded to what is wanted. -/
theorem agree_applied
    (hdisjoint : ∀ name, ¬ (resolved.contains name = true ∧ deferred.contains name = true)) :
    Attributes.Agree ((between kind resolved deferred prior).applied prior) resolved := by
  intro name
  by_cases hdeferred : deferred.contains name = true
  -- What is deferred is left out on both sides, since it is not among the wanted attributes.
  · have hnone : resolved.get? name = none := by
      refine Table.contains_eq_false_iff.1 (Bool.eq_false_iff.2 fun hresolved => ?_)
      exact hdisjoint name ⟨hresolved, hdeferred⟩
    rw [get?_applied, if_pos (defers_iff.2 hdeferred), hnone]
    exact .none
  · rw [get?_applied_between (Bool.eq_false_iff.2 hdeferred)]
    split
    · exact .refl _
    · next hnot =>
      rw [mem_changed_iff, not_or, not_not] at hnot
      exact hnot.2.symm

/-- Whatever changes lead to what is wanted, a listed attribute whose value is known is among
them. -/
theorem mem_of_leads {changes : List Change}
    (hleads : Json.Same ((changes.foldl Change.make prior).get? name) (resolved.get? name))
    (hname : name ∈ (between kind resolved deferred prior).changed)
    (hdeferred : deferred.contains name = false) : name ∈ changes.map (·.name) := by
  by_contra hnot
  rw [Change.get?_makeAll_of_notMem hnot] at hleads
  rcases mem_changed_iff.1 hname with hlater | hdiffers
  · rw [hdeferred] at hlater
    cases hlater
  · exact hdiffers hleads.symm

/-! ## What it amounts to -/

theorem trigger?_eq_find? : (between kind resolved deferred prior).trigger? =
    (between kind resolved deferred prior).changed.find? (forces kind) := by
  rw [trigger?, changes_eq, List.find?_map, Option.map_map]
  exact Option.map_id'

/-- The first immutable attribute that changes forces a replacement; the first of all, if nothing of
the kind can be changed in place. -/
theorem trigger?_eq : (between kind resolved deferred prior).trigger? =
    if kind.updatesInPlace then
      (between kind resolved deferred prior).changed.find? kind.isImmutable
    else (between kind resolved deferred prior).changed.head? := by
  rw [trigger?_eq_find?]
  cases hplace : kind.updatesInPlace with
  | true =>
    have hforces : forces kind = kind.isImmutable := by
      funext name
      simp [forces, hplace]
    rw [hforces]
    rfl
  | false =>
    have hforces : forces kind = fun _ => true := by
      funext name
      simp [forces, hplace]
    rw [hforces]
    cases (between kind resolved deferred prior).changed <;> rfl

theorem extent_eq_unchanged_iff_agree : (between kind resolved deferred prior).extent = .unchanged ↔
    (∀ name, deferred.contains name = false) ∧ Attributes.Agree resolved prior := by
  rw [extent_eq_unchanged_iff, changes_eq_nil_iff, Attributes.Agree, ← forall_and]
  refine forall_congr' fun name => ?_
  rw [mem_changed_iff, not_or, not_not, Bool.not_eq_true]

theorem extent_eq_replace_iff_trigger? {patch : Patch} :
    patch.extent = .replace ↔ patch.trigger?.isSome = true := by
  rw [extent_eq_replace_iff, trigger?, Option.isSome_map, List.find?_isSome]

/-- All that a patch between recorded and wanted attributes tells. -/
structure Exact (kind : Kind) (resolved : Attributes) (deferred : Declared) (prior : Attributes)
    (patch : Patch) : Prop where
  /-- Attributes are listed in the order of their names, each once. -/
  sorted : patch.changed.Pairwise (· < ·)
  /-- Those are listed that are deferred, or differ, or are wanted or recorded only. -/
  listed : ∀ name, name ∈ patch.changed ↔
    deferred.contains name = true ∨ ¬ Json.Same (resolved.get? name) (prior.get? name)
  /-- The recorded value is told, and the wanted one if it is known. -/
  entries : patch.changes = patch.changed.map (entry kind resolved deferred prior)
  /-- The changes lead to what is wanted. -/
  leads : Attributes.Agree (patch.applied prior) resolved
  /-- No changes that lead there do without a listed one. -/
  minimal : ∀ changes : List Change,
    (∀ name, deferred.contains name = false →
      Json.Same ((changes.foldl Change.make prior).get? name) (resolved.get? name)) →
    ∀ name ∈ patch.changed, deferred.contains name = false → name ∈ changes.map (·.name)
  /-- The first listed attribute that is immutable forces a replacement. -/
  trigger : patch.trigger? =
    if kind.updatesInPlace then patch.changed.find? kind.isImmutable else patch.changed.head?
  unchanged : patch.extent = .unchanged ↔
    (∀ name, deferred.contains name = false) ∧ Attributes.Agree resolved prior
  replace : patch.extent = .replace ↔ patch.trigger?.isSome = true

/-- A patch is exact if no attribute is both wanted and deferred. -/
theorem between_exact
    (hdisjoint : ∀ name, ¬ (resolved.contains name = true ∧ deferred.contains name = true)) :
    Exact kind resolved deferred prior (between kind resolved deferred prior) where
  sorted := sorted_changed
  listed _ := mem_changed_iff
  entries := changes_eq
  leads := agree_applied hdisjoint
  minimal _ hleads name hname hdeferred := mem_of_leads (hleads name hdeferred) hname hdeferred
  trigger := trigger?_eq
  unchanged := extent_eq_unchanged_iff_agree
  replace := extent_eq_replace_iff_trigger?

/-- What is wanted of a load balancer, whose security groups show only later. -/
def edgeWanted : Attributes := .ofList [("idle_timeout", .null), ("name", .string "edge"),
  ("scheme", .string "internal")]

def edgeDeferred : Declared := .ofList [
  ("security_groups", .reference ⟨"web", "provider_id"⟩)]

def edgeRecorded : Attributes := .ofList [("name", .string "edge"), ("scheme", .null),
  ("tags", .array [])]

/-- An attribute is added, one differs, one shows later and one is removed. -/
theorem between_exact_edge :
    (∀ name, ¬ (edgeWanted.contains name = true ∧ edgeDeferred.contains name = true)) ∧
      Exact .loadBalancer edgeWanted edgeDeferred edgeRecorded
        (between .loadBalancer edgeWanted edgeDeferred edgeRecorded) ∧
      (between .loadBalancer edgeWanted edgeDeferred edgeRecorded).changed =
        ["idle_timeout", "scheme", "security_groups", "tags"] ∧
      (between .loadBalancer edgeWanted edgeDeferred edgeRecorded).trigger? = some "scheme" := by
  have hdisjoint : ∀ name,
      ¬ (edgeWanted.contains name = true ∧ edgeDeferred.contains name = true) := by
    rintro name ⟨hwanted, hdeferred⟩
    have hall : ∀ name ∈ edgeWanted.names, edgeDeferred.contains name = false := by decide
    rw [hall name (Table.mem_names.2 (Table.contains_iff.1 hwanted))] at hdeferred
    cases hdeferred
  exact ⟨hdisjoint, between_exact hdisjoint, by decide, by decide⟩

end Patch

end Converge
