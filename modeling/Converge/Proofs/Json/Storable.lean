import Converge.Json.Decode
import Converge.Proofs.Json.RoundTrip
import Converge.Proofs.Table

/-!
# Values as documents keep them

A value that has been taken over from a document is finite, and the fields of every object in it
are sorted by name. Such a value is taken over as it is.

Main statements: `Json.isStorable_of_asValue` and `Json.IsStorable.asValue`.
-/

namespace Converge.Json

/-! ## Arrays by their items, objects by their fields -/

/-- What holds of an array if it holds of its items, and of an object if it holds of the values of
its fields, holds of every value. -/
theorem induct {P : Json → Prop} (null : P .null) (bool : ∀ value, P (.bool value))
    (number : ∀ value, P (.number value)) (string : ∀ value, P (.string value))
    (array : ∀ items, (∀ item ∈ items, P item) → P (.array items))
    (object : ∀ fields, (∀ field ∈ fields, P field.2) → P (.object fields)) (value : Json) :
    P value :=
  @Json.rec P (fun items => ∀ item ∈ items, P item) (fun fields => ∀ field ∈ fields, P field.2)
    (fun field => P field.2) null bool number string array object (by simp)
    (fun _ _ hitem hrest => List.forall_mem_cons.2 ⟨hitem, hrest⟩) (by simp)
    (fun _ _ hfield hrest => List.forall_mem_cons.2 ⟨hfield, hrest⟩) (fun _ _ hvalue => hvalue) value

theorem canonicalItems_eq (items : List Json) : canonicalItems items = items.map canonical := by
  induction items with
  | nil => rfl
  | cons item rest ih => rw [canonicalItems, ih, List.map_cons]

theorem canonicalFields_eq (fields : List (String × Json)) :
    canonicalFields fields = fields.map fun field => (field.1, field.2.canonical) := by
  induction fields with
  | nil => rfl
  | cons field rest ih => rw [canonicalFields, ih, List.map_cons]

theorem areFinite_iff {items : List Json} :
    areFinite items = true ↔ ∀ item ∈ items, item.isFinite = true := by
  induction items with
  | nil => simp [areFinite]
  | cons item rest ih => rw [areFinite, Bool.and_eq_true, ih, List.forall_mem_cons]

theorem fieldsAreFinite_iff {fields : List (String × Json)} :
    fieldsAreFinite fields = true ↔ ∀ field ∈ fields, field.2.isFinite = true := by
  induction fields with
  | nil => simp [fieldsAreFinite]
  | cons field rest ih => rw [fieldsAreFinite, Bool.and_eq_true, ih, List.forall_mem_cons]

/-- Items nest at most `n` deep just if each of them does. -/
theorem nestingOfItems_le {items : List Json} {n : Nat} :
    nestingOfItems items ≤ n ↔ ∀ item ∈ items, item.nesting ≤ n := by
  induction items with
  | nil => simp [nestingOfItems]
  | cons item rest ih => rw [nestingOfItems, Nat.max_le, ih, List.forall_mem_cons]

theorem nestingOfFields_le {fields : List (String × Json)} {n : Nat} :
    nestingOfFields fields ≤ n ↔ ∀ field ∈ fields, field.2.nesting ≤ n := by
  induction fields with
  | nil => simp [nestingOfFields]
  | cons field rest ih => rw [nestingOfFields, Nat.max_le, ih, List.forall_mem_cons]

theorem nesting_array_le {items : List Json} {n : Nat} :
    (Json.array items).nesting ≤ n + 1 ↔ ∀ item ∈ items, item.nesting ≤ n := by
  rw [nesting, Nat.succ_le_succ_iff, nestingOfItems_le]

theorem nesting_object_le {fields : List (String × Json)} {n : Nat} :
    (Json.object fields).nesting ≤ n + 1 ↔ ∀ field ∈ fields, field.2.nesting ≤ n := by
  rw [nesting, Nat.succ_le_succ_iff, nestingOfFields_le]

theorem isLegible_array {items : List Json} :
    (Json.array items).IsLegible ↔ ∀ item ∈ items, item.IsLegible := by
  rw [IsLegible]
  induction items with
  | nil => simp [AreLegible]
  | cons item rest ih => rw [AreLegible, ih, List.forall_mem_cons]

theorem isLegible_object {fields : List (String × Json)} :
    (Json.object fields).IsLegible ↔ ∀ field ∈ fields, field.2.IsLegible := by
  rw [IsLegible]
  induction fields with
  | nil => simp [FieldsAreLegible]
  | cons field rest ih => rw [FieldsAreLegible, ih, List.forall_mem_cons]

@[simp] theorem nesting_null : Json.null.nesting = 0 := rfl

@[simp] theorem nesting_bool (value : Bool) : (Json.bool value).nesting = 0 := rfl

@[simp] theorem nesting_number (value : Number) : (Json.number value).nesting = 0 := rfl

@[simp] theorem nesting_natural (n : Nat) : (Json.natural n).nesting = 0 := rfl

@[simp] theorem nesting_string (text : String) : (Json.string text).nesting = 0 := rfl

@[simp] theorem isLegible_null : Json.null.IsLegible := trivial

@[simp] theorem isLegible_bool (value : Bool) : (Json.bool value).IsLegible := trivial

@[simp] theorem isLegible_string (text : String) : (Json.string text).IsLegible := trivial

/-! ## Storable values -/

/-- Whether a value is as documents keep it: finite, and with the fields of every object sorted by
name. -/
inductive IsStorable : Json → Prop
  | null : IsStorable .null
  | bool (value : Bool) : IsStorable (.bool value)
  | number {value : Number} (finite : value.isFinite = true) : IsStorable (.number value)
  | string (value : String) : IsStorable (.string value)
  | array {items : List Json} (all : ∀ item ∈ items, IsStorable item) : IsStorable (.array items)
  | object {fields : List (String × Json)} (sorted : fields.Pairwise fun a b => a.1 < b.1)
      (all : ∀ field ∈ fields, IsStorable field.2) : IsStorable (.object fields)

variable {value other : Json}

/-- Every finite value has a storable form. -/
theorem isStorable_canonical (h : value.isFinite = true) : value.canonical.IsStorable := by
  induction value using induct with
  | null => exact .null
  | bool value => exact .bool value
  | number value => exact .number h
  | string value => exact .string value
  | array items ih =>
    rw [isFinite, areFinite_iff] at h
    rw [canonical, canonicalItems_eq]
    refine .array fun item hitem => ?_
    obtain ⟨before, hbefore, rfl⟩ := List.mem_map.1 hitem
    exact ih before hbefore (h before hbefore)
  | object fields ih =>
    rw [isFinite, fieldsAreFinite_iff] at h
    rw [canonical, canonicalFields_eq]
    refine .object (Table.sorted _) fun ⟨name, kept⟩ hfield => ?_
    have hmem := Table.mem_of_get?_ofList (Table.mem_entries.1 hfield)
    obtain ⟨before, hbefore, heq⟩ := List.mem_map.1 hmem
    obtain ⟨-, rfl⟩ := Prod.mk.inj heq
    exact ih before hbefore (h before hbefore)

theorem nesting_canonical_le (value : Json) : value.canonical.nesting ≤ value.nesting := by
  induction value using induct with
  | null => exact Nat.le_refl _
  | bool value => exact Nat.le_refl _
  | number value => exact Nat.le_refl _
  | string value => exact Nat.le_refl _
  | array items ih =>
    have hitems := nestingOfItems_le.1 (Nat.le_refl (nestingOfItems items))
    rw [canonical, canonicalItems_eq]
    refine nesting_array_le.2 fun item hitem => ?_
    obtain ⟨before, hbefore, rfl⟩ := List.mem_map.1 hitem
    exact Nat.le_trans (ih before hbefore) (hitems before hbefore)
  | object fields ih =>
    have hfields := nestingOfFields_le.1 (Nat.le_refl (nestingOfFields fields))
    rw [canonical, canonicalFields_eq]
    refine nesting_object_le.2 fun ⟨name, kept⟩ hfield => ?_
    have hmem := Table.mem_of_get?_ofList (Table.mem_entries.1 hfield)
    obtain ⟨before, hbefore, heq⟩ := List.mem_map.1 hmem
    obtain ⟨-, rfl⟩ := Prod.mk.inj heq
    exact Nat.le_trans (ih before hbefore) (hfields before hbefore)

namespace IsStorable

theorem isFinite (h : value.IsStorable) : value.isFinite = true := by
  induction h with
  | null => rfl
  | bool value => rfl
  | number finite => exact finite
  | string value => rfl
  | array all ih => exact areFinite_iff.2 ih
  | object sorted all ih => exact fieldsAreFinite_iff.2 ih

/-- A storable value is in canonical form. -/
theorem canonical_eq (h : value.IsStorable) : value.canonical = value := by
  induction h with
  | null => rfl
  | bool value => rfl
  | number finite => rfl
  | string value => rfl
  | @array items all ih =>
    have hsame : items.map canonical = items := (List.map_congr_left ih).trans (List.map_id _)
    rw [canonical, canonicalItems_eq, hsame]
  | @object fields sorted all ih =>
    have hsame : fields.map (fun field => (field.1, field.2.canonical)) = fields := by
      refine (List.map_congr_left (g := id) fun field hfield => ?_).trans (List.map_id _)
      exact Prod.ext rfl (ih field hfield)
    rw [canonical, canonicalFields_eq, hsame, Table.ofList_entries ⟨fields, sorted⟩]

/-- A storable value is taken over as it is. -/
theorem asValue (h : value.IsStorable) : value.asValue = .ok value := by
  rw [Json.asValue, if_pos h.isFinite, h.canonical_eq]

end IsStorable

/-- What is taken over is storable, and nests no deeper than before. -/
theorem isStorable_of_asValue (h : value.asValue = .ok other) :
    other.IsStorable ∧ other.nesting ≤ value.nesting := by
  rw [asValue] at h
  split at h
  · next hfinite =>
    obtain rfl := Except.ok.inj h
    exact ⟨isStorable_canonical hfinite, nesting_canonical_le value⟩
  · cases h

/-- Storable are the values that are taken over as they are. -/
theorem isStorable_iff : value.IsStorable ↔ value.asValue = .ok value :=
  ⟨IsStorable.asValue, fun h => (isStorable_of_asValue h).1⟩

end Converge.Json
