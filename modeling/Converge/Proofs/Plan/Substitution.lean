import Converge.Proofs.Plan.Resolution

/-!
# Both substitutions

A value is substituted when a plan is made and again when it is applied. What becomes of it can be
read off the references inside, taken in their order: the first that is missing is the error, and
else one that is deferred defers the whole; if neither occurs, each stands for its value. So the two
substitutions come to the same value wherever the same is known, and where there are no references to
the value as plain data.

Main statements: `AttributeValue.unresolved?_resolveWith`, `AttributeValue.resolveWith_eq_deferred_iff`
and `OutputTable.resolve_eq_error_iff` say when substitution comes to no value,
`AttributeValue.substitute_eq_some_iff` what the value is, and `AttributeValue.substitutions_agree`
puts the two side by side.
-/

namespace Converge

/-- The reference that nothing brings. -/
def Resolution.unresolved? : Resolution → Option Reference
  | .unresolved target => some target
  | .resolved _ => none
  | .deferred => none

theorem Resolution.unresolved?_eq_some_iff {resolution : Resolution} {target : Reference} :
    resolution.unresolved? = some target ↔ resolution = .unresolved target := by
  cases resolution <;> simp [unresolved?]

namespace AttributeValue

variable {f : Reference → Json} {g : Reference → Option Json} {lookup : Reference → Lookup}

/-! ## The value -/

mutual

/-- A value as plain data, with what `f` gives for it in place of each reference. -/
def fill (f : Reference → Json) : AttributeValue → Json
  | .literal value => value
  | .list items => .array (fillItems f items)
  | .map entries => .object (fillEntries f entries)
  | .reference target => f target

def fillItems (f : Reference → Json) : List AttributeValue → List Json
  | [] => []
  | item :: rest => item.fill f :: fillItems f rest

def fillEntries (f : Reference → Json) : List (String × AttributeValue) → List (String × Json)
  | [] => []
  | (name, value) :: rest => (name, value.fill f) :: fillEntries f rest

end

mutual

theorem substitute_eq_fill : (value : AttributeValue) →
    (∀ r ∈ value.references, g r = some (f r)) → value.substitute g = some (value.fill f)
  | .literal _, _ => by rw [substitute, fill]
  | .reference target, h => by rw [substitute, fill, h target (by simp [references])]
  | .list items, h => by
    rw [substitute, fill, substituteItems_eq_fill items (by simpa only [references] using h)]
    rfl
  | .map entries, h => by
    rw [substitute, fill, substituteEntries_eq_fill entries (by simpa only [references] using h)]
    rfl

theorem substituteItems_eq_fill : (items : List AttributeValue) →
    (∀ r ∈ itemReferences items, g r = some (f r)) →
    substituteItems g items = some (fillItems f items)
  | [], _ => by rw [substituteItems, fillItems]
  | item :: rest, h => by
    rw [itemReferences, List.forall_mem_append] at h
    rw [substituteItems, fillItems, substitute_eq_fill item h.1, substituteItems_eq_fill rest h.2]
    rfl

theorem substituteEntries_eq_fill : (entries : List (String × AttributeValue)) →
    (∀ r ∈ entryReferences entries, g r = some (f r)) →
    substituteEntries g entries = some (fillEntries f entries)
  | [], _ => by rw [substituteEntries, fillEntries]
  | (name, value) :: rest, h => by
    rw [entryReferences, List.forall_mem_append] at h
    rw [substituteEntries, fillEntries, substitute_eq_fill value h.1,
      substituteEntries_eq_fill rest h.2]
    rfl

end

/-- Substitution comes to a value if it has one for each reference inside, and puts these in their
places. -/
theorem substitute_eq_some_iff {value : AttributeValue} {known : Json} :
    value.substitute g = some known ↔
      ∃ f, (∀ r ∈ value.references, g r = some (f r)) ∧ value.fill f = known := by
  constructor
  · intro h
    have hall := (exists_substitute_iff value).1 ⟨known, h⟩
    have hknown : ∀ r ∈ value.references, g r = some ((g r).getD .null) := fun r hr => by
      obtain ⟨a, ha⟩ := hall r hr
      rw [ha, Option.getD_some]
    exact ⟨_, hknown, Option.some.inj ((substitute_eq_fill value hknown).symm.trans h)⟩
  · rintro ⟨f, hknown, rfl⟩
    exact substitute_eq_fill value hknown

mutual

/-- Plain data is what a value comes to if nothing is known of any reference. -/
theorem asLiteral_eq_substitute : (value : AttributeValue) →
    value.asLiteral = value.substitute fun _ => none
  | .literal _ => by rw [asLiteral, substitute]
  | .reference _ => by rw [asLiteral, substitute]
  | .list items => by rw [asLiteral, substitute, itemsAsLiteral_eq_substitute items]
  | .map entries => by rw [asLiteral, substitute, entriesAsLiteral_eq_substitute entries]

theorem itemsAsLiteral_eq_substitute : (items : List AttributeValue) →
    itemsAsLiteral items = substituteItems (fun _ => none) items
  | [] => by rw [itemsAsLiteral, substituteItems]
  | item :: rest => by
    rw [itemsAsLiteral, substituteItems, asLiteral_eq_substitute item,
      itemsAsLiteral_eq_substitute rest]

theorem entriesAsLiteral_eq_substitute : (entries : List (String × AttributeValue)) →
    entriesAsLiteral entries = substituteEntries (fun _ => none) entries
  | [] => by rw [entriesAsLiteral, substituteEntries]
  | (name, value) :: rest => by
    rw [entriesAsLiteral, substituteEntries, asLiteral_eq_substitute value,
      entriesAsLiteral_eq_substitute rest]

end

theorem asLiteral_eq_some_iff {value : AttributeValue} {known : Json} :
    value.asLiteral = some known ↔ value.references = [] ∧ value.fill (fun _ => .null) = known := by
  rw [asLiteral_eq_substitute]
  constructor
  · intro h
    have hnone : value.references = [] :=
      List.eq_nil_iff_forall_not_mem.2 fun r hr =>
        nomatch (exists_substitute_iff value).1 ⟨known, h⟩ r hr
    refine ⟨hnone, ?_⟩
    have hfill := substitute_eq_fill (f := fun _ => .null) (g := fun _ => none) value (by simp [hnone])
    exact Option.some.inj (hfill.symm.trans h)
  · rintro ⟨hnone, rfl⟩
    exact substitute_eq_fill value (by simp [hnone])

/-! ## The first missing reference -/

namespace Resolutions

variable {α : Type} {put : Json → α} {head : Resolution} {tail : Resolutions α}

/-- The reference that nothing brings, of a list. -/
def unresolved? : Resolutions α → Option Reference
  | .unresolved target => some target
  | .resolved _ => none
  | .deferred => none

theorem unresolved?_cons :
    (cons put head tail).unresolved? = head.unresolved?.or tail.unresolved? := by
  cases head <;> cases tail <;> rfl

theorem unresolved?_toResolution {collect : List α → Json} :
    (tail.toResolution collect).unresolved? = tail.unresolved? := by
  cases tail <;> rfl

end Resolutions

mutual

/-- A value is unresolved with the first reference inside that is missing. -/
theorem unresolved?_resolveWith : (value : AttributeValue) →
    (value.resolveWith lookup).unresolved? = value.references.find? fun r => (lookup r).isMissing
  | .literal _ => by rw [resolveWith, references]; rfl
  | .reference target => by
    rw [resolveWith, references]
    cases h : lookup target <;> simp [Resolution.unresolved?, Lookup.isMissing, h]
  | .list items => by
    rw [resolveWith, references, Resolutions.unresolved?_toResolution, unresolved?_resolveItems items]
  | .map entries => by
    rw [resolveWith, references, Resolutions.unresolved?_toResolution,
      unresolved?_resolveEntries entries]

theorem unresolved?_resolveItems : (items : List AttributeValue) →
    (resolveItems lookup items).unresolved? =
      (itemReferences items).find? fun r => (lookup r).isMissing
  | [] => by rw [resolveItems, itemReferences]; rfl
  | item :: rest => by
    rw [resolveItems, itemReferences, Resolutions.unresolved?_cons, unresolved?_resolveWith item,
      unresolved?_resolveItems rest, List.find?_append]

theorem unresolved?_resolveEntries : (entries : List (String × AttributeValue)) →
    (resolveEntries lookup entries).unresolved? =
      (entryReferences entries).find? fun r => (lookup r).isMissing
  | [] => by rw [resolveEntries, entryReferences]; rfl
  | (_, value) :: rest => by
    rw [resolveEntries, entryReferences, Resolutions.unresolved?_cons, unresolved?_resolveWith value,
      unresolved?_resolveEntries rest, List.find?_append]

end

/-- A value is deferred if a reference inside is, and none is missing. -/
theorem resolveWith_eq_deferred_iff {value : AttributeValue} :
    value.resolveWith lookup = .deferred ↔
      (∀ r ∈ value.references, lookup r ≠ .missing) ∧
        ∃ r ∈ value.references, lookup r = .deferred := by
  constructor
  · intro h
    have hfound : ∀ r ∈ value.references, lookup r ≠ .missing := fun r hr hmissing => by
      obtain ⟨target, htarget⟩ := (exists_unresolved_iff value).2 ⟨r, hr, hmissing⟩
      cases h.symm.trans htarget
    refine ⟨hfound, Classical.byContradiction fun hnone => ?_⟩
    -- Otherwise every reference inside is known, and the value resolved.
    have hknown : ∀ r ∈ value.references, ∃ a, (lookup r).known? = some a := fun r hr => by
      cases hlookup : lookup r with
      | known a => exact ⟨a, rfl⟩
      | deferred => exact absurd ⟨r, hr, hlookup⟩ hnone
      | missing => exact absurd hlookup (hfound r hr)
    obtain ⟨known, hsub⟩ := (exists_substitute_iff value).2 hknown
    cases h.symm.trans ((resolveWith_eq_resolved_iff value).2 hsub)
  · rintro ⟨hfound, r, hr, hdeferred⟩
    cases h : value.resolveWith lookup with
    | deferred => rfl
    | unresolved target =>
      obtain ⟨other, hother, hmissing⟩ := (exists_unresolved_iff value).1 ⟨target, h⟩
      exact absurd hmissing (hfound other hother)
    | resolved known =>
      have hsub := (resolveWith_eq_resolved_iff value).1 h
      obtain ⟨a, ha⟩ := (exists_substitute_iff value).1 ⟨known, hsub⟩ r hr
      rw [hdeferred] at ha
      cases ha

/-- A value is resolved if all references inside are known, to itself with their values in place. -/
theorem resolveWith_eq_resolved_iff_fill {value : AttributeValue} {known : Json} :
    value.resolveWith lookup = .resolved known ↔
      ∃ f, (∀ r ∈ value.references, lookup r = .known (f r)) ∧ value.fill f = known := by
  rw [resolveWith_eq_resolved_iff, substitute_eq_some_iff]
  have hknown : ∀ r a, (lookup r).known? = some a ↔ lookup r = .known a := fun r a => by
    cases lookup r <;> simp [Lookup.known?]
  simp only [hknown]

end AttributeValue

/-! ## The first reference without an output -/

namespace OutputTable

variable {t : OutputTable}

theorem exists_resolve_iff {value : AttributeValue} : (∃ known, t.resolve value = .ok known) ↔
    value.references.find? (fun r => (t.get? r).isNone) = none := by
  simp only [resolve_eq_ok_iff]
  rw [AttributeValue.exists_substitute_iff, List.find?_eq_none]
  refine forall₂_congr fun r _ => ?_
  rw [Option.isNone_iff_eq_none, ← ne_eq, Option.ne_none_iff_exists']

mutual

/-- The error is the first reference inside for which no output is recorded. -/
theorem resolve_eq_error_iff : (value : AttributeValue) → {target : Reference} →
    (t.resolve value = .error target ↔
      value.references.find? (fun r => (t.get? r).isNone) = some target)
  | .literal _, _ => by simp [resolve, AttributeValue.references]
  | .reference target, _ => by
    rw [resolve, AttributeValue.references]
    cases h : t.get? target <;> simp [h]
  | .list items, _ => by
    rw [resolve, AttributeValue.references, bind_eq_error_iff, resolveItems_eq_error_iff items]
    simp [pure_ne_error]
  | .map entries, _ => by
    rw [resolve, AttributeValue.references, bind_eq_error_iff, resolveEntries_eq_error_iff entries]
    simp [pure_ne_error]

theorem resolveItems_eq_error_iff : (items : List AttributeValue) → {target : Reference} →
    (t.resolveItems items = .error target ↔
      (AttributeValue.itemReferences items).find? (fun r => (t.get? r).isNone) = some target)
  | [], _ => by simp [resolveItems, AttributeValue.itemReferences]
  | item :: rest, _ => by
    simp only [resolveItems, AttributeValue.itemReferences, bind_eq_error_iff, pure_ne_error,
      and_false, exists_false, or_false, exists_and_right, exists_resolve_iff,
      resolve_eq_error_iff item, resolveItems_eq_error_iff rest, List.find?_append,
      Option.or_eq_some_iff]

theorem resolveEntries_eq_error_iff : (entries : List (String × AttributeValue)) →
    {target : Reference} →
    (t.resolveEntries entries = .error target ↔
      (AttributeValue.entryReferences entries).find? (fun r => (t.get? r).isNone) = some target)
  | [], _ => by simp [resolveEntries, AttributeValue.entryReferences]
  | (_, value) :: rest, _ => by
    simp only [resolveEntries, AttributeValue.entryReferences, bind_eq_error_iff, pure_ne_error,
      and_false, exists_false, or_false, exists_and_right, exists_resolve_iff,
      resolve_eq_error_iff value, resolveEntries_eq_error_iff rest, List.find?_append,
      Option.or_eq_some_iff]

end

theorem resolve_eq_ok_iff_fill {value : AttributeValue} {known : Json} :
    t.resolve value = .ok known ↔
      ∃ f, (∀ r ∈ value.references, t.get? r = some (f r)) ∧ value.fill f = known :=
  (resolve_eq_ok_iff value).trans AttributeValue.substitute_eq_some_iff

end OutputTable

/-! ## Both phases -/

namespace AttributeValue

/-- When a plan is made, a value is unresolved with the first reference inside that is missing; else
it is deferred if a reference inside is; else every reference inside is known, and it is resolved to
itself with their values in place. When a plan is applied, it fails with the first reference inside
for which no output is recorded, and comes to the same else. So both come to one value if what is
recorded is what was known, and without references inside to the value as plain data. -/
theorem substitutions_agree (value : AttributeValue) (lookup : Reference → Lookup)
    (t : OutputTable) :
    (∀ target, value.resolveWith lookup = .unresolved target ↔
      value.references.find? (fun r => (lookup r).isMissing) = some target) ∧
    (value.resolveWith lookup = .deferred ↔
      (∀ r ∈ value.references, lookup r ≠ .missing) ∧ ∃ r ∈ value.references, lookup r = .deferred) ∧
    (∀ known, value.resolveWith lookup = .resolved known ↔
      ∃ f, (∀ r ∈ value.references, lookup r = .known (f r)) ∧ value.fill f = known) ∧
    (∀ target, t.resolve value = .error target ↔
      value.references.find? (fun r => (t.get? r).isNone) = some target) ∧
    (∀ known, t.resolve value = .ok known ↔
      ∃ f, (∀ r ∈ value.references, t.get? r = some (f r)) ∧ value.fill f = known) ∧
    (∀ known, value.resolveWith lookup = .resolved known →
      (∀ r ∈ value.references, ∀ a, lookup r = .known a → t.get? r = some a) →
      t.resolve value = .ok known) ∧
    (value.asLiteral.isSome ↔ value.references = []) ∧
    ∀ known, value.asLiteral = some known →
      value.resolveWith lookup = .resolved known ∧ t.resolve value = .ok known := by
  refine ⟨fun target => ?_, resolveWith_eq_deferred_iff, fun known => resolveWith_eq_resolved_iff_fill,
    fun target => OutputTable.resolve_eq_error_iff value,
    fun known => OutputTable.resolve_eq_ok_iff_fill, fun known hresolved hrecorded => ?_, ?_,
    fun known hliteral => ?_⟩
  · rw [← Resolution.unresolved?_eq_some_iff, unresolved?_resolveWith]
  · obtain ⟨f, hknown, hfill⟩ := resolveWith_eq_resolved_iff_fill.1 hresolved
    exact OutputTable.resolve_eq_ok_iff_fill.2
      ⟨f, fun r hr => hrecorded r hr _ (hknown r hr), hfill⟩
  · simp only [Option.isSome_iff_exists, asLiteral_eq_some_iff]
    exact ⟨fun ⟨_, hnone, _⟩ => hnone, fun hnone => ⟨_, hnone, rfl⟩⟩
  · obtain ⟨hnone, hfill⟩ := asLiteral_eq_some_iff.1 hliteral
    exact ⟨resolveWith_eq_resolved_iff_fill.2 ⟨_, by simp [hnone], hfill⟩,
      OutputTable.resolve_eq_ok_iff_fill.2 ⟨_, by simp [hnone], hfill⟩⟩

/-- A reference to a service and, in a list, one to a network, between plain data. -/
def routed : AttributeValue :=
  .map [("port", .natural 80), ("service", .output "web" "id"),
    ("subnets", .list [.text "fixed", .output "net" "subnet"])]

/-- If the network is missing, that is the error, although the service before it is deferred. If both
outputs are known to be what is recorded in the end, planning and applying come to one value. -/
theorem substitutions_agree_routed :
    (routed.resolveWith fun r => if r.nodeId = "net" then .missing else .deferred) =
        .unresolved ⟨"net", "subnet"⟩ ∧
      ∃ known,
        (routed.resolveWith fun r => .known (.string (if r.nodeId = "net" then "net-1" else "web-1"))) =
          .resolved known ∧
        ((OutputTable.empty.record "web" (.ofList [("id", .string "web-1")])).record "net"
          (.ofList [("subnet", .string "net-1")])).resolve routed = .ok known := by
  let output (r : Reference) : Json := .string (if r.nodeId = "net" then "net-1" else "web-1")
  let t := (OutputTable.empty.record "web" (.ofList [("id", .string "web-1")])).record "net"
    (.ofList [("subnet", .string "net-1")])
  have hrecorded : ∀ r ∈ routed.references, t.get? r = some (output r) := by
    have hreferences : routed.references = [⟨"web", "id"⟩, ⟨"net", "subnet"⟩] := rfl
    rw [hreferences]
    exact List.forall_mem_cons.2 ⟨rfl, List.forall_mem_singleton.2 rfl⟩
  obtain ⟨hunresolved, -⟩ := substitutions_agree routed
    (fun r => if r.nodeId = "net" then .missing else .deferred) t
  obtain ⟨-, -, hresolved, -, -, hsame, -⟩ := substitutions_agree routed (fun r => .known (output r)) t
  have hknown := (hresolved _).2 ⟨output, fun _ _ => rfl, rfl⟩
  refine ⟨(hunresolved _).2 (by decide), _, hknown, hsame _ hknown fun r hr a ha => ?_⟩
  rw [hrecorded r hr, Lookup.known.inj ha]

end AttributeValue

end Converge
