import Converge.Plan.Substitution
import Converge.Proofs.Agreement
import Converge.Proofs.Except

/-!
# What substitution depends on

The value that a substitution comes to is determined by the values of the references inside. Both
substitutions, the one that makes plans and the one that applies them, are this one as far as they
come to a value.

Main statements: `AttributeValue.resolveWith_eq_resolved_iff` and `OutputTable.resolve_eq_ok_iff`
bring both to `AttributeValue.substitute`, and `AttributeValue.agrees_of_substitute` says that
references with agreeing values make agreeing values.
-/

namespace Converge

/-- The value of a reference, if it is known. -/
def Lookup.known? : Lookup → Option Json
  | .known value => some value
  | .deferred => none
  | .missing => none

namespace AttributeValue

mutual

/-- Substitutes the values of all references, if they all have one. -/
def substitute (f : Reference → Option Json) : AttributeValue → Option Json
  | .literal value => some value
  | .reference target => f target
  | .list items => (substituteItems f items).map .array
  | .map entries => (substituteEntries f entries).map .object

def substituteItems (f : Reference → Option Json) : List AttributeValue → Option (List Json)
  | [] => some []
  | item :: rest => do return (← substitute f item) :: (← substituteItems f rest)

def substituteEntries (f : Reference → Option Json) :
    List (String × AttributeValue) → Option (List (String × Json))
  | [] => some []
  | (name, value) :: rest => do
    return (name, ← substitute f value) :: (← substituteEntries f rest)

end

variable {f g : Reference → Option Json} {lookup : Reference → Lookup}

theorem substituteItems_cons_eq_some_iff {item : AttributeValue} {rest : List AttributeValue}
    {values : List Json} :
    substituteItems f (item :: rest) = some values ↔
      ∃ v vs, item.substitute f = some v ∧ substituteItems f rest = some vs ∧ v :: vs = values := by
  simp [substituteItems, Option.bind_eq_some_iff]

theorem substituteEntries_cons_eq_some_iff {name : String} {value : AttributeValue}
    {rest : List (String × AttributeValue)} {values : List (String × Json)} :
    substituteEntries f ((name, value) :: rest) = some values ↔
      ∃ v vs, value.substitute f = some v ∧ substituteEntries f rest = some vs ∧
        (name, v) :: vs = values := by
  simp [substituteEntries, Option.bind_eq_some_iff]

/-! ## References with other values -/

mutual

/-- Agreeing values of the references inside make agreeing values. -/
theorem agrees_of_substitute : (value : AttributeValue) → {a b : Json} →
    (∀ r ∈ value.references, ∀ x y, f r = some x → g r = some y → x.agrees y = true) →
    value.substitute f = some a → value.substitute g = some b → a.agrees b = true
  | .literal _, _, _, _, ha, hb => by
    obtain rfl := Option.some.inj ha
    obtain rfl := Option.some.inj hb
    exact Json.agrees_refl _
  | .reference target, _, _, h, ha, hb => h target (by simp [references]) _ _ ha hb
  | .list items, _, _, h, ha, hb => by
    obtain ⟨as, has, rfl⟩ := Option.map_eq_some_iff.1 ha
    obtain ⟨bs, hbs, rfl⟩ := Option.map_eq_some_iff.1 hb
    rw [Json.agrees]
    exact agrees_of_substituteItems items (by simpa only [references] using h) has hbs
  | .map entries, _, _, h, ha, hb => by
    obtain ⟨as, has, rfl⟩ := Option.map_eq_some_iff.1 ha
    obtain ⟨bs, hbs, rfl⟩ := Option.map_eq_some_iff.1 hb
    rw [Json.agrees]
    exact agrees_of_substituteEntries entries (by simpa only [references] using h) has hbs

theorem agrees_of_substituteItems : (items : List AttributeValue) → {as bs : List Json} →
    (∀ r ∈ itemReferences items, ∀ x y, f r = some x → g r = some y → x.agrees y = true) →
    substituteItems f items = some as → substituteItems g items = some bs →
    Json.itemsAgree as bs = true
  | [], _, _, _, ha, hb => by
    obtain rfl := Option.some.inj ha
    obtain rfl := Option.some.inj hb
    rfl
  | item :: rest, _, _, h, ha, hb => by
    obtain ⟨a, as, hitem, has, rfl⟩ := substituteItems_cons_eq_some_iff.1 ha
    obtain ⟨b, bs, hitem', hbs, rfl⟩ := substituteItems_cons_eq_some_iff.1 hb
    simp only [itemReferences, List.mem_append] at h
    rw [Json.itemsAgree, Bool.and_eq_true]
    exact ⟨agrees_of_substitute item (fun r hr => h r (.inl hr)) hitem hitem',
      agrees_of_substituteItems rest (fun r hr => h r (.inr hr)) has hbs⟩

theorem agrees_of_substituteEntries : (entries : List (String × AttributeValue)) →
    {as bs : List (String × Json)} →
    (∀ r ∈ entryReferences entries, ∀ x y, f r = some x → g r = some y → x.agrees y = true) →
    substituteEntries f entries = some as → substituteEntries g entries = some bs →
    Json.fieldsAgree as bs = true
  | [], _, _, _, ha, hb => by
    obtain rfl := Option.some.inj ha
    obtain rfl := Option.some.inj hb
    rfl
  | (name, value) :: rest, _, _, h, ha, hb => by
    obtain ⟨a, as, hvalue, has, rfl⟩ := substituteEntries_cons_eq_some_iff.1 ha
    obtain ⟨b, bs, hvalue', hbs, rfl⟩ := substituteEntries_cons_eq_some_iff.1 hb
    simp only [entryReferences, List.mem_append] at h
    rw [Json.fieldsAgree, Bool.and_eq_true, Bool.and_eq_true]
    exact ⟨⟨beq_self_eq_true _,
        agrees_of_substitute value (fun r hr => h r (.inl hr)) hvalue hvalue'⟩,
      agrees_of_substituteEntries rest (fun r hr => h r (.inr hr)) has hbs⟩

end

mutual

theorem substitute_congr : (value : AttributeValue) → (∀ r ∈ value.references, f r = g r) →
    value.substitute f = value.substitute g
  | .literal _, _ => rfl
  | .reference target, h => h target (by simp [references])
  | .list items, h => by
    rw [substitute, substitute, substituteItems_congr items (by simpa only [references] using h)]
  | .map entries, h => by
    rw [substitute, substitute,
      substituteEntries_congr entries (by simpa only [references] using h)]

theorem substituteItems_congr : (items : List AttributeValue) →
    (∀ r ∈ itemReferences items, f r = g r) → substituteItems f items = substituteItems g items
  | [], _ => rfl
  | item :: rest, h => by
    simp only [itemReferences, List.mem_append] at h
    rw [substituteItems, substituteItems, substitute_congr item fun r hr => h r (.inl hr),
      substituteItems_congr rest fun r hr => h r (.inr hr)]

theorem substituteEntries_congr : (entries : List (String × AttributeValue)) →
    (∀ r ∈ entryReferences entries, f r = g r) →
    substituteEntries f entries = substituteEntries g entries
  | [], _ => rfl
  | (name, value) :: rest, h => by
    simp only [entryReferences, List.mem_append] at h
    rw [substituteEntries, substituteEntries, substitute_congr value fun r hr => h r (.inl hr),
      substituteEntries_congr rest fun r hr => h r (.inr hr)]

end

mutual

theorem exists_substitute_iff : (value : AttributeValue) →
    ((∃ a, value.substitute f = some a) ↔ ∀ r ∈ value.references, ∃ a, f r = some a)
  | .literal _ => by simp [substitute, references]
  | .reference _ => by simp [substitute, references]
  | .list items => by
    rw [references, ← exists_substituteItems_iff items, substitute]
    simp only [Option.map_eq_some_iff]
    exact ⟨fun ⟨_, as, h, _⟩ => ⟨as, h⟩, fun ⟨as, h⟩ => ⟨.array as, as, h, rfl⟩⟩
  | .map entries => by
    rw [references, ← exists_substituteEntries_iff entries, substitute]
    simp only [Option.map_eq_some_iff]
    exact ⟨fun ⟨_, as, h, _⟩ => ⟨as, h⟩, fun ⟨as, h⟩ => ⟨.object as, as, h, rfl⟩⟩

theorem exists_substituteItems_iff : (items : List AttributeValue) →
    ((∃ as, substituteItems f items = some as) ↔ ∀ r ∈ itemReferences items, ∃ a, f r = some a)
  | [] => by simp [substituteItems, itemReferences]
  | item :: rest => by
    simp only [substituteItems_cons_eq_some_iff, itemReferences, List.forall_mem_append,
      ← exists_substitute_iff item, ← exists_substituteItems_iff rest]
    grind

theorem exists_substituteEntries_iff : (entries : List (String × AttributeValue)) →
    ((∃ as, substituteEntries f entries = some as) ↔
      ∀ r ∈ entryReferences entries, ∃ a, f r = some a)
  | [] => by simp [substituteEntries, entryReferences]
  | (name, value) :: rest => by
    simp only [substituteEntries_cons_eq_some_iff, entryReferences, List.forall_mem_append,
      ← exists_substitute_iff value, ← exists_substituteEntries_iff rest]
    grind

end

/-! ## The substitution that makes plans -/

namespace Resolutions

variable {α : Type} {put : Json → α} {head : Resolution} {tail : Resolutions α}

theorem cons_eq_resolved_iff {values : List α} :
    cons put head tail = .resolved values ↔
      ∃ v vs, head = .resolved v ∧ tail = .resolved vs ∧ put v :: vs = values := by
  cases head <;> cases tail <;> simp [cons]

theorem exists_cons_eq_unresolved_iff :
    (∃ target, cons put head tail = .unresolved target) ↔
      (∃ target, head = .unresolved target) ∨ ∃ target, tail = .unresolved target := by
  cases head <;> cases tail <;> simp [cons]

theorem toResolution_eq_resolved_iff {collect : List α → Json} {items : Resolutions α}
    {value : Json} :
    items.toResolution collect = .resolved value ↔
      ∃ values, items = .resolved values ∧ collect values = value := by
  cases items <;> simp [toResolution]

theorem exists_toResolution_eq_unresolved_iff {collect : List α → Json} {items : Resolutions α} :
    (∃ target, items.toResolution collect = .unresolved target) ↔
      ∃ target, items = .unresolved target := by
  cases items <;> simp [toResolution]

end Resolutions

mutual

/-- A value is resolved if all references inside are known, to what they make of it. -/
theorem resolveWith_eq_resolved_iff : (value : AttributeValue) → {known : Json} →
    (value.resolveWith lookup = .resolved known ↔
      value.substitute (fun r => (lookup r).known?) = some known)
  | .literal _, _ => by simp [resolveWith, substitute]
  | .reference target, _ => by
    rw [resolveWith, substitute]
    cases lookup target <;> simp [Lookup.known?]
  | .list items, _ => by
    simp [resolveWith, substitute, Resolutions.toResolution_eq_resolved_iff,
      resolveItems_eq_resolved_iff items]
  | .map entries, _ => by
    simp [resolveWith, substitute, Resolutions.toResolution_eq_resolved_iff,
      resolveEntries_eq_resolved_iff entries]

theorem resolveItems_eq_resolved_iff : (items : List AttributeValue) → {known : List Json} →
    (resolveItems lookup items = .resolved known ↔
      substituteItems (fun r => (lookup r).known?) items = some known)
  | [], _ => by simp [resolveItems, substituteItems]
  | item :: rest, _ => by
    simp [resolveItems, Resolutions.cons_eq_resolved_iff, substituteItems_cons_eq_some_iff,
      resolveWith_eq_resolved_iff item, resolveItems_eq_resolved_iff rest]

theorem resolveEntries_eq_resolved_iff : (entries : List (String × AttributeValue)) →
    {known : List (String × Json)} →
    (resolveEntries lookup entries = .resolved known ↔
      substituteEntries (fun r => (lookup r).known?) entries = some known)
  | [], _ => by simp [resolveEntries, substituteEntries]
  | (_, value) :: rest, _ => by
    simp [resolveEntries, Resolutions.cons_eq_resolved_iff, substituteEntries_cons_eq_some_iff,
      resolveWith_eq_resolved_iff value, resolveEntries_eq_resolved_iff rest]

end

mutual

/-- A value is unresolved if a reference inside is missing. -/
theorem exists_unresolved_iff : (value : AttributeValue) →
    ((∃ target, value.resolveWith lookup = .unresolved target) ↔
      ∃ r ∈ value.references, lookup r = .missing)
  | .literal _ => by simp [resolveWith, references]
  | .reference target => by
    rw [resolveWith]
    cases h : lookup target <;> simp [references, h]
  | .list items => by
    rw [resolveWith, references, Resolutions.exists_toResolution_eq_unresolved_iff]
    exact exists_unresolvedItems_iff items
  | .map entries => by
    rw [resolveWith, references, Resolutions.exists_toResolution_eq_unresolved_iff]
    exact exists_unresolvedEntries_iff entries

theorem exists_unresolvedItems_iff : (items : List AttributeValue) →
    ((∃ target, resolveItems lookup items = .unresolved target) ↔
      ∃ r ∈ itemReferences items, lookup r = .missing)
  | [] => by simp [resolveItems, itemReferences]
  | item :: rest => by
    rw [resolveItems, Resolutions.exists_cons_eq_unresolved_iff, exists_unresolved_iff item,
      exists_unresolvedItems_iff rest]
    simp [itemReferences, or_and_right, exists_or]

theorem exists_unresolvedEntries_iff : (entries : List (String × AttributeValue)) →
    ((∃ target, resolveEntries lookup entries = .unresolved target) ↔
      ∃ r ∈ entryReferences entries, lookup r = .missing)
  | [] => by simp [resolveEntries, entryReferences]
  | (_, value) :: rest => by
    rw [resolveEntries, Resolutions.exists_cons_eq_unresolved_iff, exists_unresolved_iff value,
      exists_unresolvedEntries_iff rest]
    simp [entryReferences, or_and_right, exists_or]

end

/-- If less is known of some references and none is missing, a value stays as it was or is
deferred. -/
theorem resolveWith_fades {later : Reference → Lookup} {value : AttributeValue}
    (h : ∀ r ∈ value.references, later r = lookup r ∨ later r = .deferred)
    (hfound : ∀ r ∈ value.references, lookup r ≠ .missing) :
    value.resolveWith later = value.resolveWith lookup ∨
      value.resolveWith later = .deferred := by
  cases hlater : value.resolveWith later with
  | deferred => exact .inr rfl
  | unresolved target =>
    obtain ⟨r, hr, hmissing⟩ := (exists_unresolved_iff value).1 ⟨target, hlater⟩
    rcases h r hr with heq | heq
    · exact absurd (heq ▸ hmissing) (hfound r hr)
    · rw [hmissing] at heq
      cases heq
  | resolved known =>
    refine .inl (Eq.symm ?_)
    have hsub := (resolveWith_eq_resolved_iff value).1 hlater
    -- All references are known later, so that less is known of none.
    have hknown := (exists_substitute_iff value).1 ⟨known, hsub⟩
    rw [resolveWith_eq_resolved_iff, ← hsub]
    refine substitute_congr value fun r hr => ?_
    rcases h r hr with heq | heq
    · rw [heq]
    · obtain ⟨a, ha⟩ := hknown r hr
      rw [heq] at ha
      cases ha

theorem resolveWith_congr {other : Reference → Lookup} (value : AttributeValue)
    (h : ∀ r ∈ value.references, other r = lookup r)
    (hfound : ∀ r ∈ value.references, lookup r ≠ .missing) :
    value.resolveWith other = value.resolveWith lookup := by
  rcases resolveWith_fades (fun r hr => .inl (h r hr)) hfound with heq | heq
  · exact heq
  · rcases resolveWith_fades (fun r hr => .inl (h r hr).symm) (fun r hr => h r hr ▸ hfound r hr)
      with heq' | heq'
    · exact heq'.symm
    · exact heq.trans heq'.symm

end AttributeValue

/-! ## The substitution that applies plans -/

namespace OutputTable

variable {t t' : OutputTable}

mutual

/-- A value is resolved to what the recorded outputs make of it. -/
theorem resolve_eq_ok_iff : (value : AttributeValue) → {known : Json} →
    (t.resolve value = .ok known ↔ value.substitute t.get? = some known)
  | .literal _, _ => by simp [resolve, AttributeValue.substitute]
  | .reference target, _ => by
    rw [resolve, AttributeValue.substitute]
    cases t.get? target <;> simp
  | .list items, _ => by
    simp [resolve, AttributeValue.substitute, map_eq_ok_iff, resolveItems_eq_ok_iff items]
  | .map entries, _ => by
    simp [resolve, AttributeValue.substitute, map_eq_ok_iff, resolveEntries_eq_ok_iff entries]

theorem resolveItems_eq_ok_iff : (items : List AttributeValue) → {known : List Json} →
    (t.resolveItems items = .ok known ↔ AttributeValue.substituteItems t.get? items = some known)
  | [], _ => by simp [resolveItems, AttributeValue.substituteItems]
  | item :: rest, _ => by
    simp [resolveItems, bind_eq_ok_iff, map_eq_ok_iff,
      AttributeValue.substituteItems_cons_eq_some_iff, resolve_eq_ok_iff item,
      resolveItems_eq_ok_iff rest]

theorem resolveEntries_eq_ok_iff : (entries : List (String × AttributeValue)) →
    {known : List (String × Json)} →
    (t.resolveEntries entries = .ok known ↔
      AttributeValue.substituteEntries t.get? entries = some known)
  | [], _ => by simp [resolveEntries, AttributeValue.substituteEntries]
  | (_, value) :: rest, _ => by
    simp [resolveEntries, bind_eq_ok_iff, map_eq_ok_iff,
      AttributeValue.substituteEntries_cons_eq_some_iff, resolve_eq_ok_iff value,
      resolveEntries_eq_ok_iff rest]

end

mutual

/-- The error names a reference inside for which no output is recorded. -/
theorem of_resolve_eq_error : (value : AttributeValue) → {target : Reference} →
    t.resolve value = .error target → target ∈ value.references ∧ t.get? target = none
  | .literal _, _, h => by simp [resolve] at h
  | .reference target, _, h => by
    rw [resolve] at h
    split at h
    · cases h
    · next hnone =>
      obtain rfl := Except.error.inj h
      exact ⟨by simp [AttributeValue.references], hnone⟩
  | .list items, _, h => by
    simp only [resolve, bind_eq_error_iff, pure_ne_error, and_false, exists_false, or_false] at h
    exact of_resolveItems_eq_error items h
  | .map entries, _, h => by
    simp only [resolve, bind_eq_error_iff, pure_ne_error, and_false, exists_false, or_false] at h
    exact of_resolveEntries_eq_error entries h

theorem of_resolveItems_eq_error : (items : List AttributeValue) → {target : Reference} →
    t.resolveItems items = .error target →
      target ∈ AttributeValue.itemReferences items ∧ t.get? target = none
  | [], _, h => by simp [resolveItems] at h
  | item :: rest, target, h => by
    simp only [resolveItems, bind_eq_error_iff, pure_ne_error, and_false, exists_false,
      or_false] at h
    rw [AttributeValue.itemReferences, List.mem_append]
    rcases h with h | ⟨_, -, h⟩
    · exact (of_resolve_eq_error item h).imp_left .inl
    · exact (of_resolveItems_eq_error rest h).imp_left .inr

theorem of_resolveEntries_eq_error : (entries : List (String × AttributeValue)) →
    {target : Reference} → t.resolveEntries entries = .error target →
      target ∈ AttributeValue.entryReferences entries ∧ t.get? target = none
  | [], _, h => by simp [resolveEntries] at h
  | (_, value) :: rest, target, h => by
    simp only [resolveEntries, bind_eq_error_iff, pure_ne_error, and_false, exists_false,
      or_false] at h
    rw [AttributeValue.entryReferences, List.mem_append]
    rcases h with h | ⟨_, -, h⟩
    · exact (of_resolve_eq_error value h).imp_left .inl
    · exact (of_resolveEntries_eq_error rest h).imp_left .inr

end

mutual

/-- Tables that agree on the references inside resolve a value alike, to the same error if any. -/
theorem resolve_congr : (value : AttributeValue) →
    (∀ r ∈ value.references, t.get? r = t'.get? r) → t.resolve value = t'.resolve value
  | .literal _, _ => by simp [resolve]
  | .reference target, h => by
    rw [resolve, resolve, h target (by simp [AttributeValue.references])]
  | .list items, h => by
    rw [resolve, resolve, resolveItems_congr items (by simpa only [AttributeValue.references] using h)]
  | .map entries, h => by
    rw [resolve, resolve,
      resolveEntries_congr entries (by simpa only [AttributeValue.references] using h)]

theorem resolveItems_congr : (items : List AttributeValue) →
    (∀ r ∈ AttributeValue.itemReferences items, t.get? r = t'.get? r) →
    t.resolveItems items = t'.resolveItems items
  | [], _ => by simp [resolveItems]
  | item :: rest, h => by
    simp only [AttributeValue.itemReferences, List.mem_append] at h
    rw [resolveItems, resolveItems, resolve_congr item fun r hr => h r (.inl hr),
      resolveItems_congr rest fun r hr => h r (.inr hr)]

theorem resolveEntries_congr : (entries : List (String × AttributeValue)) →
    (∀ r ∈ AttributeValue.entryReferences entries, t.get? r = t'.get? r) →
    t.resolveEntries entries = t'.resolveEntries entries
  | [], _ => by simp [resolveEntries]
  | (_, value) :: rest, h => by
    simp only [AttributeValue.entryReferences, List.mem_append] at h
    rw [resolveEntries, resolveEntries, resolve_congr value fun r hr => h r (.inl hr),
      resolveEntries_congr rest fun r hr => h r (.inr hr)]

end

end OutputTable

end Converge
