import Converge.Resource.Node
import Mathlib.Data.List.Nodup
import Mathlib.Data.List.Perm.Subperm

/-!
# Look-ups in tables

What a table holds, seen through look-ups: its entries, names and values, and what `ofList`,
`merge` and `filter` do to them.

Main statements: `Table.mem_entries` says that the entries of a table are its look-ups, and
`Table.get?_merge` and `Table.get?_filter` what the operations on whole tables do to one.
-/

namespace Converge

namespace Table

universe u v

variable {α : Type u} {β : Type v}

theorem lookup_eq_some_iff {entries : List (String × α)}
    (h : entries.Pairwise (fun a b => a.1 < b.1)) (name : String) (value : α) :
    entries.lookup name = some value ↔ (name, value) ∈ entries := by
  induction entries with
  | nil => simp
  | cons head rest ih =>
    obtain ⟨first, held⟩ := head
    have hrest := List.pairwise_cons.1 h
    rw [lookup_cons_eq]
    split
    · next heq =>
      subst heq
      have hnot : (name, value) ∉ rest := fun hmem => String.lt_irrefl name (hrest.1 _ hmem)
      simp [hnot, eq_comm]
    · next hne =>
      rw [ih hrest.2]
      simp [hne]

@[simp] theorem mem_entries {t : Table α} {name : String} {value : α} :
    (name, value) ∈ t.entries ↔ t.get? name = some value :=
  (lookup_eq_some_iff t.sorted name value).symm

theorem mem_names {t : Table α} {name : String} :
    name ∈ t.names ↔ ∃ value, t.get? name = some value := by
  constructor
  · intro h
    obtain ⟨⟨first, value⟩, hmem, rfl⟩ := List.mem_map.1 h
    exact ⟨value, mem_entries.1 hmem⟩
  · rintro ⟨value, h⟩
    exact List.mem_map.2 ⟨(name, value), mem_entries.2 h, rfl⟩

theorem mem_values {t : Table α} {value : α} :
    value ∈ t.values ↔ ∃ name, t.get? name = some value := by
  constructor
  · intro h
    obtain ⟨⟨name, held⟩, hmem, rfl⟩ := List.mem_map.1 h
    exact ⟨name, mem_entries.1 hmem⟩
  · rintro ⟨name, h⟩
    exact List.mem_map.2 ⟨(name, value), mem_entries.2 h, rfl⟩

theorem contains_iff {t : Table α} {name : String} :
    t.contains name = true ↔ ∃ value, t.get? name = some value :=
  Option.isSome_iff_exists

theorem contains_eq_false_iff {t : Table α} {name : String} :
    t.contains name = false ↔ t.get? name = none := by
  rw [contains, Option.isSome_eq_false_iff, Option.isNone_iff_eq_none]

theorem isEmpty_iff {t : Table α} : t.isEmpty = true ↔ ∀ name, t.get? name = none := by
  constructor
  · intro h name
    have hnil : t.entries = [] := List.isEmpty_iff.1 h
    rw [get?, hnil]
    rfl
  · intro h
    refine List.isEmpty_iff.2 (List.eq_nil_iff_forall_not_mem.2 ?_)
    rintro ⟨name, value⟩ hmem
    rw [mem_entries, h name] at hmem
    cases hmem

theorem eq_empty_of_isEmpty {t : Table α} (h : t.isEmpty = true) : t = .empty :=
  ext_get? fun name => by rw [isEmpty_iff.1 h, get?_empty]

/-! ## Operations on whole tables -/

theorem get?_foldl_insert (entries : List (String × α)) (t : Table α) (name : String) :
    (entries.foldl (fun t entry => t.insert entry.1 entry.2) t).get? name =
      (entries.reverse.lookup name).or (t.get? name) := by
  induction entries generalizing t with
  | nil => rfl
  | cons head rest ih =>
    obtain ⟨first, value⟩ := head
    rw [List.foldl_cons, ih, get?_insert, List.reverse_cons, List.lookup_append, lookup_cons_eq]
    cases rest.reverse.lookup name with
    | none => by_cases h : name = first <;> simp [h]
    | some held => simp

/-- Values under different names are stored in either order. -/
theorem insert_comm (t : Table α) {name other : String} (h : name ≠ other) (value held : α) :
    (t.insert name value).insert other held = (t.insert other held).insert name value := by
  refine ext_get? fun id => ?_
  simp only [get?_insert]
  by_cases hname : id = name
  · simp [hname, h]
  · simp [hname]

/-- In which order values are stored under distinct names makes no difference. -/
theorem foldl_insert_perm {ι : Type v} {name : ι → String} {value : ι → α} {xs ys : List ι}
    (hperm : xs.Perm ys) (hnodup : (xs.map name).Nodup) (t : Table α) :
    xs.foldl (fun t x => t.insert (name x) (value x)) t =
      ys.foldl (fun t x => t.insert (name x) (value x)) t := by
  refine hperm.foldl_eq' (fun x hx y hy t => ?_) t
  by_cases heq : name x = name y
  · rw [List.inj_on_of_nodup_map hnodup hx hy heq]
  · exact insert_comm t heq _ _

theorem lookup_reverse {entries : List (String × α)} (h : (entries.map (·.1)).Nodup)
    (name : String) : entries.reverse.lookup name = entries.lookup name := by
  induction entries with
  | nil => rfl
  | cons head rest ih =>
    obtain ⟨first, value⟩ := head
    have hrest := List.nodup_cons.1 h
    rw [List.reverse_cons, List.lookup_append, ih hrest.2, lookup_cons_eq, lookup_cons_eq]
    split
    · next heq =>
      subst heq
      have hnone : rest.lookup name = none := by
        rw [List.lookup_eq_none_iff]
        intro entry hmem
        exact bne_iff_ne.2 fun heq => hrest.1 (List.mem_map.2 ⟨entry, hmem, heq.symm⟩)
      simp [hnone]
    · simp

theorem lookup_of_mem {entries : List (String × α)} (h : (entries.map (·.1)).Nodup) {name : String}
    {value : α} (hmem : (name, value) ∈ entries) : entries.lookup name = some value := by
  induction entries with
  | nil => cases hmem
  | cons head rest ih =>
    obtain ⟨first, held⟩ := head
    obtain ⟨hnew, hrest⟩ := List.nodup_cons.1 h
    rw [lookup_cons_eq]
    rcases List.mem_cons.1 hmem with heq | hlater
    · obtain ⟨rfl, rfl⟩ := Prod.mk.inj heq
      exact if_pos rfl
    · have hne : name ≠ first := fun heq =>
        hnew (heq ▸ List.mem_map.2 ⟨(name, value), hlater, rfl⟩)
      rw [if_neg hne, ih hrest hlater]

theorem get?_ofList {entries : List (String × α)} (h : (entries.map (·.1)).Nodup) {name : String}
    {value : α} (hmem : (name, value) ∈ entries) : (ofList entries).get? name = some value := by
  rw [ofList, get?_foldl_insert, lookup_reverse h, lookup_of_mem h hmem]
  rfl

/-- What a table made of a list holds stands in the list. -/
theorem mem_of_get?_ofList {entries : List (String × α)} {name : String} {value : α}
    (h : (ofList entries).get? name = some value) : (name, value) ∈ entries := by
  rw [ofList, get?_foldl_insert, get?_empty, Option.or_none] at h
  obtain ⟨before, after, heq, -⟩ := List.lookup_eq_some_iff.1 h
  exact List.mem_reverse.1 (heq ▸ by simp)

/-- What holds of all listed values holds of those that a table keeps of them. -/
theorem forall_mem_values_ofList {P : α → Prop} {entries : List (String × α)}
    (h : ∀ entry ∈ entries, P entry.2) : ∀ value ∈ (ofList entries).values, P value := by
  intro value hvalue
  obtain ⟨name, hname⟩ := mem_values.1 hvalue
  exact h _ (mem_of_get?_ofList hname)

theorem isEmpty_ofList_cons (entry : String × α) (entries : List (String × α)) :
    (ofList (entry :: entries)).isEmpty = false := by
  refine Bool.eq_false_iff.2 fun hempty => ?_
  have hnone := isEmpty_iff.1 hempty entry.1
  rw [ofList, get?_foldl_insert, get?_empty, Option.or_none, List.lookup_eq_none_iff] at hnone
  simpa using hnone entry (by simp)

theorem nodup_names (t : Table α) : (t.entries.map (·.1)).Nodup := by
  refine List.pairwise_map.2 (t.sorted.imp fun h heq => ?_)
  exact String.lt_irrefl _ (heq ▸ h)

/-- A table is made of its own entries. -/
@[simp] theorem ofList_entries (t : Table α) : ofList t.entries = t := by
  refine ext_get? fun name => ?_
  rw [ofList, get?_foldl_insert, lookup_reverse (nodup_names t), get?_empty, Option.or_none]
  rfl

/-- A table has no more entries than a list that has all of its names. -/
theorem size_le_length {t : Table α} {names : List String} (h : t.names ⊆ names) :
    t.size ≤ names.length := by
  have := ((nodup_names t).subperm h).length_le
  rwa [List.length_map] at this

/-- A table that has all names of another, and one more, has more entries. -/
theorem size_lt {t : Table α} {t' : Table β} {name : String} (h : t.names ⊆ t'.names)
    (hnew : name ∈ t'.names) (hnot : name ∉ t.names) : t.size < t'.size := by
  have hnodup : (name :: t.names).Nodup := List.nodup_cons.2 ⟨hnot, nodup_names t⟩
  have hsub : name :: t.names ⊆ t'.names := List.cons_subset.2 ⟨hnew, h⟩
  have := (hnodup.subperm hsub).length_le
  rw [List.length_cons, names, names, List.length_map, List.length_map] at this
  exact this

/-- Under a new name a table grows. -/
theorem size_lt_insert {t : Table α} {name : String} (h : t.contains name = false) (value : α) :
    t.size < (t.insert name value).size := by
  have hnames : ∀ {other}, other ∈ (t.insert name value).names ↔ other = name ∨ other ∈ t.names := by
    intro other
    rw [mem_names, mem_names, get?_insert]
    by_cases heq : other = name <;> simp [heq]
  refine size_lt (fun other hother => hnames.2 (.inr hother)) (hnames.2 (.inl rfl)) fun hmem => ?_
  obtain ⟨held, hheld⟩ := mem_names.1 hmem
  cases hheld.symm.trans (contains_eq_false_iff.1 h)

@[simp] theorem get?_merge (t more : Table α) (name : String) :
    (t.merge more).get? name = (more.get? name).or (t.get? name) := by
  rw [merge, get?_foldl_insert, lookup_reverse (nodup_names more)]
  rfl

@[simp] theorem get?_filter (t : Table α) (keep : String → α → Bool) (name : String) :
    (t.filter keep).get? name = (t.get? name).filter (keep name) := by
  ext value
  rw [← mem_entries, Option.filter_eq_some_iff, ← mem_entries]
  exact List.mem_filter

end Table

/-- Sorting a list of names keeps the names. -/
@[simp] theorem mem_sortedNames {names : List String} {name : String} :
    name ∈ sortedNames names ↔ name ∈ names := by
  rw [sortedNames, Table.mem_names]
  simp only [Table.ofList, Table.get?_foldl_insert, Table.get?_empty, Option.or_none]
  rw [← Option.isSome_iff_exists, List.lookup_isSome_iff]
  simp

end Converge
