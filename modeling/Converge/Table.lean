/-!
# Tables by name

A `Table α` holds at most one value per name and lists its entries in increasing order of the
names. The order is part of the type, so two tables with the same entries are equal, and every
text written from a table is determined by what it holds.

Main statements: `Table.get?_insert` and `Table.get?_erase` say what the operations do to a
look-up, and `Table.ext_get?` that the look-ups determine the table.
-/

namespace Converge

universe u v

/-- A finite map from names to values, with its entries sorted by name. -/
structure Table (α : Type u) where
  entries : List (String × α)
  sorted : entries.Pairwise (fun a b => a.1 < b.1)
deriving DecidableEq

namespace Table

variable {α : Type u} {β : Type v}

/-- The table without entries. -/
def empty : Table α := ⟨[], .nil⟩

instance : EmptyCollection (Table α) := ⟨empty⟩

instance : Inhabited (Table α) := ⟨empty⟩

/-- The value stored under `name`. -/
def get? (t : Table α) (name : String) : Option α := t.entries.lookup name

/-- Whether a value is stored under `name`. -/
def contains (t : Table α) (name : String) : Bool := (t.get? name).isSome

/-- The names, in increasing order. -/
def names (t : Table α) : List String := t.entries.map (·.1)

/-- The values, in the order of their names. -/
def values (t : Table α) : List α := t.entries.map (·.2)

/-- Number of entries. -/
def size (t : Table α) : Nat := t.entries.length

/-- Whether the table has no entries. -/
def isEmpty (t : Table α) : Bool := t.entries.isEmpty

/-! ## Insertion -/

/-- Puts an entry at its place in a sorted list, replacing one of the same name. -/
def insertEntry (name : String) (value : α) : List (String × α) → List (String × α)
  | [] => [(name, value)]
  | (other, held) :: rest =>
    if name < other then (name, value) :: (other, held) :: rest
    else if name = other then (name, value) :: rest
    else (other, held) :: insertEntry name value rest

theorem mem_insertEntry {name : String} {value : α} {entry : String × α}
    {entries : List (String × α)} (h : entry ∈ insertEntry name value entries) :
    entry = (name, value) ∨ entry ∈ entries := by
  induction entries with
  | nil => simpa [insertEntry] using h
  | cons head rest ih =>
    obtain ⟨other, held⟩ := head
    rw [insertEntry] at h
    split at h
    · simpa using h
    · split at h <;> grind

theorem lt_of_not_lt_of_ne {a b : String} (h : ¬ a < b) (hne : a ≠ b) : b < a := by
  have := Std.lt_trichotomy a b
  grind

theorem pairwise_insertEntry (name : String) (value : α) {entries : List (String × α)}
    (h : entries.Pairwise (fun a b => a.1 < b.1)) :
    (insertEntry name value entries).Pairwise (fun a b => a.1 < b.1) := by
  induction entries with
  | nil => simp [insertEntry]
  | cons head rest ih =>
    obtain ⟨other, held⟩ := head
    have hrest := List.pairwise_cons.1 h
    rw [insertEntry]
    split
    · next hlt =>
      refine List.pairwise_cons.2 ⟨?_, h⟩
      intro entry hentry
      rcases List.mem_cons.1 hentry with rfl | hentry
      · exact hlt
      · exact String.lt_trans hlt (hrest.1 entry hentry)
    · next hlt =>
      split
      · next heq =>
        subst heq
        exact List.pairwise_cons.2 ⟨hrest.1, hrest.2⟩
      · next hne =>
        refine List.pairwise_cons.2 ⟨?_, ih hrest.2⟩
        intro entry hentry
        rcases mem_insertEntry hentry with rfl | hentry
        · exact lt_of_not_lt_of_ne hlt hne
        · exact hrest.1 entry hentry

/-- Stores `value` under `name`, replacing what was there. -/
def insert (t : Table α) (name : String) (value : α) : Table α :=
  ⟨insertEntry name value t.entries, pairwise_insertEntry name value t.sorted⟩

/-- Removes what is stored under `name`. -/
def erase (t : Table α) (name : String) : Table α :=
  ⟨t.entries.filter (fun entry => entry.1 != name), t.sorted.filter _⟩

/-- The entries that satisfy `keep`. -/
def filter (t : Table α) (keep : String → α → Bool) : Table α :=
  ⟨t.entries.filter (fun entry => keep entry.1 entry.2), t.sorted.filter _⟩

/-- Changes every value and keeps the names. -/
def map (f : α → β) (t : Table α) : Table β :=
  ⟨t.entries.map (fun entry => (entry.1, f entry.2)), List.pairwise_map.2 t.sorted⟩

/-- Stores a list of entries one after the other: of two with one name the later stays. -/
def ofList (entries : List (String × α)) : Table α :=
  entries.foldl (fun t entry => t.insert entry.1 entry.2) empty

/-- Stores every entry of `more`, which win over those of `t`. -/
def merge (t more : Table α) : Table α :=
  more.entries.foldl (fun t entry => t.insert entry.1 entry.2) t

/-! ## Look-ups -/

theorem lookup_cons_eq (name first : String) (value : α) (rest : List (String × α)) :
    ((first, value) :: rest).lookup name = if name = first then some value else rest.lookup name := by
  rw [List.lookup_cons]
  by_cases h : name = first
  · simp [h]
  · simp [h, beq_eq_false_iff_ne.2 h]

theorem lookup_insertEntry (name other : String) (value : α) (entries : List (String × α)) :
    (insertEntry name value entries).lookup other =
      if other = name then some value else entries.lookup other := by
  induction entries with
  | nil => simp [insertEntry, lookup_cons_eq]
  | cons head rest ih =>
    obtain ⟨first, held⟩ := head
    rw [insertEntry]
    split
    · rw [lookup_cons_eq]
    · split
      · next heq =>
        subst heq
        rw [lookup_cons_eq, lookup_cons_eq]
        by_cases h : other = name <;> simp [h]
      · next hne =>
        rw [lookup_cons_eq, lookup_cons_eq, ih]
        by_cases h : other = first
        · subst h
          simp [Ne.symm hne]
        · simp [h]

@[simp] theorem get?_empty (name : String) : (empty : Table α).get? name = none := rfl

@[simp] theorem get?_insert (t : Table α) (name other : String) (value : α) :
    (t.insert name value).get? other = if other = name then some value else t.get? other :=
  lookup_insertEntry name other value t.entries

theorem lookup_filter_ne (name other : String) (entries : List (String × α)) :
    (entries.filter (fun entry => entry.1 != name)).lookup other =
      if other = name then none else entries.lookup other := by
  induction entries with
  | nil => simp
  | cons head rest ih =>
    obtain ⟨first, held⟩ := head
    rw [List.filter_cons, lookup_cons_eq]
    by_cases h : first = name
    · subst h
      rw [if_neg (by simp), ih]
      by_cases h' : other = first
      · rw [if_pos h', if_pos h']
      · rw [if_neg h', if_neg h', if_neg h']
    · rw [if_pos (by simpa using h), lookup_cons_eq, ih]
      by_cases h' : other = first
      · rw [if_pos h', if_neg (h' ▸ h), if_pos h']
      · rw [if_neg h', if_neg h']

@[simp] theorem get?_erase (t : Table α) (name other : String) :
    (t.erase name).get? other = if other = name then none else t.get? other :=
  lookup_filter_ne name other t.entries

theorem lookup_map_values (f : α → β) (name : String) (entries : List (String × α)) :
    (entries.map (fun entry => (entry.1, f entry.2))).lookup name = (entries.lookup name).map f := by
  induction entries with
  | nil => rfl
  | cons head rest ih =>
    obtain ⟨first, held⟩ := head
    rw [List.map_cons, lookup_cons_eq, lookup_cons_eq, ih]
    by_cases h : name = first <;> simp [h]

@[simp] theorem get?_map (f : α → β) (t : Table α) (name : String) :
    (t.map f).get? name = (t.get? name).map f :=
  lookup_map_values f name t.entries

/-! ## Extensionality -/

theorem lookup_eq_none_of_lt {name : String} {entries : List (String × α)}
    (h : ∀ entry ∈ entries, name < entry.1) : entries.lookup name = none := by
  induction entries with
  | nil => rfl
  | cons head rest ih =>
    obtain ⟨first, held⟩ := head
    have hlt : name < first := h (first, held) (by simp)
    have hne : name ≠ first := fun heq => String.lt_irrefl first (heq ▸ hlt)
    rw [lookup_cons_eq, if_neg hne]
    exact ih fun entry hentry => h entry (List.mem_cons_of_mem _ hentry)

theorem entries_eq_of_lookup_eq {xs ys : List (String × α)}
    (hx : xs.Pairwise (fun a b => a.1 < b.1)) (hy : ys.Pairwise (fun a b => a.1 < b.1))
    (h : ∀ name, xs.lookup name = ys.lookup name) : xs = ys := by
  induction xs generalizing ys with
  | nil =>
    cases ys with
    | nil => rfl
    | cons head rest =>
      have := h head.1
      rw [show head :: rest = (head.1, head.2) :: rest from rfl, lookup_cons_eq, if_pos rfl] at this
      exact absurd this (by simp)
  | cons x xs ih =>
    obtain ⟨a, v⟩ := x
    have hxs := List.pairwise_cons.1 hx
    cases ys with
    | nil =>
      have := h a
      rw [lookup_cons_eq, if_pos rfl] at this
      exact absurd this (by simp)
    | cons y ys =>
      obtain ⟨b, w⟩ := y
      have hys := List.pairwise_cons.1 hy
      have hab : a = b := by
        rcases Std.lt_trichotomy a b with hlt | heq | hgt
        · have hnone : ((b, w) :: ys).lookup a = none := lookup_eq_none_of_lt (by
            intro entry hentry
            rcases List.mem_cons.1 hentry with rfl | hentry
            · exact hlt
            · exact String.lt_trans hlt (hys.1 entry hentry))
          have := h a
          rw [hnone, lookup_cons_eq] at this
          simp at this
        · exact heq
        · have hnone : ((a, v) :: xs).lookup b = none := lookup_eq_none_of_lt (by
            intro entry hentry
            rcases List.mem_cons.1 hentry with rfl | hentry
            · exact hgt
            · exact String.lt_trans hgt (hxs.1 entry hentry))
          have := h b
          rw [hnone, lookup_cons_eq] at this
          simp at this
      subst hab
      have hvw : v = w := by
        have := h a
        simpa [lookup_cons_eq] using this
      subst hvw
      have hrest : xs = ys := ih hxs.2 hys.2 fun name => by
        by_cases hn : name = a
        · subst hn
          rw [lookup_eq_none_of_lt hxs.1, lookup_eq_none_of_lt hys.1]
        · have := h name
          rw [lookup_cons_eq, lookup_cons_eq] at this
          simpa [hn] using this
      rw [hrest]

/-- Two tables with the same look-ups are equal. -/
theorem ext_get? {s t : Table α} (h : ∀ name, s.get? name = t.get? name) : s = t := by
  obtain ⟨xs, hx⟩ := s
  obtain ⟨ys, hy⟩ := t
  have : xs = ys := entries_eq_of_lookup_eq hx hy h
  subst this
  rfl

end Table

end Converge
