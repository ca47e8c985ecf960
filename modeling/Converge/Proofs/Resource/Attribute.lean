import Converge.Proofs.Json.Decode
import Converge.Proofs.Resource.Reference
import Converge.Resource.Node

/-!
# Parts of resources read back

The kind of a resource and what becomes of it are read from their names. A declared value that has
been read from a document is read again from its own document form. A reference and an object with
one field look alike there, and so do a map and the object that marks a reference: what tells them
apart is kept in `AttributeValue.IsStorable`.

Main statements: `AttributeValue.isStorable_of_ofJson` and
`AttributeValue.IsStorable.ofJson_toJson`.
-/

namespace Converge.AttributeValue

/-! ## Lists by their items, maps by their entries -/

theorem itemsToJson_eq (items : List AttributeValue) : itemsToJson items = items.map toJson := by
  induction items with
  | nil => rfl
  | cons item rest ih => rw [itemsToJson, ih, List.map_cons]

theorem entriesToJson_eq (entries : List (String × AttributeValue)) :
    entriesToJson entries = entries.map fun entry => (entry.1, entry.2.toJson) := by
  induction entries with
  | nil => rfl
  | cons entry rest ih => rw [entriesToJson, ih, List.map_cons]

theorem ofCanonicalItems_eq_ok {items : List Json} {values : List AttributeValue} :
    ofCanonicalItems items = .ok values ↔
      List.Forall₂ (fun item value => ofCanonical item = .ok value) items values := by
  induction items generalizing values with
  | nil =>
    rw [ofCanonicalItems, List.forall₂_nil_left_iff]
    exact ⟨fun h => (Except.ok.inj h).symm, fun h => h ▸ rfl⟩
  | cons item rest ih =>
    rw [ofCanonicalItems, List.forall₂_cons_left_iff, bind_eq_ok_iff]
    simp only [bind_eq_ok_iff, pure_eq_ok_iff, ih]
    grind

theorem ofCanonicalFields_eq_ok {fields : List (String × Json)}
    {entries : List (String × AttributeValue)} :
    ofCanonicalFields fields = .ok entries ↔
      List.Forall₂ (fun field entry => field.1 = entry.1 ∧ ofCanonical field.2 = .ok entry.2)
        fields entries := by
  induction fields generalizing entries with
  | nil =>
    rw [ofCanonicalFields, List.forall₂_nil_left_iff]
    exact ⟨fun h => (Except.ok.inj h).symm, fun h => h ▸ rfl⟩
  | cons field rest ih =>
    rw [ofCanonicalFields, List.forall₂_cons_left_iff, bind_eq_ok_iff]
    simp only [bind_eq_ok_iff, pure_eq_ok_iff, ih]
    constructor
    · rintro ⟨value, hvalue, others, hothers, rfl⟩
      exact ⟨_, _, ⟨rfl, hvalue⟩, hothers, rfl⟩
    · rintro ⟨⟨name, value⟩, others, ⟨rfl, hvalue⟩, hothers, rfl⟩
      exact ⟨value, hvalue, others, hothers, rfl⟩

theorem referenceExpression?_eq_some_iff {fields : List (String × Json)} {expression : String} :
    referenceExpression? fields = some expression ↔
      fields = [(referenceField, .string expression)] := by
  unfold referenceExpression?
  split
  · next name text =>
    by_cases hname : name = referenceField
    · subst hname
      simp
    · simp [hname]
  · next hother =>
    refine ⟨nofun, fun heq => ?_⟩
    exact absurd heq (hother _ _)

theorem exists_of_forall₂ {α β : Type} {R : α → β → Prop} {xs : List α} {ys : List β}
    (h : List.Forall₂ R xs ys) : ∀ y ∈ ys, ∃ x ∈ xs, R x y := by
  induction h with
  | nil => simp
  | cons hfirst _ ih =>
    refine List.forall_mem_cons.2 ⟨⟨_, List.mem_cons_self .., hfirst⟩, fun y hy => ?_⟩
    obtain ⟨x, hx, hR⟩ := ih y hy
    exact ⟨x, List.mem_cons_of_mem _ hx, hR⟩

/-- Names stay sorted beside other data. -/
theorem pairwise_of_names {α β : Type} {xs : List (String × α)} {ys : List (String × β)}
    (h : List.Forall₂ (fun x y => x.1 = y.1) xs ys) (hxs : xs.Pairwise fun a b => a.1 < b.1) :
    ys.Pairwise fun a b => a.1 < b.1 := by
  have hnames : xs.map (·.1) = ys.map (·.1) :=
    List.forall₂_eq_eq_eq ▸ List.forall₂_map_left_iff.2 (List.forall₂_map_right_iff.2 h)
  exact List.pairwise_map.1 (hnames ▸ List.pairwise_map.2 hxs)

/-! ## Storable values -/

/-- Whether a value is as documents give it: finite, with the entries of every map sorted by name,
with references that are read as they are written and no map that looks like one. -/
inductive IsStorable : AttributeValue → Prop
  | null : IsStorable (.literal .null)
  | bool (value : Bool) : IsStorable (.literal (.bool value))
  | number {value : Number} (finite : value.isFinite = true) : IsStorable (.literal (.number value))
  | text (value : String) : IsStorable (.literal (.string value))
  | list {items : List AttributeValue} (all : ∀ item ∈ items, IsStorable item) :
      IsStorable (.list items)
  | map {entries : List (String × AttributeValue)}
      (sorted : entries.Pairwise fun a b => a.1 < b.1)
      (all : ∀ entry ∈ entries, IsStorable entry.2)
      (unmarked : referenceExpression? (entriesToJson entries) = none) : IsStorable (.map entries)
  | reference {target : Reference} (plain : target.IsPlain) : IsStorable (.reference target)

theorem isStorable_natural (n : Nat) : (natural n).IsStorable := .number rfl

namespace IsStorable

variable {a : AttributeValue}

/-- What is written of a storable value is storable. -/
theorem toJson (h : a.IsStorable) : a.toJson.IsStorable := by
  induction h with
  | null => exact .null
  | bool value => exact .bool value
  | number finite => exact .number finite
  | text value => exact .string value
  | @list items all ih =>
    rw [AttributeValue.toJson, itemsToJson_eq]
    exact .array (List.forall_mem_map.2 ih)
  | @map entries sorted all unmarked ih =>
    rw [AttributeValue.toJson, entriesToJson_eq]
    exact .object (List.pairwise_map.2 sorted) (List.forall_mem_map.2 ih)
  | reference plain =>
    exact .object (List.pairwise_singleton ..) (List.forall_mem_singleton.2 (.string _))

/-- A storable value is read from its document form. -/
theorem ofCanonical_toJson (h : a.IsStorable) : ofCanonical a.toJson = .ok a := by
  induction h with
  | null => rfl
  | bool value => rfl
  | number finite => rfl
  | text value => rfl
  | @list items all ih =>
    have hread : ofCanonicalItems (itemsToJson items) = .ok items := by
      rw [ofCanonicalItems_eq_ok, itemsToJson_eq, List.forall₂_map_left_iff]
      exact List.forall₂_same.2 ih
    rw [AttributeValue.toJson, ofCanonical, hread]
    rfl
  | @map entries sorted all unmarked ih =>
    have hread : ofCanonicalFields (entriesToJson entries) = .ok entries := by
      rw [ofCanonicalFields_eq_ok, entriesToJson_eq, List.forall₂_map_left_iff]
      exact List.forall₂_same.2 fun entry hentry => ⟨rfl, ih entry hentry⟩
    rw [AttributeValue.toJson, ofCanonical, unmarked, hread]
    rfl
  | @reference target plain =>
    rw [AttributeValue.toJson, ofCanonical, referenceExpression?_eq_some_iff.2 rfl]
    simp only [plain.parse_render]

theorem ofJson_toJson (h : a.IsStorable) : ofJson a.toJson = .ok a :=
  bind_eq_ok_iff.2 ⟨_, h.toJson.asValue, h.ofCanonical_toJson⟩

end IsStorable

/-- Only what is read from a text is written as a text. -/
theorem eq_string_of_toJson {value : Json} {a : AttributeValue} (h : ofCanonical value = .ok a)
    {text : String} (htext : a.toJson = .string text) : value = .string text := by
  cases value with
  | null =>
    obtain rfl := Except.ok.inj h
    cases htext
  | bool value =>
    obtain rfl := Except.ok.inj h
    cases htext
  | number value =>
    obtain rfl := Except.ok.inj h
    cases htext
  | string value =>
    obtain rfl := Except.ok.inj h
    exact htext
  | array items =>
    obtain ⟨values, -, h⟩ := bind_eq_ok_iff.1 h
    obtain rfl := pure_eq_ok_iff.1 h
    cases htext
  | object fields =>
    rw [ofCanonical] at h
    split at h
    · split at h
      · obtain rfl := Except.ok.inj h
        cases htext
      · cases h
    · obtain ⟨entries, -, h⟩ := bind_eq_ok_iff.1 h
      obtain rfl := pure_eq_ok_iff.1 h
      cases htext

/-- What is read is storable, and its document form nests no deeper than what it is read from. -/
theorem isStorable_of_ofCanonical {value : Json} (hvalue : value.IsStorable) {a : AttributeValue}
    (h : ofCanonical value = .ok a) : a.IsStorable ∧ a.toJson.nesting ≤ value.nesting := by
  induction hvalue generalizing a with
  | null =>
    obtain rfl := Except.ok.inj h
    exact ⟨.null, Nat.le_refl _⟩
  | bool value =>
    obtain rfl := Except.ok.inj h
    exact ⟨.bool value, Nat.le_refl _⟩
  | number finite =>
    obtain rfl := Except.ok.inj h
    exact ⟨.number finite, Nat.le_refl _⟩
  | string value =>
    obtain rfl := Except.ok.inj h
    exact ⟨.text value, Nat.le_refl _⟩
  | @array items all ih =>
    obtain ⟨values, hvalues, h⟩ := bind_eq_ok_iff.1 h
    obtain rfl := pure_eq_ok_iff.1 h
    have hread := exists_of_forall₂ (ofCanonicalItems_eq_ok.1 hvalues)
    refine ⟨.list fun b hb => ?_, ?_⟩
    · obtain ⟨item, hitem, hb⟩ := hread b hb
      exact (ih item hitem hb).1
    · rw [toJson, itemsToJson_eq]
      refine Json.nesting_array_le.2 (List.forall_mem_map.2 fun b hb => ?_)
      obtain ⟨item, hitem, hb⟩ := hread b hb
      exact Nat.le_trans (ih item hitem hb).2 (Json.nestingOfItems_le.1 (Nat.le_refl _) item hitem)
  | @object fields sorted all ih =>
    rw [ofCanonical] at h
    split at h
    · next expression hmarked =>
      split at h
      · next target htarget =>
        obtain rfl := Except.ok.inj h
        refine ⟨.reference (Reference.isPlain_of_parse htarget), ?_⟩
        exact Nat.succ_le_succ (Nat.zero_le _)
      · cases h
    · next hunmarked =>
      obtain ⟨entries, hentries, h⟩ := bind_eq_ok_iff.1 h
      obtain rfl := pure_eq_ok_iff.1 h
      rw [ofCanonicalFields_eq_ok] at hentries
      have hread := exists_of_forall₂ hentries
      refine ⟨.map ?_ (fun entry hentry => ?_) ?_, ?_⟩
      · exact pairwise_of_names (hentries.imp fun _ _ h => h.1) sorted
      · obtain ⟨field, hfield, -, hentry⟩ := hread entry hentry
        exact (ih field hfield hentry).1
      · refine Option.eq_none_iff_forall_ne_some.2 fun expression hmarked => ?_
        -- A map that looked like a reference would have been read from what is one.
        rw [referenceExpression?_eq_some_iff, entriesToJson_eq] at hmarked
        obtain ⟨entry, hentry, heq⟩ := List.map_eq_singleton_iff.1 hmarked
        obtain ⟨hname, htext⟩ := Prod.mk.inj heq
        rw [hentry] at hentries
        obtain ⟨field, rest, ⟨hfield, hvalue⟩, hrest, rfl⟩ :=
          List.forall₂_cons_right_iff.1 hentries
        obtain rfl := List.forall₂_nil_right_iff.1 hrest
        have hsame : field = (referenceField, .string expression) :=
          Prod.ext (hfield.trans hname) (eq_string_of_toJson hvalue htext)
        rw [hsame, referenceExpression?_eq_some_iff.2 rfl] at hunmarked
        cases hunmarked
      · rw [toJson, entriesToJson_eq]
        refine Json.nesting_object_le.2 (List.forall_mem_map.2 fun entry hentry => ?_)
        obtain ⟨field, hfield, -, hentry⟩ := hread entry hentry
        exact Nat.le_trans (ih field hfield hentry).2
          (Json.nestingOfFields_le.1 (Nat.le_refl _) field hfield)

theorem isStorable_of_ofJson {value : Json} {a : AttributeValue} (h : ofJson value = .ok a) :
    a.IsStorable ∧ a.toJson.nesting ≤ value.nesting := by
  obtain ⟨taken, htaken, h⟩ := bind_eq_ok_iff.1 h
  obtain ⟨hstorable, hnesting⟩ := Json.isStorable_of_asValue htaken
  exact ⟨(isStorable_of_ofCanonical hstorable h).1,
    Nat.le_trans (isStorable_of_ofCanonical hstorable h).2 hnesting⟩

theorem yields : Decode.Yields ofJson IsStorable := fun _ _ h => (isStorable_of_ofJson h).1

/-- A declared value is read again from what is written of it. -/
theorem stable : Decode.Stable ofJson toJson 0 := fun _ _ h =>
  have hstorable := isStorable_of_ofJson h
  ⟨hstorable.1.ofJson_toJson, Nat.le_trans hstorable.2 (Nat.le_max_left ..)⟩

end Converge.AttributeValue

/-! ## Names -/

namespace Converge

theorem Kind.ofJson_toJson (kind : Kind) : ofJson kind.toJson = .ok kind := by
  cases kind <;> rfl

theorem RemovalPolicy.ofJson_toJson (policy : RemovalPolicy) : ofJson policy.toJson = .ok policy := by
  cases policy <;> rfl

end Converge
