import Converge.Proofs.Json.Compact
import Converge.Proofs.Resource.Attribute

/-!
# Nodes told apart by their documents

The document of a node gives the node away, but for numbers that are written alike, and for two
references that are: where an id holds a point, the point that separates an id from an output cannot
be found in the text.

Main statement: `Node.alike_toJson_iff`.
-/

namespace Converge

/-! ## References -/

namespace Reference

/-- Whether two references are the same, or look the same because a point in one of their ids can be
taken for the one that separates. -/
def Alike (r q : Reference) : Prop :=
  r = q ∨ (r.render = q.render ∧ ('.' ∈ r.nodeId.toList ∨ '.' ∈ q.nodeId.toList))

theorem render_inj {r q : Reference} (hr : '.' ∉ r.nodeId.toList) (hq : '.' ∉ q.nodeId.toList) :
    r = q ↔ r.render = q.render := by
  refine ⟨congrArg render, fun h => ?_⟩
  have hsplit := splitOnce_render hr
  rw [h, splitOnce_render hq] at hsplit
  obtain ⟨hid, houtput⟩ := Prod.mk.inj (Option.some.inj hsplit)
  exact (congrArg₂ mk hid houtput).symm

theorem alike_iff {r q : Reference} : r.Alike q ↔ r.render = q.render := by
  refine ⟨fun h => h.elim (congrArg render) And.left, fun h => ?_⟩
  by_cases hpoint : '.' ∈ r.nodeId.toList ∨ '.' ∈ q.nodeId.toList
  · exact .inr ⟨h, hpoint⟩
  · obtain ⟨hr, hq⟩ := not_or.1 hpoint
    exact .inl ((render_inj hr hq).2 h)

/-- Whether `R` relates references of two lists just if they are written the same. -/
def AsWritten (R : Reference → Reference → Prop) (rs qs : List Reference) : Prop :=
  ∀ r ∈ rs, ∀ q ∈ qs, (R r q ↔ r.render = q.render)

theorem asWritten_alike (rs qs : List Reference) : AsWritten Alike rs qs := fun _ _ _ _ => alike_iff

theorem asWritten_eq {rs qs : List Reference} (hrs : ∀ r ∈ rs, '.' ∉ r.nodeId.toList)
    (hqs : ∀ q ∈ qs, '.' ∉ q.nodeId.toList) : AsWritten (· = ·) rs qs := fun r hr q hq =>
  render_inj (hrs r hr) (hqs q hq)

theorem AsWritten.mono {R : Reference → Reference → Prop} {rs qs rs' qs' : List Reference}
    (h : AsWritten R rs qs) (hrs : rs' ⊆ rs) (hqs : qs' ⊆ qs) : AsWritten R rs' qs' :=
  fun r hr q hq => h r (hrs hr) q (hqs hq)

end Reference

/-! ## Attributes -/

namespace AttributeValue

theorem mem_itemReferences {items : List AttributeValue} {r : Reference} :
    r ∈ itemReferences items ↔ ∃ item ∈ items, r ∈ item.references := by
  induction items with
  | nil => simp [itemReferences]
  | cons item rest ih => simp [itemReferences, ih]

theorem mem_entryReferences {entries : List (String × AttributeValue)} {r : Reference} :
    r ∈ entryReferences entries ↔ ∃ entry ∈ entries, r ∈ entry.2.references := by
  induction entries with
  | nil => simp [entryReferences]
  | cons entry rest ih => simp [entryReferences, ih]

/-- Whether two declared values are the same but for their numbers, which are written alike, and
their references, which `R` relates. -/
inductive Alike (R : Reference → Reference → Prop) : AttributeValue → AttributeValue → Prop
  | literal {value value' : Json} (alike : value.Alike value') :
      Alike R (.literal value) (.literal value')
  | list {items items' : List AttributeValue} (all : List.Forall₂ (Alike R) items items') :
      Alike R (.list items) (.list items')
  | map {entries entries' : List (String × AttributeValue)}
      (all : List.Forall₂ (SameName (Alike R)) entries entries') :
      Alike R (.map entries) (.map entries')
  | reference {r q : Reference} (related : R r q) : Alike R (.reference r) (.reference q)

/-- Whether the document of a value tells what sort of value it is: plain data is neither a list nor
a map, and no map looks like a reference. -/
inductive IsProper : AttributeValue → Prop
  | literal {value : Json} (finite : value.isFinite = true) (noList : value.shape ≠ .list)
      (noRecord : value.shape ≠ .record) : IsProper (.literal value)
  | list {items : List AttributeValue} (all : ∀ item ∈ items, IsProper item) : IsProper (.list items)
  | map {entries : List (String × AttributeValue)} (all : ∀ entry ∈ entries, IsProper entry.2)
      (unmarked : referenceExpression? (entriesToJson entries) = none) : IsProper (.map entries)
  | reference (r : Reference) : IsProper (.reference r)

variable {R : Reference → Reference → Prop} {a b : AttributeValue}

theorem IsStorable.isPlain (h : a.IsStorable) {r : Reference} (hr : r ∈ a.references) :
    r.IsPlain := by
  induction h with
  | null => cases hr
  | bool value => cases hr
  | number finite => cases hr
  | text value => cases hr
  | list all ih =>
    obtain ⟨item, hitem, hr⟩ := mem_itemReferences.1 hr
    exact ih item hitem hr
  | map sorted all unmarked ih =>
    obtain ⟨entry, hentry, hr⟩ := mem_entryReferences.1 hr
    exact ih entry hentry hr
  | reference plain =>
    obtain rfl := List.mem_singleton.1 hr
    exact plain

theorem IsStorable.isProper (h : a.IsStorable) : a.IsProper := by
  induction h with
  | null => exact .literal rfl nofun nofun
  | bool value => exact .literal rfl nofun nofun
  | number finite => exact .literal finite nofun nofun
  | text value => exact .literal rfl nofun nofun
  | list all ih => exact .list ih
  | map sorted all unmarked ih => exact .map ih unmarked
  | reference plain => exact .reference _

theorem isProper_text (value : String) : (text value).IsProper := .literal rfl nofun nofun

theorem isProper_natural (n : Nat) : (natural n).IsProper := .literal rfl nofun nofun

theorem IsProper.isFinite (h : a.IsProper) : a.toJson.isFinite = true := by
  induction h with
  | literal finite => exact finite
  | list all ih =>
    rw [toJson, itemsToJson_eq, Json.isFinite, Json.areFinite_iff]
    exact List.forall_mem_map.2 ih
  | map all unmarked ih =>
    rw [toJson, entriesToJson_eq, Json.isFinite, Json.fieldsAreFinite_iff]
    exact List.forall_mem_map.2 ih
  | reference r => rfl

/-- Fields that are alike mark the same reference, or none. -/
theorem referenceExpression?_congr {fields fields' : List (String × Json)}
    (h : List.Forall₂ (SameName Json.Alike) fields fields') :
    referenceExpression? fields = referenceExpression? fields' := by
  cases h with
  | nil => rfl
  | cons hfield hrest =>
    obtain ⟨name, halike⟩ := hfield
    cases halike <;> cases hrest <;> rfl

/-- Proper values have documents that are alike just if they are alike themselves, with references
that are related as they are written. -/
theorem IsProper.alike_toJson_iff (ha : a.IsProper) (hb : b.IsProper)
    (hR : Reference.AsWritten R a.references b.references) :
    a.toJson.Alike b.toJson ↔ a.Alike R b := by
  induction ha generalizing b with
  | @literal value finite noList noRecord =>
    cases hb with
    | literal => exact ⟨.literal, fun h => by cases h with | literal alike => exact alike⟩
    | list => exact iff_of_false (fun h => noList h.shape_eq) (by rintro ⟨⟩)
    | map => exact iff_of_false (fun h => noRecord h.shape_eq) (by rintro ⟨⟩)
    | reference => exact iff_of_false (fun h => noRecord h.shape_eq) (by rintro ⟨⟩)
  | @list items all ih =>
    cases hb with
    | literal finite noList => exact iff_of_false (fun h => noList h.shape_eq.symm) (by rintro ⟨⟩)
    | @list items' all' =>
      have hitem : ∀ item ∈ items, ∀ item' ∈ items',
          (item.toJson.Alike item'.toJson ↔ item.Alike R item') := fun item hitem item' hitem' =>
        ih item hitem (all' item' hitem') (hR.mono
          (fun r hr => mem_itemReferences.2 ⟨item, hitem, hr⟩)
          fun q hq => mem_itemReferences.2 ⟨item', hitem', hq⟩)
      rw [toJson, toJson, itemsToJson_eq, itemsToJson_eq, Json.alike_array_iff,
        List.forall₂_map_left_iff, List.forall₂_map_right_iff, forall₂_congr_of_mem hitem]
      exact ⟨.list, fun h => by cases h with | list all => exact all⟩
    | map => exact iff_of_false (fun h => by cases h.shape_eq) (by rintro ⟨⟩)
    | reference => exact iff_of_false (fun h => by cases h.shape_eq) (by rintro ⟨⟩)
  | @map entries all unmarked ih =>
    cases hb with
    | literal finite noList noRecord => exact iff_of_false (fun h => noRecord h.shape_eq.symm) (by rintro ⟨⟩)
    | list => exact iff_of_false (fun h => by cases h.shape_eq) (by rintro ⟨⟩)
    | @map entries' all' unmarked' =>
      have hentry : ∀ entry ∈ entries, ∀ entry' ∈ entries',
          (SameName Json.Alike (entry.1, entry.2.toJson) (entry'.1, entry'.2.toJson) ↔
            SameName (Alike R) entry entry') := fun entry hentry entry' hentry' => by
        rw [sameName_iff, sameName_iff]
        exact and_congr_right fun _ => ih entry hentry (all' entry' hentry') (hR.mono
          (fun r hr => mem_entryReferences.2 ⟨entry, hentry, hr⟩)
          fun q hq => mem_entryReferences.2 ⟨entry', hentry', hq⟩)
      rw [toJson, toJson, entriesToJson_eq, entriesToJson_eq, Json.alike_object_iff,
        List.forall₂_map_left_iff, List.forall₂_map_right_iff, forall₂_congr_of_mem hentry]
      exact ⟨.map, fun h => by cases h with | map all => exact all⟩
    | reference q =>
      refine iff_of_false (fun h => ?_) (by rintro ⟨⟩)
      have hmarked := referenceExpression?_congr (Json.alike_object_iff.1 h)
      rw [unmarked, referenceExpression?_eq_some_iff.2 rfl] at hmarked
      cases hmarked
  | reference r =>
    cases hb with
    | literal finite noList noRecord => exact iff_of_false (fun h => noRecord h.shape_eq.symm) (by rintro ⟨⟩)
    | list => exact iff_of_false (fun h => by cases h.shape_eq) (by rintro ⟨⟩)
    | map all unmarked =>
      refine iff_of_false (fun h => ?_) (by rintro ⟨⟩)
      have hmarked := referenceExpression?_congr (Json.alike_object_iff.1 h)
      rw [unmarked, referenceExpression?_eq_some_iff.2 rfl] at hmarked
      cases hmarked
    | reference q =>
      have htext : (Json.object [(referenceField, .string r.render)]).Alike
          (.object [(referenceField, .string q.render)]) ↔ r.render = q.render := by
        simp [sameName_iff]
      rw [toJson, toJson, htext, ← hR r (List.mem_singleton_self r) q (List.mem_singleton_self q)]
      exact ⟨.reference, fun h => by cases h with | reference related => exact related⟩

end AttributeValue

/-! ## Tables -/

/-- Whether two tables have the same names, and declared values that are alike, with references that
`R` relates. -/
def Declared.Alike (R : Reference → Reference → Prop) (t u : Declared) : Prop :=
  List.Forall₂ (SameName (AttributeValue.Alike R)) t.entries u.entries

/-- Every reference in a table, in the order of the names. -/
def Declared.references (t : Declared) : List Reference := t.values.flatMap AttributeValue.references

/-- Whether two tables have the same names, and values that are alike. -/
def Attributes.Alike (t u : Attributes) : Prop := List.Forall₂ (SameName Json.Alike) t.entries u.entries

theorem Declared.alike_ofTable_iff {R : Reference → Reference → Prop} {t u : Declared}
    (ht : ∀ value ∈ t.values, value.IsProper) (hu : ∀ value ∈ u.values, value.IsProper)
    (hR : Reference.AsWritten R t.references u.references) :
    (Json.ofTable AttributeValue.toJson t).Alike (.ofTable AttributeValue.toJson u) ↔
      Declared.Alike R t u := by
  rw [Json.alike_ofTable_iff, Alike]
  refine forall₂_congr_of_mem fun entry hentry entry' hentry' => ?_
  have hvalue : entry.2 ∈ t.values := List.mem_map_of_mem hentry
  have hvalue' : entry'.2 ∈ u.values := List.mem_map_of_mem hentry'
  rw [sameName_iff, sameName_iff]
  exact and_congr_right fun _ => (ht _ hvalue).alike_toJson_iff (hu _ hvalue')
    (hR.mono (fun r hr => List.mem_flatMap.2 ⟨_, hvalue, hr⟩)
      fun q hq => List.mem_flatMap.2 ⟨_, hvalue', hq⟩)

theorem Declared.isFinite_ofTable {t : Declared} (ht : ∀ value ∈ t.values, value.IsProper) :
    (Json.ofTable AttributeValue.toJson t).isFinite = true := by
  rw [Json.ofTable, Json.isFinite, Json.fieldsAreFinite_iff]
  exact List.forall_mem_map.2 fun entry hentry => (ht entry.2 (List.mem_map_of_mem hentry)).isFinite

theorem Attributes.isFinite_ofAttributes {t : Attributes}
    (ht : ∀ value ∈ t.values, value.isFinite = true) : (Json.ofAttributes t).isFinite = true := by
  rw [Json.ofAttributes, Json.isFinite, Json.fieldsAreFinite_iff]
  exact fun field hfield => ht field.2 (List.mem_map_of_mem hfield)

theorem Json.isFinite_ofStrings (texts : List String) : (ofStrings texts).isFinite = true := by
  rw [ofStrings, isFinite, areFinite_iff]
  exact List.forall_mem_map.2 fun _ _ => rfl

/-! ## Nodes -/

namespace Lifecycle

/-- Whether two nodes belong to this stack, or are looked up by the same id with outputs that are
alike. -/
inductive Alike : Lifecycle → Lifecycle → Prop
  | managed : Alike .managed .managed
  | existing (providerId : String) {outputs outputs' : Outputs}
      (alike : Attributes.Alike outputs outputs') :
      Alike (.existing providerId outputs) (.existing providerId outputs')

theorem alike_toJson_iff {l l' : Lifecycle} : l.toJson.Alike l'.toJson ↔ l.Alike l' := by
  cases l with
  | managed =>
    cases l' with
    | managed => exact iff_of_true (.string _) .managed
    | existing => exact iff_of_false nofun nofun
  | existing providerId outputs =>
    cases l' with
    | managed => exact iff_of_false nofun nofun
    | existing providerId' outputs' =>
      have hfields : (existing providerId outputs).toJson.Alike
          (existing providerId' outputs').toJson ↔
            providerId = providerId' ∧ Attributes.Alike outputs outputs' := by
        simp [toJson, sameName_iff, Json.ofAttributes, Attributes.Alike]
      rw [hfields]
      constructor
      · rintro ⟨rfl, halike⟩
        exact .existing providerId halike
      · intro h
        cases h with | existing _ halike => exact ⟨rfl, halike⟩

end Lifecycle

theorem Kind.alike_toJson_iff {kind kind' : Kind} :
    kind.toJson.Alike kind'.toJson ↔ kind = kind' := by
  rw [toJson, toJson, Json.alike_string_iff]
  refine ⟨fun h => Option.some.inj ?_, congrArg name⟩
  rw [← ofName?_name, h, ofName?_name]

theorem RemovalPolicy.alike_toJson_iff {policy policy' : RemovalPolicy} :
    policy.toJson.Alike policy'.toJson ↔ policy = policy' := by
  rw [toJson, toJson, Json.alike_string_iff]
  cases policy <;> cases policy' <;> decide

namespace Node

/-- Whether two nodes are the same in every field, but for numbers that are written alike and
references that `R` relates. -/
structure Alike (R : Reference → Reference → Prop) (n m : Node) : Prop where
  id : n.id = m.id
  kind : n.kind = m.kind
  attributes : Declared.Alike R n.attributes m.attributes
  dependsOn : n.dependsOn = m.dependsOn
  lifecycle : n.lifecycle.Alike m.lifecycle
  removalPolicy : n.removalPolicy = m.removalPolicy

/-- Whether the documents of a node's values tell what sort of values they are. -/
structure IsProper (n : Node) : Prop where
  attributes : ∀ value ∈ n.attributes.values, value.IsProper
  outputs : ∀ {providerId outputs}, n.lifecycle = .existing providerId outputs →
    ∀ value ∈ outputs.values, value.isFinite = true

variable {n m : Node}

theorem IsProper.isFinite (h : n.IsProper) : n.toJson.isFinite = true := by
  have hlifecycle : n.lifecycle.toJson.isFinite = true := by
    cases hlifecycle : n.lifecycle with
    | managed => rfl
    | existing providerId outputs =>
      have houtputs := Attributes.isFinite_ofAttributes (h.outputs hlifecycle)
      simpa [Lifecycle.toJson, Json.isFinite, Json.fieldsAreFinite] using houtputs
  rw [toJson, Json.isFinite, Json.fieldsAreFinite_iff]
  simp only [List.forall_mem_cons]
  exact ⟨rfl, rfl, Declared.isFinite_ofTable h.attributes, Json.isFinite_ofStrings _, hlifecycle, rfl,
    List.forall_mem_nil _⟩

/-- Proper nodes have documents that are alike just if they are alike themselves, with references
that are related as they are written. -/
theorem alike_toJson_iff {R : Reference → Reference → Prop} (hn : n.IsProper) (hm : m.IsProper)
    (hR : Reference.AsWritten R n.references m.references) :
    n.toJson.Alike m.toJson ↔ n.Alike R m := by
  have hfields : n.toJson.Alike m.toJson ↔ n.id = m.id ∧ n.kind = m.kind ∧
      Declared.Alike R n.attributes m.attributes ∧ n.dependsOn = m.dependsOn ∧
      n.lifecycle.Alike m.lifecycle ∧ n.removalPolicy = m.removalPolicy := by
    simp [toJson, sameName_iff, Kind.alike_toJson_iff, Json.alike_ofStrings_iff,
      Lifecycle.alike_toJson_iff, RemovalPolicy.alike_toJson_iff,
      Declared.alike_ofTable_iff hn.attributes hm.attributes hR]
  rw [hfields]
  constructor
  · rintro ⟨hid, hkind, hattributes, hdependsOn, hlifecycle, hpolicy⟩
    exact ⟨hid, hkind, hattributes, hdependsOn, hlifecycle, hpolicy⟩
  · rintro ⟨hid, hkind, hattributes, hdependsOn, hlifecycle, hpolicy⟩
    exact ⟨hid, hkind, hattributes, hdependsOn, hlifecycle, hpolicy⟩

end Node

end Converge
