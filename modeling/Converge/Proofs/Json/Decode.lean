import Converge.Proofs.Except
import Converge.Proofs.Json.Number
import Converge.Proofs.Json.Storable

/-!
# What is written and what is read of it

The steps by which records are read, each beside the way in which its data is written. `Kept` says
of one datum that it is read from what is written of it, and `Decode.Stable` that this is so of
everything that is read at all: then reading, writing and reading again ends where the first reading
did.

Main statements: `Decode.Stable.list`, `Decode.Stable.table` and, for the fields of a record,
`Decode.Stable.field?`, `Decode.Stable.fieldOr` and `Decode.Stable.optional`.
-/

namespace Converge

namespace Decode

/-- Whether a datum is read from what is written of it, which nests at most `bound` levels. -/
structure Kept {α : Type} (decode : Json → Decode α) (encode : α → Json) (bound : Nat) (x : α) :
    Prop where
  read : decode (encode x) = .ok x
  nesting : (encode x).nesting ≤ bound

/-- Whether all data that is read from any value is read again from what is written of it. That
nests no deeper than the value, or at most `least` levels. -/
def Stable {α : Type} (decode : Json → Decode α) (encode : α → Json) (least : Nat) : Prop :=
  ∀ value x, decode value = .ok x → Kept decode encode (max value.nesting least) x

/-- Whether all data that is read from any value has a property. -/
def Yields {α : Type} (decode : Json → Decode α) (P : α → Prop) : Prop :=
  ∀ value x, decode value = .ok x → P x

theorem Kept.mono {α : Type} {decode : Json → Decode α} {encode : α → Json} {bound more : Nat}
    {x : α} (h : Kept decode encode bound x) (hle : bound ≤ more) : Kept decode encode more x :=
  ⟨h.read, Nat.le_trans h.nesting hle⟩

end Decode

namespace Json

open Decode (Kept Stable)

variable {α : Type} {decode : Json → Decode α} {encode : α → Json}

/-! ## Plain data -/

theorem asString_string (text : String) : asString (.string text) = .ok text := rfl

theorem asBool_bool (value : Bool) : asBool (.bool value) = .ok value := rfl

theorem asUnsigned_natural {width n : Nat} (h : n ≤ Number.maxUnsigned width) :
    asUnsigned width (.natural n) = .ok n := by
  simp [asUnsigned, natural, h]

theorem asUnsigned_eq_ok {width n : Nat} {value : Json} (h : asUnsigned width value = .ok n) :
    n ≤ Number.maxUnsigned width := by
  unfold asUnsigned at h
  split at h
  · split at h
    · next hrange => exact Except.ok.inj h ▸ hrange.2
    · cases h
  · cases h

/-- A natural that is read as it is written has sixty-four bits. -/
theorem asUnsigned_natural_of_legible {n : Nat} (h : (Json.natural n).IsLegible) :
    asUnsigned 64 (.natural n) = .ok n := by
  have hfits : Number.fits (n : Int) = true := legible_integer_iff.1 h
  have hbits : (Nat.pow 2 64 : Int) = 18446744073709551616 ∧
      Number.maxUnsigned 64 = 18446744073709551615 := ⟨rfl, rfl⟩
  simp only [Number.fits, Bool.and_eq_true, decide_eq_true_eq] at hfits
  exact asUnsigned_natural (by omega)

/-! ## Lists, tables and optional values -/

/-- A list is read item by item. -/
theorem asList_map {β : Type} {decode : Json → Decode β} {g : α → β} {xs : List α}
    (h : ∀ x ∈ xs, decode (encode x) = .ok (g x)) :
    asList decode (.array (xs.map encode)) = .ok (xs.map g) := by
  rw [asList, List.mapM_map]
  exact mapM_eq_ok (f := fun x => decode (encode x)) h

theorem asList_array {xs : List α} (h : ∀ x ∈ xs, decode (encode x) = .ok x) :
    asList decode (.array (xs.map encode)) = .ok xs := by
  have hread := asList_map (g := id) h
  rwa [List.map_id] at hread

theorem asList_eq_ok {value : Json} {xs : List α} (h : asList decode value = .ok xs) :
    ∃ items, value = .array items ∧ ∀ x ∈ xs, ∃ item ∈ items, decode item = .ok x := by
  unfold asList at h
  split at h
  · exact ⟨_, rfl, exists_of_mapM_eq_ok h⟩
  · cases h

theorem asTable_ofTable {t : Table α} (h : ∀ x ∈ t.values, decode (encode x) = .ok x) :
    asTable decode (.ofTable encode t) = .ok t := by
  have hentry : ∀ entry ∈ t.entries, (do return (entry.1, ← decode (encode entry.2))) =
      Except.ok (id entry) := fun entry hentry =>
    bind_eq_ok_iff.2 ⟨entry.2, h entry.2 (List.mem_map_of_mem hentry), rfl⟩
  have hread := mapM_eq_ok hentry
  rw [List.map_id] at hread
  rw [ofTable, asTable, List.mapM_map]
  exact bind_eq_ok_iff.2 ⟨t.entries, hread, congrArg _ t.ofList_entries⟩

theorem asTable_eq_ok {value : Json} {t : Table α} (h : asTable decode value = .ok t) :
    ∃ fields, value = .object fields ∧ ∀ x ∈ t.values, ∃ field ∈ fields, decode field.2 = .ok x := by
  unfold asTable at h
  split at h
  · next fields =>
    obtain ⟨entries, hentries, h⟩ := bind_eq_ok_iff.1 h
    obtain rfl := pure_eq_ok_iff.1 h
    refine ⟨fields, rfl, fun x hx => ?_⟩
    obtain ⟨name, hname⟩ := Table.mem_values.1 hx
    obtain ⟨field, hfield, hread⟩ :=
      exists_of_mapM_eq_ok hentries _ (Table.mem_of_get?_ofList hname)
    obtain ⟨y, hy, heq⟩ := bind_eq_ok_iff.1 hread
    obtain ⟨-, rfl⟩ := Prod.mk.inj (pure_eq_ok_iff.1 heq)
    exact ⟨field, hfield, hy⟩
  · cases h

theorem ofTable_id (t : Attributes) : Json.ofTable id t = .ofAttributes t :=
  congrArg _ (List.map_id _)

/-- Attributes that can be stored are read from what is written of them. -/
theorem asAttributes_ofAttributes {t : Attributes} (h : ∀ value ∈ t.values, value.IsStorable) :
    asAttributes (.ofAttributes t) = .ok t := by
  have hread : asTable asValue (.ofTable id t) = .ok t :=
    asTable_ofTable fun value hvalue => (h value hvalue).asValue
  rwa [ofTable_id] at hread

theorem asStrings_ofStrings (texts : List String) :
    asList asString (.ofStrings texts) = .ok texts :=
  asList_array fun text _ => asString_string text

theorem nesting_ofTable_le {t : Table α} {n : Nat} :
    (Json.ofTable encode t).nesting ≤ n + 1 ↔ ∀ x ∈ t.values, (encode x).nesting ≤ n := by
  rw [ofTable, nesting_object_le, List.forall_mem_map, Table.values, List.forall_mem_map]

theorem nesting_ofAttributes_le {t : Attributes} {n : Nat} :
    (Json.ofAttributes t).nesting ≤ n + 1 ↔ ∀ value ∈ t.values, value.nesting ≤ n := by
  rw [ofAttributes, nesting_object_le, Table.values, List.forall_mem_map]

theorem nesting_ofStrings_le (texts : List String) (n : Nat) :
    (Json.ofStrings texts).nesting ≤ n + 1 :=
  nesting_array_le.2 (List.forall_mem_map.2 fun _ _ => Nat.zero_le n)

theorem isLegible_ofTable {t : Table α} :
    (Json.ofTable encode t).IsLegible ↔ ∀ x ∈ t.values, (encode x).IsLegible := by
  rw [ofTable, isLegible_object, List.forall_mem_map, Table.values, List.forall_mem_map]

theorem isLegible_ofAttributes {t : Attributes} :
    (Json.ofAttributes t).IsLegible ↔ ∀ value ∈ t.values, value.IsLegible := by
  rw [ofAttributes, isLegible_object, Table.values, List.forall_mem_map]

theorem isLegible_ofTable_ofList {entries : List (String × α)}
    (h : ∀ entry ∈ entries, (encode entry.2).IsLegible) :
    (Json.ofTable encode (.ofList entries)).IsLegible :=
  isLegible_ofTable.2 (Table.forall_mem_values_ofList h)

theorem isLegible_ofAttributes_ofList {entries : List (String × Json)}
    (h : ∀ entry ∈ entries, entry.2.IsLegible) : (Json.ofAttributes (.ofList entries)).IsLegible :=
  isLegible_ofAttributes.2 (Table.forall_mem_values_ofList h)

theorem isLegible_ofStrings (texts : List String) : (Json.ofStrings texts).IsLegible :=
  isLegible_array.2 (List.forall_mem_map.2 fun _ _ => trivial)

theorem isLegible_natural {n : Nat} (h : n ≤ Number.maxUnsigned 64) : (Json.natural n).IsLegible := by
  have hbits : (Nat.pow 2 63 : Int) = 9223372036854775808 ∧
      (Nat.pow 2 64 : Int) = 18446744073709551616 ∧
      Number.maxUnsigned 64 = 18446744073709551615 := ⟨rfl, rfl, rfl⟩
  refine legible_integer ?_
  simp only [Number.fits, Bool.and_eq_true, decide_eq_true_eq]
  omega

theorem asOption_of_ne_null {value : Json} (h : value ≠ .null) :
    asOption decode value = some <$> decode value := by
  cases value <;> first | rfl | exact absurd rfl h

/-- An optional datum is read from what is written of it, unless `null` is written of one that is
there. -/
theorem asOption_ofOption {x : Option α} (h : ∀ y ∈ x, decode (encode y) = .ok y)
    (hnull : ∀ y ∈ x, encode y ≠ .null) : asOption decode (.ofOption encode x) = .ok x := by
  cases x with
  | none => rfl
  | some y =>
    rw [ofOption, Option.map_some, Option.getD_some, asOption_of_ne_null (hnull y rfl), h y rfl]
    rfl

theorem asOption_eq_some {value : Json} {x : α} (h : asOption decode value = .ok (some x)) :
    decode value = .ok x := by
  have hne : value ≠ .null := by
    rintro rfl
    cases h
  rw [asOption_of_ne_null hne] at h
  obtain ⟨y, hy, heq⟩ := map_eq_ok_iff.1 h
  exact Option.some.inj heq ▸ hy

theorem asOption_string (text : Option String) :
    asOption asString (.ofOption .string text) = .ok text :=
  asOption_ofOption (fun text _ => asString_string text) fun _ _ => nofun

theorem asRecord_eq_ok_iff {value : Json} {fields : List (String × Json)} :
    value.asRecord = .ok fields ↔ value = .object fields := by
  cases value <;> simp [asRecord]

end Json

/-! ## Fields of records -/

namespace Decode

variable {α : Type} {decode : Json → Decode α} {fields : List (String × Json)} {name : String}
  {value : Json}

section Write

variable (hnodup : (fields.map (·.1)).Nodup)

include hnodup

/-- Of fields with names of their own, one is read by its name. -/
theorem field?_of_mem {x : α} (hread : decode value = .ok x) (hmem : (name, value) ∈ fields) :
    field? fields name decode = .ok (some x) := by
  have hfilter : fields.filter (fun field => field.1 == name) = [(name, value)] := by
    induction fields with
    | nil => cases hmem
    | cons first rest ih =>
      obtain ⟨hnew, hrest⟩ := List.nodup_cons.1 hnodup
      rcases List.mem_cons.1 hmem with rfl | hlater
      · have hnone : rest.filter (fun field => field.1 == name) = [] :=
          List.filter_eq_nil_iff.2 fun field hfield heq =>
            hnew (List.mem_map.2 ⟨field, hfield, by simpa using heq⟩)
        rw [List.filter_cons, if_pos (by simp), hnone]
      · have hne : ¬ (first.1 == name) = true := fun heq =>
          hnew (List.mem_map.2 ⟨_, hlater, (beq_iff_eq.1 heq).symm⟩)
        rw [List.filter_cons, if_neg hne, ih hrest hlater]
  rw [field?, hfilter]
  change some <$> decode value = _
  rw [hread]
  rfl

theorem fieldOr_of_mem {x default : α} (hread : decode value = .ok x)
    (hmem : (name, value) ∈ fields) : fieldOr fields name default decode = .ok x :=
  bind_eq_ok_iff.2 ⟨some x, field?_of_mem hnodup hread hmem, rfl⟩

theorem optional_of_mem {x : Option α} (hread : Json.asOption decode value = .ok x)
    (hmem : (name, value) ∈ fields) : optional fields name decode = .ok x :=
  bind_eq_ok_iff.2 ⟨some x, field?_of_mem hnodup hread hmem, rfl⟩

end Write

section Omit

variable (hnot : ∀ value, (name, value) ∉ fields)

include hnot

theorem field?_of_not_mem : field? fields name decode = .ok none := by
  have hfilter : fields.filter (fun field => field.1 == name) = [] :=
    List.filter_eq_nil_iff.2 fun field hfield heq => hnot field.2 (beq_iff_eq.1 heq ▸ hfield)
  rw [field?, hfilter]

theorem fieldOr_of_not_mem {default : α} : fieldOr fields name default decode = .ok default :=
  bind_eq_ok_iff.2 ⟨none, field?_of_not_mem hnot, rfl⟩

theorem optional_of_not_mem : optional fields name decode = .ok none :=
  bind_eq_ok_iff.2 ⟨none, field?_of_not_mem hnot, rfl⟩

end Omit

/-- An optional datum is read of a field that is left out in its absence. -/
theorem optional_of_option {encode : α → Json} {x : Option α}
    (hnodup : (fields.map (·.1)).Nodup) (hread : ∀ y ∈ x, decode (encode y) = .ok y)
    (hnull : ∀ y ∈ x, encode y ≠ .null) (hmem : ∀ y ∈ x, (name, encode y) ∈ fields)
    (hnot : x = none → ∀ value, (name, value) ∉ fields) :
    optional fields name decode = .ok x := by
  cases x with
  | none => exact optional_of_not_mem (hnot rfl)
  | some y =>
    exact optional_of_mem hnodup (Json.asOption_ofOption (x := some y) hread hnull) (hmem y rfl)

/-- A datum is read of a field that is left out where it holds the default. -/
theorem fieldOr_of_skipped {x default : α} {isSkipped : Bool} (hnodup : (fields.map (·.1)).Nodup)
    (hdefault : isSkipped = true → x = default) (hread : decode value = .ok x)
    (hmem : isSkipped = false → (name, value) ∈ fields)
    (hnot : isSkipped = true → ∀ value, (name, value) ∉ fields) :
    fieldOr fields name default decode = .ok x := by
  cases isSkipped with
  | false => exact fieldOr_of_mem hnodup hread (hmem rfl)
  | true =>
    rw [hdefault rfl]
    exact fieldOr_of_not_mem (hnot rfl)

/-- What is read of a field is read of the value of one of that name. -/
theorem mem_of_field? {x : α} (h : field? fields name decode = .ok (some x)) :
    ∃ value, (name, value) ∈ fields ∧ decode value = .ok x := by
  unfold field? at h
  split at h
  · cases h
  · next first value hfilter =>
    obtain ⟨y, hy, heq⟩ := map_eq_ok_iff.1 h
    obtain rfl := Option.some.inj heq
    have hmem : (first, value) ∈ fields.filter (fun field => field.1 == name) :=
      hfilter ▸ List.mem_singleton_self _
    obtain ⟨hfield, hname⟩ := List.mem_filter.1 hmem
    exact ⟨value, beq_iff_eq.1 hname ▸ hfield, hy⟩
  · cases h

theorem mem_of_fieldOr {x default : α} (h : fieldOr fields name default decode = .ok x) :
    x = default ∨ ∃ value, (name, value) ∈ fields ∧ decode value = .ok x := by
  obtain ⟨found, hfound, hx⟩ := bind_eq_ok_iff.1 h
  cases found with
  | none => exact .inl (pure_eq_ok_iff.1 hx).symm
  | some y => exact .inr (mem_of_field? ((pure_eq_ok_iff.1 hx : y = x) ▸ hfound))

theorem mem_of_optional {x : α} (h : optional fields name decode = .ok (some x)) :
    ∃ value, (name, value) ∈ fields ∧ decode value = .ok x := by
  obtain ⟨found, hfound, hx⟩ := bind_eq_ok_iff.1 h
  cases found with
  | none => cases pure_eq_ok_iff.1 hx
  | some y =>
    obtain rfl : y = some x := pure_eq_ok_iff.1 hx
    obtain ⟨value, hmem, hread⟩ := mem_of_field? hfound
    exact ⟨value, hmem, Json.asOption_eq_some hread⟩

theorem need_eq_ok_iff {x : Option α} {y : α} : need x = .ok y ↔ x = some y := by
  cases x <;> simp [need]

/-! ## What is read -/

namespace Yields

variable {P : α → Prop}

theorem list (h : Yields decode P) : Yields (Json.asList decode) fun xs => ∀ x ∈ xs, P x := by
  intro value xs hread x hx
  obtain ⟨items, -, hitems⟩ := Json.asList_eq_ok hread
  obtain ⟨item, -, hx⟩ := hitems x hx
  exact h item x hx

theorem table (h : Yields decode P) :
    Yields (Json.asTable decode) fun t => ∀ x ∈ t.values, P x := by
  intro value t hread x hx
  obtain ⟨fields, -, hfields⟩ := Json.asTable_eq_ok hread
  obtain ⟨field, -, hx⟩ := hfields x hx
  exact h field.2 x hx

theorem attributes : Yields Json.asAttributes fun t => ∀ value ∈ t.values, value.IsStorable :=
  table fun _ _ h => (Json.isStorable_of_asValue h).1

theorem field? (h : Yields decode P) {x : Option α} {y : α}
    (hfield : Decode.field? fields name decode = .ok x) (hneed : need x = .ok y) : P y := by
  obtain ⟨value, -, hy⟩ := mem_of_field? (need_eq_ok_iff.1 hneed ▸ hfield)
  exact h value y hy

theorem fieldOr (h : Yields decode P) {x default : α} (hdefault : P default)
    (hfield : Decode.fieldOr fields name default decode = .ok x) : P x := by
  rcases mem_of_fieldOr hfield with rfl | ⟨value, -, hx⟩
  · exact hdefault
  · exact h value x hx

theorem optional (h : Yields decode P) {x : Option α}
    (hfield : Decode.optional fields name decode = .ok x) : ∀ y ∈ x, P y := by
  intro y hy
  obtain ⟨value, -, hy⟩ := mem_of_optional ((hy : x = some y) ▸ hfield)
  exact h value y hy

end Yields

/-! ## Reading what has been read -/

/-- An array whose items nest no deeper than those of another, or `least` levels. -/
theorem nesting_array_le_max {items others : List Json} {least : Nat}
    (h : ∀ item ∈ items, item.nesting ≤ max (Json.nestingOfItems others) least) :
    (Json.array items).nesting ≤ max (Json.array others).nesting (least + 1) := by
  have hnesting := Json.nesting_array_le.2 h
  rw [Json.nesting] at hnesting ⊢
  rw [Json.nesting]
  omega

theorem nesting_object_le_max {fields others : List (String × Json)} {least : Nat}
    (h : ∀ field ∈ fields, field.2.nesting ≤ max (Json.nestingOfFields others) least) :
    (Json.object fields).nesting ≤ max (Json.object others).nesting (least + 1) := by
  have hnesting := Json.nesting_object_le.2 h
  rw [Json.nesting] at hnesting ⊢
  rw [Json.nesting]
  omega

namespace Stable

variable {encode : α → Json} {least more : Nat}

theorem mono (h : Stable decode encode least) (hle : least ≤ more) : Stable decode encode more :=
  fun value x hread => (h value x hread).mono (by omega)

/-- What is read from what is written of it, whatever it is, and has a bounded depth. -/
theorem of_forall (hread : ∀ x, decode (encode x) = .ok x)
    (hnesting : ∀ x, (encode x).nesting ≤ least) : Stable decode encode least :=
  fun _ x _ => ⟨hread x, Nat.le_trans (hnesting x) (Nat.le_max_right ..)⟩

theorem string : Stable Json.asString .string 0 :=
  of_forall Json.asString_string fun _ => Nat.le_refl 0

theorem unsigned (width : Nat) : Stable (Json.asUnsigned width) .natural 0 :=
  fun _ _ h => ⟨Json.asUnsigned_natural (Json.asUnsigned_eq_ok h), Nat.zero_le _⟩

theorem double : Stable Json.asDouble (fun x => .number (.double x)) 0 :=
  fun _ _ _ => ⟨rfl, Nat.zero_le _⟩

theorem data : Stable Json.asValue id 0 := fun _ _ h =>
  have hstorable := Json.isStorable_of_asValue h
  ⟨hstorable.1.asValue, Nat.le_trans hstorable.2 (Nat.le_max_left ..)⟩

theorem list (h : Stable decode encode least) :
    Stable (Json.asList decode) (fun xs => .array (xs.map encode)) (least + 1) := by
  intro value xs hread
  obtain ⟨items, rfl, hitems⟩ := Json.asList_eq_ok hread
  have hkept : ∀ x ∈ xs, Kept decode encode (max (Json.nestingOfItems items) least) x := by
    intro x hx
    obtain ⟨item, hitem, hx⟩ := hitems x hx
    have hdepth := Json.nestingOfItems_le.1 (Nat.le_refl _) item hitem
    exact (h item x hx).mono (by omega)
  refine ⟨Json.asList_array fun x hx => (hkept x hx).read, nesting_array_le_max fun item hitem => ?_⟩
  obtain ⟨x, hx, rfl⟩ := List.mem_map.1 hitem
  exact (hkept x hx).nesting

theorem table (h : Stable decode encode least) :
    Stable (Json.asTable decode) (Json.ofTable encode) (least + 1) := by
  intro value t hread
  obtain ⟨fields, rfl, hfields⟩ := Json.asTable_eq_ok hread
  have hkept : ∀ x ∈ t.values, Kept decode encode (max (Json.nestingOfFields fields) least) x := by
    intro x hx
    obtain ⟨field, hfield, hx⟩ := hfields x hx
    have hdepth := Json.nestingOfFields_le.1 (Nat.le_refl _) field hfield
    exact (h field.2 x hx).mono (by omega)
  refine ⟨Json.asTable_ofTable fun x hx => (hkept x hx).read, nesting_object_le_max fun field hfield => ?_⟩
  obtain ⟨entry, hentry, rfl⟩ := List.mem_map.1 hfield
  exact (hkept entry.2 (List.mem_map_of_mem hentry)).nesting

theorem attributes : Stable Json.asAttributes Json.ofAttributes 1 := by
  intro value t hread
  obtain ⟨hagain, hnesting⟩ := data.table value t hread
  rw [Json.ofTable_id] at hagain hnesting
  exact ⟨hagain, hnesting⟩

/-! ### Fields -/

theorem of_mem (h : Stable decode encode least) {x : α}
    (hx : ∃ value, (name, value) ∈ fields ∧ decode value = .ok x) :
    Kept decode encode (max (Json.nestingOfFields fields) least) x := by
  obtain ⟨value, hmem, hread⟩ := hx
  have hdepth : value.nesting ≤ _ := Json.nestingOfFields_le.1 (Nat.le_refl _) _ hmem
  exact (h value x hread).mono (by omega)

theorem field? (h : Stable decode encode least) {x : Option α} {y : α}
    (hfield : Decode.field? fields name decode = .ok x) (hneed : need x = .ok y) :
    Kept decode encode (max (Json.nestingOfFields fields) least) y :=
  h.of_mem (mem_of_field? (need_eq_ok_iff.1 hneed ▸ hfield))

theorem fieldOr (h : Stable decode encode least) {x default : α}
    (hdefault : Kept decode encode least default)
    (hfield : Decode.fieldOr fields name default decode = .ok x) :
    Kept decode encode (max (Json.nestingOfFields fields) least) x := by
  rcases mem_of_fieldOr hfield with rfl | hx
  · exact hdefault.mono (Nat.le_max_right ..)
  · exact h.of_mem hx

theorem optional (h : Stable decode encode least) {x : Option α}
    (hfield : Decode.optional fields name decode = .ok x) :
    ∀ y ∈ x, Kept decode encode (max (Json.nestingOfFields fields) least) y :=
  fun y hy => h.of_mem (mem_of_optional ((hy : x = some y) ▸ hfield))

/-- What is read of the fields of an object is read again if its own object holds the same. -/
theorem record {decode : List (String × Json) → Decode α}
    (h : ∀ fields x, decode fields = .ok x → ∃ written, encode x = .object written ∧
      decode written = .ok x ∧
      ∀ field ∈ written, field.2.nesting ≤ max (Json.nestingOfFields fields) least) :
    Stable (fun value => value.asRecord >>= decode) encode (least + 1) := by
  intro value x hread
  obtain ⟨fields, hfields, hread⟩ := bind_eq_ok_iff.1 hread
  obtain rfl := Json.asRecord_eq_ok_iff.1 hfields
  obtain ⟨written, hwritten, hagain, hnesting⟩ := h fields x hread
  exact ⟨hwritten ▸ bind_eq_ok rfl hagain, hwritten ▸ nesting_object_le_max hnesting⟩

end Stable

end Decode

end Converge
