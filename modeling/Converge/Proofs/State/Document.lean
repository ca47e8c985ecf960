import Converge.Proofs.Resource.Attribute
import Converge.Proofs.State.Lock
import Converge.State.Document

/-!
# States read back

A state is read from its document, whatever it records, if its times can be written, the values in
it do not nest too deep and its numbers are read as they are written. A document of another major
version is not read.

Main statement: `State.decodes_encoded`.
-/

namespace Converge

open Json

/-! ## Records -/

namespace Record

/-- Whether the values of a record can be written. -/
structure HoldsStorable (r : Record) : Prop where
  attributes : ∀ value ∈ r.attributes.values, value.IsStorable
  outputs : ∀ value ∈ r.outputs.values, value.IsStorable

/-- Whether the values and times of a record can be written. -/
structure IsStorable (r : Record) : Prop extends r.HoldsStorable where
  createdAt : r.createdAt.Legible
  updatedAt : r.updatedAt.Legible

variable {r : Record}

theorem ofJson_toJson (h : r.IsStorable) (hlegible : r.toJson.IsLegible) :
    ofJson r.toJson = .ok r := by
  have hsequence : asUnsigned 64 (.natural r.sequence) = .ok r.sequence :=
    asUnsigned_natural_of_legible
      (isLegible_object.1 hlegible ("sequence", .natural r.sequence) (by simp))
  refine bind_eq_ok rfl ?_
  refine bind_eq_ok (Decode.fieldOr_of_mem (by simp)
    (asAttributes_ofAttributes h.attributes) (by simp)) ?_
  refine bind_eq_ok (Decode.field?_of_mem (by simp)
    (Instant.ofJson_toJson h.createdAt) (by simp)) ?_
  refine bind_eq_ok (Decode.fieldOr_of_mem (by simp)
    (asStrings_ofStrings r.dependencies) (by simp)) ?_
  refine bind_eq_ok (Decode.field?_of_mem (by simp) (asString_string r.id) (by simp)) ?_
  refine bind_eq_ok (Decode.field?_of_mem (by simp) r.kind.ofJson_toJson (by simp)) ?_
  refine bind_eq_ok (Decode.fieldOr_of_mem (by simp)
    (asAttributes_ofAttributes h.outputs) (by simp)) ?_
  refine bind_eq_ok (Decode.field?_of_mem (by simp)
    (asString_string r.providerId) (by simp)) ?_
  refine bind_eq_ok (Decode.fieldOr_of_mem (by simp)
    r.removalPolicy.ofJson_toJson (by simp)) ?_
  refine bind_eq_ok (Decode.fieldOr_of_mem (by simp) hsequence (by simp)) ?_
  exact bind_eq_ok (Decode.field?_of_mem (by simp)
    (Instant.ofJson_toJson h.updatedAt) (by simp)) rfl

/-- The values of a record that has been read can be written. -/
theorem yields : Decode.Yields ofJson HoldsStorable := by
  intro value r h
  simp only [ofJson, bind_eq_ok_iff, pure_eq_ok_iff] at h
  obtain ⟨fields, -, attributes, hattributes, createdAt?, -, dependencies, -, id?, -, kind?, -,
    outputs, houtputs, providerId?, -, removalPolicy, -, sequence, -, updatedAt?, -, id, -,
    kind, -, providerId, -, createdAt, -, updatedAt, -, rfl⟩ := h
  exact ⟨Decode.Yields.attributes.fieldOr (List.forall_mem_nil _) hattributes,
    Decode.Yields.attributes.fieldOr (List.forall_mem_nil _) houtputs⟩

end Record

/-! ## The history -/

theorem Operation.ofJson_toJson (operation : Operation) :
    ofJson operation.toJson = .ok operation := by
  cases operation <;> rfl

theorem HistoryEntry.ofJson_toJson {entry : HistoryEntry} (h : entry.timestamp.Legible) :
    ofJson entry.toJson = .ok entry := by
  refine bind_eq_ok rfl ?_
  refine bind_eq_ok (Decode.field?_of_mem (by simp)
    (asString_string entry.configHash) (by simp)) ?_
  refine bind_eq_ok (Decode.optional_of_mem (by simp)
    (asOption_string entry.error) (by simp)) ?_
  refine bind_eq_ok (Decode.field?_of_mem (by simp)
    entry.operation.ofJson_toJson (by simp)) ?_
  refine bind_eq_ok (Decode.field?_of_mem (by simp)
    (asStrings_ofStrings entry.resources) (by simp)) ?_
  refine bind_eq_ok (Decode.field?_of_mem (by simp)
    (asBool_bool entry.success) (by simp)) ?_
  exact bind_eq_ok (Decode.field?_of_mem (by simp)
    (Instant.ofJson_toJson h) (by simp)) rfl

/-! ## States -/

namespace State

/-- Whether the values and times of a state can be written. -/
structure IsStorable (s : State) : Prop where
  records : ∀ r ∈ s.resources.values, r.IsStorable
  lastUpdated : s.lastUpdated.Legible
  history : ∀ entry ∈ s.history, entry.timestamp.Legible

/-- Whether the attributes and outputs of all records nest at most `n` levels. -/
def NestsWithin (s : State) (n : Nat) : Prop :=
  ∀ r ∈ s.resources.values, (∀ value ∈ r.attributes.values, value.nesting ≤ n) ∧
    ∀ value ∈ r.outputs.values, value.nesting ≤ n

variable {s : State}

theorem ofJson_toJson (h : s.IsStorable) (hlegible : s.toJson.IsLegible) :
    ofJson s.toJson = .ok s := by
  have hfields := isLegible_object.1 hlegible
  have hsequence : asUnsigned 64 (.natural s.nextSequence) = .ok s.nextSequence :=
    asUnsigned_natural_of_legible (hfields ("next_sequence", .natural s.nextSequence) (by simp))
  have hrecords : asTable Record.ofJson (.ofTable Record.toJson s.resources) = .ok s.resources := by
    have hlegible := isLegible_object.1
      (hfields ("resources", .ofTable Record.toJson s.resources) (by simp))
    refine asTable_ofTable fun r hr => Record.ofJson_toJson (h.records r hr) ?_
    obtain ⟨entry, hentry, rfl⟩ := List.mem_map.1 hr
    exact hlegible (entry.1, entry.2.toJson) (List.mem_map.2 ⟨entry, hentry, rfl⟩)
  have hhistory : asList HistoryEntry.ofJson (.array (s.history.map HistoryEntry.toJson)) =
      .ok s.history :=
    asList_array fun entry hentry => HistoryEntry.ofJson_toJson (h.history entry hentry)
  refine bind_eq_ok rfl ?_
  refine bind_eq_ok (Decode.field?_of_mem (by simp)
    (asString_string s.configHash) (by simp)) ?_
  refine bind_eq_ok (Decode.field?_of_mem (by simp)
    (asString_string s.environment) (by simp)) ?_
  refine bind_eq_ok (Decode.fieldOr_of_mem (by simp) hhistory (by simp)) ?_
  refine bind_eq_ok (Decode.field?_of_mem (by simp)
    (Instant.ofJson_toJson h.lastUpdated) (by simp)) ?_
  refine bind_eq_ok (Decode.fieldOr_of_mem (by simp) hsequence (by simp)) ?_
  refine bind_eq_ok (Decode.field?_of_mem (by simp)
    (asString_string s.project) (by simp)) ?_
  refine bind_eq_ok (Decode.field?_of_mem (by simp) hrecords (by simp)) ?_
  exact bind_eq_ok (Decode.field?_of_mem (by simp)
    (asString_string s.version) (by simp)) rfl

theorem nesting_toJson_le {n : Nat} (h : s.NestsWithin n) : s.toJson.nesting ≤ n + 4 := by
  have hrecord : ∀ r ∈ s.resources.values, r.toJson.nesting ≤ n + 2 := by
    intro r hr
    refine nesting_object_le.2 ?_
    simpa [Kind.toJson, RemovalPolicy.toJson, Instant.toJson, nesting_ofAttributes_le,
      nesting_ofStrings_le] using h r hr
  have hentry : ∀ entry : HistoryEntry, entry.toJson.nesting ≤ n + 2 := by
    intro entry
    refine nesting_object_le.2 ?_
    cases herror : entry.error <;>
      simp [Operation.toJson, Instant.toJson, ofOption, nesting_ofStrings_le]
  refine nesting_object_le.2 ?_
  simpa [Instant.toJson, nesting_ofTable_le, nesting_array_le] using
    And.intro hrecord fun entry _ => hentry entry

/-- The numbers of a state are read as they are written if those in its values are, and the places
in the order of creation have sixty-four bits. -/
theorem isLegible_toJson
    (hrecords : ∀ r ∈ s.resources.values,
      (∀ value ∈ r.attributes.values, value.IsLegible) ∧
        (∀ value ∈ r.outputs.values, value.IsLegible) ∧ r.sequence ≤ Number.maxUnsigned 64)
    (hnext : s.nextSequence ≤ Number.maxUnsigned 64) : s.toJson.IsLegible := by
  have hrecord : ∀ r ∈ s.resources.values, r.toJson.IsLegible := by
    intro r hr
    obtain ⟨hattributes, houtputs, hsequence⟩ := hrecords r hr
    refine isLegible_object.2 ?_
    simp [Kind.toJson, RemovalPolicy.toJson, Instant.toJson, isLegible_ofAttributes.2 hattributes,
      isLegible_ofAttributes.2 houtputs, isLegible_ofStrings, isLegible_natural hsequence]
  have hentry : ∀ entry : HistoryEntry, entry.toJson.IsLegible := by
    intro entry
    refine isLegible_object.2 ?_
    cases herror : entry.error <;>
      simp [Operation.toJson, Instant.toJson, ofOption, isLegible_ofStrings]
  refine isLegible_object.2 ?_
  simp [Instant.toJson, isLegible_ofTable.2 hrecord, isLegible_natural hnext, isLegible_array,
    hentry]

/-- The values that a state holds when it has been read can be written. -/
theorem yields : Decode.Yields ofJson fun s => ∀ r ∈ s.resources.values, r.HoldsStorable := by
  intro value s h
  simp only [ofJson, bind_eq_ok_iff, pure_eq_ok_iff] at h
  obtain ⟨fields, -, configHash?, -, environment?, -, history, -, lastUpdated?, -, nextSequence, -,
    project?, -, resources?, hresources, version?, -, version, -, project, -, environment, -,
    configHash, -, resources, hneed, lastUpdated, -, rfl⟩ := h
  exact Record.yields.table.field? hresources hneed

theorem read?_encode (hlegible : s.toJson.IsLegible) (hdepth : s.NestsWithin 100) :
    Json.read? s.encode = some s.toJson :=
  read?_pretty hlegible (Nat.le_trans (nesting_toJson_le hdepth) (by decide))

/-- A state of the current major version is read from its document. Any document that holds a state
of another major version is refused for that. -/
theorem decodes_encoded :
    (∀ s : State, s.IsStorable → s.NestsWithin 100 → s.toJson.IsLegible →
      majorVersion s.version = majorVersion currentVersion → decode s.encode = .ok s) ∧
    ∀ text value s, Json.read? text = some value → ofJson value = .ok s →
      majorVersion s.version ≠ majorVersion currentVersion →
        decode text = .error (.versionMismatch currentVersion s.version) := by
  refine ⟨fun s hstorable hdepth hlegible hversion => ?_,
    fun text value s hread hstate hversion => ?_⟩
  · simp only [decode, read?_encode hlegible hdepth, ofJson_toJson hstorable hlegible,
      if_pos hversion]
  · simp only [decode, hread, hstate, if_neg hversion]

/-- A record with a number and a `null` inside a value, made when the year 0 began and changed when
the year 9999 ended. -/
def storedNetwork : Record where
  id := "net"
  kind := .network
  providerId := "vpc-1"
  attributes := .ofList [("tags", .object [
    ("owner", .null), ("share", .number (.double (.ofDecimal false 5 (-1))))])]
  outputs := .ofList [("id", .string "vpc-1"), ("zones", .array [.integer (-2), .null])]
  sequence := 3
  createdAt := { seconds := -62167219200 }
  updatedAt := { seconds := 253402300799, nanos := 999999999 }

/-- A state of a later minor version. -/
def storedState : State where
  version := "1.7"
  project := "shop"
  environment := "dev"
  configHash := "c0ffee"
  resources := .ofList [("net", storedNetwork)]
  nextSequence := 4
  lastUpdated := { seconds := 253402300799 }
  history := [
    { timestamp := { seconds := 0 }, operation := .apply, configHash := "", resources := ["net"],
      success := false, error := some "timeout" }]

theorem legible_half : Legible (.double (.ofDecimal false 5 (-1))) := by
  have hrender : (Number.double (.ofDecimal false 5 (-1))).render = "0.5" := by decide +kernel
  have htext : takeNumber? "0.5".toList = some (⟨false, ['0'], some ['5'], none⟩, []) := rfl
  exact legible_of_render hrender htext (by decide +kernel)

theorem values_storedNetwork :
    storedNetwork.attributes.values = [.object [
      ("owner", .null), ("share", .number (.double (.ofDecimal false 5 (-1))))]] ∧
    storedNetwork.outputs.values = [.string "vpc-1", .array [.integer (-2), .null]] :=
  ⟨rfl, rfl⟩

theorem isStorable_storedState : storedState.IsStorable where
  records := by
    refine List.forall_mem_singleton.2
      ⟨⟨?_, ?_⟩, .of_year (by decide) (by decide), .of_year (by decide) (by decide)⟩
    · rw [values_storedNetwork.1]
      exact List.forall_mem_singleton.2 (isStorable_iff.2 rfl)
    · rw [values_storedNetwork.2]
      exact List.forall_mem_cons.2 ⟨isStorable_iff.2 rfl,
        List.forall_mem_singleton.2 (isStorable_iff.2 rfl)⟩
  lastUpdated := .of_year (by decide) (by decide)
  history := List.forall_mem_singleton.2 (.of_year (by decide) (by decide))

theorem nestsWithin_storedState : storedState.NestsWithin 100 := by
  refine List.forall_mem_singleton.2 ?_
  rw [values_storedNetwork.1, values_storedNetwork.2]
  simp [nesting, nestingOfFields, nestingOfItems, integer]

theorem isLegible_storedState (version : String) :
    { storedState with version }.toJson.IsLegible := by
  have hnext : storedState.nextSequence ≤ Number.maxUnsigned 64 := by decide
  refine isLegible_toJson (List.forall_mem_singleton.2 ⟨?_, ?_, by decide⟩) hnext
  · rw [values_storedNetwork.1]
    exact List.forall_mem_singleton.2 ⟨trivial, legible_half, trivial⟩
  · rw [values_storedNetwork.2]
    exact List.forall_mem_cons.2 ⟨trivial, List.forall_mem_singleton.2
      ⟨legible_integer (by decide), trivial, trivial⟩⟩

/-- The state is read from its document, and refused once it is of another major version. -/
theorem decodes_encoded_stored :
    (storedState.IsStorable ∧ storedState.NestsWithin 100 ∧ storedState.toJson.IsLegible ∧
      decode storedState.encode = .ok storedState) ∧
    decode { storedState with version := "2.0" }.encode =
      .error (.versionMismatch "1.0" "2.0") := by
  have hread : Json.read? { storedState with version := "2.0" }.encode =
      some { storedState with version := "2.0" }.toJson :=
    read?_encode (isLegible_storedState "2.0") nestsWithin_storedState
  have hother : ofJson { storedState with version := "2.0" }.toJson =
      .ok { storedState with version := "2.0" } :=
    ofJson_toJson ⟨isStorable_storedState.records, isStorable_storedState.lastUpdated,
      isStorable_storedState.history⟩ (isLegible_storedState "2.0")
  exact ⟨⟨isStorable_storedState, nestsWithin_storedState, isLegible_storedState "1.7",
    decodes_encoded.1 _ isStorable_storedState nestsWithin_storedState (isLegible_storedState "1.7")
      (by decide)⟩, decodes_encoded.2 _ _ _ hread hother (by decide)⟩

end State

end Converge
