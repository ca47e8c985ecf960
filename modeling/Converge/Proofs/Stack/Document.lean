import Converge.Proofs.Resource.Attribute
import Converge.Stack.Basic

/-!
# Declarations read back

Whatever is read as a declared stack is read again from what is written of it. For this each record
of a declaration is `Decode.Stable`: what one reading makes of its fields, a second reading leaves
alone.

Main statement: `Stack.stable`, and with the texts `Stack.ofJson_again`.
-/

namespace Converge

open Json
open Decode (Kept Stable Yields)

/-! ## Exposed ports -/

theorem Protocol.ofJson_toJson (protocol : Protocol) : ofJson protocol.toJson = .ok protocol := by
  cases protocol <;> rfl

theorem HealthCheck.stable : Stable ofJson toJson 1 := by
  refine Stable.record fun fields check h => ?_
  obtain ⟨codes, -, h⟩ := bind_eq_ok_iff.1 h
  obtain ⟨interval, hinterval, h⟩ := bind_eq_ok_iff.1 h
  obtain ⟨path, -, h⟩ := bind_eq_ok_iff.1 h
  obtain ⟨timeout, htimeout, h⟩ := bind_eq_ok_iff.1 h
  obtain rfl := pure_eq_ok_iff.1 h
  have hinterval := (Stable.unsigned 32).fieldOr ⟨rfl, Nat.le_refl 0⟩ hinterval
  have htimeout := (Stable.unsigned 32).fieldOr ⟨rfl, Nat.le_refl 0⟩ htimeout
  refine ⟨_, rfl, ?_, by simp⟩
  refine bind_eq_ok (Decode.fieldOr_of_mem (by simp) (asString_string codes) (by simp)) ?_
  refine bind_eq_ok (Decode.fieldOr_of_mem (by simp) hinterval.read (by simp)) ?_
  refine bind_eq_ok (Decode.fieldOr_of_mem (by simp) (asString_string path) (by simp)) ?_
  exact bind_eq_ok (Decode.fieldOr_of_mem (by simp) htimeout.read (by simp)) rfl

namespace Port

theorem readUnsigned?_le {radix limit n : Nat} {cs : List Char}
    (h : Text.readUnsigned? radix limit cs = some n) : n ≤ limit :=
  of_decide_eq_true (Option.filter_eq_some_iff.1 h).2

/-- The short form gives a port number and nothing else but a protocol. -/
theorem parse_spec {spec : String} {port : Port} (h : parse spec = .ok port) :
    port.number ≤ Number.maxUnsigned 16 ∧ port.healthCheck = none := by
  unfold parse at h
  split at h
  extract_lets number? protocol? at h
  have hnumber : ∀ n ∈ number?, n ≤ Number.maxUnsigned 16 := fun _ => readUnsigned?_le
  clear_value number? protocol?
  split at h
  · obtain rfl := Except.ok.inj h
    exact ⟨hnumber _ rfl, rfl⟩
  · cases h

variable {port : Port}

theorem ofJson_toJson (hnumber : port.number ≤ Number.maxUnsigned 16)
    (hcheck : ∀ check ∈ port.healthCheck, HealthCheck.ofJson check.toJson = .ok check) :
    ofJson port.toJson = .ok port := by
  have hnodup : ∀ fields, port.toJson = .object fields → (fields.map (·.1)).Nodup := by
    rintro _ ⟨⟩
    cases port.healthCheck <;> simp
  refine bind_eq_ok (Decode.fieldOr_of_mem (hnodup _ rfl)
    (asString_string port.description) (by simp)) ?_
  refine bind_eq_ok (Decode.optional_of_option (hnodup _ rfl) hcheck (fun _ _ => nofun)
    (fun check hsome => by simpa using ⟨check, hsome, rfl⟩) (by simp +contextual)) ?_
  refine bind_eq_ok (Decode.field?_of_mem (hnodup _ rfl)
    (asUnsigned_natural hnumber) (by simp)) ?_
  exact bind_eq_ok (Decode.fieldOr_of_mem (hnodup _ rfl)
    port.protocol.ofJson_toJson (by simp)) rfl

theorem nesting_toJson_le {n : Nat} (h : ∀ check ∈ port.healthCheck, check.toJson.nesting ≤ n) :
    port.toJson.nesting ≤ n + 1 := by
  refine nesting_object_le.2 ?_
  simpa [Protocol.toJson] using h

/-- Each of the three forms of a port gives one that is read again from the record of its parts. -/
theorem stable : Stable ofJson toJson 2 := by
  intro value port h
  unfold ofJson at h
  split at h
  · next spec =>
    split at h
    · next port hspec =>
      obtain rfl := Except.ok.inj h
      obtain ⟨hnumber, hcheck⟩ := parse_spec hspec
      exact ⟨ofJson_toJson hnumber (by simp [hcheck]),
        Nat.le_trans (nesting_toJson_le (n := 0) (by simp [hcheck])) (by omega)⟩
    · cases h
  · next fields =>
    obtain ⟨description, -, h⟩ := bind_eq_ok_iff.1 h
    obtain ⟨check, hcheck, h⟩ := bind_eq_ok_iff.1 h
    obtain ⟨number?, hfield, h⟩ := bind_eq_ok_iff.1 h
    obtain ⟨protocol, -, h⟩ := bind_eq_ok_iff.1 h
    obtain ⟨number, hneed, h⟩ := bind_eq_ok_iff.1 h
    obtain rfl := pure_eq_ok_iff.1 h
    have hnumber := (Stable.unsigned 16).field? hfield hneed
    have hcheck := HealthCheck.stable.optional hcheck
    refine ⟨ofJson_toJson ?_ fun check h => (hcheck check h).read, ?_⟩
    · exact asUnsigned_eq_ok hnumber.read
    · exact Nat.le_trans (nesting_toJson_le fun check h => (hcheck check h).nesting)
        (by rw [nesting]; omega)
  · obtain ⟨number, hnumber, h⟩ := bind_eq_ok_iff.1 h
    obtain rfl := pure_eq_ok_iff.1 h
    exact ⟨ofJson_toJson (asUnsigned_eq_ok hnumber) nofun,
      Nat.le_trans (nesting_toJson_le (n := 0) nofun) (by omega)⟩

end Port

theorem Exposure.stable : Stable ofJson toJson 4 := by
  refine Stable.record fun fields exposure h => ?_
  obtain ⟨container?, -, h⟩ := bind_eq_ok_iff.1 h
  obtain ⟨loadBalancer?, -, h⟩ := bind_eq_ok_iff.1 h
  obtain ⟨network?, -, h⟩ := bind_eq_ok_iff.1 h
  obtain ⟨ports, hports, h⟩ := bind_eq_ok_iff.1 h
  obtain ⟨securityGroup?, -, h⟩ := bind_eq_ok_iff.1 h
  obtain ⟨container, -, h⟩ := bind_eq_ok_iff.1 h
  obtain ⟨network, -, h⟩ := bind_eq_ok_iff.1 h
  obtain ⟨securityGroup, -, h⟩ := bind_eq_ok_iff.1 h
  obtain ⟨loadBalancer, -, h⟩ := bind_eq_ok_iff.1 h
  obtain rfl := pure_eq_ok_iff.1 h
  have hports := Port.stable.list.fieldOr ⟨rfl, by simp [nesting_array_le]⟩ hports
  refine ⟨_, rfl, ?_, by simpa using hports.nesting⟩
  refine bind_eq_ok (Decode.field?_of_mem (by simp) (asString_string container) (by simp)) ?_
  refine bind_eq_ok (Decode.field?_of_mem (by simp) (asString_string loadBalancer) (by simp)) ?_
  refine bind_eq_ok (Decode.field?_of_mem (by simp) (asString_string network) (by simp)) ?_
  refine bind_eq_ok (Decode.fieldOr_of_mem (by simp) hports.read (by simp)) ?_
  exact bind_eq_ok (Decode.field?_of_mem (by simp) (asString_string securityGroup) (by simp)) rfl

/-! ## Settings -/

theorem Project.stable : Stable ofJson toJson 1 := by
  refine Stable.record fun fields project h => ?_
  obtain ⟨environment, -, h⟩ := bind_eq_ok_iff.1 h
  obtain ⟨name?, -, h⟩ := bind_eq_ok_iff.1 h
  obtain ⟨name, -, h⟩ := bind_eq_ok_iff.1 h
  obtain rfl := pure_eq_ok_iff.1 h
  refine ⟨_, rfl, ?_, by simp⟩
  refine bind_eq_ok (Decode.fieldOr_of_mem (by simp) (asString_string environment) (by simp)) ?_
  exact bind_eq_ok (Decode.field?_of_mem (by simp) (asString_string name) (by simp)) rfl

theorem Backend.ofJson_toJson (backend : Backend) : ofJson backend.toJson = .ok backend := by
  cases backend <;> rfl

theorem nesting_ofOption_string (text : Option String) : (ofOption .string text).nesting = 0 := by
  cases text <;> rfl

namespace StateSettings

theorem ofJson_toJson (settings : StateSettings) : ofJson settings.toJson = .ok settings := by
  refine bind_eq_ok rfl ?_
  refine bind_eq_ok (Decode.fieldOr_of_mem (by simp)
    settings.backend.ofJson_toJson (by simp)) ?_
  refine bind_eq_ok (Decode.optional_of_mem (by simp)
    (asOption_string settings.bucket) (by simp)) ?_
  refine bind_eq_ok (Decode.optional_of_mem (by simp)
    (asOption_string settings.path) (by simp)) ?_
  refine bind_eq_ok (Decode.optional_of_mem (by simp)
    (asOption_string settings.keyPrefix) (by simp)) ?_
  exact bind_eq_ok (Decode.optional_of_mem (by simp)
    (asOption_string settings.region) (by simp)) rfl

theorem stable : Stable ofJson toJson 1 :=
  .of_forall ofJson_toJson fun settings =>
    nesting_object_le.2 (by simp [Backend.toJson, nesting_ofOption_string])

end StateSettings

theorem ProviderSettings.stable : Stable ofJson toJson 1 := by
  refine Stable.record fun fields settings h => ?_
  obtain ⟨endpoint, -, h⟩ := bind_eq_ok_iff.1 h
  obtain ⟨timeout, htimeout, h⟩ := bind_eq_ok_iff.1 h
  obtain rfl := pure_eq_ok_iff.1 h
  have htimeout := (Stable.unsigned 64).fieldOr ⟨rfl, Nat.le_refl 0⟩ htimeout
  refine ⟨_, rfl, ?_, by simp [nesting_ofOption_string]⟩
  refine bind_eq_ok (Decode.optional_of_mem (by simp) (asOption_string endpoint) (by simp)) ?_
  exact bind_eq_ok (Decode.fieldOr_of_mem (by simp) htimeout.read (by simp)) rfl

theorem ApplySettings.stable : Stable ofJson toJson 1 := by
  refine Stable.record fun fields settings h => ?_
  obtain ⟨concurrency, hconcurrency, h⟩ := bind_eq_ok_iff.1 h
  obtain ⟨initial, hinitial, h⟩ := bind_eq_ok_iff.1 h
  obtain ⟨jitter, -, h⟩ := bind_eq_ok_iff.1 h
  obtain ⟨attempts, hattempts, h⟩ := bind_eq_ok_iff.1 h
  obtain ⟨most, hmost, h⟩ := bind_eq_ok_iff.1 h
  obtain rfl := pure_eq_ok_iff.1 h
  have hconcurrency := (Stable.unsigned 64).fieldOr ⟨rfl, Nat.le_refl 0⟩ hconcurrency
  have hinitial := (Stable.unsigned 64).fieldOr ⟨rfl, Nat.le_refl 0⟩ hinitial
  have hattempts := (Stable.unsigned 32).fieldOr ⟨rfl, Nat.le_refl 0⟩ hattempts
  have hmost := (Stable.unsigned 64).fieldOr ⟨rfl, Nat.le_refl 0⟩ hmost
  have hjitter : asDouble (.number (.double jitter)) = .ok jitter := rfl
  refine ⟨_, rfl, ?_, by simp⟩
  refine bind_eq_ok (Decode.fieldOr_of_mem (by simp) hconcurrency.read (by simp)) ?_
  refine bind_eq_ok (Decode.fieldOr_of_mem (by simp) hinitial.read (by simp)) ?_
  refine bind_eq_ok (Decode.fieldOr_of_mem (by simp) hjitter (by simp)) ?_
  refine bind_eq_ok (Decode.fieldOr_of_mem (by simp) hattempts.read (by simp)) ?_
  exact bind_eq_ok (Decode.fieldOr_of_mem (by simp) hmost.read (by simp)) rfl

/-! ## Resources -/

theorem ExistingResource.stable : Stable ofJson toJson 2 := by
  refine Stable.record fun fields existing h => ?_
  obtain ⟨outputs, houtputs, h⟩ := bind_eq_ok_iff.1 h
  obtain ⟨providerId?, -, h⟩ := bind_eq_ok_iff.1 h
  obtain ⟨providerId, -, h⟩ := bind_eq_ok_iff.1 h
  obtain rfl := pure_eq_ok_iff.1 h
  have houtputs := Stable.attributes.fieldOr ⟨rfl, by decide⟩ houtputs
  refine ⟨_, rfl, ?_, by simpa using houtputs.nesting⟩
  refine bind_eq_ok (Decode.fieldOr_of_mem (by simp) houtputs.read (by simp)) ?_
  exact bind_eq_ok (Decode.field?_of_mem (by simp) (asString_string providerId) (by simp)) rfl

theorem Declaration.stable : Stable ofJson toJson 5 := by
  refine Stable.record fun fields d h => ?_
  obtain ⟨attributes, hattributes, h⟩ := bind_eq_ok_iff.1 h
  obtain ⟨dependsOn, -, h⟩ := bind_eq_ok_iff.1 h
  obtain ⟨existing, hexisting, h⟩ := bind_eq_ok_iff.1 h
  obtain ⟨expose, hexpose, h⟩ := bind_eq_ok_iff.1 h
  obtain ⟨id?, -, h⟩ := bind_eq_ok_iff.1 h
  obtain ⟨kind?, -, h⟩ := bind_eq_ok_iff.1 h
  obtain ⟨removalPolicy, -, h⟩ := bind_eq_ok_iff.1 h
  obtain ⟨id, -, h⟩ := bind_eq_ok_iff.1 h
  obtain ⟨kind, -, h⟩ := bind_eq_ok_iff.1 h
  obtain rfl := pure_eq_ok_iff.1 h
  have hattributes := (AttributeValue.stable.table.mono (by decide : 1 ≤ 4)).fieldOr
    ⟨rfl, by decide⟩ hattributes
  have hexisting := (ExistingResource.stable.mono (by decide : 2 ≤ 4)).optional hexisting
  have hexpose := Exposure.stable.optional hexpose
  refine ⟨_, rfl, ?_, ?_⟩
  · have hnodup : ∀ fields, toJson ⟨id, kind, attributes, dependsOn, existing, removalPolicy,
        expose⟩ = .object fields → (fields.map (·.1)).Nodup := by
      rintro _ ⟨⟩
      cases existing <;> cases expose <;> simp
    refine bind_eq_ok (Decode.fieldOr_of_mem (hnodup _ rfl) hattributes.read (by simp)) ?_
    refine bind_eq_ok (Decode.fieldOr_of_mem (hnodup _ rfl)
      (asStrings_ofStrings dependsOn) (by simp)) ?_
    refine bind_eq_ok (Decode.optional_of_option (hnodup _ rfl)
      (fun existing h => (hexisting existing h).read) (fun _ _ => nofun)
      (fun existing h => by simpa using ⟨existing, h, rfl⟩) (by simp +contextual)) ?_
    refine bind_eq_ok (Decode.optional_of_option (hnodup _ rfl)
      (fun expose h => (hexpose expose h).read) (fun _ _ => nofun)
      (fun expose h => by simpa using ⟨expose, h, rfl⟩) (by simp +contextual)) ?_
    refine bind_eq_ok (Decode.field?_of_mem (hnodup _ rfl) (asString_string id) (by simp)) ?_
    refine bind_eq_ok (Decode.field?_of_mem (hnodup _ rfl) kind.ofJson_toJson (by simp)) ?_
    exact bind_eq_ok (Decode.fieldOr_of_mem (hnodup _ rfl)
      removalPolicy.ofJson_toJson (by simp)) rfl
  · have hdependsOn : (ofStrings dependsOn).nesting ≤ max (nestingOfFields fields) 4 :=
      Nat.le_trans (nesting_ofStrings_le dependsOn 0) (by omega)
    simp only [List.forall_mem_append, List.forall_mem_map, Option.mem_toList]
    refine ⟨⟨⟨?_, fun existing h => (hexisting existing h).nesting⟩, ?_⟩,
      fun expose h => (hexpose expose h).nesting⟩
    · simp only [List.forall_mem_cons]
      exact ⟨Nat.zero_le _, Nat.zero_le _, hattributes.nesting, hdependsOn, List.forall_mem_nil _⟩
    · simp [RemovalPolicy.toJson]

/-- Whether the values of a declaration can be written. -/
structure Declaration.IsStorable (d : Declaration) : Prop where
  attributes : ∀ value ∈ d.attributes.values, value.IsStorable
  outputs : ∀ existing ∈ d.existing, ∀ value ∈ existing.outputs.values, value.IsStorable

theorem ExistingResource.yields :
    Yields ofJson fun existing => ∀ value ∈ existing.outputs.values, value.IsStorable := by
  intro value existing h
  simp only [ofJson, bind_eq_ok_iff, pure_eq_ok_iff] at h
  obtain ⟨fields, -, outputs, houtputs, providerId?, -, providerId, -, rfl⟩ := h
  exact Yields.attributes.fieldOr (List.forall_mem_nil _) houtputs

theorem Declaration.yields : Yields ofJson IsStorable := by
  intro value d h
  simp only [ofJson, bind_eq_ok_iff, pure_eq_ok_iff] at h
  obtain ⟨fields, -, attributes, hattributes, dependsOn, -, existing, hexisting, expose, -, id?, -,
    kind?, -, removalPolicy, -, id, -, kind, -, rfl⟩ := h
  exact ⟨AttributeValue.yields.table.fieldOr (List.forall_mem_nil _) hattributes,
    ExistingResource.yields.optional hexisting⟩

namespace Stack

/-- The values of a stack that has been read can be written. -/
theorem yields : Yields ofJson fun s => ∀ d ∈ s.resources, d.IsStorable := by
  intro value s h
  simp only [ofJson, bind_eq_ok_iff, pure_eq_ok_iff] at h
  obtain ⟨fields, -, apply, -, project?, -, provider, -, resources, hresources, state, -,
    project, -, rfl⟩ := h
  exact Declaration.yields.list.fieldOr (List.forall_mem_nil _) hresources

/-- Whatever is read as a stack is read again from what is written of it. -/
theorem stable : Stable ofJson toJson 7 := by
  refine Stable.record fun fields s h => ?_
  obtain ⟨apply, happly, h⟩ := bind_eq_ok_iff.1 h
  obtain ⟨project?, hproject, h⟩ := bind_eq_ok_iff.1 h
  obtain ⟨provider, hprovider, h⟩ := bind_eq_ok_iff.1 h
  obtain ⟨resources, hresources, h⟩ := bind_eq_ok_iff.1 h
  obtain ⟨state, hstate, h⟩ := bind_eq_ok_iff.1 h
  obtain ⟨project, hneed, h⟩ := bind_eq_ok_iff.1 h
  obtain rfl := pure_eq_ok_iff.1 h
  have happly := (ApplySettings.stable.mono (by decide : 1 ≤ 6)).fieldOr ⟨rfl, by decide⟩ happly
  have hproject := (Project.stable.mono (by decide : 1 ≤ 6)).field? hproject hneed
  have hprovider :=
    (ProviderSettings.stable.mono (by decide : 1 ≤ 6)).fieldOr ⟨rfl, by decide⟩ hprovider
  have hresources := Declaration.stable.list.fieldOr ⟨rfl, by decide⟩ hresources
  have hstate := (StateSettings.stable.mono (by decide : 1 ≤ 6)).fieldOr ⟨rfl, by decide⟩ hstate
  refine ⟨_, rfl, ?_, ?_⟩
  · refine bind_eq_ok (Decode.fieldOr_of_mem (by simp) happly.read (by simp)) ?_
    refine bind_eq_ok (Decode.field?_of_mem (by simp) hproject.read (by simp)) ?_
    refine bind_eq_ok (Decode.fieldOr_of_mem (by simp) hprovider.read (by simp)) ?_
    refine bind_eq_ok (Decode.fieldOr_of_mem (by simp) hresources.read (by simp)) ?_
    exact bind_eq_ok (Decode.fieldOr_of_mem (by simp) hstate.read (by simp)) rfl
  · simp only [List.forall_mem_cons]
    exact ⟨hproject.nesting, hstate.nesting, hprovider.nesting, happly.nesting,
      hresources.nesting, List.forall_mem_nil _⟩

/-- A stack that has been read is read again from what is written of it, and from the text of that
if the numbers in it are read as they are written. -/
theorem ofJson_again {value : Json} {s : Stack} (h : ofJson value = .ok s) :
    ofJson s.toJson = .ok s ∧
      (s.toJson.IsLegible → value.nesting ≤ maxDepth →
        (Json.read? s.toJson.pretty).map ofJson = some (.ok s)) := by
  obtain ⟨hread, hnesting⟩ := stable value s h
  refine ⟨hread, fun hlegible hdepth => ?_⟩
  have hleast : 7 ≤ maxDepth := by decide
  rw [read?_pretty hlegible (Nat.le_trans hnesting (Nat.max_le.2 ⟨hdepth, hleast⟩)),
    Option.map_some, hread]

/-- A declaration with a reference among blanks, a map that only looks like one, and the three forms
of a port. -/
def shopDocument : Json :=
  .object [
    ("project", .object [("name", .string "shop")]),
    ("resources", .array [.object [
      ("id", .string "web"),
      ("kind", .string "service"),
      ("attributes", .object [
        ("network", .object [("ref", .string " net . id ")]),
        ("note", .object [("ref", .null)])]),
      ("expose", .object [
        ("container", .string "web"),
        ("network", .string "net"),
        ("security_group", .string "sg"),
        ("load_balancer", .string "lb"),
        ("ports", .array [.natural 80, .string "53 / UDP",
          .object [("port", .natural 443), ("health_check", .object [])]])])]])]

/-- What is read as of `shopDocument`. -/
def shopStack : Stack where
  project := { name := "shop" }
  resources := [{
    id := "web"
    kind := .service
    attributes := .ofList [
      ("network", .output "net" "id"), ("note", .map [("ref", .literal .null)])]
    expose := some {
      container := "web", network := "net", securityGroup := "sg", loadBalancer := "lb"
      ports := [{ number := 80 }, { number := 53, protocol := .udp },
        { number := 443, healthCheck := some {} }] } }]

theorem ofJson_shopDocument : ofJson shopDocument = .ok shopStack := by
  with_unfolding_all rfl

theorem legible_fifth : Legible (.double (.ofDecimal false 2 (-1))) := by
  have hrender : (Number.double (.ofDecimal false 2 (-1))).render = "0.2" := by decide +kernel
  have htext : takeNumber? "0.2".toList = some (⟨false, ['0'], some ['2'], none⟩, []) := rfl
  exact legible_of_render hrender htext (by decide +kernel)

theorem isLegible_shopStack : shopStack.toJson.IsLegible := by
  have hnatural : ∀ n ≤ 65535, (Json.natural n).IsLegible := fun n h =>
    isLegible_natural (Nat.le_trans h (by decide))
  have hjitter : (Json.number (.double (.ofDecimal false 2 (-1)))).IsLegible := legible_fifth
  simp [shopStack, toJson, Project.toJson, StateSettings.toJson, Backend.toJson, ofOption,
    ProviderSettings.toJson, ApplySettings.toJson, Declaration.toJson, Kind.toJson,
    RemovalPolicy.toJson, Exposure.toJson, Port.toJson, Protocol.toJson, HealthCheck.toJson,
    AttributeValue.output, AttributeValue.toJson, AttributeValue.entriesToJson, isLegible_object,
    isLegible_array, isLegible_ofStrings, isLegible_ofTable_ofList, hnatural, hjitter]

/-- The declaration is read again from what is written of it, and from the text of that. -/
theorem ofJson_again_shop : ofJson shopDocument = .ok shopStack ∧
    ofJson shopStack.toJson = .ok shopStack ∧
    (Json.read? shopStack.toJson.pretty).map ofJson = some (.ok shopStack) := by
  have hagain := ofJson_again ofJson_shopDocument
  exact ⟨ofJson_shopDocument, hagain.1, hagain.2 isLegible_shopStack (by decide)⟩

end Stack

end Converge
