import Converge.Proofs.Resource.Alike
import Converge.Proofs.Stack.Document

/-!
# Declarations told apart by their documents

The document of a declaration gives the declaration away, with all that it exposes, but for numbers
among its attributes and outputs that are written alike.

Main statement: `Declaration.alike_toJson_iff`.
-/

namespace Converge

@[simp] theorem Json.alike_natural_iff {n m : Nat} : (natural n).Alike (natural m) ↔ n = m := by
  constructor
  · intro h
    cases h with | number text =>
    have hdigits := congrArg String.toList text
    rw [Number.render, Number.render, toList_toString, toList_toString, if_pos (Int.natCast_nonneg n),
      if_pos (Int.natCast_nonneg m), Int.toNat_natCast, Int.toNat_natCast] at hdigits
    rw [← Nat.ofDigitChars_ten_toDigits (n := n), hdigits, Nat.ofDigitChars_ten_toDigits]
  · rintro rfl
    exact .number rfl

/-! ## Exposed ports -/

theorem Protocol.alike_toJson_iff {protocol protocol' : Protocol} :
    protocol.toJson.Alike protocol'.toJson ↔ protocol = protocol' := by
  rw [toJson, toJson, Json.alike_string_iff]
  cases protocol <;> cases protocol' <;> decide

theorem HealthCheck.alike_toJson_iff {check check' : HealthCheck} :
    check.toJson.Alike check'.toJson ↔ check = check' := by
  obtain ⟨path, codes, interval, timeout⟩ := check
  obtain ⟨path', codes', interval', timeout'⟩ := check'
  simp [toJson, sameName_iff]

theorem Port.alike_toJson_iff {port port' : Port} :
    port.toJson.Alike port'.toJson ↔ port = port' := by
  obtain ⟨number, protocol, description, check⟩ := port
  obtain ⟨number', protocol', description', check'⟩ := port'
  cases check <;> cases check' <;>
    simp [toJson, sameName_iff, Protocol.alike_toJson_iff, HealthCheck.alike_toJson_iff]

theorem Exposure.alike_toJson_iff {exposure exposure' : Exposure} :
    exposure.toJson.Alike exposure'.toJson ↔ exposure = exposure' := by
  obtain ⟨container, network, securityGroup, loadBalancer, ports⟩ := exposure
  obtain ⟨container', network', securityGroup', loadBalancer', ports'⟩ := exposure'
  simp [toJson, sameName_iff, Port.alike_toJson_iff]

theorem Exposure.isFinite_toJson (exposure : Exposure) : exposure.toJson.isFinite = true := by
  have hport : ∀ port : Port, port.toJson.isFinite = true := by
    rintro ⟨number, protocol, description, check⟩
    cases check <;> rfl
  have hports : (Json.array (exposure.ports.map Port.toJson)).isFinite = true := by
    rw [Json.isFinite, Json.areFinite_iff]
    exact List.forall_mem_map.2 fun port _ => hport port
  rw [toJson, Json.isFinite, Json.fieldsAreFinite_iff]
  simp only [List.forall_mem_cons]
  exact ⟨rfl, rfl, rfl, rfl, hports, List.forall_mem_nil _⟩

/-! ## Declarations -/

/-- Whether two resources that are looked up have the same id, and outputs that are alike. -/
structure ExistingResource.Alike (r q : ExistingResource) : Prop where
  providerId : r.providerId = q.providerId
  outputs : Attributes.Alike r.outputs q.outputs

theorem ExistingResource.alike_toJson_iff {r q : ExistingResource} :
    r.toJson.Alike q.toJson ↔ r.Alike q := by
  have hfields : r.toJson.Alike q.toJson ↔
      r.providerId = q.providerId ∧ Attributes.Alike r.outputs q.outputs := by
    simp [toJson, sameName_iff, Json.ofAttributes, Attributes.Alike]
  rw [hfields]
  constructor
  · rintro ⟨hid, houtputs⟩
    exact ⟨hid, houtputs⟩
  · rintro ⟨hid, houtputs⟩
    exact ⟨hid, houtputs⟩

namespace Declaration

/-- Whether two declarations are the same in every field, but for numbers that are written alike. -/
structure Alike (d e : Declaration) : Prop where
  id : d.id = e.id
  kind : d.kind = e.kind
  attributes : Declared.Alike (· = ·) d.attributes e.attributes
  dependsOn : d.dependsOn = e.dependsOn
  existing : Option.Rel ExistingResource.Alike d.existing e.existing
  removalPolicy : d.removalPolicy = e.removalPolicy
  expose : d.expose = e.expose

variable {d e : Declaration}

theorem IsStorable.asWritten (hd : d.IsStorable) (he : e.IsStorable) :
    Reference.AsWritten (· = ·) d.attributes.references e.attributes.references := by
  have hplain {d : Declaration} (hd : d.IsStorable) :
      ∀ r ∈ d.attributes.references, '.' ∉ r.nodeId.toList := by
    intro r hr
    obtain ⟨value, hvalue, hr⟩ := List.mem_flatMap.1 hr
    exact ((hd.attributes value hvalue).isPlain hr).node.noPoint
  exact Reference.asWritten_eq (hplain hd) (hplain he)

theorem IsStorable.isFinite (hd : d.IsStorable) : d.toJson.isFinite = true := by
  have hattributes := Declared.isFinite_ofTable fun value hvalue => (hd.attributes value hvalue).isProper
  have hexisting : ∀ existing ∈ d.existing, existing.toJson.isFinite = true := by
    intro existing hexisting
    have houtputs := Attributes.isFinite_ofAttributes fun value hvalue =>
      (hd.outputs existing hexisting value hvalue).isFinite
    rw [ExistingResource.toJson, Json.isFinite, Json.fieldsAreFinite_iff]
    simp only [List.forall_mem_cons]
    exact ⟨rfl, houtputs, List.forall_mem_nil _⟩
  rw [toJson, Json.isFinite, Json.fieldsAreFinite_iff]
  simp only [List.forall_mem_append, List.forall_mem_cons, List.forall_mem_map, Option.mem_toList]
  exact ⟨⟨⟨⟨rfl, rfl, hattributes, Json.isFinite_ofStrings _, List.forall_mem_nil _⟩, hexisting⟩,
    ⟨rfl, List.forall_mem_nil _⟩⟩, fun exposure _ => exposure.isFinite_toJson⟩

/-- Declarations that can be stored have documents that are alike just if they are alike
themselves. -/
theorem alike_toJson_iff (hd : d.IsStorable) (he : e.IsStorable) :
    d.toJson.Alike e.toJson ↔ d.Alike e := by
  have hattributes := Declared.alike_ofTable_iff (fun value hvalue => (hd.attributes value hvalue).isProper)
    (fun value hvalue => (he.attributes value hvalue).isProper) (hd.asWritten he)
  have hfields : d.toJson.Alike e.toJson ↔ d.id = e.id ∧ d.kind = e.kind ∧
      Declared.Alike (· = ·) d.attributes e.attributes ∧ d.dependsOn = e.dependsOn ∧
      Option.Rel ExistingResource.Alike d.existing e.existing ∧ d.removalPolicy = e.removalPolicy ∧
      d.expose = e.expose := by
    cases hexisting : d.existing <;> cases hexisting' : e.existing <;>
    cases hexpose : d.expose <;> cases hexpose' : e.expose <;>
    simp [toJson, sameName_iff, hexisting, hexisting', hexpose, hexpose', hattributes, 
      Kind.alike_toJson_iff, Json.alike_ofStrings_iff, RemovalPolicy.alike_toJson_iff,
      ExistingResource.alike_toJson_iff, Exposure.alike_toJson_iff]
  rw [hfields]
  constructor
  · rintro ⟨hid, hkind, hattributes, hdependsOn, hexisting, hpolicy, hexpose⟩
    exact ⟨hid, hkind, hattributes, hdependsOn, hexisting, hpolicy, hexpose⟩
  · rintro ⟨hid, hkind, hattributes, hdependsOn, hexisting, hpolicy, hexpose⟩
    exact ⟨hid, hkind, hattributes, hdependsOn, hexisting, hpolicy, hexpose⟩

end Declaration

end Converge
