import Converge.Proofs.Fingerprint
import Converge.Proofs.Plan.Persistence
import Converge.Proofs.Resource.Alike

/-!
# Fingerprints of graphs

As far as the digest tells texts apart, the fingerprint of a graph gives its nodes away, in the order
in which they were declared: every field of every node, numbers as they are written, references
unless a point in an id lets two of them look the same. A checked stack has no such id.

Main statement: `Graph.fingerprint_eq_iff`.
-/

namespace Converge

/-! ## Built nodes are proper -/

theorem Node.isProper_of_ofList {n : Node} {entries : List (String × AttributeValue)}
    (hattributes : n.attributes = .ofList entries) (hlifecycle : n.lifecycle = .managed)
    (h : ∀ entry ∈ entries, entry.2.IsProper) : n.IsProper where
  attributes := hattributes ▸ Table.forall_mem_values_ofList h
  outputs := fun hexisting => nomatch hlifecycle.symm.trans hexisting

open AttributeValue (isProper_text isProper_natural) in
/-- The nodes of ports are proper, whatever ids they refer to. -/
theorem Exposure.isProper_of_mem_portNodes {exposure : Exposure} {service : String} {node : Node}
    (hnode : node ∈ exposure.portNodes service) : node.IsProper := by
  have houtput : ∀ id name, (AttributeValue.output id name).IsProper := fun id name => .reference _
  obtain ⟨port, -, hnode⟩ := List.mem_flatMap.1 hnode
  simp only [wirePort, PortWiring.nodes, List.mem_cons, List.not_mem_nil, or_false] at hnode
  rcases hnode with rfl | rfl | rfl
  · have hcheck : ∀ check, (PortWiring.healthCheck port.number check).IsProper := fun check => by
      refine .map ?_ rfl
      simp only [List.forall_mem_cons]
      exact ⟨isProper_text _, isProper_natural _, isProper_text _, isProper_text _, isProper_text _,
        isProper_natural _, List.forall_mem_nil _⟩
    have htarget : (AttributeValue.map [
        ("container", .text exposure.container),
        ("port", .natural port.number),
        ("service", .output service "id")]).IsProper := by
      refine .map ?_ rfl
      simp only [List.forall_mem_cons]
      exact ⟨isProper_text _, isProper_natural _, houtput _ _, List.forall_mem_nil _⟩
    refine Node.isProper_of_ofList rfl rfl (List.forall_mem_append.2 ⟨?_, ?_⟩)
    · simp only [List.forall_mem_cons]
      exact ⟨houtput _ _, isProper_natural _, isProper_text _, htarget, isProper_text _,
        List.forall_mem_nil _⟩
    · exact List.forall_mem_map.2 fun check _ => hcheck check
  · refine Node.isProper_of_ofList rfl rfl ?_
    simp only [List.forall_mem_cons]
    exact ⟨houtput _ _, houtput _ _, isProper_natural _, isProper_text _, List.forall_mem_nil _⟩
  · refine Node.isProper_of_ofList rfl rfl ?_
    simp only [List.forall_mem_cons]
    exact ⟨isProper_text _, isProper_natural _, isProper_text _, houtput _ _, isProper_text _,
      isProper_natural _, List.forall_mem_nil _⟩

theorem Declaration.isProper_of_mem_nodes {d : Declaration} (h : d.IsStorable) {node : Node}
    (hnode : node ∈ d.nodes) : node.IsProper := by
  rcases List.mem_cons.1 hnode with rfl | hport
  · refine ⟨fun value hvalue => (h.attributes value hvalue).isProper, fun hlifecycle => ?_⟩
    unfold Declaration.node at hlifecycle
    dsimp only at hlifecycle
    split at hlifecycle
    · next existing hexisting =>
      cases hlifecycle
      exact fun value hvalue => (h.outputs existing hexisting value hvalue).isFinite
    · cases hlifecycle
  · cases hexpose : d.expose with
    | none =>
      rw [hexpose] at hport
      cases hport
    | some exposure =>
      rw [hexpose] at hport
      exact Exposure.isProper_of_mem_portNodes hport

namespace Graph

variable {g g' : Graph} {value : Json} {s : Stack}

theorem isProper_of_mem_nodes (hs : Stack.ofJson value = .ok s) (hg : ofStack s = .ok g) :
    ∀ node ∈ g.nodes, node.IsProper := by
  intro node hnode
  rw [nodes_ofDeclarations hg] at hnode
  obtain ⟨d, hd, hnode⟩ := List.mem_flatMap.1 hnode
  exact Declaration.isProper_of_mem_nodes (Stack.yields value s hs d hd) hnode

/-- Where ids can stand in references, no reference of a graph has a point in its id. -/
theorem noPoint_of_namesPlainly (hs : Stack.ofJson value = .ok s) (hnames : s.NamesPlainly)
    (hg : ofStack s = .ok g) {node : Node} (hnode : node ∈ g.nodes) {r : Reference}
    (hr : r ∈ node.references) : '.' ∉ r.nodeId.toList := by
  rw [nodes_ofDeclarations hg] at hnode
  obtain ⟨d, hd, hnode⟩ := List.mem_flatMap.1 hnode
  have hstorable := Declaration.isStorable_of_mem_nodes (Stack.yields value s hs d hd)
    (hnames d hd) hnode
  obtain ⟨a, ha, hr⟩ := List.mem_flatMap.1 hr
  exact ((hstorable.attributes a ha).isPlain hr).node.noPoint

/-! ## The fingerprint -/

/-- The document that lists the nodes of a graph in their order. -/
def document (g : Graph) : Json := .array (g.nodes.map Node.toJson)

/-- The documents of the nodes as they are written, in their order. -/
def writtenNodes (g : Graph) : List String := g.nodes.map fun node => node.toJson.compact

theorem fingerprint_eq (g : Graph) : Fingerprint.ofGraph g = Fingerprint.ofTexts g.writtenNodes := by
  rw [Fingerprint.ofGraph, Fingerprint.ofTexts, writtenNodes, List.map_map]
  rfl

theorem isFinite_of_mem_map (hg : ∀ node ∈ g.nodes, node.IsProper) :
    ∀ value ∈ g.nodes.map Node.toJson, value.isFinite = true :=
  List.forall_mem_map.2 fun node hnode => (hg node hnode).isFinite

theorem isFinite_document (hg : ∀ node ∈ g.nodes, node.IsProper) : g.document.isFinite = true := by
  rw [document, Json.isFinite, Json.areFinite_iff]
  exact isFinite_of_mem_map hg

section Proper

variable (hg : ∀ node ∈ g.nodes, node.IsProper) (hg' : ∀ node ∈ g'.nodes, node.IsProper)

include hg hg'

/-- Proper nodes are written the same, each by itself, just if the lists of them are. -/
theorem writtenNodes_eq_iff :
    g.writtenNodes = g'.writtenNodes ↔ g.document.compact = g'.document.compact := by
  rw [Json.compact_eq_iff (isFinite_document hg) (isFinite_document hg'), document, document,
    Json.alike_array_iff, ← Json.map_compact_eq_iff (isFinite_of_mem_map hg) (isFinite_of_mem_map hg'),
    List.map_map, List.map_map]
  rfl

/-- Proper nodes are written the same just if they are alike. -/
theorem compact_document_eq_iff {R : Reference → Reference → Prop}
    (hR : ∀ node ∈ g.nodes, ∀ node' ∈ g'.nodes, Reference.AsWritten R node.references node'.references) :
    g.document.compact = g'.document.compact ↔ List.Forall₂ (Node.Alike R) g.nodes g'.nodes := by
  rw [Json.compact_eq_iff (isFinite_document hg) (isFinite_document hg'), document, document,
    Json.alike_array_iff, List.forall₂_map_left_iff, List.forall₂_map_right_iff]
  exact forall₂_congr_of_mem fun node hnode node' hnode' =>
    Node.alike_toJson_iff (hg node hnode) (hg' node' hnode') (hR node hnode node' hnode')

end Proper

/-- Two graphs that have been built from what was read from documents have the same fingerprint just
if their nodes are written the same, and then every node of the one is that of the other, but for
numbers that are written alike and references that look the same. In checked stacks only the same
references look the same. -/
theorem fingerprint_eq_iff {value' : Json} {s' : Stack} (hs : Stack.ofJson value = .ok s)
    (hs' : Stack.ofJson value' = .ok s') (hg : ofStack s = .ok g) (hg' : ofStack s' = .ok g')
    (h : Sha256.NoCollision
      (Fingerprint.hashedTexts g.writtenNodes ++ Fingerprint.hashedTexts g'.writtenNodes)) :
    (Fingerprint.ofGraph g = Fingerprint.ofGraph g' ↔ g.document.compact = g'.document.compact) ∧
    (g.document.compact = g'.document.compact ↔
      List.Forall₂ (Node.Alike Reference.Alike) g.nodes g'.nodes) ∧
    (s.check.errors = [] → s'.check.errors = [] →
      (g.document.compact = g'.document.compact ↔
        List.Forall₂ (Node.Alike (· = ·)) g.nodes g'.nodes)) := by
  have hproper := isProper_of_mem_nodes hs hg
  have hproper' := isProper_of_mem_nodes hs' hg'
  refine ⟨?_, ?_, fun hvalid hvalid' => ?_⟩
  · rw [fingerprint_eq, fingerprint_eq, Fingerprint.ofTexts_inj h,
      writtenNodes_eq_iff hproper hproper']
  · exact compact_document_eq_iff hproper hproper' fun _ _ _ _ => Reference.asWritten_alike _ _
  · have hnames := Stack.namesPlainly_of_check hvalid
    have hnames' := Stack.namesPlainly_of_check hvalid'
    exact compact_document_eq_iff hproper hproper' fun node hnode node' hnode' =>
      Reference.asWritten_eq (fun r hr => noPoint_of_namesPlainly hs hnames hg hnode hr)
        fun q hq => noPoint_of_namesPlainly hs' hnames' hg' hnode' hq

/-- A log sink and what becomes of it once it is no longer declared. -/
def logsStack (policy : RemovalPolicy) : Stack where
  project := { name := "shop" }
  resources := [{ id := "logs", kind := .logSink, removalPolicy := policy }]

theorem ofJson_logsStack (policy : RemovalPolicy) :
    Stack.ofJson (logsStack policy).toJson = .ok (logsStack policy) := by
  cases policy <;> with_unfolding_all rfl

/-- The log sink as it is written. -/
def writtenLogs (policy : RemovalPolicy) : String :=
  "\x7b\"id\":\"logs\",\"kind\":\"log_sink\",\"attributes\":\x7b\x7d,\"depends_on\":[]," ++
    "\"lifecycle\":\"managed\",\"removal_policy\":\"" ++ policy.name ++ "\"\x7d"

theorem exists_logs (policy : RemovalPolicy) : ∃ g, ofStack (logsStack policy) = .ok g ∧
    g.nodes = [{ id := "logs", kind := .logSink, removalPolicy := policy }] ∧
    g.writtenNodes = [writtenLogs policy] := by
  have hbuilt : (ofStack (logsStack policy)).toOption.isSome = true := by
    cases policy <;> decide +kernel
  obtain ⟨g, hg⟩ := Option.isSome_iff_exists.1 hbuilt
  rw [toOption_eq_some_iff] at hg
  have hnodes := nodes_ofDeclarations hg
  refine ⟨g, hg, hnodes, ?_⟩
  rw [writtenNodes, hnodes]
  cases policy <;> decide +kernel

/-- The digests of what is written of two log sinks, and of these digests, are four different ones. -/
theorem noCollision_logs : Sha256.NoCollision (Fingerprint.hashedTexts [writtenLogs .retain] ++
    Fingerprint.hashedTexts [writtenLogs .destroy]) := by
  have hretain : Sha256.hexOfString (writtenLogs .retain) =
      "fdd5111e6b55d14e7460a9f130fbc40df2b0d76db33054140c589ebb2be0dfc0" := by decide +kernel
  have hdestroy : Sha256.hexOfString (writtenLogs .destroy) =
      "6cb8f2431f39f3e85b358032b7378727f3fbb28ee28a6221d376965084c7878c" := by decide +kernel
  have hretain' : Sha256.hexOfString
      "fdd5111e6b55d14e7460a9f130fbc40df2b0d76db33054140c589ebb2be0dfc0" =
      "c32c1bd82959346aa8afc73138dfac3343e73ab1c94e5cfd6705d4e1875e54bd" := by decide +kernel
  have hdestroy' : Sha256.hexOfString
      "6cb8f2431f39f3e85b358032b7378727f3fbb28ee28a6221d376965084c7878c" =
      "e0c5cae2fa1712cd37994fe4a0391ac10df3b4510d53a91406241e8a873429f5" := by decide +kernel
  refine .of_nodup ?_
  simp only [Fingerprint.hashedTexts, List.map_cons, List.map_nil, List.cons_append, List.nil_append,
    String.join_cons, String.join_nil, String.append_empty, hretain, hdestroy, hretain', hdestroy']
  decide

/-- A log sink that is kept and one that is deleted have different fingerprints. -/
theorem fingerprint_eq_iff_logs : ∃ g g', ofStack (logsStack .retain) = .ok g ∧
    ofStack (logsStack .destroy) = .ok g' ∧ Fingerprint.ofGraph g ≠ Fingerprint.ofGraph g' := by
  obtain ⟨g, hg, hnodes, hwritten⟩ := exists_logs .retain
  obtain ⟨g', hg', hnodes', hwritten'⟩ := exists_logs .destroy
  refine ⟨g, g', hg, hg', fun hsame => ?_⟩
  obtain ⟨hdocuments, halike, -⟩ := fingerprint_eq_iff (ofJson_logsStack _) (ofJson_logsStack _)
    hg hg' (by rw [hwritten, hwritten']; exact noCollision_logs)
  have hnode := halike.1 (hdocuments.1 hsame)
  rw [hnodes, hnodes'] at hnode
  exact absurd (List.forall₂_cons.1 hnode).1.removalPolicy (by decide)

/-- A network, and a service with a point in its id that is its own network, security group and load
balancer. -/
def pointedStack : Stack where
  project := { name := "shop" }
  resources := [
    { id := "a", kind := .network },
    { id := "a.b", kind := .service
      expose := some {
        container := "app", network := "a.b", securityGroup := "a.b", loadBalancer := "a.b"
        ports := [{ number := 80 }] } }]

/-- The nodes of `pointedStack`, those of its port declared by what is written of them: then the point
leaves the network of the id of the service. -/
def redeclaredStack : Stack where
  project := { name := "shop" }
  resources := [
    { id := "a", kind := .network },
    { id := "a.b", kind := .service },
    { id := "TargetGroup80", kind := .targetGroup
      attributes := .ofList [
        ("network", .output "a" "b.id"), ("port", .natural 80), ("protocol", .text "TCP"),
        ("target", .map [
          ("container", .text "app"), ("port", .natural 80), ("service", .output "a" "b.id")]),
        ("target_type", .text "ip")] },
    { id := "Listener80", kind := .listener
      attributes := .ofList [
        ("default_target_group", .output "TargetGroup80" "arn"),
        ("load_balancer", .output "a" "b.arn"), ("port", .natural 80), ("protocol", .text "TCP")] },
    { id := "IngressRule80", kind := .ingressRule
      attributes := .ofList [
        ("description", .text "Allow port 80 traffic"), ("from_port", .natural 80),
        ("protocol", .text "tcp"), ("security_group", .output "a" "b.id"),
        ("source", .text "0.0.0.0/0"), ("to_port", .natural 80)] }]

/-- Both stacks are read from documents and have graphs whose nodes are written the same, with the
same fingerprint; but the nodes of the port refer to different resources. -/
theorem fingerprint_eq_pointed :
    Stack.ofJson pointedStack.toJson = .ok pointedStack ∧
    Stack.ofJson redeclaredStack.toJson = .ok redeclaredStack ∧
    ∃ g g', ofStack pointedStack = .ok g ∧ ofStack redeclaredStack = .ok g' ∧
      g.document.compact = g'.document.compact ∧
      Fingerprint.ofGraph g = Fingerprint.ofGraph g' ∧
      g.nodes.map Node.references ≠ g'.nodes.map Node.references := by
  have hbuilt : (ofStack pointedStack).toOption.isSome = true := by decide +kernel
  have hbuilt' : (ofStack redeclaredStack).toOption.isSome = true := by decide +kernel
  obtain ⟨g, hg⟩ := Option.isSome_iff_exists.1 hbuilt
  obtain ⟨g', hg'⟩ := Option.isSome_iff_exists.1 hbuilt'
  rw [toOption_eq_some_iff] at hg hg'
  have hdocuments : g.nodes.map Node.toJson = g'.nodes.map Node.toJson := by
    rw [nodes_ofDeclarations hg, nodes_ofDeclarations hg']
    with_unfolding_all rfl
  have hwritten : g.writtenNodes = g'.writtenNodes := by
    have hcompact := congrArg (List.map Json.compact) hdocuments
    rw [List.map_map, List.map_map] at hcompact
    exact hcompact
  refine ⟨by with_unfolding_all rfl, by with_unfolding_all rfl, g, g', hg, hg', ?_, ?_, ?_⟩
  · rw [document, document, hdocuments]
  · rw [fingerprint_eq, fingerprint_eq, hwritten]
  · rw [nodes_ofDeclarations hg, nodes_ofDeclarations hg']
    decide +kernel

end Graph

end Converge
