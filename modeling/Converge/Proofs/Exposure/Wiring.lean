import Converge.Proofs.Stack.Check

/-!
# The wiring of exposed ports

Ports can be wired unless one of them is zero or comes twice, and the first such port is the one
that is complained of. Wired ports have three nodes each, in their order. Ids tell all of them
apart, so that every listener forwards to the target group of its own port and to no other.

Main statement: `Exposure.wires_ports`.
-/

namespace Converge

/-! ## Ids -/

namespace PortWiring

/-- The number of a port can be read off a text without digits that it follows. -/
theorem filter_isDigit {name : String} (hname : name.toList.filter Char.isDigit = []) (n : Nat) :
    (name ++ toString n).toList.filter Char.isDigit = Nat.toDigits 10 n := by
  have hdigits : ∀ c ∈ Nat.toDigits 10 n, c.isDigit = true :=
    fun c hc => Nat.isDigit_of_mem_toDigits (by decide) (by decide) hc
  have htext : (toString n).toList = Nat.toDigits 10 n := Nat.toList_repr
  rw [String.toList_append, htext, List.filter_append, hname, List.filter_eq_self.2 hdigits,
    List.nil_append]

theorem filter_isDigit_of_mem_idsOf {n : Nat} {id : String} (h : id ∈ idsOf n) :
    id.toList.filter Char.isDigit = Nat.toDigits 10 n := by
  simp only [idsOf, List.mem_cons, List.not_mem_nil, or_false] at h
  rcases h with rfl | rfl | rfl <;> exact filter_isDigit (by decide) n

/-- An id belongs to one port. -/
theorem eq_of_mem_idsOf {n m : Nat} {id : String} (hn : id ∈ idsOf n) (hm : id ∈ idsOf m) :
    n = m := by
  have hdigits : Nat.toDigits 10 n = Nat.toDigits 10 m :=
    (filter_isDigit_of_mem_idsOf hn).symm.trans (filter_isDigit_of_mem_idsOf hm)
  rw [← Nat.ofDigitChars_ten_toDigits (n := n), hdigits, Nat.ofDigitChars_ten_toDigits]

/-- The three ids of a port begin with three letters. -/
theorem nodup_idsOf (n : Nat) : (idsOf n).Nodup := by
  refine List.Nodup.of_map (fun id => id.toList.head?) ?_
  have hheads : (idsOf n).map (fun id => id.toList.head?) = [some 'T', some 'L', some 'I'] := by
    simp only [idsOf, List.map_cons, List.map_nil, targetGroupId, listenerId, ingressRuleId,
      String.toList_append]
    rfl
  rw [hheads]
  decide

theorem nodup_flatMap_idsOf {numbers : List Nat} (h : numbers.Nodup) :
    (numbers.flatMap idsOf).Nodup := by
  refine List.nodup_flatMap.2 ⟨fun n _ => nodup_idsOf n, h.imp fun hne id hn hm => ?_⟩
  exact hne (eq_of_mem_idsOf hn hm)

end PortWiring

namespace Exposure

variable {exposure : Exposure} {service : String} {e : ConfigError}

/-! ## Ports that cannot be wired -/

/-- What is said of the first port that cannot be wired: it is zero, or its number is taken by one
before it. -/
def Refuses (exposure : Exposure) (service : String) (e : ConfigError) : Prop :=
  ∃ before port after, exposure.ports = before ++ port :: after ∧
    { exposure with ports := before }.Wirable ∧
    (port.number = 0 ∧ e = .invalidPort s!"{service}: port 0" ∨
      port.number ≠ 0 ∧ port.number ∈ before.map (·.number) ∧
        e = .duplicatePort service port.number)

/-- Ports that can be wired do not keep those after them from being looked at. -/
theorem wirePorts_append {before : List Port} (rest : List Port) {seen : List Nat}
    (topology : PortTopology)
    (hports : ∀ other ∈ before, other.number ≠ 0 ∧ other.number ∉ seen)
    (hnodup : (before.map (·.number)).Nodup) :
    exposure.wirePorts service seen topology (before ++ rest) =
      exposure.wirePorts service ((before.map (·.number)).reverse ++ seen)
        ((before.map (exposure.wirePort service)).foldl PortTopology.push topology) rest := by
  induction before generalizing seen topology with
  | nil => rfl
  | cons port before ih =>
    obtain ⟨⟨hzero, hseen⟩, hports⟩ := List.forall_mem_cons.1 hports
    obtain ⟨hnew, hnodup⟩ := List.nodup_cons.1 hnodup
    rw [List.cons_append, wirePorts, if_neg hzero, if_neg (by simpa using hseen), ih _ _ hnodup]
    · simp
    · intro other hother
      refine ⟨(hports other hother).1, fun hmem => ?_⟩
      rcases List.mem_cons.1 hmem with heq | hmem
      · exact hnew (List.mem_map.2 ⟨other, hother, heq⟩)
      · exact (hports other hother).2 hmem

/-- A port that cannot be wired comes after some that can. -/
theorem exists_of_wirePorts_eq_error {seen : List Nat} {ports : List Port} {topology : PortTopology}
    (h : exposure.wirePorts service seen topology ports = .error e) :
    ∃ before port after, ports = before ++ port :: after ∧
      (∀ other ∈ before, other.number ≠ 0 ∧ other.number ∉ seen) ∧
      (before.map (·.number)).Nodup ∧
      (port.number = 0 ∧ e = .invalidPort s!"{service}: port 0" ∨
        port.number ≠ 0 ∧ (port.number ∈ before.map (·.number) ∨ port.number ∈ seen) ∧
          e = .duplicatePort service port.number) := by
  induction ports generalizing seen topology with
  | nil => cases h
  | cons first rest ih =>
    rw [wirePorts] at h
    split at h
    · next hzero =>
      exact ⟨[], first, rest, rfl, List.forall_mem_nil _, .nil,
        .inl ⟨hzero, (Except.error.inj h).symm⟩⟩
    · next hpos =>
      split at h
      · next hseen =>
        exact ⟨[], first, rest, rfl, List.forall_mem_nil _, .nil,
          .inr ⟨hpos, .inr (by simpa using hseen), (Except.error.inj h).symm⟩⟩
      · next hseen =>
        obtain ⟨before, port, after, rfl, hbefore, hnodup, hport⟩ := ih h
        refine ⟨first :: before, port, after, rfl, ?_, ?_, ?_⟩
        · refine List.forall_mem_cons.2 ⟨⟨hpos, by simpa using hseen⟩, fun other hother => ?_⟩
          exact ⟨(hbefore other hother).1, fun hmem =>
            (hbefore other hother).2 (List.mem_cons_of_mem _ hmem)⟩
        · refine List.nodup_cons.2 ⟨fun hmem => ?_, hnodup⟩
          obtain ⟨other, hother, heq⟩ := List.mem_map.1 hmem
          exact (hbefore other hother).2 (heq ▸ List.mem_cons_self ..)
        · refine hport.imp_right (And.imp_right (And.imp_left ?_))
          simp only [List.map_cons, List.mem_cons]
          tauto

theorem derivedNodes_eq_error_iff :
    exposure.derivedNodes service = .error e ↔ exposure.Refuses service e := by
  have hwire : exposure.derivedNodes service = .error e ↔
      exposure.wirePorts service [] {} exposure.ports = .error e := by
    rw [derivedNodes, bind_eq_error_iff]
    refine ⟨fun h => h.resolve_right ?_, .inl⟩
    rintro ⟨_, _, hpure⟩
    exact pure_ne_error hpure
  rw [hwire]
  constructor
  · intro h
    obtain ⟨before, port, after, hports, hbefore, hnodup, hport⟩ := exists_of_wirePorts_eq_error h
    refine ⟨before, port, after, hports, ⟨fun other hother => (hbefore other hother).1, hnodup⟩, ?_⟩
    exact hport.imp_right (And.imp_right (And.imp_left (·.resolve_right List.not_mem_nil)))
  · rintro ⟨before, port, after, hports, ⟨hbefore, hnodup⟩, hport⟩
    have hfirst : ∀ other ∈ before, other.number ≠ 0 ∧ other.number ∉ [] :=
      fun other hother => ⟨hbefore other hother, List.not_mem_nil⟩
    rw [hports, wirePorts_append _ _ hfirst hnodup, wirePorts]
    rcases hport with ⟨hzero, rfl⟩ | ⟨hpos, hmem, rfl⟩
    · rw [if_pos hzero]
    · rw [if_neg hpos, if_pos (by simpa using hmem)]

/-! ## Ports that are wired -/

/-- The nodes of ports that are wired. -/
structure Wires (exposure : Exposure) (service : String) (nodes : List Node) : Prop where
  /-- For each port, in order, there are three nodes. -/
  grouped : nodes = exposure.ports.flatMap fun port =>
    [exposure.targetGroup service port, exposure.listener port, exposure.ingressRule port]
  length_eq : nodes.length = 3 * exposure.ports.length
  nodup_ids : (nodes.map (·.id)).Nodup
  /-- A listener has the port and the protocol of its target group. -/
  alike : ∀ port ∈ exposure.ports, ∀ name ∈ ["port", "protocol"], ∃ value,
    (exposure.listener port).attributes.get? name = some value ∧
      (exposure.targetGroup service port).attributes.get? name = some value
  /-- A listener forwards to the target group of its port and to no other node. -/
  forwards : ∀ port ∈ exposure.ports, ∀ node ∈ nodes,
    (exposure.listener port).attributes.get? "default_target_group" = some (.output node.id "arn") ↔
      node = exposure.targetGroup service port
  /-- Nodes refer to the service, to what the exposure names, and to target groups among them. -/
  closed : ∀ node ∈ nodes, ∀ id ∈ node.dependencyIds,
    id ∈ [service, exposure.network, exposure.securityGroup, exposure.loadBalancer] ∨
      ∃ port ∈ exposure.ports, (exposure.targetGroup service port).id = id

theorem nodup_ids_portNodes (h : exposure.Wirable) :
    ((exposure.portNodes service).map (·.id)).Nodup := by
  have hids : (exposure.portNodes service).map (·.id) =
      (exposure.ports.map (·.number)).flatMap PortWiring.idsOf := by
    rw [portNodes, List.map_flatMap, List.flatMap_map]
    rfl
  rw [hids]
  exact PortWiring.nodup_flatMap_idsOf h.2

theorem get?_listener {port : Port} {name : String} {value : AttributeValue}
    (h : (name, value) ∈ [
      ("default_target_group", .output (PortWiring.targetGroupId port.number) "arn"),
      ("load_balancer", .output exposure.loadBalancer "arn"),
      ("port", .natural port.number),
      ("protocol", .text port.protocol.display)]) :
    (exposure.listener port).attributes.get? name = some value :=
  Table.get?_ofList (by simp) h

theorem get?_targetGroup {port : Port} {name : String} {value : AttributeValue}
    (h : (name, value) ∈ [
      ("network", .output exposure.network "id"),
      ("port", .natural port.number),
      ("protocol", .text port.protocol.display)]) :
    (exposure.targetGroup service port).attributes.get? name = some value := by
  refine Table.get?_ofList ?_ ?_
  · cases port.healthCheck <;> simp
  · exact List.mem_append_left _ (List.mem_append_left [_, _] h)

theorem wires_of_wirable (h : exposure.Wirable) :
    exposure.Wires service (exposure.portNodes service) where
  grouped := rfl
  length_eq := by
    rw [portNodes, List.length_flatMap]
    simp [PortWiring.nodes, Nat.mul_comm]
  nodup_ids := nodup_ids_portNodes h
  alike port _ name hname := by
    rcases List.mem_pair.1 hname with rfl | rfl
    · exact ⟨.natural port.number, get?_listener (by simp), get?_targetGroup (by simp)⟩
    · exact ⟨.text port.protocol.display, get?_listener (by simp), get?_targetGroup (by simp)⟩
  forwards port hport node hnode := by
    rw [get?_listener (List.mem_cons_self ..)]
    constructor
    · intro heq
      have hid : (exposure.targetGroup service port).id = node.id := by
        injection heq with heq
        injection heq with heq
        exact (Reference.mk.inj heq).1
      exact (List.inj_on_of_nodup_map (nodup_ids_portNodes h) (targetGroup_mem_portNodes hport)
        hnode hid).symm
    · rintro rfl
      rfl
  closed node hnode id hid := by
    rcases mem_dependencyIds_portNodes hnode hid with rfl | hpeer | hport
    · exact .inl (List.mem_cons_self ..)
    · exact .inl (List.mem_cons_of_mem _ hpeer)
    · exact .inr hport

/-- Nodes are derived from ports just if none of them is zero and none comes twice. Else the first
that is wrong is refused. -/
theorem wires_ports (exposure : Exposure) (service : String) :
    ((∃ nodes, exposure.derivedNodes service = .ok nodes) ↔ exposure.Wirable) ∧
    (∀ e, exposure.derivedNodes service = .error e ↔ exposure.Refuses service e) ∧
    ∀ nodes, exposure.derivedNodes service = .ok nodes → exposure.Wires service nodes := by
  refine ⟨?_, fun e => derivedNodes_eq_error_iff, fun nodes hnodes => ?_⟩
  · simp [derivedNodes_eq_ok_iff]
  · obtain ⟨hwirable, rfl⟩ := derivedNodes_eq_ok_iff.1 hnodes
    exact wires_of_wirable hwirable

/-- A service that streams over two ports. -/
def streaming : Exposure where
  container := "stream"
  network := "Vpc"
  securityGroup := "Firewall"
  loadBalancer := "Balancer"
  ports := [
    { number := 1935, protocol := .tcp },
    { number := 8080, protocol := .http, healthCheck := some {} }]

/-- The same service, with its first port once more, and zero after that. -/
def overstreaming : Exposure :=
  { streaming with ports := streaming.ports ++ [{ number := 1935 }, { number := 0 }] }

/-- The service has six nodes. The other is refused for the port that comes twice. -/
theorem wires_ports_streaming :
    (∃ nodes, streaming.derivedNodes "Stream" = .ok nodes ∧ streaming.Wires "Stream" nodes ∧
      nodes.map (·.id) = ["TargetGroup1935", "Listener1935", "IngressRule1935",
        "TargetGroup8080", "Listener8080", "IngressRule8080"]) ∧
    overstreaming.derivedNodes "Stream" = .error (.duplicatePort "Stream" 1935) := by
  obtain ⟨hok, -, hwires⟩ := wires_ports streaming "Stream"
  obtain ⟨-, hrefused, -⟩ := wires_ports overstreaming "Stream"
  obtain ⟨nodes, hnodes⟩ := hok.2 ⟨by decide, by decide⟩
  refine ⟨⟨nodes, hnodes, hwires nodes hnodes, ?_⟩, (hrefused _).2 ?_⟩
  · rw [(hwires nodes hnodes).grouped]
    decide +kernel
  · exact ⟨streaming.ports, _, _, rfl, ⟨by decide, by decide⟩, .inr ⟨by decide, by decide, rfl⟩⟩

end Exposure

end Converge
