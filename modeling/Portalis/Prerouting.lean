import Portalis.Matching

/-!
# Destination translation

What a forwarding rule accepts, and that the prerouting rules compiled from it match exactly that.  A
plan entry is expanded into one kernel rule for each listen port and source block; over the whole
expansion the matches are those of the entry itself.

* `exists_prerouting_iff`: the rules of one plan entry.
* `exists_compiled_iff`: the prerouting rules of a whole table.
-/

namespace Portalis

open Octets RuleMachine Text

/-! ### What a rule accepts -/

def ListenAddress.Admits : ListenAddress → IpAddr → Prop
  | any, _ => True
  | address a, destination => destination = a

def InterfaceAdmits (interface : Option String) (name : InterfaceName) : Prop :=
  ∀ s, interface = some s → name.octets = utf8 s

def SourcesAdmit (cidrs : List IpNet) (source : IpAddr) : Prop :=
  cidrs = [] ∨ ∃ cidr ∈ cidrs, cidr.contains source = true

/-- A packet on the listen side of an enabled rule. -/
structure ForwardRule.Accepts (rule : ForwardRule) (packet : Packet) : Prop where
  family : rule.effectiveFamily.matchesAddress packet.daddr = true
  protocol : rule.protocols.has packet.protocol = true
  listenAddress : rule.listenAddress.Admits packet.daddr
  listenInterface : InterfaceAdmits rule.listenInterface packet.iifname
  source : SourcesAdmit rule.sourceCidrs packet.saddr
  port : rule.listenPort.Mem packet.dport

/-- The same for a plan entry, which is about one protocol. -/
structure RulePlan.Accepts (plan : RulePlan) (packet : Packet) : Prop where
  family : plan.family.matchesAddress packet.daddr = true
  protocol : packet.protocol = plan.protocol
  listenAddress : plan.listenAddress.Admits packet.daddr
  listenInterface : InterfaceAdmits plan.listenInterface packet.iifname
  source : SourcesAdmit plan.sourceCidrs packet.saddr
  port : plan.listenPort.Mem packet.dport

/-- A rule accepts a packet iff its plan entry for the packet's protocol exists and does. -/
theorem ForwardRule.accepts_iff {rule : ForwardRule} {packet : Packet} :
    rule.Accepts packet ↔
      ∃ p, rule.protocols.has p = true ∧ (rule.planFor p).Accepts packet := by
  constructor
  · intro h
    exact ⟨packet.protocol, h.protocol,
      { family := h.family, protocol := rfl, listenAddress := h.listenAddress
        listenInterface := h.listenInterface, source := h.source, port := h.port }⟩
  · rintro ⟨p, hp, h⟩
    have hproto : packet.protocol = p := h.protocol
    exact { family := h.family, protocol := hproto ▸ hp, listenAddress := h.listenAddress
            listenInterface := h.listenInterface, source := h.source, port := h.port }

/-- The port a packet for `dport` is sent to. -/
def RulePlan.portFor (plan : RulePlan) (dport : UInt16) : UInt16 :=
  if plan.targetPort.isSingle then plan.targetPort.start
  else plan.targetPort.start + (dport - plan.listenPort.start)

def RulePlan.translation (plan : RulePlan) (packet : Packet) : Translation :=
  .dnat plan.targetIp (some (plan.portFor packet.dport, plan.portFor packet.dport))

/-! ### Ports and sources of the expansion -/

theorem mem_portOffsets {ports : PortRange} {offset : UInt32} :
    offset ∈ portOffsets ports ↔ offset.toNat < ports.len.toNat := by
  rw [portOffsets, List.mem_map]
  constructor
  · rintro ⟨n, hn, rfl⟩
    rw [List.mem_range] at hn
    exact lt_of_le_of_lt (by simpa using Nat.mod_le _ _) hn
  · intro h
    exact ⟨offset.toNat, List.mem_range.mpr h, UInt32.ofNat_toNat⟩

/-- A port within `len` of the start is reached without saturation. -/
theorem toNat_saturatingAdd_offset {a stop : UInt16} {offset : UInt32}
    (h : a.toNat + offset.toNat ≤ stop.toNat) :
    (saturatingAdd a offset.toUInt16).toNat = a.toNat + offset.toNat := by
  have hstop : stop.toNat < 65536 := stop.toNat_lt
  have hoff : offset.toUInt16.toNat = offset.toNat := by
    rw [UInt32.toNat_toUInt16, Nat.mod_eq_of_lt (by omega)]
  rw [saturatingAdd, hoff, if_pos (by omega), UInt16.toNat_add, hoff, Nat.mod_eq_of_lt (by omega)]

theorem listen_offset_le {plan : RulePlan} (h : PlanChecked plan) {offset : UInt32}
    (ho : offset ∈ portOffsets plan.listenPort) :
    plan.listenPort.start.toNat + offset.toNat ≤ plan.listenPort.stop.toNat := by
  rw [mem_portOffsets, PortRange.toNat_len, if_neg (UInt16.not_lt.mpr h.listen_le)] at ho
  have hle := UInt16.le_iff_toNat_le.mp h.listen_le
  omega

/-- A target range that is not a single port has room for every listen offset. -/
theorem target_offset_le {plan : RulePlan} (h : PlanChecked plan)
    (hrange : plan.targetPort.isSingle = false) {offset : UInt32}
    (ho : offset ∈ portOffsets plan.listenPort) :
    plan.targetPort.start.toNat + offset.toNat ≤ plan.targetPort.stop.toNat := by
  rw [mem_portOffsets, h.same_length hrange, PortRange.toNat_len,
    if_neg (UInt16.not_lt.mpr h.target_le)] at ho
  have hle := UInt16.le_iff_toNat_le.mp h.target_le
  omega

theorem toNat_listenPortAt {plan : RulePlan} (h : PlanChecked plan) {offset : UInt32}
    (ho : offset ∈ portOffsets plan.listenPort) :
    (listenPortAt plan offset).toNat = plan.listenPort.start.toNat + offset.toNat :=
  toNat_saturatingAdd_offset (listen_offset_le h ho)

/-- **The expansion covers the range.**  Its listen ports are the ports of the range. -/
theorem exists_listenPortAt_iff {plan : RulePlan} (h : PlanChecked plan) (port : UInt16) :
    (∃ offset ∈ portOffsets plan.listenPort, listenPortAt plan offset = port) ↔
      plan.listenPort.Mem port := by
  rw [PortRange.Mem, UInt16.le_iff_toNat_le, UInt16.le_iff_toNat_le]
  constructor
  · rintro ⟨offset, ho, rfl⟩
    rw [toNat_listenPortAt h ho]
    exact ⟨Nat.le_add_right _ _, listen_offset_le h ho⟩
  · rintro ⟨hstart, hstop⟩
    have hport : port.toNat < UInt32.size := lt_trans port.toNat_lt (by decide)
    have hnat : (UInt32.ofNat (port.toNat - plan.listenPort.start.toNat)).toNat =
        port.toNat - plan.listenPort.start.toNat :=
      UInt32.toNat_ofNat_of_lt' (lt_of_le_of_lt (Nat.sub_le _ _) hport)
    have ho : UInt32.ofNat (port.toNat - plan.listenPort.start.toNat) ∈
        portOffsets plan.listenPort := by
      rw [mem_portOffsets, hnat, PortRange.toNat_len, if_neg (UInt16.not_lt.mpr h.listen_le)]
      omega
    refine ⟨_, ho, UInt16.toNat_inj.mp ?_⟩
    rw [toNat_listenPortAt h ho, hnat]
    omega

/-- **No offset is lost to saturation**: listen port and target port move together. -/
theorem targetPortAt_eq {plan : RulePlan} (h : PlanChecked plan) {offset : UInt32}
    (ho : offset ∈ portOffsets plan.listenPort) :
    targetPortAt plan offset = ⟨plan.portFor (listenPortAt plan offset),
      plan.portFor (listenPortAt plan offset)⟩ := by
  cases hsingle : plan.targetPort.isSingle with
  | true =>
    have heq : plan.targetPort.start = plan.targetPort.stop := by
      simpa [PortRange.isSingle] using hsingle
    rw [targetPortAt, RulePlan.portFor, if_pos hsingle, if_pos hsingle]
    cases htarget : plan.targetPort
    simp_all
  | false =>
    have hlisten := toNat_listenPortAt h ho
    have htarget := toNat_saturatingAdd_offset (target_offset_le h hsingle ho)
    have hroom := target_offset_le h hsingle ho
    have hstop : plan.targetPort.stop.toNat < 65536 := plan.targetPort.stop.toNat_lt
    have hport : saturatingAdd plan.targetPort.start offset.toUInt16 =
        plan.targetPort.start + (listenPortAt plan offset - plan.listenPort.start) := by
      rw [← UInt16.toNat_inj, htarget, UInt16.toNat_add,
        UInt16.toNat_sub_of_le _ _ (UInt16.le_iff_toNat_le.mpr (by omega)), hlisten,
        Nat.add_sub_cancel_left, Nat.mod_eq_of_lt (by omega)]
    simp [targetPortAt, RulePlan.portFor, hsingle, hport]

/-- The target port as a number: no wrap-around either. -/
theorem RulePlan.toNat_portFor {plan : RulePlan} (h : PlanChecked plan) {dport : UInt16}
    (hport : plan.listenPort.Mem dport) :
    (plan.portFor dport).toNat =
      if plan.targetPort.isSingle then plan.targetPort.start.toNat
      else plan.targetPort.start.toNat + (dport.toNat - plan.listenPort.start.toNat) := by
  obtain ⟨offset, ho, rfl⟩ := (exists_listenPortAt_iff h dport).mpr hport
  have hlisten := toNat_listenPortAt h ho
  have htarget := targetPortAt_eq h ho
  cases hsingle : plan.targetPort.isSingle with
  | true => simp [RulePlan.portFor, hsingle]
  | false =>
    have hstart := congrArg PortRange.start htarget
    simp only [targetPortAt, hsingle, Bool.false_eq_true, if_false] at hstart
    rw [← hstart, toNat_saturatingAdd_offset (target_offset_le h hsingle ho), hlisten,
      Nat.add_sub_cancel_left]
    rfl

/-- One source match of the expansion admits the packet iff the blocks do. -/
theorem exists_planSources_iff (plan : RulePlan) (source : IpAddr) :
    (∃ s ∈ planSources plan, ∀ cidr, s = some cidr → cidr.contains source = true) ↔
      SourcesAdmit plan.sourceCidrs source := by
  unfold planSources SourcesAdmit
  cases plan.sourceCidrs with
  | nil => simp
  | cons cidr cidrs => simp

theorem mem_sourceCidrs_of_mem_planSources {plan : RulePlan} {cidr : IpNet}
    (h : some cidr ∈ planSources plan) : cidr ∈ plan.sourceCidrs := by
  unfold planSources at h
  split at h
  · simp at h
  · simpa using h

/-! ### One emitted rule -/

theorem AddressFamily.matches_ofAddress_iff {a b : IpAddr} :
    (AddressFamily.ofAddress b).matchesAddress a = true ↔ a.isIpv4 = b.isIpv4 := by
  cases a <;> cases b <;> simp [matchesAddress, ofAddress, IpAddr.isIpv4]

theorem interfaceClauses_hold {interface : Option String} (h : InterfaceOk interface)
    (skb : SkBuff) :
    (interfaceClauses interface).all (·.holds (view skb)) = true ↔
      InterfaceAdmits interface skb.packet.iifname := by
  cases interface with
  | none => simp [interfaceClauses, InterfaceAdmits]
  | some name => simp [interfaceClauses, InterfaceAdmits, interfaceClause_holds skb (h name rfl)]

theorem listenAddressClauses_hold {listen : ListenAddress} (skb : SkBuff)
    (hfamily : ∀ a, listen = .address a → a.isIpv4 = skb.packet.network.isIpv4) :
    (listenAddressClauses (payloadAddress · false) listen).all (·.holds (view skb)) = true ↔
      listen.Admits skb.packet.daddr := by
  cases listen with
  | any => simp [listenAddressClauses, ListenAddress.Admits]
  | address a =>
    have ha := hfamily a rfl
    have hfield : skb.packet.daddr.isIpv4 = a.isIpv4 := by simp [Packet.daddr, ha]
    simp [listenAddressClauses, ListenAddress.Admits,
      addressClause_holds (view_daddr skb ha.symm) hfield]

theorem sourceClauses_hold {source : Option IpNet} (skb : SkBuff)
    (hfamily : ∀ cidr, source = some cidr → cidr.network.isIpv4 = skb.packet.network.isIpv4) :
    (sourceClauses (payloadAddress · true) source).all (·.holds (view skb)) = true ↔
      ∀ cidr, source = some cidr → cidr.contains skb.packet.saddr = true := by
  cases source with
  | none => simp [sourceClauses]
  | some cidr =>
    have hc := hfamily cidr rfl
    have hfield : skb.packet.saddr.isIpv4 = cidr.network.isIpv4 := by simp [Packet.saddr, hc]
    simp [sourceClauses, cidrClause_holds (view_saddr skb hc.symm) hfield]

/-- What the clauses of the rule for one port and one source admit. -/
structure RulePlan.AcceptsAt (plan : RulePlan) (packet : Packet) (port : UInt16)
    (source : Option IpNet) : Prop where
  family : plan.family.matchesAddress packet.daddr = true
  protocol : packet.protocol = plan.protocol
  listenAddress : plan.listenAddress.Admits packet.daddr
  listenInterface : InterfaceAdmits plan.listenInterface packet.iifname
  source : ∀ cidr, source = some cidr → cidr.contains packet.saddr = true
  port : packet.dport = port

theorem preroutingClauses_hold {plan : RulePlan} (h : PlanChecked plan)
    (hiface : InterfaceOk plan.listenInterface) (skb : SkBuff) (port : UInt16)
    {source : Option IpNet} (hsource : source ∈ planSources plan) :
    (preroutingClauses plan port source).all (·.holds (view skb)) = true ↔
      plan.AcceptsAt skb.packet port source := by
  have hport : (portClause (.transportHeader 2 2) ⟨port, port⟩).holds (view skb) = true ↔
      skb.packet.dport = port := by
    rw [portClause_holds _ (view_dport skb), PortRange.Mem]
    exact ⟨fun hm => le_antisymm hm.2 hm.1, fun heq => heq ▸ ⟨le_refl _, le_refl _⟩⟩
  have hfamily : plan.family.matchesAddress skb.packet.daddr = true ↔
      skb.packet.network.isIpv4 = plan.targetIp.isIpv4 := by
    rw [h.family, AddressFamily.matches_ofAddress_iff, Packet.daddr, NetworkHeader.daddr_isIpv4]
  simp only [preroutingClauses, List.all_append, Bool.and_eq_true, List.all_cons, List.all_nil,
    Bool.and_true, familyClause_holds, protocolClause_holds, hport,
    interfaceClauses_hold hiface skb]
  by_cases hnet : skb.packet.network.isIpv4 = plan.targetIp.isIpv4
  · -- within the family of the packet every address clause reads the right field
    have hlisten := listenAddressClauses_hold skb fun a ha =>
      (h.listen_family a ha).trans hnet.symm
    have hsrc := @sourceClauses_hold source skb fun cidr hc =>
      (h.source_family cidr (mem_sourceCidrs_of_mem_planSources (hc ▸ hsource))).trans hnet.symm
    rw [hlisten, hsrc]
    constructor
    · rintro ⟨⟨⟨⟨⟨-, h2⟩, h3⟩, h4⟩, h5⟩, h6⟩
      exact ⟨hfamily.mpr hnet, h5, h3, h2, h4, h6⟩
    · intro ha
      exact ⟨⟨⟨⟨⟨hnet, ha.listenInterface⟩, ha.listenAddress⟩, ha.source⟩, ha.protocol⟩, ha.port⟩
  · constructor
    · rintro ⟨⟨⟨⟨⟨h1, -⟩, -⟩, -⟩, -⟩, -⟩
      exact absurd h1 hnet
    · intro ha
      exact absurd (hfamily.mp ha.family) hnet

/-- The address a NAT statement reads is the one its rule put in the register. -/
theorem exec_natTarget (skb : SkBuff) (natType : NatType) {a address : IpAddr}
    (ha : address.isIpv4 = a.isIpv4) (ports : Option PortRange) (r : Registers) :
    exec (view skb) perform (natTarget natType a.isIpv4 address ports) r =
      .verdict (match natType with
        | .dnat => .dnat address (ports.map fun ports => (ports.start, ports.stop))
        | .snat => .snat address (ports.map fun ports => (ports.start, ports.stop))) := by
  have htake : address.octets.take (ProtoFamily.width (if a.isIpv4 then .ipv4 else .ipv6)) =
      address.octets := by
    refine List.take_of_length_le ?_
    rw [IpAddr.octets_length, ha]
    cases a.isIpv4 <;> decide
  cases ports with
  | none =>
    cases natType <;>
      simp [natTarget, exec, perform, htake]
  | some ports =>
    cases natType <;>
      simp [natTarget, exec, perform, htake, portOf_bigEndian, Function.update]

/-- **An emitted rule** does what its tail does, for the packets its clauses admit. -/
theorem runRule_emitted (skb : SkBuff) (chain : String) (plan : RulePlan)
    (cs : List (Clause Selector)) {tail : List (Expr Selector Statement)}
    {o : Outcome Translation} (htail : ∀ r, exec (view skb) perform tail r = o) :
    runRule (view skb) perform (emitted chain plan cs tail).exprs =
      if cs.all (·.holds (view skb)) then o else .mismatch :=
  exec_clauses_append (view skb) perform cs (.counter 0 0 :: tail) o
    (fun r => by rw [exec]; exact htail r) _

/-- One prerouting rule translates what its clauses admit, and nothing else. -/
theorem prerouting_verdict {plan : RulePlan} (h : PlanChecked plan)
    (hiface : InterfaceOk plan.listenInterface) {offset : UInt32}
    (ho : offset ∈ portOffsets plan.listenPort) {source : Option IpNet}
    (hsource : source ∈ planSources plan) (skb : SkBuff) (v : Translation) :
    (runRule (view skb) perform (emitted preroutingChain plan
      (preroutingClauses plan (listenPortAt plan offset) source) (dnatTail plan offset)).exprs).verdict?
        = some v ↔
      plan.AcceptsAt skb.packet (listenPortAt plan offset) source ∧
        v = plan.translation skb.packet := by
  have hclauses := preroutingClauses_hold h hiface skb (listenPortAt plan offset) hsource
  have htail : ∀ r, exec (view skb) perform (dnatTail plan offset) r = .verdict (.dnat plan.targetIp
      (some (plan.portFor (listenPortAt plan offset), plan.portFor (listenPortAt plan offset)))) := by
    intro r
    rw [dnatTail, exec_natTarget skb .dnat rfl, targetPortAt_eq h ho]
    rfl
  rw [runRule_emitted skb _ _ _ htail]
  split
  · rename_i hall
    have hat := hclauses.mp hall
    have hport := hat.port
    simp only [Outcome.verdict?, hat, true_and, RulePlan.translation, hport, Option.some.injEq]
    exact eq_comm
  · rename_i hall
    have hat := mt hclauses.mpr hall
    simp [Outcome.verdict?, hat]

/-! ### All rules of a plan entry -/

theorem mem_preroutingRulesOf {plan : RulePlan} {rule : KernelRule} :
    rule ∈ preroutingRulesOf plan ↔ ∃ offset ∈ portOffsets plan.listenPort,
      ∃ source ∈ planSources plan, emitted preroutingChain plan
        (preroutingClauses plan (listenPortAt plan offset) source) (dnatTail plan offset) = rule := by
  simp only [preroutingRulesOf, List.mem_flatMap, List.mem_map]

/-- **The expansion of a plan entry.**  Some rule of it translates the packet to `v` iff the entry
accepts the packet and `v` is its translation. -/
theorem exists_prerouting_iff {plan : RulePlan} (h : PlanChecked plan)
    (hiface : InterfaceOk plan.listenInterface) (skb : SkBuff) (v : Translation) :
    (∃ rule ∈ preroutingRulesOf plan,
        (runRule (view skb) perform rule.exprs).verdict? = some v) ↔
      plan.Accepts skb.packet ∧ v = plan.translation skb.packet := by
  constructor
  · rintro ⟨rule, hmem, hv⟩
    obtain ⟨offset, ho, source, hs, rfl⟩ := mem_preroutingRulesOf.mp hmem
    obtain ⟨hat, hv⟩ := (prerouting_verdict h hiface ho hs skb v).mp hv
    have hsource := (exists_planSources_iff plan skb.packet.saddr).mp ⟨source, hs, hat.source⟩
    have hport := (exists_listenPortAt_iff h skb.packet.dport).mp ⟨offset, ho, hat.port.symm⟩
    exact ⟨⟨hat.family, hat.protocol, hat.listenAddress, hat.listenInterface, hsource, hport⟩, hv⟩
  · rintro ⟨ha, rfl⟩
    obtain ⟨offset, ho, hport⟩ := (exists_listenPortAt_iff h skb.packet.dport).mpr ha.port
    obtain ⟨source, hs, hsource⟩ := (exists_planSources_iff plan skb.packet.saddr).mpr ha.source
    have hat : plan.AcceptsAt skb.packet (listenPortAt plan offset) source :=
      ⟨ha.family, ha.protocol, ha.listenAddress, ha.listenInterface, hsource, hport.symm⟩
    exact ⟨_, mem_preroutingRulesOf.mpr ⟨offset, ho, source, hs, rfl⟩,
      (prerouting_verdict h hiface ho hs skb _).mpr ⟨hat, rfl⟩⟩

/-! ### The chain of a compiled table -/

theorem chain_of_mem_preroutingRulesOf {plan : RulePlan} {rule : KernelRule}
    (h : rule ∈ preroutingRulesOf plan) : rule.chain = preroutingChain := by
  obtain ⟨_, _, _, _, rfl⟩ := mem_preroutingRulesOf.mp h
  rfl

theorem chain_of_mem_forwardRulesOf {plan : RulePlan} {rule : KernelRule}
    (h : rule ∈ forwardRulesOf plan) : rule.chain = forwardChain := by
  simp only [forwardRulesOf, List.mem_flatMap, List.mem_cons, List.not_mem_nil, or_false] at h
  obtain ⟨_, _, rfl | rfl⟩ := h <;> rfl

/-- The rules of the three chains of a compiled plan. -/
theorem filter_rulesOf (plans : List RulePlan) (chain : String) :
    (rulesOf plans).filter (·.chain == chain) =
      if chain = preroutingChain then plans.flatMap preroutingRulesOf
      else if chain = postroutingChain then
        (plans.filter (·.snat ≠ .none)).map postroutingRuleOf
      else if chain = forwardChain then plans.flatMap forwardRulesOf else [] := by
  have hpre : ∀ rule ∈ plans.flatMap preroutingRulesOf, rule.chain = preroutingChain := by
    intro rule hr
    obtain ⟨plan, -, hr⟩ := List.mem_flatMap.mp hr
    exact chain_of_mem_preroutingRulesOf hr
  have hpost : ∀ rule ∈ (plans.filter (·.snat ≠ .none)).map postroutingRuleOf,
      rule.chain = postroutingChain := by
    intro rule hr
    obtain ⟨plan, -, rfl⟩ := List.mem_map.mp hr
    rfl
  have hfwd : ∀ rule ∈ plans.flatMap forwardRulesOf, rule.chain = forwardChain := by
    intro rule hr
    obtain ⟨plan, -, hr⟩ := List.mem_flatMap.mp hr
    exact chain_of_mem_forwardRulesOf hr
  exact filter_chains hpre hpost hfwd chain

/-- **The prerouting chain of a compiled plan.**  Some rule translates the packet to `v` iff some
entry accepts the packet and `v` is the translation of that entry. -/
theorem exists_compiled_iff {plans : List RulePlan} (h : ∀ plan ∈ plans, PlanChecked plan)
    (hiface : ∀ plan ∈ plans, InterfaceOk plan.listenInterface) (skb : SkBuff)
    (v : Translation) :
    (∃ rule ∈ (rulesOf plans).filter (·.chain == preroutingChain),
        (runRule (view skb) perform rule.exprs).verdict? = some v) ↔
      ∃ plan ∈ plans, plan.Accepts skb.packet ∧ v = plan.translation skb.packet := by
  rw [filter_rulesOf, if_pos rfl]
  constructor
  · rintro ⟨rule, hr, hv⟩
    obtain ⟨plan, hp, hr⟩ := List.mem_flatMap.mp hr
    exact ⟨plan, hp, (exists_prerouting_iff (h plan hp) (hiface plan hp) skb v).mp ⟨rule, hr, hv⟩⟩
  · rintro ⟨plan, hp, hv⟩
    obtain ⟨rule, hr, hv⟩ := (exists_prerouting_iff (h plan hp) (hiface plan hp) skb v).mpr hv
    exact ⟨rule, List.mem_flatMap.mpr ⟨plan, hp, hr⟩, hv⟩

end Portalis
