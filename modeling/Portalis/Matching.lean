import Portalis.Compile

/-!
# What the emitted rules match

Every emitted rule is a list of clauses followed by a tail.  Each `add_*_match` adds one clause, and
each clause has a meaning for a packet: an address, a block, a port range, an interface, a status bit.

* `emitted_matches_iff`: the port comparisons and the block comparisons, against the numbers.
* `preroutingRule_eq_ok`, `postroutingRule_eq_ok`: the clauses and the tail of the two NAT rules.
* `buildRules_eq_ok`, `buildRules_error`: the rules of an accepted plan, and what can stop them.
-/

namespace Portalis

open Octets RuleMachine Text

/-! ### Clauses -/

namespace KernelRule

def addClauses (rule : KernelRule) (cs : List (Clause Selector)) : KernelRule :=
  { rule with exprs := rule.exprs ++ cs.flatMap Clause.exprs }

theorem addClauses_append (rule : KernelRule) (cs ds : List (Clause Selector)) :
    (rule.addClauses cs).addClauses ds = rule.addClauses (cs ++ ds) := by
  simp [addClauses, List.flatMap_append]

@[simp] theorem addClauses_nil (rule : KernelRule) : rule.addClauses [] = rule := by
  simp [addClauses]

end KernelRule

def familyClause (isIpv4 : Bool) : Clause Selector :=
  ⟨.metaNfproto, none, [(.eq, [nfproto isIpv4])]⟩

def protocolClause (protocol : Protocol) : Clause Selector :=
  ⟨.metaL4proto, none, [(.eq, [protocol.number])]⟩

def interfaceClause (name : String) : Clause Selector :=
  ⟨.metaIifname, none, [(.eq, utf8 name ++ [0])]⟩

def addressClause (sel : Selector) (address : IpAddr) : Clause Selector :=
  ⟨sel, none, [(.eq, address.octets)]⟩

def cidrClause (sel : Selector) (cidr : IpNet) : Clause Selector :=
  ⟨sel, some (cidrMask cidr), [(.eq, cidr.network.octets)]⟩

def portTests (ports : PortRange) : List (CmpOp × List UInt8) :=
  if ports.start = ports.stop then [(.eq, bigEndian 2 ports.start.toNat)]
  else [(.gte, bigEndian 2 ports.start.toNat), (.lte, bigEndian 2 ports.stop.toNat)]

def portClause (sel : Selector) (ports : PortRange) : Clause Selector :=
  ⟨sel, none, portTests ports⟩

def dnatStatusClause : Clause Selector :=
  ⟨.ctStatus, some (hostEndian 4 ipsDstNat.toNat, hostEndian 4 0),
    [(.eq, hostEndian 4 ipsDstNat.toNat)]⟩

/-! ### Each match adds its clause -/

theorem addFamilyMatch_eq (rule : KernelRule) (a : IpAddr) :
    addFamilyMatch rule (AddressFamily.ofAddress a) =
      .ok (rule.addClauses [familyClause a.isIpv4]) := by
  cases a <;>
    simp [addFamilyMatch, AddressFamily.ofAddress, IpAddr.isIpv4, KernelRule.addClauses,
      familyClause, Clause.exprs, nfproto, KernelRule.addExpr, bind, Except.bind, pure, Except.pure]

theorem addProtocolMatch_eq (rule : KernelRule) (protocol : Protocol) :
    addProtocolMatch rule protocol = rule.addClauses [protocolClause protocol] := by
  simp [addProtocolMatch, KernelRule.addClauses, protocolClause, Clause.exprs,
    KernelRule.addExpr]

theorem addDnatStatusMatch_eq (rule : KernelRule) :
    addDnatStatusMatch rule = rule.addClauses [dnatStatusClause] := by
  simp [addDnatStatusMatch, KernelRule.addClauses, dnatStatusClause, Clause.exprs,
    KernelRule.addExpr]

theorem addAddressMatch_eq (rule : KernelRule) (address : IpAddr) (source : Bool) :
    addAddressMatch rule address source =
      rule.addClauses [addressClause (payloadAddress address source) address] := by
  simp [addAddressMatch, KernelRule.addClauses, addressClause, Clause.exprs, KernelRule.addExpr]

theorem addCidrMatch_eq (rule : KernelRule) (cidr : IpNet) :
    addCidrMatch rule cidr =
      rule.addClauses [cidrClause (payloadAddress cidr.network true) cidr] := by
  simp [addCidrMatch, KernelRule.addClauses, cidrClause, Clause.exprs, KernelRule.addExpr]

theorem addOriginalCidrMatch_eq (rule : KernelRule) (cidr : IpNet) :
    addOriginalCidrMatch rule cidr = rule.addClauses [cidrClause (.ctOriginal .src) cidr] := by
  simp [addOriginalCidrMatch, KernelRule.addClauses, cidrClause, Clause.exprs,
    KernelRule.addExpr]

/-- The range match under the load before it is one clause. -/
theorem addPortRangeMatch_eq (rule : KernelRule) (sel : Selector) (ports : PortRange) :
    addPortRangeMatch (rule.addExpr (.load sel)) ports =
      rule.addClauses [portClause sel ports] := by
  unfold addPortRangeMatch portClause portTests
  split <;> simp [KernelRule.addClauses, Clause.exprs, KernelRule.addExpr]

theorem payloadDport_eq (protocol : Protocol) : payloadDport protocol = .transportHeader 2 2 := by
  cases protocol <;> rfl

theorem addPortMatch_eq (rule : KernelRule) (protocol : Protocol) (ports : PortRange) :
    addPortMatch rule protocol ports =
      rule.addClauses [portClause (.transportHeader 2 2) ports] := by
  rw [addPortMatch, payloadDport_eq, addPortRangeMatch_eq]

def interfaceClauses (interface : Option String) : List (Clause Selector) :=
  interface.toList.map interfaceClause

/-- An interface name the compiler can turn into a C string. -/
def InterfaceOk (interface : Option String) : Prop :=
  ∀ name, interface = some name → '\x00' ∉ name.toList

theorem addInterfaceMatch_eq (rule : KernelRule) {interface : Option String}
    (h : InterfaceOk interface) :
    addInterfaceMatch rule interface = .ok (rule.addClauses (interfaceClauses interface)) := by
  cases interface with
  | none => simp [addInterfaceMatch, interfaceClauses]
  | some name =>
    have hname := h name rfl
    simp [addInterfaceMatch, interfaceClauses, cstring, hname, KernelRule.addClauses,
      interfaceClause, Clause.exprs, KernelRule.addExpr, bind, Except.bind, pure, Except.pure]

/-- A name with NUL is refused, with a library error. -/
theorem addInterfaceMatch_error (rule : KernelRule) {name : String} (h : '\x00' ∈ name.toList) :
    addInterfaceMatch rule (some name) = .error (.library "interface contains NUL") := by
  simp [addInterfaceMatch, cstring, h, bind, Except.bind]

def listenAddressClauses (sel : IpAddr → Selector) : ListenAddress → List (Clause Selector)
  | .any => []
  | .address a => [addressClause (sel a) a]

def sourceClauses (sel : IpAddr → Selector) (source : Option IpNet) : List (Clause Selector) :=
  source.toList.map fun cidr => cidrClause (sel cidr.network) cidr

/-- The comment of a rule: ASCII characters, none of them NUL, and 52 octets in all. -/
theorem ruleComment_spec (id : Uuid) (protocol : Protocol) :
    '\x00' ∉ (ruleComment id protocol).toList ∧ (utf8 (ruleComment id protocol)).length = 52 := by
  have hshape : (ruleComment id protocol).toList = "portalis:".toList ++
      (ruleCommentVersion.toList ++ (":".toList ++ (id.chars ++ (":".toList ++
        protocol.text.toList)))) := by
    simp only [ruleComment, Uuid.toString, String.toList_append, String.toList_ofList,
      List.append_assoc]
  have hproto : ∀ c ∈ protocol.text.toList, c.toNat < 128 ∧ c ≠ '\x00' := by
    cases protocol <;> simp [Protocol.text]
  have hlen : protocol.text.toList.length = 3 := by cases protocol <;> rfl
  have hid : ∀ c ∈ id.chars, c.toNat < 128 ∧ c ≠ '\x00' := fun c hc =>
    ⟨Uuid.chars_ascii hc, (Uuid.ne_of_mem_chars hc).2⟩
  have hscheme : ∀ c ∈ "portalis:".toList, c.toNat < 128 ∧ c ≠ '\x00' := by simp
  have hversion : ∀ c ∈ ruleCommentVersion.toList, c.toNat < 128 ∧ c ≠ '\x00' := by
    simp [ruleCommentVersion]
  have hcolon : ∀ c ∈ ":".toList, c.toNat < 128 ∧ c ≠ '\x00' := by simp
  have hall : ∀ c ∈ (ruleComment id protocol).toList, c.toNat < 128 ∧ c ≠ '\x00' := by
    rw [hshape]
    simp only [List.forall_mem_append]
    exact ⟨hscheme, hversion, hcolon, hid, hcolon, hproto⟩
  refine ⟨fun hnul => (hall _ hnul).2 rfl, ?_⟩
  rw [length_utf8_of_ascii fun c hc => (hall c hc).1, hshape]
  simp only [List.length_append, Uuid.chars_length, hlen]
  rfl

/-- A rule comment never holds a NUL, so it reaches the library, which has room for it or not. -/
theorem setRuleComment_of_accepted {setComment : SetComment} (rule : KernelRule) {plan : RulePlan}
    (hset : setComment (utf8 (ruleComment plan.ruleId plan.protocol)) = .ok ()) :
    setRuleComment rule plan setComment =
      .ok { rule with comment := ruleComment plan.ruleId plan.protocol } := by
  have hnul := (ruleComment_spec plan.ruleId plan.protocol).1
  simp [setRuleComment, cstring, hnul, hset, Except.mapError, bind, Except.bind, pure, Except.pure]

theorem setRuleComment_eq (rule : KernelRule) (plan : RulePlan) :
    setRuleComment rule plan =
      .ok { rule with comment := ruleComment plan.ruleId plan.protocol } :=
  setRuleComment_of_accepted rule rfl

/-! ### What a clause means -/

theorem holds_single {skb : SkBuff} {sel : Selector} {data d : List UInt8}
    (hview : view skb sel = some d) :
    (⟨sel, none, [(.eq, data)]⟩ : Clause Selector).holds (view skb) = true ↔
      d.take data.length = data := by
  simp [Clause.holds, hview, Clause.seen, CmpOp.holds]

@[simp] theorem familyClause_holds (skb : SkBuff) (isIpv4 : Bool) :
    (familyClause isIpv4).holds (view skb) = true ↔ skb.packet.network.isIpv4 = isIpv4 := by
  rw [familyClause, holds_single rfl]
  cases skb.packet.network.isIpv4 <;> cases isIpv4 <;> decide

@[simp] theorem protocolClause_holds (skb : SkBuff) (protocol : Protocol) :
    (protocolClause protocol).holds (view skb) = true ↔ skb.packet.protocol = protocol := by
  rw [protocolClause, holds_single rfl]
  cases skb.packet.protocol <;> cases protocol <;> decide

/-- What precedes the first NUL is determined by the whole string. -/
theorem eq_of_append_nul_eq {as bs xs ys : List UInt8} (ha : (0 : UInt8) ∉ as)
    (hb : (0 : UInt8) ∉ bs) (h : as ++ 0 :: xs = bs ++ 0 :: ys) : as = bs := by
  have htake : ∀ {cs zs : List UInt8}, (0 : UInt8) ∉ cs →
      (cs ++ 0 :: zs).takeWhile (· ≠ 0) = cs := by
    intro cs zs hc
    have hall : ∀ c ∈ cs, decide (c ≠ 0) = true := by
      intro c hmem
      exact decide_eq_true fun h0 => hc (h0 ▸ hmem)
    rw [List.takeWhile_append_of_pos hall]
    simp
  rw [← @htake as xs ha, h, htake hb]

/-- The comparison with terminator is equality of names. -/
theorem interfaceClause_holds (skb : SkBuff) {name : String} (hname : '\x00' ∉ name.toList) :
    (interfaceClause name).holds (view skb) = true ↔
      skb.packet.iifname.octets = utf8 name := by
  have hzero := skb.packet.iifname.noNul
  have hname0 : (0 : UInt8) ∉ utf8 name := zero_notMem_utf8 hname
  obtain ⟨k, hk⟩ : ∃ k, ifnamsiz - skb.packet.iifname.octets.length = k + 1 :=
    ⟨ifnamsiz - skb.packet.iifname.octets.length - 1, by
      have := skb.packet.iifname.short
      omega⟩
  rw [interfaceClause, holds_single rfl, InterfaceName.register, hk]
  constructor
  · intro h
    have hsplit := List.take_append_drop (utf8 name ++ [0]).length
      (skb.packet.iifname.octets ++ List.replicate (k + 1) 0)
    rw [h, List.replicate_succ, List.append_assoc, List.cons_append, List.nil_append] at hsplit
    exact (eq_of_append_nul_eq hname0 hzero hsplit).symm
  · intro h
    simp [h, List.take_append, List.replicate_succ]

theorem addressClause_holds {skb : SkBuff} {sel : Selector} {field address : IpAddr}
    (hview : view skb sel = some field.octets) (hfamily : field.isIpv4 = address.isIpv4) :
    (addressClause sel address).holds (view skb) = true ↔ field = address := by
  have hlen : field.octets.length = address.octets.length := by
    rw [IpAddr.octets_length, IpAddr.octets_length, hfamily]
  rw [addressClause, holds_single hview, ← hlen, List.take_length, IpAddr.octets_inj]

/-- Masking with a netmask leaves the network of the block iff the block has the address. -/
theorem masked_netmask {w n : ℕ} (hw : 2 ^ w = 256 ^ n) (net : Net w) (x : BitVec w) :
    masked (bigEndian n net.netmask.toNat) (List.replicate n 0) (bigEndian n x.toNat) =
        bigEndian n net.network.toNat ↔ net.contains x = true := by
  have hlt : ∀ bits : BitVec w, bits.toNat < 256 ^ n := fun bits => hw ▸ bits.isLt
  have hxor := zipWith_xor_zero (bigEndian n (x.toNat &&& net.netmask.toNat))
  rw [bigEndian_length] at hxor
  rw [masked, zipWith_and_bigEndian, hxor, Net.contains_iff, Prefix.mem_block_iff_mask,
    ← BitVec.toNat_and, bigEndian_inj (hlt _) (hlt _), BitVec.toNat_inj]
  rfl

theorem masked_cidrMask {cidr : IpNet} {field : IpAddr}
    (hfamily : field.isIpv4 = cidr.network.isIpv4) :
    masked (cidrMask cidr).1 (cidrMask cidr).2 field.octets = cidr.network.octets ↔
      cidr.contains field = true := by
  cases cidr with
  | v4 net =>
    cases field with
    | v6 x => simp [IpNet.network, IpAddr.isIpv4] at hfamily
    | v4 x => exact masked_netmask (by norm_num) net x
  | v6 net =>
    cases field with
    | v4 x => simp [IpNet.network, IpAddr.isIpv4] at hfamily
    | v6 x => exact masked_netmask (by norm_num) net x

/-- **Masking is membership.**  A block clause holds iff the block contains the address. -/
theorem cidrClause_holds {skb : SkBuff} {sel : Selector} {field : IpAddr} {cidr : IpNet}
    (hview : view skb sel = some field.octets) (hfamily : field.isIpv4 = cidr.network.isIpv4) :
    (cidrClause sel cidr).holds (view skb) = true ↔ cidr.contains field = true := by
  have hlen : (masked (cidrMask cidr).1 (cidrMask cidr).2 field.octets).length =
      cidr.network.octets.length := by
    cases cidr <;> cases field <;>
      simp_all [masked, cidrMask, IpAddr.octets, IpNet.network, IpAddr.isIpv4]
  rw [← masked_cidrMask hfamily]
  simp only [cidrClause, Clause.holds, hview, Clause.seen, CmpOp.holds, List.all_cons,
    List.all_nil, Bool.and_true, beq_iff_eq]
  rw [← hlen, List.take_length]

/-- **The comparisons of a port range** hold of the octets of a port iff it is in the range. -/
theorem portTests_hold (ports : PortRange) (port : UInt16) :
    ((portTests ports).all fun t => t.1.holds (bigEndian 2 port.toNat) t.2) = true ↔
      ports.Mem port := by
  have hlt : ∀ p : UInt16, p.toNat < 256 ^ 2 := fun p => p.toNat_lt
  have htake : ∀ p : UInt16, (bigEndian 2 port.toNat).take (bigEndian 2 p.toNat).length =
      bigEndian 2 port.toNat := fun p => List.take_of_length_le (by simp)
  unfold portTests
  split
  · rename_i hsingle
    simp only [List.all_cons, List.all_nil, Bool.and_true, CmpOp.holds, htake, beq_iff_eq]
    rw [bigEndian_inj (hlt _) (hlt _), PortRange.Mem, ← hsingle, UInt16.le_iff_toNat_le,
      UInt16.le_iff_toNat_le]
    omega
  · simp only [List.all_cons, List.all_nil, Bool.and_true, CmpOp.holds, htake,
      Bool.and_eq_true, decide_eq_true_eq]
    rw [bigEndian_le_iff (hlt _) (hlt _), bigEndian_le_iff (hlt _) (hlt _), PortRange.Mem,
      UInt16.le_iff_toNat_le, UInt16.le_iff_toNat_le]

theorem portClause_holds {skb : SkBuff} {sel : Selector} {port : UInt16} (ports : PortRange)
    (hview : view skb sel = some (bigEndian 2 port.toNat)) :
    (portClause sel ports).holds (view skb) = true ↔ ports.Mem port := by
  simp only [portClause, Clause.holds, hview, Clause.seen]
  exact portTests_hold ports port

/-- The status clause holds once the flow's destination is translated. -/
theorem dnatStatusClause_holds (skb : SkBuff) :
    dnatStatusClause.holds (view skb) = true ↔ skb.ct.status &&& ipsDstNat = ipsDstNat := by
  have hlt : ∀ n : UInt32, n.toNat < 256 ^ 4 := fun n => n.toNat_lt
  have hzero : hostEndian 4 0 = List.replicate 4 0 := by decide
  have hxor := zipWith_xor_zero (hostEndian 4 (skb.ct.status.toNat &&& ipsDstNat.toNat))
  rw [hostEndian_length] at hxor
  simp only [dnatStatusClause, Clause.holds, view, Clause.seen, masked, zipWith_and_hostEndian,
    hzero, hxor, CmpOp.holds, List.all_cons, List.all_nil, Bool.and_true, beq_iff_eq]
  rw [List.take_of_length_le (by simp), ← UInt32.toNat_and, hostEndian_inj (hlt _) (hlt _),
    UInt32.toNat_inj]

/-! ### Loads of addresses -/

theorem view_saddr (skb : SkBuff) {a : IpAddr} (ha : skb.packet.network.isIpv4 = a.isIpv4) :
    view skb (payloadAddress a true) = some skb.packet.saddr.octets := by
  cases hnet : skb.packet.network with
  | ipv4 lead s d o =>
    cases a with
    | v6 x => simp [hnet, NetworkHeader.isIpv4, IpAddr.isIpv4] at ha
    | v4 x => simpa [payloadAddress, Packet.saddr, hnet, NetworkHeader.saddr, IpAddr.octets] using
        view_saddr4 skb lead s d o hnet
  | ipv6 lead s d o =>
    cases a with
    | v4 x => simp [hnet, NetworkHeader.isIpv4, IpAddr.isIpv4] at ha
    | v6 x => simpa [payloadAddress, Packet.saddr, hnet, NetworkHeader.saddr, IpAddr.octets] using
        view_saddr6 skb lead s d o hnet

theorem view_daddr (skb : SkBuff) {a : IpAddr} (ha : skb.packet.network.isIpv4 = a.isIpv4) :
    view skb (payloadAddress a false) = some skb.packet.daddr.octets := by
  cases hnet : skb.packet.network with
  | ipv4 lead s d o =>
    cases a with
    | v6 x => simp [hnet, NetworkHeader.isIpv4, IpAddr.isIpv4] at ha
    | v4 x => simpa [payloadAddress, Packet.daddr, hnet, NetworkHeader.daddr, IpAddr.octets] using
        view_daddr4 skb lead s d o hnet
  | ipv6 lead s d o =>
    cases a with
    | v4 x => simp [hnet, NetworkHeader.isIpv4, IpAddr.isIpv4] at ha
    | v6 x => simpa [payloadAddress, Packet.daddr, hnet, NetworkHeader.daddr, IpAddr.octets] using
        view_daddr6 skb lead s d o hnet

/-! ### One match by itself -/

/-- A rule made of one clause ends where the clause fails. -/
theorem runRule_clause (skb : SkBuff) (chain : String) (c : Clause Selector) :
    runRule (view skb) perform ((KernelRule.new chain).addClauses [c]).exprs =
      if c.holds (view skb) then .pass else .mismatch := by
  obtain ⟨r, hr⟩ := exec_clause_append (view skb) perform c [] fun _ => []
  rw [List.append_nil] at hr
  rw [runRule, KernelRule.addClauses, KernelRule.new, List.nil_append, List.flatMap_singleton, hr]
  rfl

/-- **What the emitted comparisons decide.**  With the octets of a port in the register, those of
`add_port_range_match` let exactly the ports of the range through; the masks and comparisons of
`add_cidr_match` and `add_original_cidr_match` let exactly the sources through that the block contains, by
the relation with which the validator compares blocks. -/
theorem emitted_matches_iff (chain : String) (skb : SkBuff) :
    (∀ (ports : PortRange) (port : UInt16) (r : Registers), r .reg1 = bigEndian 2 port.toNat →
      exec (view skb) perform (addPortRangeMatch (KernelRule.new chain) ports).exprs r =
        if ports.start ≤ port ∧ port ≤ ports.stop then .pass else .mismatch) ∧
      ∀ cidr : IpNet,
        (skb.packet.saddr.isIpv4 = cidr.network.isIpv4 →
          runRule (view skb) perform (addCidrMatch (KernelRule.new chain) cidr).exprs =
            if cidr.contains skb.packet.saddr then .pass else .mismatch) ∧
        (skb.ct.original.src.isIpv4 = cidr.network.isIpv4 →
          runRule (view skb) perform (addOriginalCidrMatch (KernelRule.new chain) cidr).exprs =
            if cidr.contains skb.ct.original.src then .pass else .mismatch) := by
  refine ⟨fun ports port r hr => ?_, fun cidr => ⟨fun hfamily => ?_, fun hfamily => ?_⟩⟩
  · have hexprs : (addPortRangeMatch (KernelRule.new chain) ports).exprs =
        ((portTests ports).map fun t => .cmp t.1 t.2) ++ [] := by
      unfold addPortRangeMatch portTests
      split
      · rfl
      · rfl
    have hrun := exec_tests_append (view skb) perform (portTests ports) [] r
    rw [hexprs, hrun, hr]
    exact if_congr (portTests_hold ports port) rfl rfl
  · have hload : view skb (payloadAddress cidr.network true) = some skb.packet.saddr.octets :=
      view_saddr skb (by rw [← hfamily, Packet.saddr, NetworkHeader.saddr_isIpv4])
    rw [addCidrMatch_eq, runRule_clause]
    exact if_congr (cidrClause_holds hload hfamily) rfl rfl
  · have hload : view skb (.ctOriginal .src) = some skb.ct.original.src.octets := rfl
    rw [addOriginalCidrMatch_eq, runRule_clause]
    exact if_congr (cidrClause_holds hload hfamily) rfl rfl

/-! ### Checked plan entries -/

/-- What a plan entry of a checked rule satisfies. -/
structure PlanChecked (plan : RulePlan) : Prop where
  family : plan.family = AddressFamily.ofAddress plan.targetIp
  listen_family : ∀ a, plan.listenAddress = .address a → a.isIpv4 = plan.targetIp.isIpv4
  source_family : ∀ cidr ∈ plan.sourceCidrs, cidr.network.isIpv4 = plan.targetIp.isIpv4
  snat_family : ∀ a, plan.snat = .fixed a → a.isIpv4 = plan.targetIp.isIpv4
  listen_le : plan.listenPort.start ≤ plan.listenPort.stop
  target_le : plan.targetPort.start ≤ plan.targetPort.stop
  same_length : plan.targetPort.isSingle = false → plan.listenPort.len = plan.targetPort.len

theorem RuleChecked.planFor {rule : ForwardRule} {context : ValidationContext}
    (h : RuleChecked rule context) (p : Protocol) : PlanChecked (rule.planFor p) where
  family := h.effectiveFamily_eq
  listen_family a ha := h.isIpv4_eq_of_matches (h.listen_family a ha)
  source_family cidr hc := h.isIpv4_eq_of_matches (h.source_family cidr hc)
  snat_family a ha := h.isIpv4_eq_of_matches (h.snat_family a ha)
  listen_le := h.listen_le
  target_le := h.target_le
  same_length := h.same_length

theorem Accepted.planChecked {config : Config} {context : ValidationContext}
    (h : Accepted config context) {plan : RulePlan} (hp : plan ∈ config.plan) :
    PlanChecked plan := by
  obtain ⟨rule, hr, p, -, rfl⟩ := Config.mem_plan.mp hp
  exact (h.checked_of_active hr).planFor p

/-! ### The two NAT rules, clause by clause -/

/-- What `add_nat_target` pushes. -/
def natTarget (natType : NatType) (isIpv4 : Bool) (address : IpAddr) (ports : Option PortRange) :
    List (Expr Selector Statement) :=
  .immediate address.octets .reg1 ::
    ((ports.toList.flatMap fun ports =>
      [.immediate (bigEndian 2 ports.start.toNat) .reg2,
        .immediate (bigEndian 2 ports.stop.toNat) .reg3]) ++
      [.action (.nat natType (if isIpv4 then .ipv4 else .ipv6) ports.isSome)])

theorem addNatTarget_eq (rule : KernelRule) (natType : NatType) (a address : IpAddr)
    (ports : Option PortRange) :
    addNatTarget rule natType (AddressFamily.ofAddress a) address ports =
      .ok { rule with exprs := rule.exprs ++ natTarget natType a.isIpv4 address ports } := by
  cases a <;> cases ports <;>
    simp [addNatTarget, nftFamily, AddressFamily.ofAddress, IpAddr.isIpv4, natTarget,
      KernelRule.addExpr, bind, Except.bind, pure, Except.pure]

/-- The listen port of the rule at `offset`. -/
def listenPortAt (plan : RulePlan) (offset : UInt32) : UInt16 :=
  saturatingAdd plan.listenPort.start offset.toUInt16

def preroutingClauses (plan : RulePlan) (port : UInt16) (source : Option IpNet) :
    List (Clause Selector) :=
  [familyClause plan.targetIp.isIpv4] ++ interfaceClauses plan.listenInterface ++
    listenAddressClauses (payloadAddress · false) plan.listenAddress ++
    sourceClauses (payloadAddress · true) source ++ [protocolClause plan.protocol] ++
    [portClause (.transportHeader 2 2) ⟨port, port⟩]

def postroutingClauses (plan : RulePlan) : List (Clause Selector) :=
  [dnatStatusClause] ++ [familyClause plan.targetIp.isIpv4] ++
    [addressClause (payloadAddress plan.targetIp false) plan.targetIp] ++
    [protocolClause plan.protocol] ++ [portClause (.transportHeader 2 2) plan.targetPort]

/-- A rule of a plan entry: its clauses, the counter, and the tail that acts. -/
def emitted (chain : String) (plan : RulePlan) (cs : List (Clause Selector))
    (tail : List (Expr Selector Statement)) : KernelRule where
  chain := chain
  comment := ruleComment plan.ruleId plan.protocol
  exprs := cs.flatMap Clause.exprs ++ .counter 0 0 :: tail

/-- The statement the source translation of a plan entry ends with. -/
def snatTail (plan : RulePlan) : List (Expr Selector Statement) :=
  match plan.snat with
  | .none => []
  | .masquerade => [.action .masquerade]
  | .fixed address => natTarget .snat plan.targetIp.isIpv4 address none

/-- The statement the destination translation of a plan entry ends with. -/
def dnatTail (plan : RulePlan) (offset : UInt32) : List (Expr Selector Statement) :=
  natTarget .dnat plan.targetIp.isIpv4 plan.targetIp (some (targetPortAt plan offset))

theorem preroutingRule_eq_ok (chain : String) {plan : RulePlan} (h : PlanChecked plan)
    (hiface : InterfaceOk plan.listenInterface) (offset : UInt32) (source : Option IpNet) :
    preroutingRule chain plan offset source = .ok (emitted chain plan
      (preroutingClauses plan (listenPortAt plan offset) source) (dnatTail plan offset)) := by
  cases hlisten : plan.listenAddress <;> cases source <;>
    simp only [preroutingRule, setRuleComment_eq, h.family, addFamilyMatch_eq, hlisten,
      addInterfaceMatch_eq _ hiface, addNatTarget_eq, addProtocolMatch_eq, addPortMatch_eq,
      addAddressMatch_eq, addCidrMatch_eq, KernelRule.addClauses_append, bind, Except.bind] <;>
    simp [KernelRule.addClauses, KernelRule.addExpr, KernelRule.new, emitted, dnatTail,
      preroutingClauses, listenPortAt, listenAddressClauses, sourceClauses, hlisten]

theorem postroutingRule_eq_ok (chain : String) {plan : RulePlan} (h : PlanChecked plan) :
    addPostroutingRule chain plan =
      .ok (emitted chain plan (postroutingClauses plan) (snatTail plan)) := by
  simp only [addPostroutingRule, setRuleComment_eq, h.family, addFamilyMatch_eq,
    addNatTarget_eq, addProtocolMatch_eq, addDnatStatusMatch_eq, addAddressMatch_eq,
    addPortMatch_eq, KernelRule.addClauses_append, bind, Except.bind, pure, Except.pure]
  simp only [KernelRule.addClauses, KernelRule.addExpr, KernelRule.new, List.nil_append,
    List.append_assoc, List.cons_append, emitted, postroutingClauses, snatTail]
  cases plan.snat <;> rfl

/-- A rule of an interface with NUL is never built. -/
theorem preroutingRule_error (chain : String) {plan : RulePlan} (h : PlanChecked plan)
    (hiface : ¬ InterfaceOk plan.listenInterface) (offset : UInt32) (source : Option IpNet) :
    preroutingRule chain plan offset source = .error (.library "interface contains NUL") := by
  obtain ⟨name, hname, hnul⟩ : ∃ name, plan.listenInterface = some name ∧ '\x00' ∈ name.toList := by
    simpa [InterfaceOk] using hiface
  simp only [preroutingRule, setRuleComment_eq, h.family, addFamilyMatch_eq, hname,
    addInterfaceMatch_error _ hnul, bind, Except.bind]

/-! ### The two forward rules, clause by clause -/

/-- The original side of a flow, under the selector of its original destination. -/
def originalAddressClauses : ListenAddress → List (Clause Selector) :=
  listenAddressClauses fun _ => .ctOriginal .dst

theorem addOriginalAddressMatch_eq (rule : KernelRule) (address : ListenAddress) :
    addOriginalAddressMatch rule address = rule.addClauses (originalAddressClauses address) := by
  cases address <;>
    simp [addOriginalAddressMatch, originalAddressClauses, listenAddressClauses,
      KernelRule.addClauses, addressClause, Clause.exprs, KernelRule.addExpr]

theorem addOriginalPortMatch_eq (rule : KernelRule) (ports : PortRange) :
    addOriginalPortMatch rule ports = rule.addClauses [portClause (.ctOriginal .protoDst) ports] :=
  addPortRangeMatch_eq rule _ ports

theorem addSourcePortMatch_eq (rule : KernelRule) (protocol : Protocol) (ports : PortRange) :
    addSourcePortMatch rule protocol ports =
      rule.addClauses [portClause (.transportHeader 0 2) ports] := by
  cases protocol <;> exact addPortRangeMatch_eq rule _ ports

def inboundClauses (plan : RulePlan) (source : Option IpNet) : List (Clause Selector) :=
  [dnatStatusClause] ++ [familyClause plan.targetIp.isIpv4] ++
    originalAddressClauses plan.listenAddress ++ interfaceClauses plan.listenInterface ++
    sourceClauses (payloadAddress · true) source ++ [protocolClause plan.protocol] ++
    [portClause (.ctOriginal .protoDst) plan.listenPort] ++
    [addressClause (payloadAddress plan.targetIp false) plan.targetIp] ++
    [portClause (.transportHeader 2 2) plan.targetPort]

def replyClauses (plan : RulePlan) (source : Option IpNet) : List (Clause Selector) :=
  [dnatStatusClause] ++ [familyClause plan.targetIp.isIpv4] ++
    originalAddressClauses plan.listenAddress ++
    sourceClauses (fun _ => .ctOriginal .src) source ++ [protocolClause plan.protocol] ++
    [portClause (.ctOriginal .protoDst) plan.listenPort] ++
    [addressClause (payloadAddress plan.targetIp true) plan.targetIp] ++
    [portClause (.transportHeader 0 2) plan.targetPort]

theorem inboundRule_eq_ok (chain : String) {plan : RulePlan} (h : PlanChecked plan)
    (hiface : InterfaceOk plan.listenInterface) (source : Option IpNet) :
    inboundRule chain plan source = .ok (emitted chain plan (inboundClauses plan source) []) := by
  cases source <;>
    simp only [inboundRule, setRuleComment_eq, h.family, addFamilyMatch_eq,
      addInterfaceMatch_eq _ hiface, addProtocolMatch_eq, addPortMatch_eq, addAddressMatch_eq,
      addCidrMatch_eq, addDnatStatusMatch_eq, addOriginalAddressMatch_eq, addOriginalPortMatch_eq,
      KernelRule.addClauses_append, bind, Except.bind, pure, Except.pure] <;>
    simp [KernelRule.addClauses, KernelRule.addExpr, KernelRule.new, inboundClauses,
      sourceClauses, emitted]

/-- The reply rule has no interface match. -/
theorem replyRule_eq_ok (chain : String) {plan : RulePlan} (h : PlanChecked plan)
    (source : Option IpNet) :
    replyRule chain plan source = .ok (emitted chain plan (replyClauses plan source) []) := by
  cases source <;>
    simp only [replyRule, setRuleComment_eq, h.family, addFamilyMatch_eq, addProtocolMatch_eq,
      addSourcePortMatch_eq, addAddressMatch_eq, addOriginalCidrMatch_eq, addDnatStatusMatch_eq,
      addOriginalAddressMatch_eq, addOriginalPortMatch_eq, KernelRule.addClauses_append, bind,
      Except.bind, pure, Except.pure] <;>
    simp [KernelRule.addClauses, KernelRule.addExpr, KernelRule.new, replyClauses,
      sourceClauses, emitted]

/-! ### All rules of a plan -/

/-- The prerouting rules of a plan entry: one for each listen port and source match. -/
def preroutingRulesOf (plan : RulePlan) : List KernelRule :=
  (portOffsets plan.listenPort).flatMap fun offset => (planSources plan).map fun source =>
    emitted preroutingChain plan (preroutingClauses plan (listenPortAt plan offset) source)
      (dnatTail plan offset)

def postroutingRuleOf (plan : RulePlan) : KernelRule :=
  emitted postroutingChain plan (postroutingClauses plan) (snatTail plan)

/-- The counter rules of a plan entry: two for each source match. -/
def forwardRulesOf (plan : RulePlan) : List KernelRule :=
  (planSources plan).flatMap fun source =>
    [emitted forwardChain plan (inboundClauses plan source) [],
      emitted forwardChain plan (replyClauses plan source) []]

def rulesOf (plans : List RulePlan) : List KernelRule :=
  plans.flatMap preroutingRulesOf ++
    ((plans.filter (·.snat ≠ .none)).map postroutingRuleOf ++ plans.flatMap forwardRulesOf)

theorem addPreroutingRules_eq_ok {plan : RulePlan} (h : PlanChecked plan)
    (hiface : InterfaceOk plan.listenInterface) :
    addPreroutingRules prerouting.name plan = .ok (preroutingRulesOf plan) := by
  have hrule : ∀ x : UInt32 × Option IpNet, preroutingRule prerouting.name plan x.1 x.2 =
      .ok (emitted preroutingChain plan
        (preroutingClauses plan (listenPortAt plan x.1) x.2) (dnatTail plan x.1)) :=
    fun x => preroutingRule_eq_ok prerouting.name h hiface x.1 x.2
  refine (Fallible.mapM_eq_ok _ fun x _ => hrule x).trans ?_
  simp only [preroutingRulesOf, List.map_flatMap, List.map_map, Function.comp_def]

theorem planSources_ne_nil (plan : RulePlan) : planSources plan ≠ [] := by
  unfold planSources
  split
  · simp
  · simp_all

theorem portOffsets_ne_nil {plan : RulePlan} (h : PlanChecked plan) :
    portOffsets plan.listenPort ≠ [] := by
  have hlen : plan.listenPort.len.toNat ≠ 0 := by
    rw [PortRange.toNat_len, if_neg (UInt16.not_lt.mpr h.listen_le)]
    omega
  simpa [portOffsets] using hlen

theorem addPreroutingRules_error {plan : RulePlan} (h : PlanChecked plan)
    (hiface : ¬ InterfaceOk plan.listenInterface) :
    addPreroutingRules prerouting.name plan = .error (.library "interface contains NUL") := by
  have herr := fun x : UInt32 × Option IpNet =>
    preroutingRule_error prerouting.name h hiface x.1 x.2
  obtain ⟨offset, ho⟩ := List.exists_mem_of_ne_nil _ (portOffsets_ne_nil h)
  obtain ⟨source, hs⟩ := List.exists_mem_of_ne_nil _ (planSources_ne_nil plan)
  have hmem : (offset, source) ∈ (portOffsets plan.listenPort).flatMap fun offset =>
      (planSources plan).map fun source => (offset, source) :=
    List.mem_flatMap.mpr ⟨offset, ho, List.mem_map.mpr ⟨source, hs, rfl⟩⟩
  rw [addPreroutingRules]
  refine Fallible.mapM_eq_error _ ?_ hmem (herr (offset, source))
  rintro ⟨offset, source⟩ _ e he
  exact (Except.error.inj ((herr (offset, source)).symm.trans he)).symm

theorem addForwardCounterRules_eq_ok {plan : RulePlan} (h : PlanChecked plan)
    (hiface : InterfaceOk plan.listenInterface) :
    addForwardCounterRules forward.name plan = .ok (forwardRulesOf plan) := by
  have hpair : ∀ source ∈ planSources plan, (do
      let inbound ← inboundRule forward.name plan source
      let reply ← replyRule forward.name plan source
      pure [inbound, reply]) = Except.ok [emitted forwardChain plan (inboundClauses plan source) [],
        emitted forwardChain plan (replyClauses plan source) []] := by
    intro source _
    simp only [inboundRule_eq_ok _ h hiface, replyRule_eq_ok _ h, bind, Except.bind, pure,
      Except.pure, forward]
  rw [addForwardCounterRules, Fallible.mapM_eq_ok _ hpair, forwardRulesOf, List.flatMap_def]
  rfl

/-- **The compiler on checked entries**: all rules in emission order, if every listen interface can
be a C string. -/
theorem buildRules_eq_ok {plans : List RulePlan} (h : ∀ plan ∈ plans, PlanChecked plan)
    (hiface : ∀ plan ∈ plans, InterfaceOk plan.listenInterface) :
    buildRules plans = .ok (rulesOf plans) := by
  have hpre := Fallible.mapM_eq_ok (addPreroutingRules prerouting.name) fun plan hp =>
    addPreroutingRules_eq_ok (h plan hp) (hiface plan hp)
  have hmem : ∀ plan ∈ plans.filter (·.snat ≠ .none), plan ∈ plans :=
    fun _ => List.mem_of_mem_filter
  have hpost := Fallible.mapM_eq_ok (addPostroutingRule postrouting.name) fun plan hp =>
    postroutingRule_eq_ok postrouting.name (h plan (hmem plan hp))
  have hfwd := Fallible.mapM_eq_ok (addForwardCounterRules forward.name) fun plan hp =>
    addForwardCounterRules_eq_ok (h plan hp) (hiface plan hp)
  simp only [buildRules, hpre, hpost, hfwd, bind, Except.bind, pure, Except.pure, rulesOf,
    List.flatMap_def]
  rfl

/-- One listen interface with NUL is enough for the compiler to refuse the plan. -/
theorem buildRules_error {plans : List RulePlan} (h : ∀ plan ∈ plans, PlanChecked plan)
    {plan : RulePlan} (hp : plan ∈ plans) (hiface : ¬ InterfaceOk plan.listenInterface) :
    buildRules plans = .error (.library "interface contains NUL") := by
  have hall : ∀ plan ∈ plans, ∀ e, addPreroutingRules prerouting.name plan = .error e →
      e = .library "interface contains NUL" := by
    intro plan hp e he
    by_cases hok : InterfaceOk plan.listenInterface
    · rw [addPreroutingRules_eq_ok (h plan hp) hok] at he
      cases he
    · rw [addPreroutingRules_error (h plan hp) hok] at he
      exact (Except.error.inj he).symm
  have hpre := Fallible.mapM_eq_error _ hall hp (addPreroutingRules_error (h plan hp) hiface)
  simp only [buildRules, hpre, bind, Except.bind]

/-! ### Comments the library may refuse -/

/-- **The comments are the only thing the library can refuse**: when it has room for those of the
plan, the rules are built as if it had room for all. -/
theorem buildRules_of_accepted {setComment : SetComment} {plans : List RulePlan}
    (hset : ∀ plan ∈ plans, setComment (utf8 (ruleComment plan.ruleId plan.protocol)) = .ok ()) :
    buildRules plans setComment = buildRules plans := by
  have hcomment : ∀ plan ∈ plans, ∀ rule,
      setRuleComment rule plan setComment = setRuleComment rule plan := fun plan hp rule =>
    (setRuleComment_of_accepted rule (hset plan hp)).trans (setRuleComment_eq rule plan).symm
  have hpre : plans.mapM (addPreroutingRules prerouting.name · setComment) =
      plans.mapM (addPreroutingRules prerouting.name ·) :=
    Fallible.mapM_congr _ fun plan hp => by
      simp only [addPreroutingRules, preroutingRule, hcomment plan hp]
  have hpost : (plans.filter (·.snat ≠ .none)).mapM
      (addPostroutingRule postrouting.name · setComment) =
        (plans.filter (·.snat ≠ .none)).mapM (addPostroutingRule postrouting.name ·) :=
    Fallible.mapM_congr _ fun plan hp => by
      simp only [addPostroutingRule, hcomment plan (List.mem_of_mem_filter hp)]
  have hfwd : plans.mapM (addForwardCounterRules forward.name · setComment) =
      plans.mapM (addForwardCounterRules forward.name ·) :=
    Fallible.mapM_congr _ fun plan hp => by
      simp only [addForwardCounterRules, inboundRule, replyRule, hcomment plan hp]
  rw [buildRules, buildRules, hpre, hpost, hfwd]

end Portalis
