import Portalis.Overlap

/-!
# The count of the receipt

`apply` reports how many rules it has put into the two NAT chains, by a formula of its own: for every plan
entry the number of sources, or one, times the number of listen ports, and one more when the source is
translated.  The rules themselves come out of nested loops over ports and sources, for any plan whatever.

* `length_of_addPreroutingRules`: what one pass of the loops adds.
* `ruleCount_of_nftApply`: the count is the number of rules of the two chains.
-/

namespace Portalis

open Octets RuleMachine Text Fallible

/-! ### No match changes the chain -/

namespace KernelRule

@[simp] theorem addPortRangeMatch_chain (rule : KernelRule) (ports : PortRange) :
    (addPortRangeMatch rule ports).chain = rule.chain := by
  unfold addPortRangeMatch
  split <;> rfl

@[simp] theorem addPortMatch_chain (rule : KernelRule) (protocol : Protocol) (ports : PortRange) :
    (addPortMatch rule protocol ports).chain = rule.chain :=
  addPortRangeMatch_chain _ ports

@[simp] theorem addSourcePortMatch_chain (rule : KernelRule) (protocol : Protocol)
    (ports : PortRange) : (addSourcePortMatch rule protocol ports).chain = rule.chain :=
  addPortRangeMatch_chain _ ports

@[simp] theorem addOriginalPortMatch_chain (rule : KernelRule) (ports : PortRange) :
    (addOriginalPortMatch rule ports).chain = rule.chain :=
  addPortRangeMatch_chain _ ports

@[simp] theorem addProtocolMatch_chain (rule : KernelRule) (protocol : Protocol) :
    (addProtocolMatch rule protocol).chain = rule.chain := rfl

@[simp] theorem addAddressMatch_chain (rule : KernelRule) (address : IpAddr) (source : Bool) :
    (addAddressMatch rule address source).chain = rule.chain := rfl

@[simp] theorem addCidrMatch_chain (rule : KernelRule) (cidr : IpNet) :
    (addCidrMatch rule cidr).chain = rule.chain := rfl

@[simp] theorem addOriginalCidrMatch_chain (rule : KernelRule) (cidr : IpNet) :
    (addOriginalCidrMatch rule cidr).chain = rule.chain := rfl

@[simp] theorem addDnatStatusMatch_chain (rule : KernelRule) :
    (addDnatStatusMatch rule).chain = rule.chain := rfl

@[simp] theorem addOriginalAddressMatch_chain (rule : KernelRule) (address : ListenAddress) :
    (addOriginalAddressMatch rule address).chain = rule.chain := by
  cases address <;> rfl

theorem setRuleComment_chain {rule written : KernelRule} {plan : RulePlan} {setComment : SetComment}
    (h : setRuleComment rule plan setComment = .ok written) : written.chain = rule.chain := by
  simp only [setRuleComment, bind_eq_ok] at h
  obtain ⟨octets, -, accepted, -, hwritten⟩ := h
  cases hwritten
  rfl

theorem addFamilyMatch_chain {rule matched : KernelRule} {family : AddressFamily}
    (h : addFamilyMatch rule family = .ok matched) : matched.chain = rule.chain := by
  cases family with
  | auto => cases h
  | ipv4 =>
    cases h
    rfl
  | ipv6 =>
    cases h
    rfl

theorem addInterfaceMatch_chain {rule matched : KernelRule} {interface : Option String}
    (h : addInterfaceMatch rule interface = .ok matched) : matched.chain = rule.chain := by
  cases interface with
  | none =>
    cases h
    rfl
  | some name =>
    simp only [addInterfaceMatch, bind_eq_ok] at h
    obtain ⟨octets, -, hmatched⟩ := h
    cases hmatched
    rfl

theorem addNatTarget_chain {rule acting : KernelRule} {natType : NatType} {family : AddressFamily}
    {address : IpAddr} {ports : Option PortRange}
    (h : addNatTarget rule natType family address ports = .ok acting) :
    acting.chain = rule.chain := by
  simp only [addNatTarget, bind_eq_ok] at h
  obtain ⟨resolved, -, hacting⟩ := h
  cases hacting
  cases ports <;> rfl

end KernelRule

open KernelRule

section

variable {chain : String} {plan : RulePlan} {setComment : SetComment}

theorem preroutingRule_chain {offset : UInt32} {source : Option IpNet} {rule : KernelRule}
    (h : preroutingRule chain plan offset source setComment = .ok rule) : rule.chain = chain := by
  simp only [preroutingRule, bind_eq_ok] at h
  obtain ⟨written, hset, family, hfamily, named, hiface, hnat⟩ := h
  rw [addNatTarget_chain hnat]
  have hnamed : named.chain = chain := by
    rw [addInterfaceMatch_chain hiface, addFamilyMatch_chain hfamily, setRuleComment_chain hset]
    rfl
  cases plan.listenAddress <;> cases source <;> simpa using hnamed

theorem addPostroutingRule_chain {rule : KernelRule}
    (h : addPostroutingRule chain plan setComment = .ok rule) : rule.chain = chain := by
  simp only [addPostroutingRule, bind_eq_ok] at h
  obtain ⟨written, hset, family, hfamily, hrule⟩ := h
  have hchain : family.chain = chain := by
    rw [addFamilyMatch_chain hfamily, addDnatStatusMatch_chain, setRuleComment_chain hset]
    rfl
  cases hsnat : plan.snat with
  | none =>
    rw [hsnat] at hrule
    cases hrule
    simpa using hchain
  | masquerade =>
    rw [hsnat] at hrule
    cases hrule
    simpa using hchain
  | fixed address =>
    rw [hsnat] at hrule
    rw [addNatTarget_chain hrule]
    simpa using hchain

theorem inboundRule_chain {source : Option IpNet} {rule : KernelRule}
    (h : inboundRule chain plan source setComment = .ok rule) : rule.chain = chain := by
  simp only [inboundRule, bind_eq_ok] at h
  obtain ⟨written, hset, family, hfamily, named, hiface, hrule⟩ := h
  have hnamed : named.chain = chain := by
    rw [addInterfaceMatch_chain hiface, addOriginalAddressMatch_chain,
      addFamilyMatch_chain hfamily, addDnatStatusMatch_chain, setRuleComment_chain hset]
    rfl
  cases hrule
  cases source <;> simpa using hnamed

theorem replyRule_chain {source : Option IpNet} {rule : KernelRule}
    (h : replyRule chain plan source setComment = .ok rule) : rule.chain = chain := by
  simp only [replyRule, bind_eq_ok] at h
  obtain ⟨written, hset, family, hfamily, hrule⟩ := h
  have hchain : family.chain = chain := by
    rw [addFamilyMatch_chain hfamily, addDnatStatusMatch_chain, setRuleComment_chain hset]
    rfl
  cases hrule
  cases source <;> simpa using hchain

/-! ### The loops -/

theorem length_planSources (plan : RulePlan) :
    (planSources plan).length = max plan.sourceCidrs.length 1 := by
  unfold planSources
  cases plan.sourceCidrs with
  | nil => rfl
  | cons cidr rest =>
    rw [if_neg (by simp), List.length_map, List.length_cons]
    omega

/-- **One pass of the loops** over ports and sources: their numbers, multiplied. -/
theorem length_of_addPreroutingRules {rules : List KernelRule}
    (h : addPreroutingRules chain plan setComment = .ok rules) :
    rules.length = max plan.sourceCidrs.length 1 * plan.listenPort.len.toNat := by
  rw [length_of_mapM_eq_ok _ h, List.length_flatMap, List.map_congr_left fun offset _ =>
    List.length_map _, List.map_const', List.sum_replicate, length_planSources, portOffsets,
    List.length_map, List.length_range, smul_eq_mul, Nat.mul_comm]

theorem chain_of_addPreroutingRules {rules : List KernelRule}
    (h : addPreroutingRules chain plan setComment = .ok rules) :
    ∀ rule ∈ rules, rule.chain = chain := by
  intro rule hmem
  obtain ⟨x, -, hrule⟩ := exists_of_mem_result _ h hmem
  exact preroutingRule_chain hrule

theorem chain_of_addForwardCounterRules {rules : List KernelRule}
    (h : addForwardCounterRules chain plan setComment = .ok rules) :
    ∀ rule ∈ rules, rule.chain = chain := by
  simp only [addForwardCounterRules, bind_eq_ok] at h
  obtain ⟨pairs, hpairs, hflat⟩ := h
  cases hflat
  intro rule hmem
  obtain ⟨pair, hpair, hrule⟩ := List.mem_flatten.mp hmem
  obtain ⟨source, -, hsource⟩ := exists_of_mem_result _ hpairs hpair
  simp only [bind_eq_ok] at hsource
  obtain ⟨inbound, hinbound, reply, hreply, hboth⟩ := hsource
  cases hboth
  rcases List.mem_cons.mp hrule with hin | hout
  · rw [hin]
    exact inboundRule_chain hinbound
  · rw [List.mem_singleton.mp hout]
    exact replyRule_chain hreply

end

/-! ### The two chains -/

/-- The formula of the receipt, loop by loop. -/
theorem ruleCount_eq (plans : List RulePlan) :
    ruleCount plans =
      (plans.map fun plan => max plan.sourceCidrs.length 1 * plan.listenPort.len.toNat).sum +
        (plans.filter (·.snat ≠ .none)).length := by
  induction plans with
  | nil => rfl
  | cons plan plans ih =>
    have hcons : ruleCount (plan :: plans) = max plan.sourceCidrs.length 1 *
        plan.listenPort.len.toNat + (if plan.snat = .none then 0 else 1) + ruleCount plans := by
      rw [ruleCount, List.map_cons, List.sum_cons]
      rfl
    rw [hcons, ih, List.map_cons, List.sum_cons, List.filter_cons]
    by_cases hsnat : plan.snat = .none
    · rw [if_pos hsnat, if_neg (by simpa using hsnat)]
      omega
    · rw [if_neg hsnat, if_pos (by simpa using hsnat), List.length_cons]
      omega

/-- **The receipt counts the rules of the two NAT chains**, for any configuration that is applied: those
that the loops over ports and sources put into the prerouting chain, and those that the loop over the plan
puts into the postrouting chain. -/
theorem ruleCount_of_nftApply {before after : Option Table} {config : Config}
    {receipt : ApplyReceipt} (hrun : nftApply before config = .ok (after, receipt)) :
    ∃ t pre post, after = some t ∧
      config.plan.mapM (addPreroutingRules preroutingChain ·) = .ok pre ∧
      (config.plan.filter (·.snat ≠ .none)).mapM (addPostroutingRule postroutingChain ·) = .ok post ∧
      t.chainRules preroutingChain = pre.flatten ∧ t.chainRules postroutingChain = post ∧
      receipt.ruleCount = pre.flatten.length + post.length := by
  rw [nftApply_eq] at hrun
  cases hcompile : compile config with
  | error e =>
    rw [hcompile] at hrun
    cases hrun
  | ok compiled =>
    rw [hcompile] at hrun
    cases hrun
    simp only [compile, buildRules, bind_eq_ok] at hcompile
    obtain ⟨rules, ⟨pre, hpre, post, hpost, fwd, hfwd, hrules⟩, htable⟩ := hcompile
    cases hrules
    cases htable
    have hprechain : ∀ rule ∈ pre.flatten, rule.chain = preroutingChain := by
      intro rule hmem
      obtain ⟨rules, hrules, hrule⟩ := List.mem_flatten.mp hmem
      obtain ⟨plan, -, hplan⟩ := exists_of_mem_result _ hpre hrules
      exact chain_of_addPreroutingRules hplan rule hrule
    have hpostchain : ∀ rule ∈ post, rule.chain = postroutingChain := by
      intro rule hmem
      obtain ⟨plan, -, hplan⟩ := exists_of_mem_result _ hpost hmem
      exact addPostroutingRule_chain hplan
    have hfwdchain : ∀ rule ∈ fwd.flatten, rule.chain = forwardChain := by
      intro rule hmem
      obtain ⟨rules, hrules, hrule⟩ := List.mem_flatten.mp hmem
      obtain ⟨plan, -, hplan⟩ := exists_of_mem_result _ hfwd hrules
      exact chain_of_addForwardCounterRules hplan rule hrule
    have hsplit := filter_chains hprechain hpostchain hfwdchain
    have hpreonly := (hsplit preroutingChain).trans (if_pos rfl)
    have hpostonly := (hsplit postroutingChain).trans ((if_neg (by decide)).trans (if_pos rfl))
    refine ⟨_, pre, post, rfl, hpre, hpost, hpreonly, hpostonly, ?_⟩
    rw [length_flatten_of_mapM_eq_ok (fun _ _ => length_of_addPreroutingRules) hpre,
      length_of_mapM_eq_ok _ hpost]
    exact ruleCount_eq config.plan

/-- `webRule` with no listen port at all, and a masqueraded source. -/
def portlessRule : ForwardRule :=
  { webRule with listenPort := ⟨8081, 8080⟩, snat := .masquerade }

theorem ruleCount_of_portless :
    ∃ t, nftApply none ⟨1, [portlessRule]⟩ = .ok (some t, ⟨1, false⟩) ∧
      ∃ post, (Config.mk 1 [portlessRule]).plan.mapM (addPreroutingRules preroutingChain ·) =
          .ok [[]] ∧
        t.chainRules postroutingChain = post ∧ post.length = 1 := by
  refine ⟨_, rfl, ?_⟩
  obtain ⟨t, pre, post, hsome, hpre, -, -, hpost, hcount⟩ :=
    @ruleCount_of_nftApply none _ ⟨1, [portlessRule]⟩ ⟨1, false⟩ rfl
  cases hsome
  have hnone : (Config.mk 1 [portlessRule]).plan.mapM (addPreroutingRules preroutingChain ·) =
      .ok [[]] := rfl
  cases hpre.symm.trans hnone
  refine ⟨post, rfl, hpost, ?_⟩
  simpa using hcount.symm

end Portalis
