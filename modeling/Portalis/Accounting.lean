import Portalis.Drift
import Portalis.SourceTranslation

/-!
# Counting forwarded packets

The forward chain against the flows it is there to count.  Its rules end with a counter and give no
verdict, so a packet is counted by every rule whose clauses admit it, and `status` adds up the rules of a
key.

* `traverse_keyed`: what one packet does to the rules of a key.
* `inboundClauses_hold`, `replyClauses_hold`: what the two counter rules of a source match admit.
* `counted_once_iff`: exactly when a packet of a flow raises the counter of its own rule by one.
* `counted_elsewhere_iff`: exactly when it raises the counter of another rule.
-/

namespace Portalis

open Octets RuleMachine Text Tally

/-! ### One packet through a chain -/

/-- The octets of the packet, as a counter counts them. -/
def SkBuff.len (skb : SkBuff) : UInt64 :=
  UInt64.ofNat (skb.packet.network.octets.length + skb.packet.transportOctets.length)

/-- The rule after the packet. -/
def KernelRule.counted (skb : SkBuff) (rule : KernelRule) : KernelRule :=
  { rule with exprs := count (view skb) skb.len rule.exprs fun _ => [] }

@[simp] theorem KernelRule.counted_key (skb : SkBuff) (rule : KernelRule) :
    (rule.counted skb).key = rule.key := rfl

/-- The rules of a table after the packet has gone through one chain, up to the first verdict. -/
def traverseRules (chain : String) (skb : SkBuff) : List KernelRule → List KernelRule
  | [] => []
  | rule :: rules =>
    if rule.chain ≠ chain then rule :: traverseRules chain skb rules
    else rule.counted skb ::
      match (runRule (view skb) perform rule.exprs).verdict? with
      | none => traverseRules chain skb rules
      | some _ => rules

def Table.traverse (t : Table) (chain : String) (skb : SkBuff) : Table :=
  { t with rules := traverseRules chain skb t.rules }

/-- A chain without verdicts is gone through to its end. -/
theorem traverseRules_eq {chain : String} {skb : SkBuff} {rules : List KernelRule}
    (h : ∀ rule ∈ rules, rule.chain = chain →
      (runRule (view skb) perform rule.exprs).verdict? = none) :
    traverseRules chain skb rules =
      rules.map fun rule => if rule.chain = chain then rule.counted skb else rule := by
  induction rules with
  | nil => rfl
  | cons rule rules ih =>
    have ih := ih fun r hr => h r (List.mem_cons_of_mem _ hr)
    rw [traverseRules, List.map_cons]
    by_cases hchain : rule.chain = chain
    · rw [if_neg (not_not.mpr hchain), if_pos hchain, h rule List.mem_cons_self hchain]
      exact congrArg _ ih
    · rw [if_pos hchain, if_neg hchain, ih]

/-- The rules of a key are in the forward chain. -/
theorem chain_of_mem_keyed {t : Table} {key : CounterKey} {rule : KernelRule}
    (h : rule ∈ t.keyed key) : rule.chain = forwardChain := by
  have hkey := (List.mem_filter.mp h).2
  by_contra hne
  simp [key_of_chain_ne hne] at hkey

/-- **What one packet does to the rules of a key.** -/
theorem traverse_keyed {t : Table} {skb : SkBuff}
    (h : ∀ rule ∈ t.rules, rule.chain = forwardChain →
      (runRule (view skb) perform rule.exprs).verdict? = none) (key : CounterKey) :
    (t.traverse forwardChain skb).keyed key = (t.keyed key).map (KernelRule.counted skb) := by
  let counted := fun rule : KernelRule =>
    if rule.chain = forwardChain then rule.counted skb else rule
  have hkey : ∀ rule, (counted rule).key = rule.key := by
    intro rule
    show (if rule.chain = forwardChain then rule.counted skb else rule).key = rule.key
    split <;> rfl
  have hfilter : (t.rules.map counted).filter (fun rule => rule.key = some key) =
      (t.keyed key).map counted := by
    rw [List.filter_map]
    exact congrArg _ (List.filter_congr fun rule _ => by rw [Function.comp_apply, hkey])
  rw [Table.keyed, Table.traverse, traverseRules_eq h, ofKey]
  show (t.rules.map counted).filter _ = _
  rw [hfilter]
  exact List.map_congr_left fun rule hr => if_pos (chain_of_mem_keyed hr)

/-! ### A counter behind clauses -/

/-- The counter rule of these clauses, with what it has counted. -/
def counterRule (plan : RulePlan) (cs : List (Clause Selector)) (packets bytes : UInt64) :
    KernelRule where
  chain := forwardChain
  comment := ruleComment plan.ruleId plan.protocol
  exprs := cs.flatMap Clause.exprs ++ [.counter packets bytes]

@[simp] theorem counterRule_counters (plan : RulePlan) (cs : List (Clause Selector))
    (packets bytes : UInt64) : (counterRule plan cs packets bytes).counters = (packets, bytes) := by
  simp [counterRule, KernelRule.counters]

theorem counterRule_verdict (plan : RulePlan) (cs : List (Clause Selector)) (packets bytes : UInt64)
    (skb : SkBuff) :
    (runRule (view skb) perform (counterRule plan cs packets bytes).exprs).verdict? = none := by
  have hrun := exec_clauses_append (view skb) perform cs [.counter packets bytes] .pass
    (fun _ => rfl) fun _ => []
  rw [runRule, counterRule, hrun]
  split <;> rfl

/-- A counter rule counts the packets that its clauses admit. -/
theorem counterRule_counted (plan : RulePlan) (cs : List (Clause Selector)) (packets bytes : UInt64)
    (skb : SkBuff) : (counterRule plan cs packets bytes).counted skb =
      if cs.all (·.holds (view skb)) then counterRule plan cs (packets + 1) (bytes + skb.len)
      else counterRule plan cs packets bytes := by
  have hcount := @count_clauses_append Selector Statement (view skb) skb.len cs
    [.counter packets bytes] [.counter (packets + 1) (bytes + skb.len)] (fun _ => rfl) fun _ => []
  rw [KernelRule.counted, counterRule, hcount]
  split <;> rfl

/-- An expression without what it has counted. -/
def eraseCounter : Expr Selector Statement → Expr Selector Statement
  | .counter _ _ => .counter 0 0
  | e => e

theorem KernelRule.erase_exprs (rule : KernelRule) :
    rule.erase.exprs = rule.exprs.map eraseCounter :=
  List.map_congr_left fun e _ => by cases e <;> rfl

theorem eraseCounter_of_mem_clause {c : Clause Selector} {e : Expr Selector Statement}
    (h : e ∈ c.exprs) {e' : Expr Selector Statement} (he : eraseCounter e' = eraseCounter e) :
    e' = e := by
  simp only [Clause.exprs, List.mem_cons, List.mem_append, List.mem_map] at h
  rcases h with rfl | ⟨m, -, rfl⟩ | ⟨t, -, rfl⟩ <;> cases e' <;> simp_all [eraseCounter]

/-- Without its counters, a list of clauses is that list of clauses. -/
theorem eq_of_map_eraseCounter {es : List (Expr Selector Statement)} :
    ∀ {es' : List (Expr Selector Statement)},
      (∀ e ∈ es, ∀ e', eraseCounter e' = eraseCounter e → e' = e) →
      es'.map eraseCounter = es.map eraseCounter → es' = es := by
  induction es with
  | nil =>
    intro es' _ h
    exact List.map_eq_nil_iff.mp h
  | cons e es ih =>
    intro es' hkeep h
    obtain ⟨e', rest, rfl, he, hrest⟩ := List.map_eq_cons_iff.mp h
    rw [hkeep e List.mem_cons_self e' he,
      ih (fun e he => hkeep e (List.mem_cons_of_mem _ he)) hrest]

/-- **However much it has counted**, a compiled counter rule is its clauses and a counter. -/
theorem exists_counterRule {plan : RulePlan} {cs : List (Clause Selector)} {rule : KernelRule}
    (h : rule.erase = (emitted forwardChain plan cs []).erase) :
    ∃ packets bytes, rule = counterRule plan cs packets bytes := by
  have hexprs := congrArg KernelRule.exprs h
  rw [KernelRule.erase_exprs, KernelRule.erase_exprs, emitted, List.map_append] at hexprs
  obtain ⟨front, back, hsplit, hfront, hback⟩ := List.map_eq_append_iff.mp hexprs
  obtain ⟨last, rest, rfl, hlast, hrest⟩ := List.map_eq_cons_iff.mp hback
  rw [List.map_nil, List.map_eq_nil_iff] at hrest
  subst hrest
  have hclauses : front = cs.flatMap Clause.exprs := by
    refine eq_of_map_eraseCounter (fun e he e' => ?_) hfront
    obtain ⟨c, -, he⟩ := List.mem_flatMap.mp he
    exact eraseCounter_of_mem_clause he
  obtain ⟨packets, bytes, rfl⟩ : ∃ packets bytes, last = .counter packets bytes := by
    cases last <;> simp_all [eraseCounter]
  have hchain : rule.chain = forwardChain := congrArg KernelRule.chain h
  have hcomment : rule.comment = ruleComment plan.ruleId plan.protocol :=
    congrArg KernelRule.comment h
  refine ⟨packets, bytes, ?_⟩
  rw [counterRule, ← hclauses, ← hsplit, ← hchain, ← hcomment]

/-- Rules that are counter rules of these clauses, one after the other. -/
def CounterRules (plan : RulePlan) (rules : List KernelRule) (css : List (List (Clause Selector))) :
    Prop :=
  List.Forall₂ (fun rule cs => ∃ packets bytes, rule = counterRule plan cs packets bytes) rules css

/-- The packets that a list of rules has counted. -/
def packetTotal (rules : List KernelRule) : ℕ := (rules.map fun rule => rule.counters.1.toNat).sum

/-- **What a packet adds**: one for each rule whose clauses hold, while there is room. -/
theorem CounterRules.packetTotal_counted {plan : RulePlan} {rules : List KernelRule}
    {css : List (List (Clause Selector))} (h : CounterRules plan rules css) (skb : SkBuff)
    (hroom : packetTotal rules < 2 ^ 64 - 1) :
    packetTotal (rules.map (KernelRule.counted skb)) =
      packetTotal rules + css.countP fun cs => cs.all (·.holds (view skb)) := by
  induction h with
  | nil => rfl
  | @cons rule cs rules css hrule _ ih =>
    obtain ⟨packets, bytes, rfl⟩ := hrule
    simp only [packetTotal, List.map_cons, List.sum_cons, counterRule_counters] at hroom ih ⊢
    have ih := ih (by omega)
    rw [ih, counterRule_counted, List.countP_cons]
    split
    · have hsucc : (packets + 1).toNat = packets.toNat + 1 := by
        rw [UInt64.toNat_add, UInt64.toNat_one, Nat.mod_eq_of_lt (by omega)]
      simp only [counterRule_counters, hsucc]
      omega
    · simp only [counterRule_counters]
      omega

/-- A packet leaves the rules alone iff no clauses hold. -/
theorem CounterRules.counted_eq_iff {plan : RulePlan} {rules : List KernelRule}
    {css : List (List (Clause Selector))} (h : CounterRules plan rules css) (skb : SkBuff) :
    rules.map (KernelRule.counted skb) = rules ↔
      ∀ cs ∈ css, ¬ cs.all (·.holds (view skb)) = true := by
  induction h with
  | nil => simp
  | @cons rule cs rules css hrule _ ih =>
    obtain ⟨packets, bytes, rfl⟩ := hrule
    rw [List.map_cons, List.cons.injEq, ih, List.forall_mem_cons, counterRule_counted]
    refine and_congr_left fun _ => ?_
    split
    · rename_i hholds
      refine iff_of_false (fun heq => ?_) (not_not.mpr hholds)
      have hpackets := congrArg (fun rule => rule.counters.1.toNat) heq
      simp only [counterRule_counters, UInt64.toNat_add, UInt64.toNat_one] at hpackets
      have := packets.toNat_lt
      omega
    · rename_i hholds
      exact iff_of_true rfl hholds

/-! ### Flows at the forward hook -/

/-- The packet belongs to the translated flow that `opening` started. -/
structure SkBuff.OfFlow (skb : SkBuff) (opening : Packet) : Prop where
  protocol : skb.packet.protocol = opening.protocol
  family : skb.packet.network.isIpv4 = opening.network.isIpv4
  original : skb.ct.original = opening.tuple
  status : skb.ct.status &&& ipsDstNat = ipsDstNat

/-- The way a packet of a flow goes. -/
inductive Direction
  | original
  | reply
  deriving DecidableEq

/-- Between the two translations a packet shows the client and the target. -/
def Direction.tuple (opening : Packet) (address : IpAddr) (port : UInt16) : Direction → Tuple
  | original => ⟨opening.saddr, address, opening.sport, port⟩
  | reply => ⟨address, opening.saddr, port, opening.sport⟩

/-- A packet at the forward hook, of the flow that `opening` started and that is translated to `address`
and `port`.  A reply comes in on whatever interface. -/
structure Forwarded (opening : Packet) (address : IpAddr) (port : UInt16) (direction : Direction)
    (skb : SkBuff) : Prop extends SkBuff.OfFlow skb opening where
  tuple : skb.packet.tuple = direction.tuple opening address port
  iifname : direction = .original → skb.packet.iifname = opening.iifname

/-- What a plan entry asks of the opening packet on any interface and from any source. -/
structure RulePlan.Listens (plan : RulePlan) (opening : Packet) : Prop where
  family : plan.family.matchesAddress opening.daddr = true
  protocol : opening.protocol = plan.protocol
  listenAddress : plan.listenAddress.Admits opening.daddr
  port : plan.listenPort.Mem opening.dport

/-- The source match admits the address. -/
def SourceAdmits (source : Option IpNet) (address : IpAddr) : Prop :=
  ∀ cidr, source = some cidr → cidr.contains address = true

section

variable {plan : RulePlan} {opening : Packet} {skb : SkBuff} {source : Option IpNet}

theorem originalAddressClauses_hold {listen : ListenAddress} (hflow : skb.OfFlow opening)
    (hfamily : ∀ a, listen = .address a → a.isIpv4 = opening.network.isIpv4) :
    (originalAddressClauses listen).all (·.holds (view skb)) = true ↔
      listen.Admits opening.daddr := by
  cases listen with
  | any => simp [originalAddressClauses, listenAddressClauses, ListenAddress.Admits]
  | address a =>
    have hview : view skb (.ctOriginal .dst) = some opening.daddr.octets := by
      rw [view, hflow.original]
      rfl
    have hfield : opening.daddr.isIpv4 = a.isIpv4 := by simp [Packet.daddr, hfamily a rfl]
    simp [originalAddressClauses, listenAddressClauses, ListenAddress.Admits,
      addressClause_holds hview hfield]

theorem originalSourceClauses_hold (hflow : skb.OfFlow opening)
    (hfamily : ∀ cidr, source = some cidr → cidr.network.isIpv4 = opening.network.isIpv4) :
    (sourceClauses (fun _ => .ctOriginal .src) source).all (·.holds (view skb)) = true ↔
      SourceAdmits source opening.saddr := by
  cases source with
  | none => simp [sourceClauses, SourceAdmits]
  | some cidr =>
    have hview : view skb (.ctOriginal .src) = some opening.saddr.octets := by
      rw [view, hflow.original]
      rfl
    have hfield : opening.saddr.isIpv4 = cidr.network.isIpv4 := by
      simp [Packet.saddr, hfamily cidr rfl]
    simp [sourceClauses, SourceAdmits, cidrClause_holds hview hfield]

theorem originalPortClause_holds (hflow : skb.OfFlow opening) (ports : PortRange) :
    (portClause (.ctOriginal .protoDst) ports).holds (view skb) = true ↔
      ports.Mem opening.dport := by
  refine portClause_holds ports ?_
  rw [view, hflow.original]
  rfl

theorem RulePlan.listens_iff (h : PlanChecked plan) :
    plan.Listens opening ↔ opening.network.isIpv4 = plan.targetIp.isIpv4 ∧
      opening.protocol = plan.protocol ∧ plan.listenAddress.Admits opening.daddr ∧
        plan.listenPort.Mem opening.dport := by
  have hfamily : plan.family.matchesAddress opening.daddr = true ↔
      opening.network.isIpv4 = plan.targetIp.isIpv4 := by
    rw [h.family, AddressFamily.matches_ofAddress_iff, Packet.daddr, NetworkHeader.daddr_isIpv4]
  constructor
  · rintro ⟨h1, h2, h3, h4⟩
    exact ⟨hfamily.mp h1, h2, h3, h4⟩
  · rintro ⟨h1, h2, h3, h4⟩
    exact ⟨hfamily.mpr h1, h2, h3, h4⟩

/-- **The inbound rule of a source match.** -/
theorem inboundClauses_hold (h : PlanChecked plan) (hiface : InterfaceOk plan.listenInterface)
    (hflow : skb.OfFlow opening) (hsource : source ∈ planSources plan) :
    (inboundClauses plan source).all (·.holds (view skb)) = true ↔
      plan.Listens opening ∧ InterfaceAdmits plan.listenInterface skb.packet.iifname ∧
        SourceAdmits source skb.packet.saddr ∧ skb.packet.daddr = plan.targetIp ∧
          plan.targetPort.Mem skb.packet.dport := by
  have hstatus := (dnatStatusClause_holds skb).mpr hflow.status
  have hport := @portClause_holds skb (.transportHeader 2 2) _ plan.targetPort (view_dport skb)
  simp only [inboundClauses, List.all_append, Bool.and_eq_true, List.all_cons, List.all_nil,
    Bool.and_true, hstatus, true_and, familyClause_holds, protocolClause_holds,
    interfaceClauses_hold hiface skb, originalPortClause_holds hflow, hport, hflow.protocol,
    RulePlan.listens_iff h, ← hflow.family]
  by_cases hnet : skb.packet.network.isIpv4 = plan.targetIp.isIpv4
  · -- within the family of the flow every address clause reads the right field
    have hfield : skb.packet.daddr.isIpv4 = plan.targetIp.isIpv4 := by simp [Packet.daddr, hnet]
    have hlisten := @originalAddressClauses_hold opening skb plan.listenAddress hflow fun a ha =>
      (h.listen_family a ha).trans (hnet.symm.trans hflow.family)
    have hcidr : (sourceClauses (payloadAddress · true) source).all (·.holds (view skb)) = true ↔
        SourceAdmits source skb.packet.saddr := sourceClauses_hold skb fun cidr hc =>
      (h.source_family cidr (mem_sourceCidrs_of_mem_planSources (hc ▸ hsource))).trans hnet.symm
    rw [hlisten, hcidr, addressClause_holds (view_daddr skb hnet) hfield]
    tauto
  · tauto

/-- **The reply rule of a source match**: it names no interface. -/
theorem replyClauses_hold (h : PlanChecked plan) (hflow : skb.OfFlow opening)
    (hsource : source ∈ planSources plan) :
    (replyClauses plan source).all (·.holds (view skb)) = true ↔
      plan.Listens opening ∧ SourceAdmits source opening.saddr ∧
        skb.packet.saddr = plan.targetIp ∧ plan.targetPort.Mem skb.packet.sport := by
  have hstatus := (dnatStatusClause_holds skb).mpr hflow.status
  have hport := @portClause_holds skb (.transportHeader 0 2) _ plan.targetPort (view_sport skb)
  simp only [replyClauses, List.all_append, Bool.and_eq_true, List.all_cons, List.all_nil,
    Bool.and_true, hstatus, true_and, familyClause_holds, protocolClause_holds,
    originalPortClause_holds hflow, hport, hflow.protocol, RulePlan.listens_iff h, ← hflow.family]
  by_cases hnet : skb.packet.network.isIpv4 = plan.targetIp.isIpv4
  · have hfield : skb.packet.saddr.isIpv4 = plan.targetIp.isIpv4 := by simp [Packet.saddr, hnet]
    have hlisten := @originalAddressClauses_hold opening skb plan.listenAddress hflow fun a ha =>
      (h.listen_family a ha).trans (hnet.symm.trans hflow.family)
    have hcidr := @originalSourceClauses_hold opening skb source hflow fun cidr hc =>
      (h.source_family cidr (mem_sourceCidrs_of_mem_planSources (hc ▸ hsource))).trans
        (hnet.symm.trans hflow.family)
    rw [hlisten, hcidr, addressClause_holds (view_saddr skb hnet) hfield]
    tauto
  · tauto

end

/-! ### The counter rules of a plan entry -/

/-- The clauses of the counter rules of a plan entry, in order. -/
def forwardClausesOf (plan : RulePlan) : List (List (Clause Selector)) :=
  (planSources plan).flatMap fun source => [inboundClauses plan source, replyClauses plan source]

theorem forwardRulesOf_eq (plan : RulePlan) :
    forwardRulesOf plan = (forwardClausesOf plan).map fun cs => emitted forwardChain plan cs [] := by
  simp [forwardRulesOf, forwardClausesOf, List.map_flatMap]

theorem countP_forwardClausesOf (plan : RulePlan) (p : List (Clause Selector) → Bool) :
    (forwardClausesOf plan).countP p =
      ((planSources plan).countP fun source => p (inboundClauses plan source)) +
        (planSources plan).countP fun source => p (replyClauses plan source) := by
  rw [forwardClausesOf]
  induction planSources plan with
  | nil => rfl
  | cons source sources ih =>
    rw [List.flatMap_cons, List.countP_append, ih]
    simp only [List.countP_cons, List.countP_nil]
    omega

section

variable {config : Config} {context : ValidationContext} {t : Table}

/-- **The counter rules of a table that has been counting.** -/
theorem Accepted.counterRules (h : Accepted config context) (ht : t.erase = (tableOf config).erase)
    {plan : RulePlan} (hp : plan ∈ config.plan) :
    CounterRules plan (t.keyed plan.key) (forwardClausesOf plan) := by
  have herase : (t.keyed plan.key).map KernelRule.erase = (forwardClausesOf plan).map
      fun cs => (emitted forwardChain plan cs []).erase := by
    rw [← keyed_erase, ht, keyed_erase, keyed_tableOf, h.filter_key hp, List.flatMap_singleton,
      forwardRulesOf_eq, List.map_map]
    rfl
  have hall : List.Forall₂ (fun rule cs => rule.erase = (emitted forwardChain plan cs []).erase)
      (t.keyed plan.key) (forwardClausesOf plan) := by
    rw [← List.forall₂_eq_eq_eq, List.forall₂_map_left_iff, List.forall₂_map_right_iff] at herase
    exact herase
  exact hall.imp fun _ _ => exists_counterRule

/-- The forward chain gives no verdict. -/
theorem forward_verdict (ht : t.erase = (tableOf config).erase) (skb : SkBuff) :
    ∀ rule ∈ t.rules, rule.chain = forwardChain →
      (runRule (view skb) perform rule.exprs).verdict? = none := by
  intro rule hr hchain
  have herase : rule.erase ∈ (tableOf config).erase.rules := ht ▸ List.mem_map_of_mem hr
  obtain ⟨compiled, hmem, hsame⟩ := List.mem_map.mp herase
  have hforward : compiled.chain = forwardChain := (congrArg KernelRule.chain hsame).trans hchain
  have hfilter : compiled ∈ (rulesOf config.plan).filter (·.chain == forwardChain) :=
    List.mem_filter.mpr ⟨hmem, by simp [hforward]⟩
  rw [filter_rulesOf, if_neg (by decide), if_neg (by decide), if_pos rfl] at hfilter
  obtain ⟨plan, -, hplan⟩ := List.mem_flatMap.mp hfilter
  rw [forwardRulesOf_eq] at hplan
  obtain ⟨cs, -, rfl⟩ := List.mem_map.mp hplan
  obtain ⟨packets, bytes, rfl⟩ := exists_counterRule hsame.symm
  exact counterRule_verdict plan cs packets bytes skb

end

/-! ### The aggregated counter -/

/-- The packet counter that `aggregate_rule_counters` has for a key. -/
def Table.packets (t : Table) (key : CounterKey) : Option UInt64 :=
  ((aggregateRuleCounters (dumpRules t)).1.lookup key).map (·.1)

theorem Table.packets_eq {t : Table} {key : CounterKey} (h : t.keyed key ≠ []) :
    ∃ n, t.packets key = some n ∧ n.toNat = min (2 ^ 64 - 1) (packetTotal (t.keyed key)) := by
  refine ⟨(t.counterOf key).packets, ?_, ?_⟩
  · rw [Table.packets, lookup_aggregated, if_neg h]
    rfl
  · rw [Table.counterOf, toNat_capped, packetTotal, List.map_map]
    rfl

/-- The aggregated packet counter of the key is one higher. -/
def RaisedByOne (before after : Table) (key : CounterKey) : Prop :=
  ∃ n m, before.packets key = some n ∧ after.packets key = some m ∧ m.toNat = n.toNat + 1

/-- **When a packet raises an aggregated counter by one**: one rule of the key counts it, below the cap;
just below the cap it does not show how many do. -/
theorem raisedByOne_iff {plan : RulePlan} {t : Table} {skb : SkBuff}
    (hrules : CounterRules plan (t.keyed plan.key) (forwardClausesOf plan))
    (hverdict : ∀ rule ∈ t.rules, rule.chain = forwardChain →
      (runRule (view skb) perform rule.exprs).verdict? = none)
    (hcounted : (forwardClausesOf plan).countP (fun cs => cs.all (·.holds (view skb))) ≠ 0) :
    RaisedByOne t (t.traverse forwardChain skb) plan.key ↔
      packetTotal (t.keyed plan.key) < 2 ^ 64 - 1 ∧
        ((forwardClausesOf plan).countP (fun cs => cs.all (·.holds (view skb))) = 1 ∨
          packetTotal (t.keyed plan.key) + 1 = 2 ^ 64 - 1) := by
  have hkeyed := traverse_keyed hverdict plan.key
  have hne : t.keyed plan.key ≠ [] := by
    intro hnil
    rw [hnil, CounterRules, List.forall₂_nil_left_iff] at hrules
    simp [hrules] at hcounted
  obtain ⟨n, hn, hnat⟩ := Table.packets_eq hne
  obtain ⟨m, hm, hmat⟩ := @Table.packets_eq (t.traverse forwardChain skb) plan.key (by
    rw [hkeyed, Ne, List.map_eq_nil_iff]
    exact hne)
  rw [hkeyed] at hmat
  have hraised : RaisedByOne t (t.traverse forwardChain skb) plan.key ↔
      m.toNat = n.toNat + 1 := by
    rw [RaisedByOne, hn, hm]
    simp
  rw [hraised, hnat, hmat]
  by_cases hroom : packetTotal (t.keyed plan.key) < 2 ^ 64 - 1
  · rw [hrules.packetTotal_counted skb hroom]
    omega
  · omega

/-! ### The rules of one flow -/

/-- The source matches of the rule that admit the address: one without blocks, else one for each block
that contains it. -/
def ForwardRule.sourceMatches (rule : ForwardRule) (source : IpAddr) : ℕ :=
  if rule.sourceCidrs = [] then 1 else rule.sourceCidrs.countP (·.contains source)

/-- What a rule asks of the opening packet on any interface and from any source. -/
structure ForwardRule.Listens (rule : ForwardRule) (opening : Packet) : Prop where
  family : rule.effectiveFamily.matchesAddress opening.daddr = true
  protocol : rule.protocols.has opening.protocol = true
  listenAddress : rule.listenAddress.Admits opening.daddr
  port : rule.listenPort.Mem opening.dport

/-- The client is a target of the rule itself, and the packet is on an interface the rule listens on. -/
def ForwardRule.Hairpin (rule : ForwardRule) (opening : Packet) (name : InterfaceName) : Prop :=
  opening.saddr = rule.targetIp ∧ rule.targetPort.Mem opening.sport ∧
    InterfaceAdmits rule.listenInterface name

theorem sourceAdmits_iff {source : Option IpNet} {address : IpAddr} :
    SourceAdmits source address ↔ source.all (·.contains address) = true := by
  cases source <;> simp [SourceAdmits]

theorem countP_planSources (rule : ForwardRule) (p : Protocol) (address : IpAddr) :
    (planSources (rule.planFor p)).countP (·.all (·.contains address)) =
      rule.sourceMatches address := by
  show (if rule.sourceCidrs.isEmpty then [none] else rule.sourceCidrs.map some).countP _ = _
  unfold ForwardRule.sourceMatches
  cases rule.sourceCidrs with
  | nil => rfl
  | cons cidr cidrs => exact List.countP_map

theorem sourceMatches_pos {rule : ForwardRule} {source : IpAddr}
    (h : SourcesAdmit rule.sourceCidrs source) : 0 < rule.sourceMatches source := by
  unfold ForwardRule.sourceMatches
  rcases h with hnil | ⟨cidr, hmem, hcontains⟩
  · rw [if_pos hnil]
    exact Nat.one_pos
  · rw [if_neg (List.ne_nil_of_mem hmem), List.countP_pos_iff]
    exact ⟨cidr, hmem, hcontains⟩

section

variable {config : Config} {context : ValidationContext} {rule : ForwardRule} {opening : Packet}
  {port : UInt16} {direction : Direction} {skb : SkBuff}

/-- **How often a packet is counted for its own rule**: once for each source match that admits the
client, and as often again when the rule takes it for a packet of the other direction too. -/
theorem countP_own (h : Accepted config context) (hiface : config.InterfacesOk)
    (hr : rule ∈ config.activeRules) (ha : rule.Accepts opening) (hport : rule.targetPort.Mem port)
    (hskb : Forwarded opening rule.targetIp port direction skb) :
    (¬ rule.Hairpin opening skb.packet.iifname →
      (forwardClausesOf (rule.planFor opening.protocol)).countP
        (fun cs => cs.all (·.holds (view skb))) = rule.sourceMatches opening.saddr) ∧
    (rule.Hairpin opening skb.packet.iifname →
      (forwardClausesOf (rule.planFor opening.protocol)).countP
        (fun cs => cs.all (·.holds (view skb))) =
          rule.sourceMatches opening.saddr + rule.sourceMatches opening.saddr) := by
  have hmem : rule.planFor opening.protocol ∈ config.plan :=
    Config.mem_plan.mpr ⟨rule, hr, _, ha.protocol, rfl⟩
  have hchecked := h.planChecked hmem
  have hlistens : (rule.planFor opening.protocol).Listens opening :=
    ⟨ha.family, rfl, ha.listenAddress, ha.port⟩
  -- clauses that hold for the sources of the client are counted once for each of them
  have hall : ∀ {q : Option IpNet → Bool},
      (∀ source ∈ planSources (rule.planFor opening.protocol),
        (q source = true ↔ SourceAdmits source opening.saddr)) →
      (planSources (rule.planFor opening.protocol)).countP q = rule.sourceMatches opening.saddr := by
    intro q hq
    rw [← countP_planSources rule opening.protocol]
    exact List.countP_congr fun source hs => by rw [hq source hs, sourceAdmits_iff]
  have hinbound := fun source (hs : source ∈ planSources (rule.planFor opening.protocol)) =>
    inboundClauses_hold hchecked (hiface.plan _ hmem) hskb.toOfFlow hs
  have hreply := fun source (hs : source ∈ planSources (rule.planFor opening.protocol)) =>
    replyClauses_hold hchecked hskb.toOfFlow hs
  have htuple := hskb.tuple
  rw [countP_forwardClausesOf]
  cases direction with
  | original =>
    obtain ⟨hsaddr, hdaddr, hsport, hdport⟩ := Tuple.mk.inj htuple
    have hname : InterfaceAdmits rule.listenInterface skb.packet.iifname :=
      hskb.iifname rfl ▸ ha.listenInterface
    rw [hsaddr, hdaddr, hdport] at hinbound
    rw [hsaddr, hsport] at hreply
    rw [hall fun source hs => (hinbound source hs).trans
      ⟨fun hc => hc.2.2.1, fun hc => ⟨hlistens, hname, hc, rfl, hport⟩⟩]
    refine ⟨fun hhair => ?_, fun hhair => ?_⟩
    · rw [List.countP_eq_zero.mpr fun source hs hc => hhair ?_, Nat.add_zero]
      obtain ⟨-, -, hsame, hrange⟩ := (hreply source hs).mp hc
      exact ⟨hsame, hrange, hname⟩
    · rw [hall fun source hs => (hreply source hs).trans
        ⟨fun hc => hc.2.1, fun hc => ⟨hlistens, hc, hhair.1, hhair.2.1⟩⟩]
  | reply =>
    obtain ⟨hsaddr, hdaddr, hsport, hdport⟩ := Tuple.mk.inj htuple
    rw [hsaddr, hdaddr, hdport] at hinbound
    rw [hsaddr, hsport] at hreply
    rw [Nat.add_comm, hall fun source hs => (hreply source hs).trans
      ⟨fun hc => hc.2.1, fun hc => ⟨hlistens, hc, rfl, hport⟩⟩]
    refine ⟨fun hhair => ?_, fun hhair => ?_⟩
    · rw [List.countP_eq_zero.mpr fun source hs hc => hhair ?_, Nat.add_zero]
      obtain ⟨-, hname, -, hsame, hrange⟩ := (hinbound source hs).mp hc
      exact ⟨hsame, hrange, hname⟩
    · rw [hall fun source hs => (hinbound source hs).trans
        ⟨fun hc => hhair.1 ▸ hc.2.2.1, fun hc =>
          ⟨hlistens, hhair.2.2, hhair.1 ▸ hc, hhair.1, hhair.2.1⟩⟩]

end

/-- The first request of a flow, behind its destination translation. -/
theorem forwarded_dnated {packet : Packet} {address : IpAddr}
    (hfamily : address.isIpv4 = packet.network.isIpv4) (port : UInt16) :
    Forwarded packet address port .original (SkBuff.dnated packet address port) where
  protocol := rfl
  family := packet.network.setDaddr_isIpv4 address
  original := rfl
  status := UInt32.and_self
  tuple := by
    have hsaddr : (packet.network.setDaddr address).saddr = packet.saddr :=
      packet.network.setDaddr_saddr address
    rw [Packet.tuple, Packet.saddr, Packet.daddr, SkBuff.dnated, hsaddr,
      NetworkHeader.setDaddr_daddr hfamily]
    rfl
  iifname _ := rfl

section

variable {config : Config} {context : ValidationContext} {rule : ForwardRule} {opening : Packet}
  {port : UInt16} {direction : Direction} {skb : SkBuff}

end

theorem webRule_accepts : webRule.Accepts (probe 8080) where
  family := by decide
  protocol := by decide
  listenAddress := trivial
  listenInterface _ h := by cases h
  source := Or.inl rfl
  port := by decide

theorem eight_le_width : 8 ≤ 32 := by decide

theorem sixteen_le_width : 16 ≤ 32 := by decide

/-- `webRule` for two blocks, one inside the other; the client of `probe` is in both. -/
def nestedRule : ForwardRule :=
  { webRule with
    sourceCidrs := [.v4 ⟨0xC6000000#32, 8, eight_le_width⟩, .v4 ⟨0xC6330000#32, 16, sixteen_le_width⟩] }

theorem nestedRule_accepts : nestedRule.Accepts (probe 8080) where
  family := by decide
  protocol := by decide
  listenAddress := trivial
  listenInterface _ h := by cases h
  source := Or.inr ⟨_, List.mem_cons_self, by decide⟩
  port := by decide

section

variable {config : Config} {context : ValidationContext} {rule : ForwardRule} {opening : Packet}
  {port : UInt16} {direction : Direction} {skb : SkBuff}

/-- `other` takes a packet of a translated flow for one of its own.  It would have accepted the opening
packet on another interface or from another source, and the packet shows the client or the target where
`other` expects its own target. -/
def ForwardRule.Mistakes (other : ForwardRule) (opening : Packet) (address : IpAddr) (port : UInt16)
    (name : InterfaceName) : Direction → Prop
  | .original => other.Listens opening ∧ SourcesAdmit other.sourceCidrs opening.saddr ∧
      opening.saddr = other.targetIp ∧ other.targetPort.Mem opening.sport
  | .reply => other.Listens opening ∧
      ((SourcesAdmit other.sourceCidrs opening.saddr ∧ address = other.targetIp ∧
          other.targetPort.Mem port) ∨
        (InterfaceAdmits other.listenInterface name ∧ SourcesAdmit other.sourceCidrs address ∧
          opening.saddr = other.targetIp ∧ other.targetPort.Mem opening.sport))

theorem exists_forwardClausesOf_iff (plan : RulePlan) (p : List (Clause Selector) → Prop) :
    (∃ cs ∈ forwardClausesOf plan, p cs) ↔
      (∃ source ∈ planSources plan, p (inboundClauses plan source)) ∨
        ∃ source ∈ planSources plan, p (replyClauses plan source) := by
  simp only [forwardClausesOf, List.mem_flatMap, List.mem_cons, List.not_mem_nil, or_false]
  constructor
  · rintro ⟨cs, ⟨source, hs, rfl | rfl⟩, hp⟩
    · exact Or.inl ⟨source, hs, hp⟩
    · exact Or.inr ⟨source, hs, hp⟩
  · rintro (⟨source, hs, hp⟩ | ⟨source, hs, hp⟩)
    · exact ⟨_, ⟨source, hs, Or.inl rfl⟩, hp⟩
    · exact ⟨_, ⟨source, hs, Or.inr rfl⟩, hp⟩

/-- **What the counter rules of any entry admit**: requests to its target and replies from it. -/
theorem exists_forwardClauses_hold_iff (h : Accepted config context) (hiface : config.InterfacesOk)
    (hr : rule ∈ config.activeRules) {p : Protocol} (hp : rule.protocols.has p = true)
    (hflow : skb.OfFlow opening) :
    (∃ cs ∈ forwardClausesOf (rule.planFor p), cs.all (·.holds (view skb)) = true) ↔
      (opening.protocol = p ∧ rule.Listens opening) ∧
        ((InterfaceAdmits rule.listenInterface skb.packet.iifname ∧
            SourcesAdmit rule.sourceCidrs skb.packet.saddr ∧ skb.packet.daddr = rule.targetIp ∧
            rule.targetPort.Mem skb.packet.dport) ∨
          SourcesAdmit rule.sourceCidrs opening.saddr ∧ skb.packet.saddr = rule.targetIp ∧
            rule.targetPort.Mem skb.packet.sport) := by
  have hmem : rule.planFor p ∈ config.plan := Config.mem_plan.mpr ⟨rule, hr, _, hp, rfl⟩
  have hlistens : (rule.planFor p).Listens opening ↔
      opening.protocol = p ∧ rule.Listens opening := by
    constructor
    · intro hl
      exact ⟨hl.protocol, hl.family, hl.protocol ▸ hp, hl.listenAddress, hl.port⟩
    · rintro ⟨hproto, hl⟩
      exact ⟨hl.family, hproto, hl.listenAddress, hl.port⟩
  have hsources : ∀ address, (∃ source ∈ planSources (rule.planFor p),
      SourceAdmits source address) ↔ SourcesAdmit rule.sourceCidrs address :=
    exists_planSources_iff (rule.planFor p)
  rw [exists_forwardClausesOf_iff, ← hlistens, ← hsources, ← hsources, and_or_left]
  refine or_congr ⟨?_, ?_⟩ ⟨?_, ?_⟩
  · rintro ⟨source, hs, hholds⟩
    obtain ⟨h1, h2, h3, h4⟩ := (inboundClauses_hold (h.planChecked hmem) (hiface.plan _ hmem) hflow
      hs).mp hholds
    exact ⟨h1, h2, ⟨source, hs, h3⟩, h4⟩
  · rintro ⟨h1, h2, ⟨source, hs, h3⟩, h4⟩
    exact ⟨source, hs, (inboundClauses_hold (h.planChecked hmem) (hiface.plan _ hmem) hflow
      hs).mpr ⟨h1, h2, h3, h4⟩⟩
  · rintro ⟨source, hs, hholds⟩
    obtain ⟨h1, h2, h3⟩ := (replyClauses_hold (h.planChecked hmem) hflow hs).mp hholds
    exact ⟨h1, ⟨source, hs, h2⟩, h3⟩
  · rintro ⟨h1, ⟨source, hs, h2⟩, h3⟩
    exact ⟨source, hs, (replyClauses_hold (h.planChecked hmem) hflow hs).mpr ⟨h1, h2, h3⟩⟩

/-- The counter rules of another entry admit the packet iff its rule mistakes it.  The inbound rules
never admit a request: the other rule would have accepted the opening packet. -/
theorem forwardClausesOf_hold (h : Accepted config context) (hiface : config.InterfacesOk)
    (hr : rule ∈ config.activeRules) (ha : rule.Accepts opening) {address : IpAddr}
    (hskb : Forwarded opening address port direction skb) {other : ForwardRule}
    (ho : other ∈ config.activeRules) (hne : other ≠ rule)
    (hp : other.protocols.has opening.protocol = true) :
    (∃ cs ∈ forwardClausesOf (other.planFor opening.protocol),
        cs.all (·.holds (view skb)) = true) ↔
      other.Mistakes opening address port skb.packet.iifname direction := by
  rw [exists_forwardClauses_hold_iff h hiface ho hp hskb.toOfFlow, and_iff_right rfl]
  have htuple := hskb.tuple
  cases direction with
  | original =>
    obtain ⟨hsaddr, hdaddr, hsport, hdport⟩ := Tuple.mk.inj htuple
    rw [hsaddr, hdaddr, hsport, hdport, hskb.iifname rfl]
    constructor
    · rintro ⟨hlistens, ⟨hname, hsource, -⟩ | hreply⟩
      · have haccepts : other.Accepts opening := ⟨hlistens.family, hlistens.protocol,
          hlistens.listenAddress, hname, hsource, hlistens.port⟩
        exact absurd (h.eq_of_accepts ho hr haccepts ha) hne
      · exact ⟨hlistens, hreply⟩
    · rintro ⟨hlistens, hreply⟩
      exact ⟨hlistens, Or.inr hreply⟩
  | reply =>
    obtain ⟨hsaddr, hdaddr, hsport, hdport⟩ := Tuple.mk.inj htuple
    rw [hsaddr, hdaddr, hsport, hdport, or_comm]
    rfl

end

/-- `webRule` on one interface. -/
def uplinkRule : ForwardRule := { webRule with listenInterface := some "eth0" }

/-- The same on another interface, with the same target. -/
def backupRule : ForwardRule := { webRule with id := ⟨2⟩, listenInterface := some "eth1" }

theorem uplinkRule_accepts : uplinkRule.Accepts (probe 8080) where
  family := by decide
  protocol := by decide
  listenAddress := trivial
  listenInterface name h := by
    cases h
    decide
  source := Or.inl rfl
  port := by decide

/-- The answer of the target to `probe 8080`. -/
def answer : SkBuff where
  packet :=
    { iifname := ⟨[108, 97, 110], by decide, by decide, by decide⟩
      network := .ipv4 (.replicate 12 0) 0xC000020A#32 0xC6336407#32 []
      protocol := .tcp
      sport := 80
      dport := 40000
      payload := [] }
  ct := ⟨ipsDstNat, (probe 8080).tuple⟩

end Portalis
