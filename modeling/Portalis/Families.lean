import Portalis.Translation

/-!
# One family in every rule

What register 1 holds while a rule runs, followed without a packet: a field, or constant octets.  A rule
is of a family when its family match names it, its header loads read the address fields of that
family, what is compared with an address is an address of the family, blocks are masked at its width,
and the NAT statement and the address it reads are of the family.

* `OfFamily.clauses_append`: a rule made of clauses, clause by clause.
* `emitted_of_target_family`: every rule that `apply` emits is of the family of its rule's target.
-/

namespace Portalis

open Octets RuleMachine

/-! ### Families of expressions -/

/-- What register 1 holds. -/
inductive Held
  | unknown
  | field (sel : Selector)
  | constant (data : List UInt8)
  deriving DecidableEq

/-- The fields that hold an address, or octets taken for one. -/
def Selector.isAddress : Selector → Bool
  | .networkHeader _ _ => true
  | .ctOriginal .src => true
  | .ctOriginal .dst => true
  | _ => false

/-- The source and destination fields in the header of the family. -/
def addressFields (isIpv4 : Bool) : List Selector :=
  if isIpv4 then [.networkHeader 12 4, .networkHeader 16 4]
  else [.networkHeader 8 16, .networkHeader 24 16]

def addressWidth (isIpv4 : Bool) : ℕ := if isIpv4 then 4 else 16

def protoFamily (isIpv4 : Bool) : ProtoFamily := if isIpv4 then .ipv4 else .ipv6

/-- The octets are an address of the family. -/
def IsAddressOf (isIpv4 : Bool) (data : List UInt8) : Prop :=
  (IpAddr.ofOctets? data).map IpAddr.isIpv4 = some isIpv4

/-- A header load reads an address field of the family. -/
def Selector.FitsFamily (isIpv4 : Bool) : Selector → Prop
  | .networkHeader offset len => Selector.networkHeader offset len ∈ addressFields isIpv4
  | _ => True

/-- An address is masked at the width of the family. -/
def Held.MaskFits (isIpv4 : Bool) (mask xor : List UInt8) : Held → Prop
  | .field sel => sel.isAddress = true →
      mask.length = addressWidth isIpv4 ∧ xor.length = addressWidth isIpv4
  | _ => True

/-- The family match names the family, and an address is compared with one of the family. -/
def Held.TestFits (isIpv4 : Bool) (op : CmpOp) (data : List UInt8) : Held → Prop
  | .field sel => (sel = .metaNfproto → op = .eq ∧ data = [nfproto isIpv4]) ∧
      (sel.isAddress = true → op = .eq ∧ IsAddressOf isIpv4 data)
  | _ => True

/-- NAT is of the family, and so is the address in the register. -/
def Statement.FitsFamily (isIpv4 : Bool) (held : Held) : Statement → Prop
  | .nat _ family _ => family = protoFamily isIpv4 ∧
      ∃ address, held = .constant address ∧ IsAddressOf isIpv4 address
  | .masquerade => True

/-- Every expression is of the family, given what register 1 holds at the start. -/
def OfFamily (isIpv4 : Bool) : Held → List (Expr Selector Statement) → Prop
  | _, [] => True
  | _, .load sel :: es => sel.FitsFamily isIpv4 ∧ OfFamily isIpv4 (.field sel) es
  | held, .bitwise mask xor :: es => held.MaskFits isIpv4 mask xor ∧ OfFamily isIpv4 held es
  | held, .cmp op data :: es => held.TestFits isIpv4 op data ∧ OfFamily isIpv4 held es
  | held, .immediate data dreg :: es =>
    OfFamily isIpv4 (if dreg = .reg1 then .constant data else held) es
  | held, .counter _ _ :: es => OfFamily isIpv4 held es
  | held, .action statement :: es =>
    statement.FitsFamily isIpv4 held ∧ OfFamily isIpv4 held es

/-- A rule with a family match, of that family throughout. -/
structure KernelRule.OfFamily (rule : KernelRule) (isIpv4 : Bool) : Prop where
  family_match : [.load .metaNfproto, .cmp .eq [nfproto isIpv4]] <:+: rule.exprs
  exprs : Portalis.OfFamily isIpv4 .unknown rule.exprs

/-! ### Clauses of a family -/

theorem isAddressOf_octets (a : IpAddr) : IsAddressOf a.isIpv4 a.octets := by
  rw [IsAddressOf, IpAddr.ofOctets?_octets]
  rfl

/-- What a clause of the family satisfies. -/
structure ClauseOfFamily (isIpv4 : Bool) (c : Clause Selector) : Prop where
  load : c.sel.FitsFamily isIpv4
  mask : ∀ m, c.mask = some m → (Held.field c.sel).MaskFits isIpv4 m.1 m.2
  tests : ∀ t ∈ c.tests, (Held.field c.sel).TestFits isIpv4 t.1 t.2

section

variable {isIpv4 : Bool} {tail : List (Expr Selector Statement)}

theorem OfFamily.tests_append {held : Held} {tests : List (CmpOp × List UInt8)}
    (htests : ∀ t ∈ tests, held.TestFits isIpv4 t.1 t.2) (htail : OfFamily isIpv4 held tail) :
    OfFamily isIpv4 held ((tests.map fun t => .cmp t.1 t.2) ++ tail) := by
  induction tests with
  | nil => exact htail
  | cons t ts ih =>
    have hrest : ∀ t ∈ ts, held.TestFits isIpv4 t.1 t.2 :=
      fun t ht => htests t (List.mem_cons_of_mem _ ht)
    exact ⟨htests t List.mem_cons_self, ih hrest⟩

theorem ClauseOfFamily.append {c : Clause Selector} (h : ClauseOfFamily isIpv4 c) (held : Held)
    (htail : OfFamily isIpv4 (.field c.sel) tail) : OfFamily isIpv4 held (c.exprs ++ tail) := by
  have htests : OfFamily isIpv4 (.field c.sel) ((c.tests.map fun t => .cmp t.1 t.2) ++ tail) :=
    OfFamily.tests_append h.tests htail
  show c.sel.FitsFamily isIpv4 ∧ OfFamily isIpv4 (.field c.sel)
    (((c.mask.toList.map fun m => .bitwise m.1 m.2) ++ c.tests.map fun t => .cmp t.1 t.2) ++ tail)
  refine ⟨h.load, ?_⟩
  rw [List.append_assoc]
  cases hmask : c.mask with
  | none => exact htests
  | some m => exact ⟨h.mask m hmask, htests⟩

/-- A rule made of clauses is of the family if its clauses are and its tail is, whatever the clauses
leave in the register. -/
theorem OfFamily.clauses_append {cs : List (Clause Selector)}
    (hclauses : ∀ c ∈ cs, ClauseOfFamily isIpv4 c) (htail : ∀ held, OfFamily isIpv4 held tail) :
    ∀ held, OfFamily isIpv4 held (cs.flatMap Clause.exprs ++ tail) := by
  induction cs with
  | nil => exact htail
  | cons c cs ih =>
    intro held
    have hrest : ∀ c ∈ cs, ClauseOfFamily isIpv4 c :=
      fun c hc => hclauses c (List.mem_cons_of_mem _ hc)
    rw [List.flatMap_cons, List.append_assoc]
    exact (hclauses c List.mem_cons_self).append held (ih hrest _)

end

theorem familyClause_ofFamily (isIpv4 : Bool) : ClauseOfFamily isIpv4 (familyClause isIpv4) where
  load := trivial
  mask m hm := by cases hm
  tests t ht := by
    rw [List.mem_singleton.mp ht]
    exact ⟨fun _ => ⟨rfl, rfl⟩, fun haddress => by cases haddress⟩

/-- A clause on another field is of both families. -/
theorem ClauseOfFamily.of_other {isIpv4 : Bool} {c : Clause Selector} (hload : c.sel ≠ .metaNfproto)
    (haddress : c.sel.isAddress = false) : ClauseOfFamily isIpv4 c where
  load := by
    cases hsel : c.sel with
    | networkHeader offset len =>
      rw [hsel] at haddress
      cases haddress
    | _ => trivial
  mask m _ hsel := by
    rw [haddress] at hsel
    cases hsel
  tests t _ := by
    refine ⟨fun hsel => absurd hsel hload, fun hsel => ?_⟩
    rw [haddress] at hsel
    cases hsel

/-- The fields an address of the family is looked for in. -/
structure Selector.AddressField (isIpv4 : Bool) (sel : Selector) : Prop where
  load : sel.FitsFamily isIpv4
  other : sel ≠ .metaNfproto

theorem payloadAddress_addressField (a : IpAddr) (source : Bool) :
    (payloadAddress a source).AddressField a.isIpv4 := by
  have hload : ∀ sel isIpv4, sel ∈ addressFields isIpv4 → sel.FitsFamily isIpv4 := by
    intro sel isIpv4 hsel
    cases sel with
    | networkHeader offset len => exact hsel
    | _ => trivial
  cases a with
  | v4 bits =>
    cases source with
    | true => exact ⟨hload _ true List.mem_cons_self, fun h => by cases h⟩
    | false => exact ⟨hload _ true (List.mem_cons_of_mem _ List.mem_cons_self), fun h => by cases h⟩
  | v6 bits =>
    cases source with
    | true => exact ⟨hload _ false List.mem_cons_self, fun h => by cases h⟩
    | false => exact ⟨hload _ false (List.mem_cons_of_mem _ List.mem_cons_self), fun h => by cases h⟩

theorem ctOriginal_addressField (isIpv4 : Bool) (key : CtKey) :
    (Selector.ctOriginal key).AddressField isIpv4 :=
  ⟨trivial, fun h => by cases h⟩

theorem addressClause_ofFamily {sel : Selector} {a : IpAddr} (h : sel.AddressField a.isIpv4) :
    ClauseOfFamily a.isIpv4 (addressClause sel a) where
  load := h.load
  mask m hm := by cases hm
  tests t ht := by
    rw [List.mem_singleton.mp ht]
    exact ⟨fun hsel => absurd hsel h.other, fun _ => ⟨rfl, isAddressOf_octets a⟩⟩

theorem cidrMask_length (cidr : IpNet) :
    (cidrMask cidr).1.length = addressWidth cidr.network.isIpv4 ∧
      (cidrMask cidr).2.length = addressWidth cidr.network.isIpv4 := by
  cases cidr with
  | v4 net => exact ⟨bigEndian_length _ _, List.length_replicate⟩
  | v6 net => exact ⟨bigEndian_length _ _, List.length_replicate⟩

theorem cidrClause_ofFamily {sel : Selector} {cidr : IpNet}
    (h : sel.AddressField cidr.network.isIpv4) :
    ClauseOfFamily cidr.network.isIpv4 (cidrClause sel cidr) where
  load := h.load
  mask m hm := by
    cases hm
    exact fun _ => cidrMask_length cidr
  tests t ht := by
    rw [List.mem_singleton.mp ht]
    exact ⟨fun hsel => absurd hsel h.other, fun _ => ⟨rfl, isAddressOf_octets cidr.network⟩⟩

/-! ### The clauses of the three chains -/

section

variable {plan : RulePlan}

theorem interfaceClauses_ofFamily (isIpv4 : Bool) (interface : Option String) :
    ∀ c ∈ interfaceClauses interface, ClauseOfFamily isIpv4 c := by
  intro c hc
  obtain ⟨name, -, rfl⟩ := List.mem_map.mp hc
  exact .of_other (fun h => by cases h) rfl

/-- The listen address of a checked entry is of the family of the target. -/
theorem PlanChecked.listenClauses_ofFamily (h : PlanChecked plan) {sel : IpAddr → Selector}
    (hsel : ∀ a, (sel a).AddressField a.isIpv4) :
    ∀ c ∈ listenAddressClauses sel plan.listenAddress, ClauseOfFamily plan.targetIp.isIpv4 c := by
  intro c hc
  cases hlisten : plan.listenAddress with
  | any =>
    rw [hlisten] at hc
    cases hc
  | address a =>
    rw [hlisten] at hc
    rw [List.mem_singleton.mp hc, ← h.listen_family a hlisten]
    exact addressClause_ofFamily (hsel a)

/-- A source block of a checked entry is of the family of the target. -/
theorem PlanChecked.sourceClauses_ofFamily (h : PlanChecked plan) {sel : IpAddr → Selector}
    (hsel : ∀ a, (sel a).AddressField a.isIpv4) {source : Option IpNet}
    (hsource : source ∈ planSources plan) :
    ∀ c ∈ sourceClauses sel source, ClauseOfFamily plan.targetIp.isIpv4 c := by
  intro c hc
  obtain ⟨cidr, hcidr, rfl⟩ := List.mem_map.mp hc
  have hmem : cidr ∈ plan.sourceCidrs := by
    rw [Option.mem_toList.mp hcidr, planSources] at hsource
    split at hsource
    · cases List.mem_singleton.mp hsource
    · simpa using hsource
  rw [← h.source_family cidr hmem]
  exact cidrClause_ofFamily (hsel cidr.network)

theorem targetClause_ofFamily (a : IpAddr) (source : Bool) :
    ClauseOfFamily a.isIpv4 (addressClause (payloadAddress a source) a) :=
  addressClause_ofFamily (payloadAddress_addressField a source)

theorem protocolClause_ofFamily (isIpv4 : Bool) (protocol : Protocol) :
    ClauseOfFamily isIpv4 (protocolClause protocol) :=
  .of_other (fun h => by cases h) rfl

theorem dnatStatusClause_ofFamily (isIpv4 : Bool) : ClauseOfFamily isIpv4 dnatStatusClause :=
  .of_other (fun h => by cases h) rfl

theorem transportClause_ofFamily (isIpv4 : Bool) (offset len : ℕ) (ports : PortRange) :
    ClauseOfFamily isIpv4 (portClause (.transportHeader offset len) ports) :=
  .of_other (fun h => by cases h) rfl

theorem originalPortClause_ofFamily (isIpv4 : Bool) (ports : PortRange) :
    ClauseOfFamily isIpv4 (portClause (.ctOriginal .protoDst) ports) :=
  .of_other (fun h => by cases h) rfl

theorem preroutingClauses_ofFamily (h : PlanChecked plan) (port : UInt16) {source : Option IpNet}
    (hsource : source ∈ planSources plan) :
    ∀ c ∈ preroutingClauses plan port source, ClauseOfFamily plan.targetIp.isIpv4 c := by
  have hlisten := h.listenClauses_ofFamily fun a => payloadAddress_addressField a false
  have hsources := h.sourceClauses_ofFamily (fun a => payloadAddress_addressField a true) hsource
  simp only [preroutingClauses, List.forall_mem_append, List.forall_mem_singleton]
  exact ⟨⟨⟨⟨⟨familyClause_ofFamily _, interfaceClauses_ofFamily _ _⟩, hlisten⟩, hsources⟩,
    protocolClause_ofFamily _ _⟩, transportClause_ofFamily _ _ _ _⟩

theorem postroutingClauses_ofFamily (plan : RulePlan) :
    ∀ c ∈ postroutingClauses plan, ClauseOfFamily plan.targetIp.isIpv4 c := by
  simp only [postroutingClauses, List.forall_mem_append, List.forall_mem_singleton]
  exact ⟨⟨⟨⟨dnatStatusClause_ofFamily _, familyClause_ofFamily _⟩, targetClause_ofFamily _ _⟩,
    protocolClause_ofFamily _ _⟩, transportClause_ofFamily _ _ _ _⟩

theorem inboundClauses_ofFamily (h : PlanChecked plan) {source : Option IpNet}
    (hsource : source ∈ planSources plan) :
    ∀ c ∈ inboundClauses plan source, ClauseOfFamily plan.targetIp.isIpv4 c := by
  have hlisten := h.listenClauses_ofFamily fun a => ctOriginal_addressField a.isIpv4 .dst
  have hsources := h.sourceClauses_ofFamily (fun a => payloadAddress_addressField a true) hsource
  simp only [inboundClauses, List.forall_mem_append, List.forall_mem_singleton]
  exact ⟨⟨⟨⟨⟨⟨⟨⟨dnatStatusClause_ofFamily _, familyClause_ofFamily _⟩, hlisten⟩,
    interfaceClauses_ofFamily _ _⟩, hsources⟩, protocolClause_ofFamily _ _⟩,
    originalPortClause_ofFamily _ _⟩, targetClause_ofFamily _ _⟩, transportClause_ofFamily _ _ _ _⟩

theorem replyClauses_ofFamily (h : PlanChecked plan) {source : Option IpNet}
    (hsource : source ∈ planSources plan) :
    ∀ c ∈ replyClauses plan source, ClauseOfFamily plan.targetIp.isIpv4 c := by
  have hlisten := h.listenClauses_ofFamily fun a => ctOriginal_addressField a.isIpv4 .dst
  have hsources := h.sourceClauses_ofFamily (fun a => ctOriginal_addressField a.isIpv4 .src) hsource
  simp only [replyClauses, List.forall_mem_append, List.forall_mem_singleton]
  exact ⟨⟨⟨⟨⟨⟨⟨dnatStatusClause_ofFamily _, familyClause_ofFamily _⟩, hlisten⟩, hsources⟩,
    protocolClause_ofFamily _ _⟩, originalPortClause_ofFamily _ _⟩, targetClause_ofFamily _ _⟩,
    transportClause_ofFamily _ _ _ _⟩

/-! ### The tails -/

/-- A NAT target of the family, whatever the register held before. -/
theorem natTarget_ofFamily (natType : NatType) (a : IpAddr) (ports : Option PortRange)
    (held : Held) : OfFamily a.isIpv4 held (natTarget natType a.isIpv4 a ports) := by
  have haction : OfFamily a.isIpv4 (.constant a.octets)
      [.action (.nat natType (protoFamily a.isIpv4) ports.isSome)] :=
    ⟨⟨rfl, a.octets, rfl, isAddressOf_octets a⟩, trivial⟩
  cases ports with
  | none => exact haction
  | some ports => exact haction

theorem snatTail_ofFamily (h : PlanChecked plan) (held : Held) :
    OfFamily plan.targetIp.isIpv4 held (snatTail plan) := by
  rw [snatTail]
  cases hsnat : plan.snat with
  | none => trivial
  | masquerade => exact ⟨trivial, trivial⟩
  | fixed a =>
    show OfFamily plan.targetIp.isIpv4 held (natTarget .snat plan.targetIp.isIpv4 a none)
    rw [← h.snat_family a hsnat]
    exact natTarget_ofFamily .snat a none held

/-! ### The emitted rules -/

/-- An emitted rule whose clauses and tail are of the family, with the family match among them. -/
theorem emitted_ofFamily (chain : String) {cs : List (Clause Selector)}
    {tail : List (Expr Selector Statement)} {isIpv4 : Bool} (hmatch : familyClause isIpv4 ∈ cs)
    (hclauses : ∀ c ∈ cs, ClauseOfFamily isIpv4 c) (htail : ∀ held, OfFamily isIpv4 held tail) :
    (emitted chain plan cs tail).OfFamily isIpv4 where
  family_match := by
    obtain ⟨before, after, rfl⟩ := List.append_of_mem hmatch
    refine ⟨before.flatMap Clause.exprs, after.flatMap Clause.exprs ++ .counter 0 0 :: tail, ?_⟩
    simp [emitted, familyClause, Clause.exprs]
  exprs := by
    have hcounter : ∀ held, OfFamily isIpv4 held (.counter 0 0 :: tail) := fun held => htail held
    exact OfFamily.clauses_append hclauses hcounter .unknown

theorem preroutingRulesOf_ofFamily (h : PlanChecked plan) :
    ∀ rule ∈ preroutingRulesOf plan, rule.OfFamily plan.targetIp.isIpv4 := by
  intro rule hr
  obtain ⟨offset, -, hr⟩ := List.mem_flatMap.mp hr
  obtain ⟨source, hsource, rfl⟩ := List.mem_map.mp hr
  exact emitted_ofFamily _ (by simp [preroutingClauses]) (preroutingClauses_ofFamily h _ hsource)
    (natTarget_ofFamily .dnat plan.targetIp _)

theorem postroutingRuleOf_ofFamily (h : PlanChecked plan) :
    (postroutingRuleOf plan).OfFamily plan.targetIp.isIpv4 :=
  emitted_ofFamily _ (by simp [postroutingClauses]) (postroutingClauses_ofFamily plan)
    (snatTail_ofFamily h)

theorem forwardRulesOf_ofFamily (h : PlanChecked plan) :
    ∀ rule ∈ forwardRulesOf plan, rule.OfFamily plan.targetIp.isIpv4 := by
  intro rule hr
  obtain ⟨source, hsource, hr⟩ := List.mem_flatMap.mp hr
  rcases List.mem_pair.mp hr with rfl | rfl
  · exact emitted_ofFamily _ (by simp [inboundClauses]) (inboundClauses_ofFamily h hsource)
      fun _ => trivial
  · exact emitted_ofFamily _ (by simp [replyClauses]) (replyClauses_ofFamily h hsource)
      fun _ => trivial

end

/-- An emitted rule is named after a plan entry and is of the family of its target. -/
theorem exists_plan_of_mem_rulesOf {plans : List RulePlan} (h : ∀ plan ∈ plans, PlanChecked plan)
    {rule : KernelRule} (hr : rule ∈ rulesOf plans) :
    ∃ plan ∈ plans, rule.comment = ruleComment plan.ruleId plan.protocol ∧
      rule.OfFamily plan.targetIp.isIpv4 := by
  rw [rulesOf, List.mem_append, List.mem_append] at hr
  rcases hr with hr | hr | hr
  · obtain ⟨plan, hp, hr⟩ := List.mem_flatMap.mp hr
    refine ⟨plan, hp, ?_, preroutingRulesOf_ofFamily (h plan hp) rule hr⟩
    obtain ⟨offset, -, hr⟩ := List.mem_flatMap.mp hr
    obtain ⟨source, -, rfl⟩ := List.mem_map.mp hr
    rfl
  · obtain ⟨plan, hp, rfl⟩ := List.mem_map.mp hr
    have hmem := List.mem_of_mem_filter hp
    exact ⟨plan, hmem, rfl, postroutingRuleOf_ofFamily (h plan hmem)⟩
  · obtain ⟨plan, hp, hr⟩ := List.mem_flatMap.mp hr
    refine ⟨plan, hp, ?_, forwardRulesOf_ofFamily (h plan hp) rule hr⟩
    obtain ⟨source, -, hr⟩ := List.mem_flatMap.mp hr
    rcases List.mem_pair.mp hr with rfl | rfl
    · rfl
    · rfl

/-- **One family in every rule.**  In the table that `apply` leaves for an accepted configuration, every
rule is named after an enabled rule of the configuration and one of its protocols, and its family
match, its address loads and comparisons, its masks, its NAT family and its NAT address are all of the
family of that rule's target. -/
theorem emitted_of_target_family {config : Config} {context : ValidationContext}
    (h : config.validate context = .ok ()) {before table : Option Table} {receipt : ApplyReceipt}
    (hrun : nftApply before config = .ok (table, receipt)) :
    ∃ t, table = some t ∧ ∀ kernelRule ∈ t.rules, ∃ rule ∈ config.activeRules, ∃ p,
      rule.protocols.has p = true ∧ kernelRule.comment = ruleComment rule.id p ∧
        kernelRule.OfFamily rule.targetIp.isIpv4 := by
  have hacc := Accepted.of_validate h
  obtain ⟨-, htable⟩ := hacc.eq_tableOf_of_nftApply hrun
  refine ⟨tableOf config, htable, ?_⟩
  intro kernelRule hr
  obtain ⟨plan, hp, hcomment, hfamily⟩ :=
    exists_plan_of_mem_rulesOf (fun plan hp => hacc.planChecked hp) hr
  obtain ⟨rule, hrule, p, hhas, rfl⟩ := Config.mem_plan.mp hp
  exact ⟨rule, hrule, p, hhas, hcomment, hfamily⟩

/-- `officeRule` with a fixed source address. -/
def fixedRule : ForwardRule := { officeRule with snat := .fixed (.v4 0x0A000001#32) }

theorem emitted_of_target_family_fixed :
    ∃ t receipt, nftApply none ⟨1, [fixedRule]⟩ = .ok (some t, receipt) ∧
      ∀ kernelRule ∈ t.rules, ∃ rule ∈ (Config.mk 1 [fixedRule]).activeRules, ∃ p,
        rule.protocols.has p = true ∧ kernelRule.comment = ruleComment rule.id p ∧
          kernelRule.OfFamily rule.targetIp.isIpv4 := by
  obtain ⟨table, receipt, hrun⟩ : ∃ table receipt,
      nftApply none ⟨1, [fixedRule]⟩ = .ok (table, receipt) := ⟨_, _, rfl⟩
  obtain ⟨t, rfl, hfamily⟩ :=
    @emitted_of_target_family ⟨1, [fixedRule]⟩ .default (by decide) none table receipt hrun
  exact ⟨t, receipt, hrun, hfamily⟩

end Portalis
