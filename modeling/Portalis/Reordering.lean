import Portalis.Translation

/-!
# Order does not matter

The list order of the rules and their `order` fields decide where the emitted rules stand in the chain.
An accepted configuration stays accepted however its rules are reordered, and its prerouting chain
translates every packet as before: rules that could both match a packet are never accepted together.

* `Accepted.reordered`: acceptance, check by check.
* `reordered_translates`: the two compiled chains.
* `permuted_plan`: the plan of a permuted rule list.
-/

namespace Portalis

open RuleMachine Text

/-! ### Reordered configurations -/

/-- The rule whatever its `order` is. -/
def ForwardRule.withoutOrder (rule : ForwardRule) : ForwardRule := { rule with order := 0 }

/-- The same rules in another order, with other `order` fields. -/
structure Config.Reorders (config other : Config) : Prop where
  schema : config.schemaVersion = other.schemaVersion
  rules : (config.rules.map ForwardRule.withoutOrder).Perm
    (other.rules.map ForwardRule.withoutOrder)

theorem ForwardRule.eq_of_withoutOrder_eq {first second : ForwardRule}
    (h : first.withoutOrder = second.withoutOrder) : first = { second with order := first.order } := by
  cases first
  cases second
  simpa [withoutOrder] using h

theorem Config.Reorders.symm {config other : Config} (h : config.Reorders other) :
    other.Reorders config :=
  ⟨h.schema.symm, h.rules.symm⟩

/-- Every rule of one is a rule of the other, but for its `order`. -/
theorem Config.Reorders.exists_rule {config other : Config} (h : config.Reorders other)
    {rule : ForwardRule} (hr : rule ∈ config.rules) :
    ∃ order, ({ rule with order := order } : ForwardRule) ∈ other.rules := by
  obtain ⟨rule', hr', heq⟩ := List.mem_map.mp (h.rules.subset (List.mem_map_of_mem hr))
  exact ⟨rule'.order, ForwardRule.eq_of_withoutOrder_eq heq ▸ hr'⟩

/-! ### Acceptance -/

/-- No check of a rule looks at its `order`. -/
theorem RuleChecked.reordered {rule : ForwardRule} {context : ValidationContext} {order : UInt32}
    (h : RuleChecked { rule with order := order } context) : RuleChecked rule context :=
  ⟨h.name_nonempty, h.name_short, h.some_protocol, h.listen_start, h.listen_le, h.target_start,
    h.target_le, h.same_length, h.target_family, h.listen_family, h.source_family, h.snat_family,
    h.interface_nonempty, h.ssh_free⟩

theorem sourceRangesOverlap_comm (first second : List IpNet) :
    sourceRangesOverlap first second = sourceRangesOverlap second first := by
  rw [Bool.eq_iff_iff, exists_source_iff, exists_source_iff]
  constructor <;>
  · rintro (h | h | ⟨source, h1, h2⟩)
    · exact Or.inr (Or.inl h)
    · exact Or.inl h
    · exact Or.inr (Or.inr ⟨source, h2, h1⟩)

/-- The pair test is symmetric. -/
theorem overlapsFor_symm {first second : ForwardRule} {p : Protocol}
    (hp : first.protocols.has p = true) (h : overlapsFor first second p = true) :
    second.protocols.has p = true ∧ overlapsFor second first p = true := by
  obtain ⟨hp', haddr, hports, hsources⟩ := overlapsFor_iff.mp h
  obtain ⟨hfamily, hinterface, haddress⟩ := addressesOverlap_iff.mp haddr
  refine ⟨hp', overlapsFor_iff.mpr ⟨hp, addressesOverlap_iff.mpr ⟨hfamily.symm, ?_, ?_⟩, ?_, ?_⟩⟩
  · exact fun s t hs ht => (hinterface t s ht hs).symm
  · exact fun a b ha hb => (haddress b a hb ha).symm
  · rw [PortRange.overlaps, Bool.and_comm]
    exact hports
  · rw [sourceRangesOverlap_comm]
    exact hsources

/-- No protocol of the earlier rule is reported for the pair. -/
def ForwardRule.NotReported (first second : ForwardRule) : Prop :=
  ∀ p, first.protocols.has p = true → overlapsFor first second p = false

theorem ForwardRule.NotReported.symm {first second : ForwardRule} (h : first.NotReported second) :
    second.NotReported first := by
  intro p hp
  by_contra hoverlap
  obtain ⟨hp', hreported⟩ := overlapsFor_symm hp (by simpa using hoverlap)
  rw [h p hp'] at hreported
  cases hreported

/-- The overlap pass does not depend on the order of the rules. -/
theorem OverlapFree.perm {rules rules' : List ForwardRule} (h : OverlapFree rules)
    (hperm : (rules'.map ForwardRule.withoutOrder).Perm (rules.map ForwardRule.withoutOrder)) :
    OverlapFree rules' := by
  have hkeep : ∀ rules : List ForwardRule, OverlapFree rules ↔
      (rules.map ForwardRule.withoutOrder).Pairwise ForwardRule.NotReported := by
    intro rules
    rw [List.pairwise_map]
    rfl
  rw [hkeep] at h ⊢
  exact (hperm.pairwise_iff fun hab => hab.symm).mpr h

/-- **Acceptance, reordered.** -/
theorem Accepted.reordered {config config' : Config} {context : ValidationContext}
    (h : Accepted config context) (hre : config'.Reorders config) : Accepted config' context where
  schema := hre.schema.trans h.schema
  distinct := by
    have hids : ∀ rules : List ForwardRule, rules.map (·.id) =
        (rules.map ForwardRule.withoutOrder).map (·.id) := by
      intro rules
      rw [List.map_map]
      rfl
    rw [hids, (hre.rules.map _).nodup_iff, ← hids]
    exact h.distinct
  checked rule hr := by
    obtain ⟨order, hr'⟩ := hre.exists_rule hr
    exact (h.checked _ hr').reordered
  overlapFree := by
    have hactive : ∀ config : Config, config.activeRules.map ForwardRule.withoutOrder =
        (config.rules.map ForwardRule.withoutOrder).filter (·.enabled) := by
      intro config
      rw [Config.activeRules, List.filter_map]
      rfl
    refine h.overlapFree.perm ?_
    rw [hactive, hactive]
    exact hre.rules.filter _

/-! ### The compiled chains -/

theorem Config.Reorders.exists_activeRule {config other : Config} (h : config.Reorders other)
    {rule : ForwardRule} (hr : rule ∈ config.activeRules) :
    ∃ order, ({ rule with order := order } : ForwardRule) ∈ other.activeRules := by
  obtain ⟨hmem, henabled⟩ := Config.mem_activeRules.mp hr
  obtain ⟨order, hmem'⟩ := h.exists_rule hmem
  exact ⟨order, Config.mem_activeRules.mpr ⟨hmem', henabled⟩⟩

theorem Config.Reorders.interfacesOk {config other : Config} (h : config.Reorders other)
    (hok : other.InterfacesOk) : config.InterfacesOk := by
  intro rule hr name hname
  obtain ⟨order, hr'⟩ := h.exists_activeRule hr
  exact hok _ hr' name hname

/-- What a plan entry accepts and translates to does not depend on its `order`. -/
theorem Config.Reorders.exists_plan {config other : Config} (h : config.Reorders other)
    {packet : Packet} {v : Translation}
    (hplan : ∃ plan ∈ config.plan, plan.Accepts packet ∧ v = plan.translation packet) :
    ∃ plan ∈ other.plan, plan.Accepts packet ∧ v = plan.translation packet := by
  obtain ⟨plan, hmem, ha, hv⟩ := hplan
  obtain ⟨rule, hr, p, hp, rfl⟩ := Config.mem_plan.mp hmem
  obtain ⟨order, hr'⟩ := h.exists_activeRule hr
  exact ⟨_, Config.mem_plan.mpr ⟨_, hr', p, hp, rfl⟩,
    ⟨ha.family, ha.protocol, ha.listenAddress, ha.listenInterface, ha.source, ha.port⟩, hv⟩

/-- **Order does not matter.**  Whatever the `order` fields are set to and however the rule list is
permuted, the configuration is accepted as before, and the table `apply` writes for it translates every
packet as before; if `apply` refuses to build the one, it refuses to build the other with the same
error. -/
theorem reordered_translates {config config' : Config} {context : ValidationContext}
    (h : config.validate context = .ok ()) (hre : config'.Reorders config) :
    config'.validate context = .ok () ∧ ∀ before before' : Option Table,
      (∃ t t' receipt receipt', nftApply before config = .ok (some t, receipt) ∧
        nftApply before' config' = .ok (some t', receipt') ∧
        ∀ skb, natVerdict (t'.chainRules preroutingChain) skb =
          natVerdict (t.chainRules preroutingChain) skb) ∨
      ∃ e, nftApply before config = .error e ∧ nftApply before' config' = .error e := by
  have hacc := Accepted.of_validate h
  have hacc' := hacc.reordered hre
  refine ⟨(accepted_iff config' context).mpr hacc', fun before before' => ?_⟩
  rw [nftApply_eq, nftApply_eq]
  by_cases hiface : config.InterfacesOk
  · have hiface' := hre.interfacesOk hiface
    rw [hacc.compile_eq_ok hiface, hacc'.compile_eq_ok hiface']
    refine Or.inl ⟨_, _, _, _, rfl, rfl, fun skb => Option.ext fun v => ?_⟩
    have hleft := natVerdict_prerouting_iff hacc hiface skb v
    have hright := natVerdict_prerouting_iff hacc' hiface' skb v
    rw [hleft, hright]
    exact ⟨hre.exists_plan, hre.symm.exists_plan⟩
  · have hiface' : ¬ config'.InterfacesOk := mt hre.symm.interfacesOk hiface
    rw [hacc.compile_eq_error hiface, hacc'.compile_eq_error hiface']
    exact Or.inr ⟨_, rfl, rfl⟩

/-- `webRule` under another identifier and port. -/
def sideRule : ForwardRule := { webRule with id := ⟨2⟩, listenPort := ⟨81, 81⟩ }

theorem reordered_translates_web :
    (Config.mk 1 [{ sideRule with order := 7 }, { webRule with order := 9 }]).validate .default =
      .ok () :=
  (@reordered_translates ⟨1, [webRule, sideRule]⟩
    ⟨1, [{ sideRule with order := 7 }, { webRule with order := 9 }]⟩ .default (by decide)
    ⟨rfl, List.Perm.swap _ _ _⟩).1

/-! ### The plan of a permuted configuration -/

section

variable {config : Config} {rules : List ForwardRule}

/-- The same rules in another order. -/
theorem Config.Reorders.of_perm (h : rules.Perm config.rules) :
    Config.Reorders { config with rules := rules } config :=
  ⟨rfl, h.map _⟩

/-- The entries of a plan before they are sorted. -/
theorem Config.plan_perm (self : Config) :
    self.plan.Perm (self.activeRules.flatMap fun rule => rule.protocols.iter.map rule.planFor) :=
  List.perm_insertionSort _ _

/-- Enabled rules with distinct identifiers give entries with distinct keys. -/
theorem Config.plan_keys_ne (hdistinct : (config.rules.map (·.id)).Nodup) :
    config.plan.Pairwise fun a b => a.sortKey ≠ b.sortKey := by
  have hactive : (config.activeRules.map (·.id)).Nodup :=
    hdistinct.sublist (List.filter_sublist.map _)
  have hentries : (config.activeRules.flatMap fun rule =>
      rule.protocols.iter.map rule.planFor).Pairwise fun a b => a.sortKey ≠ b.sortKey := by
    rw [List.pairwise_flatMap]
    constructor
    · intro rule _
      rw [List.pairwise_map]
      refine rule.protocols.iter_nodup.imp ?_
      intro p q hne hkey
      exact hne (RulePlan.eq_of_sortKey_eq hkey).2
    · refine (List.pairwise_map.mp hactive).imp ?_
      intro first second hne a ha b hb hkey
      obtain ⟨p, -, rfl⟩ := List.mem_map.mp ha
      obtain ⟨q, -, rfl⟩ := List.mem_map.mp hb
      exact hne (RulePlan.eq_of_sortKey_eq hkey).1
  exact (config.plan_perm.pairwise_iff fun hne => Ne.symm hne).mpr hentries

/-- **The plan is strictly increasing.** -/
theorem Config.plan_strictly_sorted (hdistinct : (config.rules.map (·.id)).Nodup) :
    config.plan.Pairwise fun a b => a.sortKey < b.sortKey :=
  (config.plan_sorted.and (Config.plan_keys_ne hdistinct)).imp fun h => lt_of_le_of_ne h.1 h.2

/-- The entries for one rule and protocol. -/
theorem Config.plan_filter (hdistinct : (config.rules.map (·.id)).Nodup) {rule : ForwardRule}
    (hr : rule ∈ config.activeRules) {p : Protocol} (hp : rule.protocols.has p = true) :
    config.plan.filter (fun plan => plan.ruleId = rule.id ∧ plan.protocol = p) =
      [rule.planFor p] := by
  have hmem : rule.planFor p ∈ config.plan := Config.mem_plan.mpr ⟨rule, hr, p, hp, rfl⟩
  have honly : ∀ plan ∈ config.plan, plan.ruleId = rule.id ∧ plan.protocol = p →
      plan = rule.planFor p := by
    intro plan hplan hnamed
    obtain ⟨other, ho, q, -, rfl⟩ := Config.mem_plan.mp hplan
    obtain ⟨hid, hq⟩ := hnamed
    have hsame : other = rule := List.inj_on_of_nodup_map hdistinct
      (Config.mem_activeRules.mp ho).1 (Config.mem_activeRules.mp hr).1 hid
    cases hq
    rw [hsame]
    rfl
  have hnodup : config.plan.Nodup :=
    (Config.plan_keys_ne hdistinct).imp fun hne heq => hne (congrArg RulePlan.sortKey heq)
  have hfilter : config.plan.filter (fun plan => plan.ruleId = rule.id ∧ plan.protocol = p) =
      config.plan.filter (· = rule.planFor p) := by
    refine List.filter_congr ?_
    intro plan hplan
    rw [decide_eq_decide]
    constructor
    · exact honly plan hplan
    · intro heq
      rw [heq]
      exact ⟨rfl, rfl⟩
  rw [hfilter, List.filter_eq, List.count_eq_one_of_mem hnodup hmem]
  rfl

/-- **The plan is a canonical form.**  A permutation of the rule list does not change whether the
configuration is accepted; and when the identifiers are distinct it does not change the plan, which is
strictly increasing and has exactly one entry for each enabled rule and each of its protocols. -/
theorem permuted_plan (hperm : rules.Perm config.rules) :
    (∀ context, Config.validate { config with rules := rules } context = .ok () ↔
        config.validate context = .ok ()) ∧
      ((config.rules.map (·.id)).Nodup →
        Config.plan { config with rules := rules } = config.plan ∧
          config.plan.Pairwise (fun a b => a.sortKey < b.sortKey) ∧
          (∀ rule ∈ config.activeRules, ∀ p, rule.protocols.has p = true →
            config.plan.filter (fun plan => plan.ruleId = rule.id ∧ plan.protocol = p) =
              [rule.planFor p]) ∧
          ∀ plan ∈ config.plan, ∃ rule ∈ config.activeRules, ∃ p,
            rule.protocols.has p = true ∧ plan = rule.planFor p) := by
  have hre := Config.Reorders.of_perm hperm
  refine ⟨fun context => ?_, fun hdistinct => ⟨?_, Config.plan_strictly_sorted hdistinct,
    fun rule hr p hp => Config.plan_filter hdistinct hr hp, fun plan => Config.mem_plan.mp⟩⟩
  · rw [accepted_iff, accepted_iff]
    exact ⟨fun h => h.reordered hre.symm, fun h => h.reordered hre⟩
  · have hids : (rules.map (·.id)).Nodup := (hperm.map _).nodup_iff.mpr hdistinct
    have hactive : (Config.activeRules { config with rules := rules }).Perm config.activeRules :=
      hperm.filter _
    have hentries := (Config.plan_perm { config with rules := rules }).trans
      ((hactive.flatMap_right _).trans config.plan_perm.symm)
    refine hentries.eq_of_pairwise ?_ (Config.plan_strictly_sorted hids)
      (Config.plan_strictly_sorted hdistinct)
    intro a b _ _ hab hba
    exact absurd hab (lt_asymm hba)

end

theorem permuted_plan_web :
    Config.plan ⟨1, [sideRule, webRule]⟩ = Config.plan ⟨1, [webRule, sideRule]⟩ :=
  ((@permuted_plan ⟨1, [webRule, sideRule]⟩ [sideRule, webRule] (List.Perm.swap _ _ _)).2
    (by decide)).1

end Portalis
