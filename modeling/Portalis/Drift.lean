import Portalis.Translation
import Portalis.Tally

/-!
# Status and drift

`NftnlController::status`: the dump of the table, the counters it is aggregated into, and the drift test.
A dumped rule keeps its chain, its comment and its counters; what the rule matches and does is not
dumped, so the test compares how many rules of the forward chain carry each comment.

* `parseComment_ruleComment`: a written comment is read back as the rule it names.
* `lookup_counters`, `lookup_counts`: what the aggregation holds for a rule and protocol;
  `aggregateRuleCounters_spec`: the whole of it, for any dump.
* `notDrifted_iff`: what a table that is reported present and not drifted has in common with the compiled
  one.
* `status_of_applied`: the table `apply` wrote is never reported as drifted, whatever it counted.
-/

namespace Portalis

open RuleMachine Text Tally

/-! ### The dump -/

structure DumpedRule where
  chain : String
  comment : String
  packets : UInt64
  bytes : UInt64
  deriving DecidableEq

/-- The counters of a rule: those of its last counter expression. -/
def KernelRule.counters (rule : KernelRule) : UInt64 × UInt64 :=
  rule.exprs.foldl (fun acc e =>
    match e with
    | .counter packets bytes => (packets, bytes)
    | _ => acc) (0, 0)

def KernelRule.dump (rule : KernelRule) : DumpedRule where
  chain := rule.chain
  comment := rule.comment
  packets := rule.counters.1
  bytes := rule.counters.2

def dumpRules (t : Table) : List DumpedRule := t.rules.map KernelRule.dump

/-! ### Comments -/

abbrev CounterKey := Uuid × Protocol

def parseProtocol (s : List Char) : Option Protocol :=
  if s = "tcp".toList then some .tcp
  else if s = "udp".toList then some .udp
  else none

/-- `parse_comment`: the first four fields; further ones are not looked at. -/
def parseComment (comment : String) : Option CounterKey :=
  match comment.toList.splitOn ':' with
  | scheme :: version :: id :: protocol :: _ =>
    if scheme ≠ "portalis".toList then none
    else if version ≠ ruleCommentVersion.toList then none
    else (Uuid.parse id).bind fun id => (parseProtocol protocol).map fun protocol => (id, protocol)
  | _ => none

/-- **Comments round-trip.** -/
theorem parseComment_ruleComment (id : Uuid) (protocol : Protocol) :
    parseComment (ruleComment id protocol) = some (id, protocol) := by
  have hid : ':' ∉ id.chars := fun h => (Uuid.ne_of_mem_chars h).1 rfl
  have hproto : ':' ∉ protocol.text.toList := by cases protocol <;> decide
  have hsplit : (ruleComment id protocol).toList.splitOn ':' =
      ["portalis".toList, ruleCommentVersion.toList, id.chars, protocol.text.toList] := by
    have hshape : (ruleComment id protocol).toList = "portalis".toList ++ ':' ::
        (ruleCommentVersion.toList ++ ':' :: (id.chars ++ ':' :: protocol.text.toList)) := by
      simp only [ruleComment, Uuid.toString, String.toList_append, String.toList_ofList,
        List.append_assoc]
      rfl
    rw [hshape, List.splitOn_append_cons_self_of_not_mem (by decide),
      List.splitOn_append_cons_self_of_not_mem (by decide),
      List.splitOn_append_cons_self_of_not_mem hid, List.splitOn_eq_singleton hproto]
  have hparse : parseProtocol protocol.text.toList = some protocol := by
    cases protocol <;> decide
  simp [parseComment, hsplit, Uuid.parse_chars, hparse]

/-! ### The aggregation -/

/-- `u64::saturating_add`. -/
def saturatingAdd64 (a b : UInt64) : UInt64 :=
  if a.toNat + b.toNat < 2 ^ 64 then a + b else 18446744073709551615

abbrev CounterMap := Finmap fun _ : CounterKey => UInt64 × UInt64

abbrev ObservedRuleCounts := Finmap fun _ : CounterKey => ℕ

/-- The loop body of `aggregate_rule_counters`. -/
def aggregateStep (acc : CounterMap × ObservedRuleCounts) (rule : DumpedRule) :
    CounterMap × ObservedRuleCounts :=
  if rule.chain ≠ forwardChain then acc
  else
    match parseComment rule.comment with
    | none => acc
    | some key =>
      let entry := (acc.1.lookup key).getD (0, 0)
      (acc.1.insert key (saturatingAdd64 entry.1 rule.packets, saturatingAdd64 entry.2 rule.bytes),
        acc.2.insert key ((acc.2.lookup key).getD 0 + 1))

def aggregateRuleCounters (dump : List DumpedRule) : CounterMap × ObservedRuleCounts :=
  dump.foldl aggregateStep (∅, ∅)

/-- The key a dumped rule is counted under. -/
def DumpedRule.key (rule : DumpedRule) : Option CounterKey :=
  if rule.chain = forwardChain then parseComment rule.comment else none

def addCounters (entry : UInt64 × UInt64) (rule : DumpedRule) : UInt64 × UInt64 :=
  (saturatingAdd64 entry.1 rule.packets, saturatingAdd64 entry.2 rule.bytes)

/-- The one pass fills two tallies. -/
theorem aggregateRuleCounters_eq (dump : List DumpedRule) :
    aggregateRuleCounters dump = (tally DumpedRule.key (0, 0) addCounters dump,
      tally DumpedRule.key 0 (fun n _ => n + 1) dump) := by
  induction dump using List.reverseRecOn with
  | nil => rfl
  | append_singleton dump rule ih =>
    simp only [aggregateRuleCounters, tally, List.foldl_append, List.foldl_cons,
      List.foldl_nil] at ih ⊢
    rw [ih, aggregateStep, tallyStep, tallyStep, DumpedRule.key]
    by_cases hchain : rule.chain = forwardChain
    · rw [if_neg (not_not.mpr hchain), if_pos hchain]
      cases parseComment rule.comment with
      | none => rfl
      | some key => rfl
    · rw [if_pos hchain, if_neg hchain]

/-- Saturating sums are sums with a cap. -/
theorem toNat_foldl_saturatingAdd64 (xs : List UInt64) : ∀ a : UInt64,
    (xs.foldl saturatingAdd64 a).toNat =
      min (2 ^ 64 - 1) (a.toNat + (xs.map UInt64.toNat).sum) := by
  induction xs with
  | nil =>
    intro a
    have ha := a.toNat_lt
    simp only [List.foldl_nil, List.map_nil, List.sum_nil, Nat.add_zero]
    omega
  | cons x xs ih =>
    intro a
    have ha := a.toNat_lt
    have hx := x.toNat_lt
    rw [List.foldl_cons, ih, List.map_cons, List.sum_cons, saturatingAdd64]
    split
    · rw [UInt64.toNat_add, Nat.mod_eq_of_lt (by assumption)]
      omega
    · simp only [UInt64.reduceToNat]
      omega

theorem foldl_addCounters (rules : List DumpedRule) : ∀ entry : UInt64 × UInt64,
    rules.foldl addCounters entry = ((rules.map (·.packets)).foldl saturatingAdd64 entry.1,
      (rules.map (·.bytes)).foldl saturatingAdd64 entry.2) := by
  induction rules with
  | nil => intro entry; rfl
  | cons rule rules ih => intro entry; simp only [List.foldl_cons, ih, List.map_cons, addCounters]

/-- The cap of an exact sum. -/
def capped (xs : List UInt64) : UInt64 :=
  UInt64.ofNat (min (2 ^ 64 - 1) (xs.map UInt64.toNat).sum)

theorem toNat_capped (xs : List UInt64) :
    (capped xs).toNat = min (2 ^ 64 - 1) (xs.map UInt64.toNat).sum := by
  rw [capped, UInt64.toNat_ofNat_of_lt']
  have : UInt64.size = 2 ^ 64 := rfl
  omega

theorem foldl_saturatingAdd64_zero (xs : List UInt64) :
    xs.foldl saturatingAdd64 0 = capped xs := by
  rw [← UInt64.toNat_inj, toNat_foldl_saturatingAdd64, toNat_capped]
  simp

/-- **The counters of a key**: the capped sums over the dumped rules of that key. -/
theorem lookup_counters (dump : List DumpedRule) (key : CounterKey) :
    (aggregateRuleCounters dump).1.lookup key =
      if ofKey DumpedRule.key key dump = [] then none
      else some (capped ((ofKey DumpedRule.key key dump).map (·.packets)),
        capped ((ofKey DumpedRule.key key dump).map (·.bytes))) := by
  rw [aggregateRuleCounters_eq, lookup_tally, foldl_addCounters, foldl_saturatingAdd64_zero,
    foldl_saturatingAdd64_zero]

/-- The count of a key: the number of the dumped rules of that key. -/
theorem lookup_counts (dump : List DumpedRule) (key : CounterKey) :
    (aggregateRuleCounters dump).2.lookup key =
      if ofKey DumpedRule.key key dump = [] then none
      else some (ofKey DumpedRule.key key dump).length := by
  have hcount : ∀ (rules : List DumpedRule) (n : ℕ),
      rules.foldl (fun n _ => n + 1) n = n + rules.length := by
    intro rules
    induction rules with
    | nil => intro n; rfl
    | cons rule rules ih =>
      intro n
      rw [List.foldl_cons, ih, List.length_cons]
      omega
  rw [aggregateRuleCounters_eq, lookup_tally, hcount, Nat.zero_add]

/-! ### The status -/

structure RuleCounter where
  ruleId : Uuid
  protocol : Protocol
  packets : UInt64
  bytes : UInt64
  deriving DecidableEq

/-- `KernelStatus`.  The counters come out of a hash map, in no order. -/
structure KernelStatus where
  tablePresent : Bool
  drifted : Bool
  counters : Multiset RuleCounter
  observedAt : String

def RulePlan.key (plan : RulePlan) : CounterKey := (plan.ruleId, plan.protocol)

/-- The number of counter rules `status` expects of a plan entry. -/
def RulePlan.expectedCount (plan : RulePlan) : ℕ := max plan.sourceCidrs.length 1 * 2

/-- `NftnlController::status` at the time `now`. -/
def nftStatus (now : String) (table : Option Table) (config : Config) : KernelStatus :=
  match table with
  | none =>
    { tablePresent := false, drifted := !config.plan.isEmpty, counters := 0, observedAt := now }
  | some t =>
    let (counters, observedRuleCounts) := aggregateRuleCounters (dumpRules t)
    let expected := (config.plan.map RulePlan.key).toFinset
    let expectedRuleCounts := insertAll RulePlan.key RulePlan.expectedCount ∅ config.plan
    let result := counters.entries.map fun entry =>
      (⟨entry.1.1, entry.1.2, entry.2.1, entry.2.2⟩ : RuleCounter)
    let observedKeys := (result.map fun counter => (counter.ruleId, counter.protocol)).toFinset
    { tablePresent := true
      drifted := expected ≠ observedKeys || expectedRuleCounts ≠ observedRuleCounts
      counters := result
      observedAt := now }

/-! ### Rules without their counters -/

/-- The rule as it was written, whatever its counters are now. -/
def KernelRule.erase (rule : KernelRule) : KernelRule :=
  { rule with exprs := rule.exprs.map fun e =>
      match e with
      | .counter _ _ => .counter 0 0
      | e => e }

def Table.erase (t : Table) : Table := { t with rules := t.rules.map KernelRule.erase }

/-! ### Rules by key -/

/-- The key of a kernel rule, as the dump shows it. -/
def KernelRule.key (rule : KernelRule) : Option CounterKey := rule.dump.key

/-- The forward rules of a table whose comment names the key. -/
def Table.keyed (t : Table) (key : CounterKey) : List KernelRule := ofKey KernelRule.key key t.rules

theorem ofKey_dumpRules (t : Table) (key : CounterKey) :
    ofKey DumpedRule.key key (dumpRules t) = (t.keyed key).map KernelRule.dump := by
  rw [ofKey, dumpRules, List.filter_map]
  rfl

theorem length_ofKey_dumpRules (t : Table) (key : CounterKey) :
    (ofKey DumpedRule.key key (dumpRules t)).length = (t.keyed key).length := by
  rw [ofKey_dumpRules, List.length_map]

/-- The keys of an accepted plan are distinct. -/
theorem Accepted.plan_keys_nodup {config : Config} {context : ValidationContext}
    (h : Accepted config context) : (config.plan.map RulePlan.key).Nodup := by
  have hperm : (config.plan.map RulePlan.key).Perm
      ((config.activeRules.flatMap fun rule => rule.protocols.iter.map rule.planFor).map
        RulePlan.key) := (List.perm_insertionSort _ _).map _
  have hkeys : ((config.activeRules.flatMap fun rule => rule.protocols.iter.map rule.planFor).map
      RulePlan.key) = config.activeRules.flatMap fun rule =>
        rule.protocols.iter.map fun p => (rule.id, p) := by
    rw [List.map_flatMap]
    simp only [List.map_map]
    rfl
  rw [hperm.nodup_iff, hkeys, List.nodup_flatMap]
  constructor
  · intro rule _
    exact rule.protocols.iter_nodup.map fun p q hpq => (Prod.mk.inj hpq).2
  · have hdistinct : config.activeRules.Pairwise fun a b => a.id ≠ b.id :=
      (List.pairwise_map.mp h.distinct).filter _
    refine hdistinct.imp fun hne => ?_
    rw [Function.onFun, List.disjoint_left]
    rintro key hk hk'
    obtain ⟨p, -, rfl⟩ := List.mem_map.mp hk
    obtain ⟨q, -, heq⟩ := List.mem_map.mp hk'
    exact hne (Prod.mk.inj heq).1.symm

theorem key_of_chain_eq {rule : KernelRule} (h : rule.chain = forwardChain) :
    rule.key = parseComment rule.comment :=
  if_pos h

theorem key_of_chain_ne {rule : KernelRule} (h : rule.chain ≠ forwardChain) : rule.key = none :=
  if_neg h

/-- The forward rules of a compiled plan carry the key of their entry. -/
theorem key_of_mem_forwardRulesOf {plan : RulePlan} {rule : KernelRule}
    (h : rule ∈ forwardRulesOf plan) : rule.key = some plan.key := by
  simp only [forwardRulesOf, List.mem_flatMap, List.mem_cons, List.not_mem_nil, or_false] at h
  obtain ⟨_, _, rfl | rfl⟩ := h
  · exact (key_of_chain_eq rfl).trans (parseComment_ruleComment _ _)
  · exact (key_of_chain_eq rfl).trans (parseComment_ruleComment _ _)

/-- **The counter rules of a compiled plan, by key.** -/
theorem keyed_tableOf (config : Config) (key : CounterKey) :
    (tableOf config).keyed key =
      (config.plan.filter fun plan => plan.key = key).flatMap forwardRulesOf := by
  have hpre : ofKey KernelRule.key key (config.plan.flatMap preroutingRulesOf) = [] := by
    refine List.filter_eq_nil_iff.mpr fun rule hr => ?_
    obtain ⟨plan, -, hr⟩ := List.mem_flatMap.mp hr
    rw [key_of_chain_ne (by rw [chain_of_mem_preroutingRulesOf hr]; decide)]
    simp
  have hpost : ofKey KernelRule.key key
      ((config.plan.filter (·.snat ≠ .none)).map postroutingRuleOf) = [] := by
    refine List.filter_eq_nil_iff.mpr fun rule hr => ?_
    obtain ⟨plan, -, rfl⟩ := List.mem_map.mp hr
    have hne : postroutingChain ≠ forwardChain := by decide
    have hkey : (postroutingRuleOf plan).key = none := key_of_chain_ne hne
    simp [hkey]
  rw [Table.keyed, tableOf, rulesOf, ofKey_append, ofKey_append, hpre, hpost, List.nil_append,
    List.nil_append]
  induction config.plan with
  | nil => rfl
  | cons plan plans ih =>
    rw [List.flatMap_cons, ofKey_append, ih]
    by_cases hkey : plan.key = key
    · have hall : ofKey KernelRule.key key (forwardRulesOf plan) = forwardRulesOf plan :=
        List.filter_eq_self.mpr fun rule hr => by simp [key_of_mem_forwardRulesOf hr, hkey]
      rw [hall, List.filter_cons_of_pos (by simpa using hkey), List.flatMap_cons]
    · have hnone : ofKey KernelRule.key key (forwardRulesOf plan) = [] :=
        List.filter_eq_nil_iff.mpr fun rule hr => by simp [key_of_mem_forwardRulesOf hr, hkey]
      rw [hnone, List.filter_cons_of_neg (by simpa using hkey), List.nil_append]

theorem length_forwardRulesOf (plan : RulePlan) :
    (forwardRulesOf plan).length = plan.expectedCount := by
  have hsources : (planSources plan).length = max plan.sourceCidrs.length 1 := by
    unfold planSources
    cases plan.sourceCidrs with
    | nil => rfl
    | cons cidr cidrs => simp
  rw [forwardRulesOf, List.length_flatMap, RulePlan.expectedCount, ← hsources]
  simp [List.map_const', List.sum_replicate]

/-- In an accepted plan a key selects one entry or none. -/
theorem Accepted.filter_key {config : Config} {context : ValidationContext}
    (h : Accepted config context) {plan : RulePlan} (hp : plan ∈ config.plan) :
    (config.plan.filter fun other => other.key = plan.key) = [plan] := by
  have hnodup := h.plan_keys_nodup
  revert hp hnodup
  generalize config.plan = plans
  intro hp hnodup
  induction plans with
  | nil => cases hp
  | cons first rest ih =>
    rw [List.map_cons, List.nodup_cons] at hnodup
    rcases List.mem_cons.mp hp with rfl | hp
    · rw [List.filter_cons_of_pos (by simp), List.cons.injEq]
      refine ⟨rfl, List.filter_eq_nil_iff.mpr fun other ho => ?_⟩
      have hne : other.key ≠ plan.key := fun heq => hnodup.1 (List.mem_map.mpr ⟨other, ho, heq⟩)
      simpa using hne
    · have hne : first.key ≠ plan.key := fun heq =>
        hnodup.1 (List.mem_map.mpr ⟨plan, hp, heq.symm⟩)
      rw [List.filter_cons_of_neg (by simpa using hne)]
      exact ih hp hnodup.2

theorem forwardRulesOf_ne_nil (plan : RulePlan) : forwardRulesOf plan ≠ [] := by
  intro hnil
  have hlen := length_forwardRulesOf plan
  rw [hnil, List.length_nil, RulePlan.expectedCount] at hlen
  omega

theorem keyed_tableOf_ne_nil_iff (config : Config) (key : CounterKey) :
    (tableOf config).keyed key ≠ [] ↔ key ∈ config.plan.map RulePlan.key := by
  rw [keyed_tableOf, Ne, List.flatMap_eq_nil_iff, List.mem_map]
  simp only [List.mem_filter, decide_eq_true_eq, and_imp, not_forall]
  constructor
  · rintro ⟨plan, hp, hkey, -⟩
    exact ⟨plan, hp, hkey⟩
  · rintro ⟨plan, hp, hkey⟩
    exact ⟨plan, hp, hkey, forwardRulesOf_ne_nil plan⟩

/-! ### The drift test -/

theorem eq_nil_iff_of_length_eq {α β : Type} {xs : List α} {ys : List β}
    (h : xs.length = ys.length) : xs = [] ↔ ys = [] := by
  rw [← List.length_eq_zero_iff, h, List.length_eq_zero_iff]

/-- The expected counts are the numbers of compiled counter rules. -/
theorem Accepted.lookup_expected {config : Config} {context : ValidationContext}
    (h : Accepted config context) (key : CounterKey) :
    (insertAll RulePlan.key RulePlan.expectedCount ∅ config.plan).lookup key =
      if (tableOf config).keyed key = [] then none
      else some ((tableOf config).keyed key).length := by
  rw [lookup_insertAll, keyed_tableOf]
  cases hfilter : config.plan.filter fun plan => plan.key = key with
  | nil => simp
  | cons plan rest =>
    have hmem : plan ∈ config.plan.filter fun plan => plan.key = key :=
      hfilter ▸ List.mem_cons_self
    obtain ⟨hp, hkey⟩ := List.mem_filter.mp hmem
    simp only [decide_eq_true_eq] at hkey
    have hone := h.filter_key hp
    rw [hkey, hfilter] at hone
    rw [hone]
    simp [forwardRulesOf_ne_nil, length_forwardRulesOf]

theorem lookup_observed (t : Table) (key : CounterKey) :
    (aggregateRuleCounters (dumpRules t)).2.lookup key =
      if t.keyed key = [] then none else some (t.keyed key).length := by
  rw [lookup_counts, length_ofKey_dumpRules, ofKey_dumpRules]
  simp only [List.map_eq_nil_iff]

/-- The counter of a key: capped sums over the forward rules that carry it. -/
def Table.counterOf (t : Table) (key : CounterKey) : RuleCounter where
  ruleId := key.1
  protocol := key.2
  packets := capped ((t.keyed key).map (·.counters.1))
  bytes := capped ((t.keyed key).map (·.counters.2))

theorem lookup_aggregated (t : Table) (key : CounterKey) :
    (aggregateRuleCounters (dumpRules t)).1.lookup key =
      if t.keyed key = [] then none
      else some ((t.counterOf key).packets, (t.counterOf key).bytes) := by
  rw [lookup_counters, ofKey_dumpRules]
  simp only [List.map_eq_nil_iff, List.map_map]
  rfl

/-- The counters of the status: one for each key that occurs. -/
theorem mem_counters_iff {now : String} {t : Table} {config : Config} {counter : RuleCounter} :
    counter ∈ (nftStatus now (some t) config).counters ↔
      ∃ key, t.keyed key ≠ [] ∧ t.counterOf key = counter := by
  simp only [nftStatus, Multiset.mem_map, Sigma.exists, mem_entries_iff, lookup_aggregated]
  constructor
  · rintro ⟨key, value, hvalue, rfl⟩
    split at hvalue
    · cases hvalue
    · rename_i hne
      cases hvalue
      exact ⟨key, hne, rfl⟩
  · rintro ⟨key, hne, rfl⟩
    exact ⟨key, _, if_neg hne, rfl⟩

/-- The keys the status has counters for. -/
theorem mem_observedKeys {now : String} {t : Table} {config : Config} {key : CounterKey} :
    key ∈ (((nftStatus now (some t) config).counters).map fun counter =>
      (counter.ruleId, counter.protocol)).toFinset ↔ t.keyed key ≠ [] := by
  rw [Multiset.mem_toFinset, Multiset.mem_map]
  constructor
  · rintro ⟨counter, hmem, rfl⟩
    obtain ⟨key, hne, rfl⟩ := mem_counters_iff.mp hmem
    exact hne
  · exact fun hne => ⟨t.counterOf key, mem_counters_iff.mpr ⟨key, hne, rfl⟩, rfl⟩

theorem counters_nodup (now : String) (t : Table) (config : Config) :
    (nftStatus now (some t) config).counters.Nodup := by
  refine Multiset.Nodup.map ?_ (aggregateRuleCounters (dumpRules t)).1.nodupKeys.nodup
  rintro ⟨⟨id, protocol⟩, packets, bytes⟩ ⟨⟨id', protocol'⟩, packets', bytes'⟩ heq
  obtain ⟨rfl, rfl, rfl, rfl⟩ := RuleCounter.mk.inj heq
  rfl

/-- **What the drift test sees.**  A table is reported present and not drifted iff it exists and,
for every rule and protocol, its forward chain holds as many rules with that comment as the compiled
table. -/
theorem Accepted.notDrifted_iff {config : Config} {context : ValidationContext}
    (h : Accepted config context) (now : String) (table : Option Table) :
    ((nftStatus now table config).tablePresent = true ∧
        (nftStatus now table config).drifted = false) ↔
      ∃ t, table = some t ∧ ∀ key, (t.keyed key).length = ((tableOf config).keyed key).length := by
  cases table with
  | none => simp [nftStatus]
  | some t =>
    have hcounts : insertAll RulePlan.key RulePlan.expectedCount ∅ config.plan =
        (aggregateRuleCounters (dumpRules t)).2 ↔
          ∀ key, (t.keyed key).length = ((tableOf config).keyed key).length := by
      constructor
      · intro heq key
        have hkey := congrArg (Finmap.lookup key) heq
        rw [h.lookup_expected, lookup_observed] at hkey
        by_cases h1 : (tableOf config).keyed key = [] <;> by_cases h2 : t.keyed key = [] <;>
          simp_all
      · intro hlen
        refine Finmap.ext_lookup fun key => ?_
        rw [h.lookup_expected, lookup_observed, hlen key]
        by_cases h1 : (tableOf config).keyed key = []
        · rw [if_pos h1, if_pos ((eq_nil_iff_of_length_eq (hlen key)).mpr h1)]
        · rw [if_neg h1, if_neg (mt (eq_nil_iff_of_length_eq (hlen key)).mp h1)]
    -- equal counts have equal keys
    have hkeys : (∀ key, (t.keyed key).length = ((tableOf config).keyed key).length) →
        (config.plan.map RulePlan.key).toFinset =
          (((nftStatus now (some t) config).counters).map fun counter =>
            (counter.ruleId, counter.protocol)).toFinset := by
      intro hlen
      ext key
      rw [List.mem_toFinset, ← keyed_tableOf_ne_nil_iff, mem_observedKeys]
      exact not_congr (eq_nil_iff_of_length_eq (hlen key)).symm
    constructor
    · rintro ⟨-, hdrift⟩
      simp only [nftStatus, Bool.or_eq_false_iff, decide_eq_false_iff_not, not_not] at hdrift
      exact ⟨t, rfl, hcounts.mp hdrift.2⟩
    · rintro ⟨t', ht, hlen⟩
      cases ht
      refine ⟨rfl, ?_⟩
      simp only [nftStatus, Bool.or_eq_false_iff, decide_eq_false_iff_not, not_not]
      exact ⟨hkeys hlen, hcounts.mpr hlen⟩

/-- **What an undrifted status promises.**  It is reported iff the table exists and its forward
chain holds, for every entry of the plan, two rules with the entry's comment for each source match,
and no rule with the comment of another rule or protocol.  Nothing is said about what these rules
match, nor about the other two chains. -/
theorem undrifted_iff_counts {config : Config} {context : ValidationContext}
    (h : config.validate context = .ok ()) (now : String) (table : Option Table) :
    ((nftStatus now table config).tablePresent = true ∧
        (nftStatus now table config).drifted = false) ↔
      ∃ t, table = some t ∧
        (∀ plan ∈ config.plan, (t.keyed plan.key).length = max plan.sourceCidrs.length 1 * 2) ∧
        ∀ key, key ∉ config.plan.map RulePlan.key → t.keyed key = [] := by
  have hacc := Accepted.of_validate h
  have hentry : ∀ plan ∈ config.plan, ((tableOf config).keyed plan.key).length =
      max plan.sourceCidrs.length 1 * 2 := by
    intro plan hp
    rw [keyed_tableOf, hacc.filter_key hp, List.flatMap_singleton, length_forwardRulesOf]
    rfl
  rw [hacc.notDrifted_iff]
  refine exists_congr fun t => and_congr_right fun _ => ⟨fun hlen => ⟨?_, ?_⟩, ?_⟩
  · intro plan hp
    rw [hlen, hentry plan hp]
  · intro key hkey
    have hnil := not_not.mp (mt (keyed_tableOf_ne_nil_iff config key).mp hkey)
    rw [← List.length_eq_zero_iff, hlen, hnil, List.length_nil]
  · rintro ⟨hplan, hother⟩ key
    by_cases hkey : key ∈ config.plan.map RulePlan.key
    · obtain ⟨plan, hp, rfl⟩ := List.mem_map.mp hkey
      rw [hplan plan hp, hentry plan hp]
    · have hnil := not_not.mp (mt (keyed_tableOf_ne_nil_iff config key).mp hkey)
      rw [hother key hkey, hnil]

/-- The rule of `webRule` with another target. -/
def movedRule : ForwardRule := { webRule with targetIp := .v4 0xC000020B#32 }

theorem undrifted_counts_moved :
    ∃ t, some (tableOf ⟨1, [movedRule]⟩) = some t ∧
      (∀ plan ∈ (Config.mk 1 [webRule]).plan,
        (t.keyed plan.key).length = max plan.sourceCidrs.length 1 * 2) ∧
      ∀ key, key ∉ (Config.mk 1 [webRule]).plan.map RulePlan.key → t.keyed key = [] :=
  (@undrifted_iff_counts ⟨1, [webRule]⟩ .default (by decide) "" _).mp ⟨by decide, by decide⟩

/-- **A table of other rules that is not drifted.**  The table of `movedRule` sends port 8080 to another
machine than `webRule` does, and `webRule` finds it present and not drifted. -/
theorem undrifted_table_of_another_config :
    (Config.mk 1 [webRule]).validate .default = .ok () ∧
      (nftStatus "" (some (tableOf ⟨1, [movedRule]⟩)) ⟨1, [webRule]⟩).tablePresent = true ∧
      (nftStatus "" (some (tableOf ⟨1, [movedRule]⟩)) ⟨1, [webRule]⟩).drifted = false ∧
      ∃ t receipt, nftApply none ⟨1, [webRule]⟩ = .ok (some t, receipt) ∧
        ((tableOf ⟨1, [movedRule]⟩).chainRules preroutingChain).map KernelRule.erase ≠
          (t.chainRules preroutingChain).map KernelRule.erase := by
  refine ⟨by decide, by decide, by decide, _, _, rfl, by decide⟩

/-! ### The aggregation as a whole -/

/-- The rules of the dump that are counted under a key. -/
def countedUnder (key : CounterKey) (dump : List DumpedRule) : List DumpedRule :=
  dump.filter fun rule => rule.chain = forwardChain ∧ parseComment rule.comment = some key

theorem ofKey_eq_countedUnder (key : CounterKey) (dump : List DumpedRule) :
    ofKey DumpedRule.key key dump = countedUnder key dump := by
  refine List.filter_congr fun rule _ => ?_
  rw [DumpedRule.key]
  by_cases hchain : rule.chain = forwardChain
  · simp [hchain]
  · simp [hchain]

theorem countedUnder_ne_nil_iff {key : CounterKey} {dump : List DumpedRule} :
    countedUnder key dump ≠ [] ↔
      ∃ rule ∈ dump, rule.chain = forwardChain ∧ parseComment rule.comment = some key := by
  rw [countedUnder, Ne, List.filter_eq_nil_iff]
  simp only [decide_eq_true_eq, not_forall, not_not, exists_prop]

theorem capped_perm {xs ys : List UInt64} (h : xs.Perm ys) : capped xs = capped ys := by
  rw [capped, capped, (h.map UInt64.toNat).sum_eq]

/-- Only which rules are counted under each key matters, in any order. -/
theorem aggregateRuleCounters_congr {dump other : List DumpedRule}
    (h : ∀ key, (countedUnder key dump).Perm (countedUnder key other)) :
    aggregateRuleCounters dump = aggregateRuleCounters other := by
  have hnil : ∀ key, countedUnder key dump = [] ↔ countedUnder key other = [] :=
    fun key => eq_nil_iff_of_length_eq (h key).length_eq
  refine Prod.ext (Finmap.ext_lookup fun key => ?_) (Finmap.ext_lookup fun key => ?_)
  · rw [lookup_counters, lookup_counters, ofKey_eq_countedUnder, ofKey_eq_countedUnder,
      capped_perm ((h key).map _), capped_perm ((h key).map _)]
    exact if_congr (hnil key) rfl rfl
  · rw [lookup_counts, lookup_counts, ofKey_eq_countedUnder, ofKey_eq_countedUnder,
      (h key).length_eq]
    exact if_congr (hnil key) rfl rfl

/-- **What `aggregate_rule_counters` returns.**  There is an entry for exactly the keys that a rule of the
forward chain carries in its comment: the capped sums of the packets and of the bytes of these rules, and
their number.  Neither the order of the dump nor its other rules matter. -/
theorem aggregateRuleCounters_spec (dump : List DumpedRule) :
    (∀ key, key ∈ (aggregateRuleCounters dump).1 ↔
      ∃ rule ∈ dump, rule.chain = forwardChain ∧ parseComment rule.comment = some key) ∧
    (∀ key, key ∈ (aggregateRuleCounters dump).2 ↔
      ∃ rule ∈ dump, rule.chain = forwardChain ∧ parseComment rule.comment = some key) ∧
    (∀ key packets bytes, (aggregateRuleCounters dump).1.lookup key = some (packets, bytes) →
      packets.toNat = min (2 ^ 64 - 1)
        ((countedUnder key dump).map fun rule => rule.packets.toNat).sum ∧
      bytes.toNat = min (2 ^ 64 - 1)
        ((countedUnder key dump).map fun rule => rule.bytes.toNat).sum) ∧
    (∀ key count, (aggregateRuleCounters dump).2.lookup key = some count →
      count = (countedUnder key dump).length) ∧
    (∀ other, other.Perm dump → aggregateRuleCounters other = aggregateRuleCounters dump) ∧
    ∀ before rule after, dump = before ++ rule :: after →
      rule.chain ≠ forwardChain ∨ parseComment rule.comment = none →
      aggregateRuleCounters (before ++ after) = aggregateRuleCounters dump := by
  have hsums : ∀ key, (aggregateRuleCounters dump).1.lookup key =
      if countedUnder key dump = [] then none
      else some (capped ((countedUnder key dump).map (·.packets)),
        capped ((countedUnder key dump).map (·.bytes))) := by
    intro key
    rw [lookup_counters, ofKey_eq_countedUnder]
  have hcounts : ∀ key, (aggregateRuleCounters dump).2.lookup key =
      if countedUnder key dump = [] then none else some (countedUnder key dump).length := by
    intro key
    rw [lookup_counts, ofKey_eq_countedUnder]
  refine ⟨fun key => ?_, fun key => ?_, fun key packets bytes h => ?_, fun key count h => ?_,
    fun other hperm => ?_, fun before rule after hdump hforeign => ?_⟩
  · rw [← Finmap.lookup_isSome, hsums, ← countedUnder_ne_nil_iff]
    by_cases hnil : countedUnder key dump = []
    · simp [hnil]
    · simp [hnil]
  · rw [← Finmap.lookup_isSome, hcounts, ← countedUnder_ne_nil_iff]
    by_cases hnil : countedUnder key dump = []
    · simp [hnil]
    · simp [hnil]
  · rw [hsums] at h
    split at h
    · cases h
    · cases h
      rw [toNat_capped, toNat_capped, List.map_map, List.map_map]
      exact ⟨rfl, rfl⟩
  · rw [hcounts] at h
    split at h
    · cases h
    · exact (Option.some.inj h).symm
  · exact aggregateRuleCounters_congr fun key => hperm.filter _
  · refine aggregateRuleCounters_congr fun key => ?_
    have hskip : ¬ (rule.chain = forwardChain ∧ parseComment rule.comment = some key) := by
      rintro ⟨hchain, hkey⟩
      rcases hforeign with hother | hnone
      · exact hother hchain
      · rw [hnone] at hkey
        cases hkey
    rw [hdump, countedUnder, countedUnder, List.filter_append, List.filter_append,
      List.filter_cons_of_neg (by simpa using hskip)]

/-! ### Counting -/

theorem keyed_erase (t : Table) (key : CounterKey) :
    t.erase.keyed key = (t.keyed key).map KernelRule.erase := by
  rw [Table.keyed, Table.erase, ofKey, List.filter_map]
  rfl

/-- Counting does not change how many rules carry a key. -/
theorem length_keyed_of_erase_eq {t t' : Table} (h : t'.erase = t.erase) (key : CounterKey) :
    (t'.keyed key).length = (t.keyed key).length := by
  have hkeyed := congrArg (fun t => (t.keyed key).length) h
  simpa [keyed_erase] using hkeyed

/-- Drift depends on how many rules carry each key, for any configuration. -/
theorem drifted_congr {t t' : Table} (h : ∀ key, (t'.keyed key).length = (t.keyed key).length)
    (now now' : String) (config : Config) :
    (nftStatus now' (some t') config).drifted = (nftStatus now (some t) config).drifted := by
  have hnil : ∀ key, t'.keyed key = [] ↔ t.keyed key = [] := fun key =>
    eq_nil_iff_of_length_eq (h key)
  have hcounts : (aggregateRuleCounters (dumpRules t')).2 =
      (aggregateRuleCounters (dumpRules t)).2 :=
    Finmap.ext_lookup fun key => by
      rw [lookup_observed, lookup_observed, h]
      exact if_congr (hnil key) rfl rfl
  have hkeys : (((nftStatus now' (some t') config).counters).map fun counter =>
        (counter.ruleId, counter.protocol)).toFinset =
      (((nftStatus now (some t) config).counters).map fun counter =>
        (counter.ruleId, counter.protocol)).toFinset := by
    ext key
    rw [mem_observedKeys, mem_observedKeys, Ne, hnil]
  simp only [nftStatus] at hkeys ⊢
  rw [hkeys, hcounts]

/-- **No false drift.**  However much the table `apply` wrote has counted, it is reported present and not
drifted, with one counter for each entry of the plan: the capped sums over the counter rules of the
entry. -/
theorem status_of_applied {config : Config} {context : ValidationContext}
    (h : config.validate context = .ok ()) {before : Option Table} {t : Table}
    {receipt : ApplyReceipt} (hrun : nftApply before config = .ok (some t, receipt)) {t' : Table}
    (hcount : t'.erase = t.erase) (now : String) :
    (nftStatus now (some t') config).tablePresent = true ∧
      (nftStatus now (some t') config).drifted = false ∧
      (config.plan.map RulePlan.key).Nodup ∧
      (nftStatus now (some t') config).counters =
        ↑(config.plan.map fun plan => t'.counterOf plan.key) ∧
      ∀ plan ∈ config.plan, ∃ rules, addForwardCounterRules forwardChain plan = .ok rules ∧
        (t'.keyed plan.key).map KernelRule.erase = rules.map KernelRule.erase := by
  have hacc := Accepted.of_validate h
  obtain ⟨hiface, htable⟩ := hacc.eq_tableOf_of_nftApply hrun
  cases htable
  have hlen := length_keyed_of_erase_eq hcount
  obtain ⟨hpresent, hdrift⟩ := (hacc.notDrifted_iff now (some t')).mpr ⟨t', rfl, hlen⟩
  have hnodup := hacc.plan_keys_nodup
  have hne : ∀ key, t'.keyed key ≠ [] ↔ key ∈ config.plan.map RulePlan.key := by
    intro key
    rw [← keyed_tableOf_ne_nil_iff]
    exact not_congr (eq_nil_iff_of_length_eq (hlen key))
  have hinj : ∀ {k l : CounterKey}, t'.counterOf k = t'.counterOf l → k = l := by
    intro k l heq
    exact Prod.ext (congrArg RuleCounter.ruleId heq) (congrArg RuleCounter.protocol heq)
  refine ⟨hpresent, hdrift, hnodup, ?_, ?_⟩
  · have hplan : (config.plan.map fun plan => t'.counterOf plan.key).Nodup := by
      have hmap := hnodup.map fun _ _ => hinj
      rwa [List.map_map] at hmap
    rw [Multiset.Nodup.ext (counters_nodup now t' config) (Multiset.coe_nodup.mpr hplan)]
    intro counter
    rw [mem_counters_iff, Multiset.mem_coe, List.mem_map]
    simp only [hne, List.mem_map]
    constructor
    · rintro ⟨key, ⟨plan, hp, rfl⟩, rfl⟩
      exact ⟨plan, hp, rfl⟩
    · rintro ⟨plan, hp, rfl⟩
      exact ⟨_, ⟨plan, hp, rfl⟩, rfl⟩
  · intro plan hp
    refine ⟨_, addForwardCounterRules_eq_ok (hacc.planChecked hp) (hiface.plan plan hp), ?_⟩
    rw [← keyed_erase, hcount, keyed_erase, keyed_tableOf, hacc.filter_key hp,
      List.flatMap_singleton]

/-- The table of `webRule` after two packets in each direction. -/
def busyTable : Table :=
  { tableOf ⟨1, [webRule]⟩ with
    rules := (tableOf ⟨1, [webRule]⟩).rules.map fun rule =>
      { rule with exprs := rule.exprs.map fun e =>
          match e with
          | .counter _ _ => .counter 2 120
          | e => e } }

theorem status_of_busy_web :
    (nftStatus "" (some busyTable) ⟨1, [webRule]⟩).drifted = false ∧
      (nftStatus "" (some busyTable) ⟨1, [webRule]⟩).counters = {⟨⟨1⟩, .tcp, 4, 240⟩} := by
  have h := @status_of_applied ⟨1, [webRule]⟩ .default (by decide) none _ ⟨1, false⟩ rfl busyTable
    (by decide) ""
  exact ⟨h.2.1, h.2.2.2.1.trans (by decide)⟩

end Portalis
