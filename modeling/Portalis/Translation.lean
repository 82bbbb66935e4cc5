import Portalis.Overlap

/-!
# What a compiled table translates

The prerouting chain that `apply` writes for an accepted configuration, against the configuration
itself.  The chain is first match over an expansion in plan order; because accepted rules never share a
packet, the order does not matter and the chain is the set of enabled rules.

* `build_succeeds_iff`: what can keep the batch of an accepted configuration from being built.
* `natVerdict_prerouting_iff`: the verdict of the chain, by plan entry.
* `prerouting_translates_iff`: the verdict of the table `apply` leaves, by enabled rule.
* `ssh_ports_untouched`: ports of the SSH daemon are translated only by rules that opted in.
-/

namespace Portalis

open Octets RuleMachine Text

/-! ### The table of an accepted configuration -/

/-- Every enabled rule listens on an interface the compiler can write down, if on any. -/
def Config.InterfacesOk (config : Config) : Prop :=
  ∀ rule ∈ config.activeRules, InterfaceOk rule.listenInterface

theorem Config.InterfacesOk.plan {config : Config} (h : config.InterfacesOk) :
    ∀ plan ∈ config.plan, InterfaceOk plan.listenInterface := by
  intro plan hp
  obtain ⟨rule, hr, p, -, rfl⟩ := Config.mem_plan.mp hp
  exact h rule hr

/-- The table of a configuration whose interfaces can be written down. -/
def tableOf (config : Config) : Table :=
  ⟨[prerouting, postrouting, forward], rulesOf config.plan⟩

theorem Accepted.compile_eq_ok {config : Config} {context : ValidationContext}
    (h : Accepted config context) (hiface : config.InterfacesOk) :
    compile config = .ok (tableOf config) := by
  rw [compile, buildRules_eq_ok (fun plan hp => h.planChecked hp) hiface.plan]
  rfl

/-- An accepted configuration whose rules are not built has a NUL in an interface name. -/
theorem Accepted.buildRules_eq_error {config : Config} {context : ValidationContext}
    (h : Accepted config context) (hiface : ¬ config.InterfacesOk) :
    buildRules config.plan = .error (.library "interface contains NUL") := by
  simp only [Config.InterfacesOk, not_forall] at hiface
  obtain ⟨rule, hr, hbad⟩ := hiface
  have hp : ∃ p, rule.protocols.has p = true := by
    rcases (h.checked_of_active hr).some_protocol with ht | hu
    · exact ⟨.tcp, ht⟩
    · exact ⟨.udp, hu⟩
  obtain ⟨p, hp⟩ := hp
  have hmem : rule.planFor p ∈ config.plan := Config.mem_plan.mpr ⟨rule, hr, p, hp, rfl⟩
  exact buildRules_error (fun plan hp => h.planChecked hp) hmem hbad

theorem Accepted.compile_eq_error {config : Config} {context : ValidationContext}
    (h : Accepted config context) (hiface : ¬ config.InterfacesOk) :
    compile config = .error (.library "interface contains NUL") := by
  rw [compile, h.buildRules_eq_error hiface]
  rfl

/-- What a successful `apply` of an accepted configuration leaves, and what it needs. -/
theorem Accepted.eq_tableOf_of_nftApply {config : Config} {context : ValidationContext}
    (h : Accepted config context) {before table : Option Table} {receipt : ApplyReceipt}
    (hrun : nftApply before config = .ok (table, receipt)) :
    config.InterfacesOk ∧ table = some (tableOf config) := by
  rw [nftApply_eq] at hrun
  by_cases hiface : config.InterfacesOk
  · rw [h.compile_eq_ok hiface] at hrun
    cases hrun
    exact ⟨hiface, rfl⟩
  · rw [h.compile_eq_error hiface] at hrun
    cases hrun

/-! ### Building the batch -/

/-- **An accepted configuration is built**, or an enabled rule listens on a name with NUL and the
compiler says so; no `unreachable!` is reached and the library refuses no comment, given that it has
room for 127 octets. -/
theorem build_succeeds_iff {config : Config} {context : ValidationContext}
    (h : config.validate context = .ok ()) {setComment : SetComment}
    (hroom : ∀ octets, (0 : UInt8) ∉ octets → octets.length < 128 → setComment octets = .ok ())
    (hadTable : Bool) :
    ((∃ batch, buildBatch hadTable config setComment = .ok batch) ↔
      ¬ ∃ rule ∈ config.activeRules, ∃ name, rule.listenInterface = some name ∧
        '\x00' ∈ name.toList) ∧
    ∀ e, buildBatch hadTable config setComment = .error e →
      e = .library "interface contains NUL" := by
  have hacc := Accepted.of_validate h
  have hset : ∀ plan ∈ config.plan,
      setComment (utf8 (ruleComment plan.ruleId plan.protocol)) = .ok () := by
    intro plan _
    obtain ⟨hnul, hlen⟩ := ruleComment_spec plan.ruleId plan.protocol
    exact hroom _ (zero_notMem_utf8 hnul) (by omega)
  rw [buildBatch, buildRules_of_accepted hset]
  have hnames : config.InterfacesOk ↔ ¬ ∃ rule ∈ config.activeRules, ∃ name,
      rule.listenInterface = some name ∧ '\x00' ∈ name.toList := by
    simp [Config.InterfacesOk, InterfaceOk]
  rw [← hnames]
  by_cases hiface : config.InterfacesOk
  · have hbuild := buildRules_eq_ok (fun plan hp => hacc.planChecked hp) hiface.plan
    rw [hbuild]
    refine ⟨iff_of_true ⟨_, rfl⟩ hiface, ?_⟩
    intro e he
    cases he
  · rw [hacc.buildRules_eq_error hiface]
    refine ⟨iff_of_false ?_ hiface, ?_⟩
    · rintro ⟨batch, hbatch⟩
      cases hbatch
    · intro e he
      cases he
      rfl

/-- A library that stores comments of up to 127 octets. -/
def shortComments : SetComment := fun octets =>
  if octets.length < 128 then .ok () else .error "comment too long"

theorem build_succeeds_web :
    ∃ batch, buildBatch true ⟨1, [webRule]⟩ shortComments = .ok batch :=
  (@build_succeeds_iff ⟨1, [webRule]⟩ .default (by decide) shortComments
    (fun octets _ hlen => if_pos hlen) true).1.mpr (by
      rintro ⟨rule, hr, name, hname, -⟩
      have hsame : rule = webRule := by simpa [Config.activeRules, webRule] using hr
      rw [hsame] at hname
      cases hname)

/-- `webRule` on an interface name that ends with NUL. -/
def nulRule : ForwardRule := { webRule with listenInterface := some "eth0\x00" }

/-- **An accepted configuration that is not built.**  The validator asks of an interface name only
that it is not blank. -/
theorem build_fails_of_nul_interface :
    (Config.mk 1 [nulRule]).validate .default = .ok () ∧
      ∀ hadTable, buildBatch hadTable ⟨1, [nulRule]⟩ shortComments =
        .error (.library "interface contains NUL") := by
  refine ⟨by decide, fun hadTable => ?_⟩
  cases hadTable <;> rfl

/-! ### The verdict of the prerouting chain -/

/-- An accepted plan has one entry at most for a packet. -/
theorem Accepted.plan_eq_of_accepts {config : Config} {context : ValidationContext}
    (h : Accepted config context) {first second : RulePlan} (hf : first ∈ config.plan)
    (hs : second ∈ config.plan) {packet : Packet} (ha : first.Accepts packet)
    (hb : second.Accepts packet) : first = second := by
  obtain ⟨r, hr, p, hp, rfl⟩ := Config.mem_plan.mp hf
  obtain ⟨s, hs', q, hq, rfl⟩ := Config.mem_plan.mp hs
  have hpq : p = q := ha.protocol.symm.trans hb.protocol
  have hrs : r = s := h.eq_of_accepts hr hs' (ForwardRule.accepts_iff.mpr ⟨p, hp, ha⟩)
    (ForwardRule.accepts_iff.mpr ⟨q, hq, hb⟩)
  rw [hpq, hrs]

/-- **The prerouting chain by plan entry.** -/
theorem natVerdict_prerouting_iff {config : Config} {context : ValidationContext}
    (h : Accepted config context) (hiface : config.InterfacesOk) (skb : SkBuff) (v : Translation) :
    natVerdict ((tableOf config).chainRules preroutingChain) skb = some v ↔
      ∃ plan ∈ config.plan, plan.Accepts skb.packet ∧ v = plan.translation skb.packet := by
  have hfires := exists_compiled_iff (fun plan hp => h.planChecked hp) hiface.plan skb
  rw [natVerdict, Table.chainRules, tableOf]
  constructor
  · intro hv
    obtain ⟨es, hes, hv⟩ := List.exists_of_findSome?_eq_some hv
    obtain ⟨rule, hr, rfl⟩ := List.mem_map.mp hes
    exact (hfires v).mp ⟨rule, hr, hv⟩
  · rintro ⟨plan, hp, ha, rfl⟩
    obtain ⟨rule, hr, hv⟩ := (hfires _).mpr ⟨plan, hp, ha, rfl⟩
    refine runChain_eq_some_of_agree _ _ ⟨rule.exprs, List.mem_map_of_mem hr, by rw [hv]; simp⟩ ?_
    -- any other rule that fires comes from the same entry
    intro es hes u hu
    obtain ⟨other, ho, rfl⟩ := List.mem_map.mp hes
    obtain ⟨plan', hp', ha', rfl⟩ := (hfires u).mp ⟨other, ho, hu⟩
    rw [h.plan_eq_of_accepts hp' hp ha' ha]

/-- The port a rule sends a packet to, as a number. -/
def ForwardRule.portFor (rule : ForwardRule) (dport : UInt16) : ℕ :=
  if rule.targetPort.isSingle then rule.targetPort.start.toNat
  else rule.targetPort.start.toNat + (dport.toNat - rule.listenPort.start.toNat)

/-- The verdict for a packet an enabled rule accepts. -/
theorem natVerdict_of_accepts {config : Config} {context : ValidationContext}
    (h : Accepted config context) (hiface : config.InterfacesOk) {rule : ForwardRule}
    (hr : rule ∈ config.activeRules) {packet : Packet} (ha : rule.Accepts packet) :
    ∃ port : UInt16, natVerdict ((tableOf config).chainRules preroutingChain) (.first packet) =
      some (.dnat rule.targetIp (some (port, port))) ∧ port.toNat = rule.portFor packet.dport := by
  obtain ⟨p, hp, hplan⟩ := ForwardRule.accepts_iff.mp ha
  have hmem : rule.planFor p ∈ config.plan := Config.mem_plan.mpr ⟨rule, hr, p, hp, rfl⟩
  exact ⟨(rule.planFor p).portFor packet.dport,
    (natVerdict_prerouting_iff h hiface (.first packet) _).mpr ⟨_, hmem, hplan, rfl⟩,
    RulePlan.toNat_portFor (h.planChecked hmem) hplan.port⟩

/-- A packet no enabled rule accepts is left alone. -/
theorem natVerdict_isSome_iff {config : Config} {context : ValidationContext}
    (h : Accepted config context) (hiface : config.InterfacesOk) (packet : Packet) :
    (∃ v, natVerdict ((tableOf config).chainRules preroutingChain) (.first packet) = some v) ↔
      ∃ rule ∈ config.activeRules, rule.Accepts packet := by
  constructor
  · rintro ⟨v, hv⟩
    obtain ⟨plan, hp, ha, -⟩ := (natVerdict_prerouting_iff h hiface _ v).mp hv
    obtain ⟨rule, hr, p, hhas, rfl⟩ := Config.mem_plan.mp hp
    exact ⟨rule, hr, ForwardRule.accepts_iff.mpr ⟨p, hhas, ha⟩⟩
  · rintro ⟨rule, hr, ha⟩
    obtain ⟨port, hv, -⟩ := natVerdict_of_accepts h hiface hr ha
    exact ⟨_, hv⟩

/-! ### What `apply` leaves -/

/-- **Destination translation is what the rules say.**  Whatever the table was before, the prerouting
chain that `apply` leaves for an accepted configuration translates a packet iff an enabled rule accepts
it, and then to that rule's target and port; if `apply` refuses to build the batch, an enabled rule
listens on a name with NUL. -/
theorem prerouting_translates_iff {config : Config} {context : ValidationContext}
    (h : config.validate context = .ok ()) (before : Option Table) :
    match nftApply before config with
    | .ok (table, _) => ∃ t, table = some t ∧ ∀ packet : Packet,
        ((∃ v, natVerdict (t.chainRules preroutingChain) (.first packet) = some v) ↔
          ∃ rule ∈ config.activeRules, rule.Accepts packet) ∧
        ∀ rule ∈ config.activeRules, rule.Accepts packet → ∃ port : UInt16,
          natVerdict (t.chainRules preroutingChain) (.first packet) =
            some (.dnat rule.targetIp (some (port, port))) ∧
          port.toNat = rule.portFor packet.dport
    | .error e => e = .library "interface contains NUL" ∧
        ∃ rule ∈ config.activeRules, ∃ name, rule.listenInterface = some name ∧
          '\x00' ∈ name.toList := by
  have hacc := Accepted.of_validate h
  rw [nftApply_eq]
  by_cases hiface : config.InterfacesOk
  · rw [hacc.compile_eq_ok hiface]
    exact ⟨_, rfl, fun packet => ⟨natVerdict_isSome_iff hacc hiface packet,
      fun rule hr ha => natVerdict_of_accepts hacc hiface hr ha⟩⟩
  · rw [hacc.compile_eq_error hiface]
    refine ⟨rfl, ?_⟩
    simpa [Config.InterfacesOk, InterfaceOk] using hiface

theorem prerouting_translates_web :
    ∃ t, (∀ packet : Packet,
        ((∃ v, natVerdict (t.chainRules preroutingChain) (.first packet) = some v) ↔
          ∃ rule ∈ (Config.mk 1 [webRule]).activeRules, rule.Accepts packet)) ∧
      nftApply none ⟨1, [webRule]⟩ = .ok (some t, ⟨1, false⟩) := by
  have h := @prerouting_translates_iff ⟨1, [webRule]⟩ .default (by decide) none
  obtain ⟨table, receipt, hrun, hcount⟩ : ∃ table receipt,
      nftApply none ⟨1, [webRule]⟩ = .ok (table, receipt) ∧ receipt = ⟨1, false⟩ :=
    ⟨_, _, rfl, by decide⟩
  rw [hrun] at h
  obtain ⟨t, rfl, ht⟩ := h
  exact ⟨t, fun packet => (ht packet).1, by rw [hrun, hcount]⟩

/-! ### The ports of the SSH daemon -/

/-- **SSH stays reachable.**  No rule that did not opt in matches a packet for an SSH port, and the
table `apply` leaves translates such a packet only if a rule that opted in matches it. -/
theorem ssh_ports_untouched {sshdConfig : String} {config : Config}
    (h : config.validate ⟨parseSshPorts sshdConfig⟩ = .ok ()) {packet : Packet}
    (hport : packet.dport = 22 ∨ packet.dport ∈ parseSshPorts sshdConfig) :
    (∀ rule ∈ config.activeRules, rule.allowSshConflict = false →
      ¬ PreroutingMatches rule packet) ∧
    ∀ before t receipt, nftApply before config = .ok (some t, receipt) →
      natVerdict (t.chainRules preroutingChain) (.first packet) ≠ none →
      ∃ rule ∈ config.activeRules, rule.allowSshConflict = true ∧
        PreroutingMatches rule packet := by
  have hacc := Accepted.of_validate h
  have hssh : packet.dport ∈ parseSshPorts sshdConfig := by
    rcases hport with heq | hmem
    · rw [heq]
      exact mem_parseSshPorts.mpr (Or.inl rfl)
    · exact hmem
  have hclosed : ∀ rule ∈ config.activeRules, rule.allowSshConflict = false →
      ¬ rule.Accepts packet := by
    intro rule hr hopt ha
    exact (hacc.checked_of_active hr).ssh_free hopt packet.dport hssh ha.port
  refine ⟨fun rule hr hopt hmatch => hclosed rule hr hopt
    ((preroutingMatches_iff (hacc.checked_of_active hr) packet).mp hmatch), ?_⟩
  intro before t receipt hrun hv
  obtain ⟨v, hv⟩ := Option.ne_none_iff_exists'.mp hv
  obtain ⟨hiface, htable⟩ := hacc.eq_tableOf_of_nftApply hrun
  cases htable
  obtain ⟨rule, hr, ha⟩ := (natVerdict_isSome_iff hacc hiface packet).mp ⟨v, hv⟩
  refine ⟨rule, hr, ?_, (preroutingMatches_iff (hacc.checked_of_active hr) packet).mpr ha⟩
  cases hopt : rule.allowSshConflict with
  | true => rfl
  | false => exact absurd ha (hclosed rule hr hopt)

/-- A TCP packet from 198.51.100.7 to 203.0.113.1, on interface `eth0`. -/
def probe (dport : UInt16) : Packet where
  iifname := ⟨[101, 116, 104, 48], by decide, by decide, by decide⟩
  network := .ipv4 (.replicate 12 0) 0xC6336407#32 0xCB007101#32 []
  protocol := .tcp
  sport := 40000
  dport := dport
  payload := []

theorem ssh_ports_untouched_web : ¬ PreroutingMatches webRule (probe 2222) :=
  (@ssh_ports_untouched "Port 2222" ⟨1, [webRule]⟩ (by decide) (probe 2222) (Or.inr (by decide))).1
    webRule (by decide) rfl

end Portalis
