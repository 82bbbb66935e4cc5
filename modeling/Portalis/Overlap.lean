import Portalis.Prerouting

/-!
# Overlap

The pair test of the validator against what the kernel does.  Two rules overlap for a protocol when
some packet is accepted by both; `overlapsFor` tests family, interface, address, ports and sources
separately.

* `overlapsFor_of_accepts`: a packet accepted by both rules makes the test report them.
* `exists_packet_of_overlapsFor`: a reported pair has such a packet, if its interfaces can exist.
* `Accepted.eq_of_accepts`: in an accepted configuration a packet is accepted by one rule at most.
* `overlap_reported_iff`: the same for the compiled rules of two enabled rules of a configuration.
-/

namespace Portalis

open Octets RuleMachine Text

/-! ### The five tests, one by one -/

theorem RuleChecked.family_iff {rule : ForwardRule} {context : ValidationContext}
    (h : RuleChecked rule context) (a : IpAddr) :
    rule.effectiveFamily.matchesAddress a = true ↔ a.isIpv4 = rule.targetIp.isIpv4 := by
  rw [h.effectiveFamily_eq, AddressFamily.matches_ofAddress_iff]

theorem AddressFamily.ofAddress_eq_iff {a b : IpAddr} :
    AddressFamily.ofAddress a = AddressFamily.ofAddress b ↔ a.isIpv4 = b.isIpv4 := by
  cases a <;> cases b <;> simp [ofAddress, IpAddr.isIpv4]

/-- `addressesOverlap` as a conjunction. -/
theorem addressesOverlap_iff {first second : ForwardRule} :
    addressesOverlap first second = true ↔
      first.effectiveFamily = second.effectiveFamily ∧
        (∀ s t, first.listenInterface = some s → second.listenInterface = some t → s = t) ∧
        ∀ a b, first.listenAddress = .address a → second.listenAddress = .address b → a = b := by
  unfold addressesOverlap
  cases first.listenInterface <;> cases second.listenInterface <;>
    cases first.listenAddress <;> cases second.listenAddress <;> simp

/-- The source test is the existence of a shared source address. -/
theorem exists_source_iff (first second : List IpNet) :
    sourceRangesOverlap first second = true ↔
      first = [] ∨ second = [] ∨ ∃ source, (∃ cidr ∈ first, cidr.contains source = true) ∧
        ∃ cidr ∈ second, cidr.contains source = true := by
  simp only [sourceRangesOverlap, Bool.or_eq_true, List.isEmpty_iff, List.any_eq_true, or_assoc,
    ← IpNet.exists_contains_iff]
  refine or_congr_right (or_congr_right ⟨?_, ?_⟩)
  · rintro ⟨left, hl, right, hr, source, h1, h2⟩
    exact ⟨source, ⟨left, hl, h1⟩, right, hr, h2⟩
  · rintro ⟨source, ⟨left, hl, h1⟩, right, hr, h2⟩
    exact ⟨left, hl, right, hr, source, h1, h2⟩

theorem overlapsFor_iff {first second : ForwardRule} {p : Protocol} :
    overlapsFor first second p = true ↔
      second.protocols.has p = true ∧ addressesOverlap first second = true ∧
        first.listenPort.overlaps second.listenPort = true ∧
        sourceRangesOverlap first.sourceCidrs second.sourceCidrs = true := by
  simp only [overlapsFor, Bool.and_eq_true, List.any_eq_true, Protocols.mem_iter, beq_iff_eq,
    exists_eq_right, and_assoc]

/-! ### A shared packet is reported -/

/-- **Soundness of the pair test.** -/
theorem overlapsFor_of_accepts {first second : ForwardRule} {context : ValidationContext}
    (hf : RuleChecked first context) (hs : RuleChecked second context) {packet : Packet}
    (ha : first.Accepts packet) (hb : second.Accepts packet) :
    overlapsFor first second packet.protocol = true := by
  have hfamily : first.effectiveFamily = second.effectiveFamily := by
    rw [hf.effectiveFamily_eq, hs.effectiveFamily_eq, AddressFamily.ofAddress_eq_iff,
      ← (hf.family_iff _).mp ha.family, (hs.family_iff _).mp hb.family]
  have hports : first.listenPort.overlaps second.listenPort = true :=
    (PortRange.exists_mem_iff_overlaps hf.listen_le hs.listen_le).mp
      ⟨packet.dport, ha.port, hb.port⟩
  refine overlapsFor_iff.mpr ⟨hb.protocol, addressesOverlap_iff.mpr ⟨hfamily, ?_, ?_⟩, hports, ?_⟩
  · intro s t hs ht
    exact utf8_inj.mp ((ha.listenInterface s hs).symm.trans (hb.listenInterface t ht))
  · intro a b hla hlb
    have h1 := ha.listenAddress
    have h2 := hb.listenAddress
    rw [hla] at h1
    rw [hlb] at h2
    exact h1.symm.trans h2
  · rw [exists_source_iff]
    rcases ha.source with h | h1
    · exact Or.inl h
    · rcases hb.source with h | h2
      · exact Or.inr (Or.inl h)
      · exact Or.inr (Or.inr ⟨packet.saddr, h1, h2⟩)

/-- No packet is accepted by both rules. -/
def ForwardRule.Separate (first second : ForwardRule) : Prop :=
  ∀ packet, first.Accepts packet → ¬ second.Accepts packet

instance : Std.Symm ForwardRule.Separate := ⟨fun _ _ h packet hb ha => h packet ha hb⟩

/-- **One rule for a packet.**  Enabled rules of an accepted configuration never share a packet. -/
theorem Accepted.eq_of_accepts {config : Config} {context : ValidationContext}
    (h : Accepted config context) {first second : ForwardRule} (hf : first ∈ config.activeRules)
    (hs : second ∈ config.activeRules) {packet : Packet} (ha : first.Accepts packet)
    (hb : second.Accepts packet) : first = second := by
  have hseparate : config.activeRules.Pairwise ForwardRule.Separate := by
    refine List.Pairwise.imp_of_mem ?_ h.overlapFree
    intro a b hma hmb hfree packet ha hb
    have hoverlap := overlapsFor_of_accepts (h.checked_of_active hma) (h.checked_of_active hmb) ha hb
    rw [hfree packet.protocol ha.protocol] at hoverlap
    cases hoverlap
  by_contra hne
  exact hseparate.forall hf hs hne packet ha hb

/-! ### A reported pair shares a packet -/

theorem NetworkHeader.exists_of_family {s d : IpAddr} (h : s.isIpv4 = d.isIpv4) :
    ∃ header : NetworkHeader, header.saddr = s ∧ header.daddr = d := by
  cases s with
  | v4 s =>
    cases d with
    | v4 d => exact ⟨.ipv4 (.replicate 12 0) s d [], rfl, rfl⟩
    | v6 d => simp [IpAddr.isIpv4] at h
  | v6 s =>
    cases d with
    | v4 d => simp [IpAddr.isIpv4] at h
    | v6 d => exact ⟨.ipv6 (.replicate 8 0) s d [], rfl, rfl⟩

/-- A listen interface that can exist: its name fits the kernel's buffer and holds no NUL. -/
def InterfaceFits (interface : Option String) : Prop :=
  ∀ name, interface = some name → '\x00' ∉ name.toList ∧ (utf8 name).length < ifnamsiz

/-- An interface both rules admit. -/
theorem exists_interface {first second : ForwardRule} {context : ValidationContext}
    (hf : RuleChecked first context) (hs : RuleChecked second context)
    (hfit : InterfaceFits first.listenInterface) (hfit' : InterfaceFits second.listenInterface)
    (hsame : ∀ s t, first.listenInterface = some s → second.listenInterface = some t → s = t) :
    ∃ name, InterfaceAdmits first.listenInterface name ∧
      InterfaceAdmits second.listenInterface name := by
  have hname : ∀ s : String, trim s.toList ≠ [] → '\x00' ∉ s.toList →
      (utf8 s).length < ifnamsiz → ∃ name : InterfaceName, name.octets = utf8 s := by
    intro s htrim hnul hlen
    have hne : utf8 s ≠ [] := fun h => htrim (by
      have hs : s = "" := utf8_inj.mp (h.trans rfl)
      rw [hs]
      rfl)
    exact ⟨⟨utf8 s, hne, hlen, zero_notMem_utf8 hnul⟩, rfl⟩
  cases hif : first.listenInterface with
  | some s =>
    obtain ⟨name, hoctets⟩ :=
      hname s (hf.interface_nonempty s hif) (hfit s hif).1 (hfit s hif).2
    refine ⟨name, fun t ht => ?_, fun t ht => ?_⟩
    · rw [hoctets, Option.some.inj ht]
    · rw [hoctets, hsame s t hif ht]
  | none =>
    cases his : second.listenInterface with
    | some t =>
      obtain ⟨name, hoctets⟩ :=
        hname t (hs.interface_nonempty t his) (hfit' t his).1 (hfit' t his).2
      refine ⟨name, fun s hs => absurd hs (by simp), fun s hs => ?_⟩
      rw [hoctets, Option.some.inj hs]
    | none =>
      exact ⟨⟨[108, 111], by decide, by decide, by decide⟩, fun s hs => absurd hs (by simp),
        fun s hs => absurd hs (by simp)⟩

/-- A destination both rules admit, of the family of the targets. -/
theorem exists_destination {first second : ForwardRule} {context : ValidationContext}
    (hf : RuleChecked first context) (hs : RuleChecked second context)
    (hfamily : first.targetIp.isIpv4 = second.targetIp.isIpv4)
    (hsame : ∀ a b, first.listenAddress = .address a → second.listenAddress = .address b → a = b) :
    ∃ d, d.isIpv4 = first.targetIp.isIpv4 ∧ first.listenAddress.Admits d ∧
      second.listenAddress.Admits d := by
  cases hla : first.listenAddress with
  | address a =>
    refine ⟨a, (hf.family_iff a).mp (hf.listen_family a hla), rfl, ?_⟩
    cases hlb : second.listenAddress with
    | any => trivial
    | address b => exact hsame a b hla hlb
  | any =>
    cases hlb : second.listenAddress with
    | any => exact ⟨first.targetIp, rfl, trivial, trivial⟩
    | address b =>
      exact ⟨b, ((hs.family_iff b).mp (hs.listen_family b hlb)).trans hfamily.symm, trivial, rfl⟩

/-- A source both rules admit, of the family of the targets. -/
theorem exists_source {first second : ForwardRule} {context : ValidationContext}
    (hf : RuleChecked first context) (hs : RuleChecked second context)
    (hfamily : first.targetIp.isIpv4 = second.targetIp.isIpv4)
    (hsource : sourceRangesOverlap first.sourceCidrs second.sourceCidrs = true) :
    ∃ s, s.isIpv4 = first.targetIp.isIpv4 ∧ SourcesAdmit first.sourceCidrs s ∧
      SourcesAdmit second.sourceCidrs s := by
  -- the network address of a block is in the block, and of the family of its rule
  have hpick : ∀ {rule : ForwardRule}, RuleChecked rule context →
      ∃ s, s.isIpv4 = rule.targetIp.isIpv4 ∧ SourcesAdmit rule.sourceCidrs s := by
    intro rule hr
    cases hc : rule.sourceCidrs with
    | nil => exact ⟨rule.targetIp, rfl, Or.inl rfl⟩
    | cons cidr cidrs =>
      have hmem : cidr ∈ rule.sourceCidrs := hc ▸ List.mem_cons_self
      exact ⟨cidr.network, (hr.family_iff _).mp (hr.source_family cidr hmem),
        Or.inr ⟨cidr, List.mem_cons_self, cidr.contains_network⟩⟩
  rcases (exists_source_iff _ _).mp hsource with h | h | ⟨s, ⟨cidr, hc, h1⟩, h2⟩
  · obtain ⟨s, hs', ha⟩ := hpick hs
    exact ⟨s, hs'.trans hfamily.symm, Or.inl h, ha⟩
  · obtain ⟨s, hs', ha⟩ := hpick hf
    exact ⟨s, hs', ha, Or.inl h⟩
  · refine ⟨s, ?_, Or.inr ⟨cidr, hc, h1⟩, Or.inr h2⟩
    rw [IpNet.isIpv4_of_contains h1]
    exact (hf.family_iff _).mp (hf.source_family cidr hc)

/-- **Completeness of the pair test**, for interfaces that can exist. -/
theorem exists_packet_of_overlapsFor {first second : ForwardRule} {context : ValidationContext}
    (hf : RuleChecked first context) (hs : RuleChecked second context)
    (hfit : InterfaceFits first.listenInterface) (hfit' : InterfaceFits second.listenInterface)
    {p : Protocol} (hp : first.protocols.has p = true)
    (hoverlap : overlapsFor first second p = true) :
    ∃ packet : Packet, packet.protocol = p ∧ first.Accepts packet ∧ second.Accepts packet := by
  obtain ⟨hp', haddr, hports, hsources⟩ := overlapsFor_iff.mp hoverlap
  obtain ⟨hfamily, hinterfaces, haddresses⟩ := addressesOverlap_iff.mp haddr
  have hsame : first.targetIp.isIpv4 = second.targetIp.isIpv4 := by
    rwa [hf.effectiveFamily_eq, hs.effectiveFamily_eq, AddressFamily.ofAddress_eq_iff] at hfamily
  obtain ⟨name, hn, hn'⟩ := exists_interface hf hs hfit hfit' hinterfaces
  obtain ⟨d, hd, hda, hdb⟩ := exists_destination hf hs hsame haddresses
  obtain ⟨s, hsrc, hsa, hsb⟩ := exists_source hf hs hsame hsources
  obtain ⟨port, hport, hport'⟩ :=
    (PortRange.exists_mem_iff_overlaps hf.listen_le hs.listen_le).mpr hports
  obtain ⟨header, rfl, rfl⟩ := NetworkHeader.exists_of_family (hsrc.trans hd.symm)
  refine ⟨⟨name, header, p, 0, port, []⟩, rfl, ?_, ?_⟩
  · exact ⟨(hf.family_iff _).mpr hd, hp, hda, hn, hsa, hport⟩
  · exact ⟨(hs.family_iff _).mpr (hd.trans hsame), hp', hdb, hn', hsb, hport'⟩

/-! ### The compiled rules of a rule -/

/-- Some prerouting rule compiled from the plan of the rule translates the packet. -/
def PreroutingMatches (rule : ForwardRule) (packet : Packet) : Prop :=
  ∃ p, rule.protocols.has p = true ∧ ∃ rules,
    addPreroutingRules preroutingChain (rule.planFor p) = .ok rules ∧
      ∃ kernelRule ∈ rules,
        (runRule (view (.first packet)) perform kernelRule.exprs).verdict? ≠ none

/-- **A rule's compiled prerouting rules match the packets the rule accepts.** -/
theorem preroutingMatches_iff {rule : ForwardRule} {context : ValidationContext}
    (h : RuleChecked rule context) (packet : Packet) :
    PreroutingMatches rule packet ↔ rule.Accepts packet := by
  rw [ForwardRule.accepts_iff]
  constructor
  · rintro ⟨p, hp, rules, hrules, kernelRule, hmem, hv⟩
    have hplan := h.planFor p
    have hiface : InterfaceOk (rule.planFor p).listenInterface := by
      by_contra hbad
      rw [show preroutingChain = prerouting.name from rfl,
        addPreroutingRules_error hplan hbad] at hrules
      cases hrules
    rw [show preroutingChain = prerouting.name from rfl,
      addPreroutingRules_eq_ok hplan hiface] at hrules
    cases hrules
    obtain ⟨v, hv⟩ := Option.ne_none_iff_exists'.mp hv
    exact ⟨p, hp, ((exists_prerouting_iff hplan hiface _ v).mp ⟨kernelRule, hmem, hv⟩).1⟩
  · rintro ⟨p, hp, ha⟩
    have hplan := h.planFor p
    -- the interface of the packet has no NUL, so neither has the name it is compared with
    have hiface : InterfaceOk (rule.planFor p).listenInterface := by
      intro name hname hnul
      have hoctets := ha.listenInterface name hname
      exact packet.iifname.noNul (hoctets ▸ zero_mem_utf8 hnul)
    obtain ⟨kernelRule, hmem, hv⟩ := (exists_prerouting_iff hplan hiface (.first packet)
      ((rule.planFor p).translation packet)).mpr ⟨ha, rfl⟩
    exact ⟨p, hp, _, addPreroutingRules_eq_ok hplan hiface, kernelRule, hmem, by rw [hv]; simp⟩

/-! ### The report and the compiled rules -/

/-- `validate` fails, and `e` is among the errors it reports. -/
def Config.Reports (self : Config) (context : ValidationContext) (e : ValidationError) : Prop :=
  ∃ es, self.validate context = .error es ∧ e ∈ es

theorem Config.reports_iff {self : Config} {context : ValidationContext} {e : ValidationError} :
    self.Reports context e ↔ e ∈ self.errors context := by
  constructor
  · rintro ⟨es, hes, he⟩
    rwa [((self.validate_eq_error_iff context es).mp hes).1]
  · intro he
    exact ⟨_, (self.validate_eq_error_iff context _).mpr ⟨rfl, List.ne_nil_of_mem he⟩, he⟩

/-- Which overlaps are reported, when the identifiers are distinct: those of the pair test. -/
theorem reports_overlap_iff {config : Config} {context : ValidationContext}
    (hdistinct : (config.rules.map (·.id)).Nodup) {first second : ForwardRule}
    (hpair : [first, second].Sublist config.rules) (hf : first.enabled = true)
    (hs : second.enabled = true) (p : Protocol) :
    config.Reports context (.overlap first.id second.id p) ↔
      first.protocols.has p = true ∧ overlapsFor first second p = true := by
  have hactive : [first, second].Sublist config.activeRules := by
    have hfilter := hpair.filter (·.enabled)
    rwa [List.filter_cons_of_pos hf, List.filter_cons_of_pos hs, List.filter_nil] at hfilter
  rw [Config.reports_iff, overlap_mem_errors_iff, mem_overlapErrors]
  constructor
  · rintro ⟨a, b, hab, q, hq, hoverlap, heq⟩
    obtain ⟨hida, hidb, rfl⟩ := ValidationError.overlap.inj heq
    have hmem : ∀ {r : ForwardRule}, r ∈ config.activeRules → r ∈ config.rules :=
      fun hr => (Config.mem_activeRules.mp hr).1
    have ha : first = a := List.inj_on_of_nodup_map hdistinct
      (hmem (hactive.subset List.mem_cons_self)) (hmem (hab.subset List.mem_cons_self)) hida
    have hb : second = b := List.inj_on_of_nodup_map hdistinct
      (hmem (hactive.subset (List.mem_cons_of_mem _ List.mem_cons_self)))
      (hmem (hab.subset (List.mem_cons_of_mem _ List.mem_cons_self))) hidb
    subst ha hb
    exact ⟨hq, hoverlap⟩
  · rintro ⟨hp, hoverlap⟩
    exact ⟨first, second, hactive, p, hp, hoverlap, rfl⟩

/-- **An overlap is reported iff the compiled rules share a packet.**  A shared packet is always
reported; a reported pair shares a packet when its listen interfaces, where they are set, are names an
interface can have. -/
theorem overlap_reported_iff {config : Config} {context : ValidationContext}
    (hdistinct : (config.rules.map (·.id)).Nodup)
    (hrules : ∀ rule ∈ config.rules, validateRule rule context = []) {first second : ForwardRule}
    (hpair : [first, second].Sublist config.rules) (hf : first.enabled = true)
    (hs : second.enabled = true) (p : Protocol) :
    ((∃ packet : Packet, packet.protocol = p ∧ PreroutingMatches first packet ∧
        PreroutingMatches second packet) →
      config.Reports context (.overlap first.id second.id p)) ∧
    (InterfaceFits first.listenInterface → InterfaceFits second.listenInterface →
      config.Reports context (.overlap first.id second.id p) →
      ∃ packet : Packet, packet.protocol = p ∧ PreroutingMatches first packet ∧
        PreroutingMatches second packet) := by
  have hcf : RuleChecked first context := (validateRule_eq_nil_iff _ _).mp
    (hrules first (hpair.subset List.mem_cons_self))
  have hcs : RuleChecked second context := (validateRule_eq_nil_iff _ _).mp
    (hrules second (hpair.subset (List.mem_cons_of_mem _ List.mem_cons_self)))
  simp only [preroutingMatches_iff hcf, preroutingMatches_iff hcs,
    reports_overlap_iff hdistinct hpair hf hs p]
  constructor
  · rintro ⟨packet, rfl, ha, hb⟩
    exact ⟨ha.protocol, overlapsFor_of_accepts hcf hcs ha hb⟩
  · rintro hfit hfit' ⟨hp, hoverlap⟩
    exact exists_packet_of_overlapsFor hcf hcs hfit hfit' hp hoverlap

/-- A TCP rule that sends port 8080 of any address to port 80 of 192.0.2.10. -/
def webRule : ForwardRule where
  id := ⟨1⟩
  name := "web"
  comment := ""
  enabled := true
  order := 0
  allowSshConflict := false
  family := .auto
  listenAddress := .any
  listenInterface := none
  sourceCidrs := []
  protocols := ⟨true, false⟩
  listenPort := ⟨8080, 8080⟩
  targetIp := .v4 0xC000020A#32
  targetPort := ⟨80, 80⟩
  snat := .none

/-- The same rule under another identifier, limited to one source block. -/
def officeRule : ForwardRule :=
  { webRule with id := ⟨2⟩, name := "office", sourceCidrs := [.v4 ⟨0x0A000000#32, 8, by decide⟩] }

theorem web_and_office_share_packet :
    ∃ packet : Packet, packet.protocol = .tcp ∧ PreroutingMatches webRule packet ∧
      PreroutingMatches officeRule packet :=
  (@overlap_reported_iff ⟨1, [webRule, officeRule]⟩ .default (by decide) (by decide) webRule
    officeRule (List.Sublist.refl _) rfl rfl .tcp).2 (fun _ h => nomatch h) (fun _ h => nomatch h)
    (Config.reports_iff.mpr (by decide))

/-- A rule on an interface whose name is one octet too long to exist. -/
def longNameRule : ForwardRule :=
  { webRule with listenInterface := some "portalis-uplink0" }

/-- **A reported pair without a packet.**  Two rules on an interface that cannot exist are reported,
and no packet enters through it. -/
theorem overlap_of_impossible_interface :
    ((Config.mk 1 [longNameRule, { longNameRule with id := ⟨2⟩ }]).rules.map (·.id)).Nodup ∧
      (∀ rule ∈ (Config.mk 1 [longNameRule, { longNameRule with id := ⟨2⟩ }]).rules,
        validateRule rule .default = []) ∧
      (Config.mk 1 [longNameRule, { longNameRule with id := ⟨2⟩ }]).Reports .default
        (.overlap ⟨1⟩ ⟨2⟩ .tcp) ∧
      ¬ ∃ packet : Packet, packet.protocol = .tcp ∧ PreroutingMatches longNameRule packet ∧
        PreroutingMatches { longNameRule with id := ⟨2⟩ } packet := by
  refine ⟨by decide, by decide, Config.reports_iff.mpr (by decide), ?_⟩
  rintro ⟨packet, -, hmatch, -⟩
  have hchecked : RuleChecked longNameRule .default :=
    (validateRule_eq_nil_iff _ _).mp (by decide)
  have hname := ((preroutingMatches_iff hchecked packet).mp hmatch).listenInterface _ rfl
  have hlen : (utf8 "portalis-uplink0").length = ifnamsiz := by decide
  have hshort := packet.iifname.short
  rw [hname, hlen] at hshort
  exact Nat.lt_irrefl _ hshort

end Portalis
