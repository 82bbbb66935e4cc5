import Portalis.Config

/-!
# What acceptance says

The validator read backwards.  `RuleChecked` lists what the fields of a rule satisfy when
`validateRule` reports nothing; `accepted_iff` splits the acceptance of a configuration into its
schema version, its distinct identifiers, its checked rules and its overlap-free pairs.  Later modules
use these fields and never unfold the validator again.
-/

namespace Portalis

open Text

/-! ### One rule -/

/-- What a rule that passes `validateRule` satisfies, field by field. -/
structure RuleChecked (rule : ForwardRule) (context : ValidationContext) : Prop where
  name_nonempty : trim rule.name.toList ≠ []
  name_short : rule.name.toList.length ≤ 80
  some_protocol : rule.protocols.tcp = true ∨ rule.protocols.udp = true
  listen_start : rule.listenPort.start ≠ 0
  listen_le : rule.listenPort.start ≤ rule.listenPort.stop
  target_start : rule.targetPort.start ≠ 0
  target_le : rule.targetPort.start ≤ rule.targetPort.stop
  same_length : rule.targetPort.isSingle = false → rule.listenPort.len = rule.targetPort.len
  target_family : rule.family.matchesAddress rule.targetIp = true
  listen_family : ∀ a, rule.listenAddress = .address a →
    rule.effectiveFamily.matchesAddress a = true
  source_family : ∀ cidr ∈ rule.sourceCidrs,
    rule.effectiveFamily.matchesAddress cidr.network = true
  snat_family : ∀ a, rule.snat = .fixed a → rule.effectiveFamily.matchesAddress a = true
  interface_nonempty : ∀ name, rule.listenInterface = some name → trim name.toList ≠ []
  ssh_free : rule.allowSshConflict = false → ∀ port ∈ context.sshPorts,
    ¬ rule.listenPort.Mem port

theorem portRangeErrors_eq_nil_iff (id : Uuid) (ports : PortRange) :
    portRangeErrors id ports = [] ↔ ports.start ≠ 0 ∧ ports.start ≤ ports.stop := by
  simp only [portRangeErrors, ite_eq_right_iff, List.cons_ne_nil, imp_false, not_or, gt_iff_lt,
    UInt16.not_lt]
  constructor
  · rintro ⟨h1, -, h3⟩; exact ⟨h1, h3⟩
  · rintro ⟨h1, h2⟩
    refine ⟨h1, fun h => h1 ?_, h2⟩
    -- a range that ends at port 0 starts there
    rw [h, UInt16.le_iff_toNat_le] at h2
    exact UInt16.toNat_inj.mp (Nat.le_zero.mp h2)

theorem listenErrors_eq_nil_iff (rule : ForwardRule) :
    (match rule.listenAddress with
      | .address address =>
        if !rule.effectiveFamily.matchesAddress address then
          [ValidationError.listenFamilyMismatch rule.id rule.effectiveFamily] else []
      | .any => []) = [] ↔
      ∀ a, rule.listenAddress = .address a → rule.effectiveFamily.matchesAddress a = true := by
  cases rule.listenAddress <;> simp

theorem snatErrors_eq_nil_iff (rule : ForwardRule) :
    (match rule.snat with
      | .fixed address =>
        if !rule.effectiveFamily.matchesAddress address then
          [ValidationError.snatFamilyMismatch rule.id rule.effectiveFamily] else []
      | _ => []) = [] ↔
      ∀ a, rule.snat = .fixed a → rule.effectiveFamily.matchesAddress a = true := by
  cases rule.snat <;> simp

theorem interfaceErrors_eq_nil_iff (rule : ForwardRule) :
    (match rule.listenInterface with
      | some name => if (trim name.toList).isEmpty then [ValidationError.emptyInterface rule.id]
        else []
      | none => []) = [] ↔ ∀ name, rule.listenInterface = some name → trim name.toList ≠ [] := by
  cases rule.listenInterface <;> simp

/-- **The rule check, read backwards.** -/
theorem validateRule_eq_nil_iff (rule : ForwardRule) (context : ValidationContext) :
    validateRule rule context = [] ↔ RuleChecked rule context := by
  simp only [validateRule, List.append_eq_nil_iff, portRangeErrors_eq_nil_iff]
  constructor
  · rintro ⟨⟨⟨⟨⟨⟨⟨⟨⟨⟨⟨h1, h2⟩, h3⟩, h4⟩, h5⟩, h6⟩, h7⟩, h8⟩, h9⟩, h10⟩, h11⟩, h12⟩
    exact
      { name_nonempty := by simpa using h1
        name_short := by simpa using h2
        some_protocol := by
          cases ht : rule.protocols.tcp <;> cases hu : rule.protocols.udp <;> simp_all
        listen_start := h4.1
        listen_le := h4.2
        target_start := h5.1
        target_le := h5.2
        same_length := by simpa using h6
        target_family := by simpa using h7
        listen_family := (listenErrors_eq_nil_iff rule).mp h8
        source_family := by simpa [List.flatMap_eq_nil_iff] using h9
        snat_family := (snatErrors_eq_nil_iff rule).mp h10
        interface_nonempty := (interfaceErrors_eq_nil_iff rule).mp h11
        ssh_free := fun hssh port hport => by
          simp only [hssh, Bool.not_false, if_true, List.flatMap_eq_nil_iff] at h12
          simpa [PortRange.Mem] using h12 port hport }
  · intro h
    refine ⟨⟨⟨⟨⟨⟨⟨⟨⟨⟨⟨?_, ?_⟩, ?_⟩, ⟨h.listen_start, h.listen_le⟩⟩, ⟨h.target_start, h.target_le⟩⟩,
      ?_⟩, ?_⟩, (listenErrors_eq_nil_iff rule).mpr h.listen_family⟩, ?_⟩,
      (snatErrors_eq_nil_iff rule).mpr h.snat_family⟩,
      (interfaceErrors_eq_nil_iff rule).mpr h.interface_nonempty⟩, ?_⟩
    · simpa using h.name_nonempty
    · simpa using h.name_short
    · rcases h.some_protocol with hp | hp <;> simp [hp]
    · simpa using h.same_length
    · simpa using h.target_family
    · simpa [List.flatMap_eq_nil_iff] using h.source_family
    · cases hssh : rule.allowSshConflict with
      | true => rfl
      | false =>
        simp only [Bool.not_false, if_true, List.flatMap_eq_nil_iff]
        intro port hport
        simpa [PortRange.Mem] using h.ssh_free hssh port hport

/-! ### Families -/

/-- The concrete family of an address. -/
def AddressFamily.ofAddress (a : IpAddr) : AddressFamily :=
  if a.isIpv4 then .ipv4 else .ipv6

theorem AddressFamily.effective_eq_of_matches {f : AddressFamily} {a : IpAddr}
    (h : f.matchesAddress a = true) : f.effective a = AddressFamily.ofAddress a := by
  cases f <;> cases a <;>
    simp_all [effective, matchesAddress, ofAddress, IpAddr.isIpv4]

theorem AddressFamily.isIpv4_eq_of_matches {a b : IpAddr}
    (h : (AddressFamily.ofAddress b).matchesAddress a = true) : a.isIpv4 = b.isIpv4 := by
  cases a <;> cases b <;> simp_all [matchesAddress, ofAddress, IpAddr.isIpv4]

namespace RuleChecked

variable {rule : ForwardRule} {context : ValidationContext}

/-- The effective family of a checked rule is the family of its target. -/
theorem effectiveFamily_eq (h : RuleChecked rule context) :
    rule.effectiveFamily = AddressFamily.ofAddress rule.targetIp :=
  AddressFamily.effective_eq_of_matches h.target_family

/-- An address of the effective family has the family of the target. -/
theorem isIpv4_eq_of_matches (h : RuleChecked rule context) {a : IpAddr}
    (ha : rule.effectiveFamily.matchesAddress a = true) : a.isIpv4 = rule.targetIp.isIpv4 := by
  rw [h.effectiveFamily_eq] at ha
  exact AddressFamily.isIpv4_eq_of_matches ha

end RuleChecked

/-! ### The rule loop -/

theorem ruleErrors_eq_nil_iff (context : ValidationContext) (rules : List ForwardRule) :
    ∀ seen : SortedSet Uuid, ruleErrors context seen rules = [] ↔
      (∀ rule ∈ rules, rule.id ∉ seen) ∧ (rules.map (·.id)).Nodup ∧
        ∀ rule ∈ rules, RuleChecked rule context := by
  induction rules with
  | nil => intro seen; simp [ruleErrors]
  | cons rule rules ih =>
    intro seen
    simp only [ruleErrors, List.append_eq_nil_iff, ih, validateRule_eq_nil_iff,
      SortedSet.insert_fst, SortedSet.mem_insert, List.mem_cons, forall_eq_or_imp, List.map_cons,
      List.nodup_cons, List.mem_map, not_or]
    constructor
    · rintro ⟨⟨hfresh, hrule⟩, hseen, hnodup, hrules⟩
      refine ⟨⟨by simpa using hfresh, fun r hr => (hseen r hr).2⟩, ⟨?_, hnodup⟩, hrule, hrules⟩
      rintro ⟨r, hr, heq⟩
      exact (hseen r hr).1 heq
    · rintro ⟨⟨hfresh, hseen⟩, ⟨hnew, hnodup⟩, hrule, hrules⟩
      exact ⟨⟨by simpa using hfresh, hrule⟩,
        fun r hr => ⟨fun heq => hnew ⟨r, hr, heq⟩, hseen r hr⟩, hnodup, hrules⟩

/-- The rule check reports no overlap. -/
theorem overlap_notMem_validateRule (rule : ForwardRule) (context : ValidationContext)
    (a b : Uuid) (p : Protocol) : ValidationError.overlap a b p ∉ validateRule rule context := by
  have hports : ∀ ports, ValidationError.overlap a b p ∉ portRangeErrors rule.id ports := by
    intro ports
    unfold portRangeErrors
    split <;> simp
  simp only [validateRule, List.mem_append, not_or]
  refine ⟨⟨⟨⟨⟨⟨⟨⟨⟨⟨⟨?_, ?_⟩, ?_⟩, hports _⟩, hports _⟩, ?_⟩, ?_⟩, ?_⟩, ?_⟩, ?_⟩, ?_⟩, ?_⟩
  · split <;> simp
  · split <;> simp
  · split <;> simp
  · split <;> simp
  · split <;> simp
  · cases rule.listenAddress with
    | any => simp
    | address ip => dsimp only; split <;> simp
  · simp only [List.mem_flatMap, not_exists, not_and]
    intro cidr _
    split <;> simp
  · cases rule.snat with
    | none => simp
    | masquerade => simp
    | fixed ip => dsimp only; split <;> simp
  · cases rule.listenInterface with
    | none => simp
    | some name => dsimp only; split <;> simp
  · split
    · simp only [List.mem_flatMap, not_exists, not_and]
      intro port _
      split <;> simp
    · simp

theorem overlap_notMem_ruleErrors (context : ValidationContext) (rules : List ForwardRule)
    (a b : Uuid) (p : Protocol) :
    ∀ seen : SortedSet Uuid, ValidationError.overlap a b p ∉ ruleErrors context seen rules := by
  induction rules with
  | nil => intro seen; simp [ruleErrors]
  | cons rule rules ih =>
    intro seen
    simp only [ruleErrors, List.mem_append, not_or]
    refine ⟨⟨?_, overlap_notMem_validateRule rule context a b p⟩, ih _⟩
    split <;> simp

/-! ### The overlap loop -/

/-- No pair of rules is reported for any protocol of the earlier one. -/
def OverlapFree (rules : List ForwardRule) : Prop :=
  rules.Pairwise fun first second => ∀ p, first.protocols.has p = true →
    overlapsFor first second p = false

theorem mem_overlapErrorsOf {first : ForwardRule} {later : List ForwardRule}
    {e : ValidationError} :
    e ∈ overlapErrorsOf first later ↔ ∃ second ∈ later, ∃ p, first.protocols.has p = true ∧
      overlapsFor first second p = true ∧ e = .overlap first.id second.id p := by
  simp only [overlapErrorsOf, List.mem_flatMap, Protocols.mem_iter, List.mem_ite_nil_right,
    List.mem_singleton]

theorem overlapErrors_eq_nil_iff (rules : List ForwardRule) :
    overlapErrors rules = [] ↔ OverlapFree rules := by
  induction rules with
  | nil => simp [overlapErrors, OverlapFree]
  | cons first later ih =>
    have hone : overlapErrorsOf first later = [] ↔ ∀ second ∈ later, ∀ p,
        first.protocols.has p = true → overlapsFor first second p = false := by
      simp [overlapErrorsOf, List.flatMap_eq_nil_iff]
    rw [overlapErrors, List.append_eq_nil_iff, ih, hone, OverlapFree, OverlapFree,
      List.pairwise_cons]

/-- **Which overlaps are reported.**  Those of an earlier and a later rule, for a protocol of the
earlier one that passes the pair test. -/
theorem mem_overlapErrors {rules : List ForwardRule} {e : ValidationError} :
    e ∈ overlapErrors rules ↔ ∃ first second, [first, second].Sublist rules ∧
      ∃ p, first.protocols.has p = true ∧ overlapsFor first second p = true ∧
        e = .overlap first.id second.id p := by
  induction rules with
  | nil => simp [overlapErrors]
  | cons rule rules ih =>
    rw [overlapErrors, List.mem_append, mem_overlapErrorsOf, ih]
    constructor
    · rintro (⟨second, hs, hrest⟩ | ⟨first, second, hsub, hrest⟩)
      · exact ⟨rule, second, (List.singleton_sublist.mpr hs).cons_cons rule, hrest⟩
      · exact ⟨first, second, hsub.cons rule, hrest⟩
    · rintro ⟨first, second, hsub, hrest⟩
      cases hsub with
      | cons _ hsub => exact Or.inr ⟨first, second, hsub, hrest⟩
      | cons_cons _ hsub => exact Or.inl ⟨second, List.singleton_sublist.mp hsub, hrest⟩

/-! ### The whole configuration -/

theorem Config.validate_eq_ok_iff (self : Config) (context : ValidationContext) :
    self.validate context = .ok () ↔ self.errors context = [] := by
  simp only [Config.validate, List.isEmpty_iff]
  split <;> simp_all

/-- The errors a rejected configuration is rejected with. -/
theorem Config.validate_eq_error_iff (self : Config) (context : ValidationContext)
    (es : List ValidationError) :
    self.validate context = .error es ↔ self.errors context = es ∧ es ≠ [] := by
  simp only [Config.validate, List.isEmpty_iff]
  split
  · rename_i h
    constructor
    · intro h'; cases h'
    · rintro ⟨rfl, hne⟩; exact absurd h hne
  · rename_i h
    constructor
    · intro h'; cases h'; exact ⟨rfl, h⟩
    · rintro ⟨rfl, -⟩; rfl

/-- What acceptance gives, component by component. -/
structure Accepted (config : Config) (context : ValidationContext) : Prop where
  schema : config.schemaVersion = schemaVersion
  distinct : (config.rules.map (·.id)).Nodup
  checked : ∀ rule ∈ config.rules, RuleChecked rule context
  overlapFree : OverlapFree config.activeRules

/-- **Acceptance, read backwards.** -/
theorem accepted_iff (config : Config) (context : ValidationContext) :
    config.validate context = .ok () ↔ Accepted config context := by
  have hschema : (if config.schemaVersion ≠ schemaVersion then
      [ValidationError.schemaVersion config.schemaVersion] else []) = [] ↔
      config.schemaVersion = schemaVersion := by
    split <;> simp_all
  rw [Config.validate_eq_ok_iff, Config.errors, List.append_eq_nil_iff, List.append_eq_nil_iff,
    hschema, ruleErrors_eq_nil_iff, overlapErrors_eq_nil_iff]
  constructor
  · rintro ⟨⟨h1, -, h2, h3⟩, h4⟩
    exact ⟨h1, h2, h3, h4⟩
  · intro h
    exact ⟨⟨h.schema, fun rule _ => SortedSet.not_mem_empty rule.id, h.distinct, h.checked⟩,
      h.overlapFree⟩

/-- An overlap error is one of the overlap pass. -/
theorem overlap_mem_errors_iff (config : Config) (context : ValidationContext) (a b : Uuid)
    (p : Protocol) :
    ValidationError.overlap a b p ∈ config.errors context ↔
      ValidationError.overlap a b p ∈ overlapErrors config.activeRules := by
  have hschema : ValidationError.overlap a b p ∉ (if config.schemaVersion ≠ schemaVersion then
      [ValidationError.schemaVersion config.schemaVersion] else []) := by
    split <;> simp
  simp only [Config.errors, List.mem_append]
  constructor
  · rintro ((h | h) | h)
    · exact absurd h hschema
    · exact absurd h (overlap_notMem_ruleErrors _ _ _ _ _ _)
    · exact h
  · exact Or.inr

namespace Accepted

variable {config : Config} {context : ValidationContext}

theorem of_validate (h : config.validate context = .ok ()) : Accepted config context :=
  (accepted_iff config context).mp h

theorem checked_of_active (h : Accepted config context) {rule : ForwardRule}
    (hr : rule ∈ config.activeRules) : RuleChecked rule context :=
  h.checked rule (Config.mem_activeRules.mp hr).1

/-- Rules of an accepted configuration are told apart by their identifiers. -/
theorem eq_of_id_eq (h : Accepted config context) {r s : ForwardRule}
    (hr : r ∈ config.activeRules) (hs : s ∈ config.activeRules) (hid : r.id = s.id) : r = s :=
  List.inj_on_of_nodup_map h.distinct (Config.mem_activeRules.mp hr).1
    (Config.mem_activeRules.mp hs).1 hid

end Accepted

end Portalis
