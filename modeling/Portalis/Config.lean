import Portalis.Address
import Portalis.SortedSet

/-!
# The configuration contract

`portalis-core`: the configuration a user writes, the validator that admits it, and the plan the
kernel compiler starts from.  `Config.validate` collects every error in the order the source pushes
them; a configuration is accepted when the list is empty.

* `exists_mem_iff_overlaps`: the interval test is the existence of a shared port.
* `mem_plan`: the plan holds one entry per enabled rule and enabled protocol, and nothing else.
-/

namespace Portalis

open Text

def schemaVersion : UInt32 := 1

def preroutingChain : String := "portalis_prerouting"

def postroutingChain : String := "portalis_postrouting"

def forwardChain : String := "portalis_forward"

/-! ### The data model -/

inductive AddressFamily
  | auto
  | ipv4
  | ipv6
  deriving DecidableEq

namespace AddressFamily

/-- `AddressFamily::matches`. -/
def matchesAddress : AddressFamily → IpAddr → Bool
  | auto, _ => true
  | ipv4, .v4 _ => true
  | ipv6, .v6 _ => true
  | _, _ => false

def effective (self : AddressFamily) (address : IpAddr) : AddressFamily :=
  match self with
  | auto => if address.isIpv4 then ipv4 else ipv6
  | family => family

end AddressFamily

inductive ListenAddress
  | any
  | address (ip : IpAddr)
  deriving DecidableEq

inductive Protocol
  | tcp
  | udp
  deriving DecidableEq

/-- The derived order of `Protocol`: TCP before UDP. -/
def Protocol.rank : Protocol → ℕ
  | .tcp => 0
  | .udp => 1

structure Protocols where
  tcp : Bool
  udp : Bool
  deriving DecidableEq

/-- `Protocols::iter`. -/
def Protocols.iter (self : Protocols) : List Protocol :=
  (if self.tcp then [.tcp] else []) ++ (if self.udp then [.udp] else [])

def Protocols.has (self : Protocols) : Protocol → Bool
  | .tcp => self.tcp
  | .udp => self.udp

@[simp] theorem Protocols.mem_iter {self : Protocols} {p : Protocol} :
    p ∈ self.iter ↔ self.has p = true := by
  obtain ⟨t, u⟩ := self
  cases p <;> cases t <;> cases u <;> decide

theorem Protocols.iter_nodup (self : Protocols) : self.iter.Nodup := by
  obtain ⟨t, u⟩ := self
  cases t <;> cases u <;> decide

/-- An inclusive port range; `stop` is the source's `end`. -/
structure PortRange where
  start : UInt16
  stop : UInt16
  deriving DecidableEq

namespace PortRange

def isSingle (self : PortRange) : Bool := self.start == self.stop

def len (self : PortRange) : UInt32 :=
  if self.start > self.stop then 0
  else self.stop.toUInt32 - self.start.toUInt32 + 1

def overlaps (self other : PortRange) : Bool :=
  self.start ≤ other.stop && other.start ≤ self.stop

/-- The ports of the range. -/
def Mem (self : PortRange) (port : UInt16) : Prop := self.start ≤ port ∧ port ≤ self.stop

instance (self : PortRange) (port : UInt16) : Decidable (self.Mem port) :=
  inferInstanceAs (Decidable (_ ∧ _))

theorem toNat_len (self : PortRange) :
    self.len.toNat = if self.start > self.stop then 0
      else self.stop.toNat - self.start.toNat + 1 := by
  unfold len
  split
  · rfl
  · rename_i h
    have hle : self.start.toNat ≤ self.stop.toNat := by
      rw [UInt16.not_lt] at h
      exact UInt16.le_iff_toNat_le.mp h
    have hstop : self.stop.toNat < 65536 := self.stop.toNat_lt
    have hsub : (self.stop.toUInt32 - self.start.toUInt32).toNat =
        self.stop.toNat - self.start.toNat := by
      rw [UInt32.toNat_sub_of_le _ _ (by rw [UInt32.le_iff_toNat_le]; simpa using hle)]
      simp
    rw [UInt32.toNat_add, hsub]
    simp only [UInt32.reduceToNat]
    omega

/-- Two nonempty ranges share a port iff `overlaps` says so. -/
theorem exists_mem_iff_overlaps {r s : PortRange} (hr : r.start ≤ r.stop) (hs : s.start ≤ s.stop) :
    (∃ port, r.Mem port ∧ s.Mem port) ↔ r.overlaps s = true := by
  simp only [Mem, overlaps, Bool.and_eq_true, decide_eq_true_eq, UInt16.le_iff_toNat_le] at *
  constructor
  · rintro ⟨port, ⟨h1, h2⟩, h3, h4⟩
    omega
  · rintro ⟨h1, h2⟩
    rcases Nat.le_total r.start.toNat s.start.toNat with h | h
    · exact ⟨s.start, ⟨h, h2⟩, le_refl _, hs⟩
    · exact ⟨r.start, ⟨le_refl _, hr⟩, h, h1⟩

end PortRange

inductive SnatMode
  | none
  | masquerade
  | fixed (address : IpAddr)
  deriving DecidableEq

structure ForwardRule where
  id : Uuid
  name : String
  comment : String
  enabled : Bool
  order : UInt32
  allowSshConflict : Bool
  family : AddressFamily
  listenAddress : ListenAddress
  listenInterface : Option String
  sourceCidrs : List IpNet
  protocols : Protocols
  listenPort : PortRange
  targetIp : IpAddr
  targetPort : PortRange
  snat : SnatMode
  deriving DecidableEq

structure Config where
  schemaVersion : UInt32
  rules : List ForwardRule
  deriving DecidableEq

/-- `Config::default`: the current schema and no rules. -/
def Config.default : Config := ⟨Portalis.schemaVersion, []⟩

structure ValidationContext where
  sshPorts : SortedSet UInt16

/-- `ValidationContext::default`: the standard SSH port. -/
def ValidationContext.default : ValidationContext := ⟨SortedSet.singleton 22⟩

inductive ValidationError
  | schemaVersion (version : UInt32)
  | emptyName (id : Uuid)
  | nameTooLong (id : Uuid)
  | noProtocol (id : Uuid)
  | invalidPortRange (id : Uuid) (start stop : UInt16)
  | rangeLengthMismatch (id : Uuid)
  | targetFamilyMismatch (id : Uuid) (address : IpAddr) (family : AddressFamily)
  | listenFamilyMismatch (id : Uuid) (family : AddressFamily)
  | sourceFamilyMismatch (id : Uuid) (cidr : IpNet) (family : AddressFamily)
  | snatFamilyMismatch (id : Uuid) (family : AddressFamily)
  | emptyInterface (id : Uuid)
  | sshPortConflict (id : Uuid) (port : UInt16)
  | overlap (first second : Uuid) (protocol : Protocol)
  | duplicateId (id : Uuid)
  deriving DecidableEq

/-! ### The validator -/

/-- The family of the rule once `auto` has followed the target address. -/
def ForwardRule.effectiveFamily (rule : ForwardRule) : AddressFamily :=
  rule.family.effective rule.targetIp

/-- The port range check, made once for the listen range and once for the target range. -/
def portRangeErrors (id : Uuid) (ports : PortRange) : List ValidationError :=
  if ports.start = 0 ∨ ports.stop = 0 ∨ ports.start > ports.stop then
    [.invalidPortRange id ports.start ports.stop]
  else []

def validateRule (rule : ForwardRule) (context : ValidationContext) : List ValidationError :=
  let family := rule.effectiveFamily
  (if (trim rule.name.toList).isEmpty then [.emptyName rule.id] else []) ++
  (if rule.name.toList.length > 80 then [.nameTooLong rule.id] else []) ++
  (if !rule.protocols.tcp && !rule.protocols.udp then [.noProtocol rule.id] else []) ++
  portRangeErrors rule.id rule.listenPort ++
  portRangeErrors rule.id rule.targetPort ++
  (if !rule.targetPort.isSingle && rule.listenPort.len != rule.targetPort.len then
    [.rangeLengthMismatch rule.id] else []) ++
  (if !rule.family.matchesAddress rule.targetIp then
    [.targetFamilyMismatch rule.id rule.targetIp rule.family] else []) ++
  (match rule.listenAddress with
    | .address address =>
      if !family.matchesAddress address then [.listenFamilyMismatch rule.id family] else []
    | .any => []) ++
  rule.sourceCidrs.flatMap (fun cidr =>
    if !family.matchesAddress cidr.network then [.sourceFamilyMismatch rule.id cidr family]
    else []) ++
  (match rule.snat with
    | .fixed address =>
      if !family.matchesAddress address then [.snatFamilyMismatch rule.id family] else []
    | _ => []) ++
  (match rule.listenInterface with
    | some name => if (trim name.toList).isEmpty then [.emptyInterface rule.id] else []
    | none => []) ++
  (if !rule.allowSshConflict then
    context.sshPorts.toList.flatMap (fun port =>
      if rule.listenPort.start ≤ port ∧ port ≤ rule.listenPort.stop then
        [.sshPortConflict rule.id port] else [])
  else [])

def addressesOverlap (first second : ForwardRule) : Bool :=
  if first.effectiveFamily ≠ second.effectiveFamily then false
  else if first.listenInterface ≠ second.listenInterface ∧ first.listenInterface.isSome ∧
      second.listenInterface.isSome then false
  else
    match first.listenAddress, second.listenAddress with
    | .any, _ => true
    | _, .any => true
    | .address a, .address b => a == b

def sourceRangesOverlap (first second : List IpNet) : Bool :=
  first.isEmpty || second.isEmpty ||
    first.any fun left => second.any fun right =>
      left.contains right.network || right.contains left.network

/-- The condition under which a pair of rules is reported for a protocol. -/
def overlapsFor (first second : ForwardRule) (protocol : Protocol) : Bool :=
  second.protocols.iter.any (· == protocol) && addressesOverlap first second &&
    first.listenPort.overlaps second.listenPort &&
    sourceRangesOverlap first.sourceCidrs second.sourceCidrs

/-- The inner loops of the overlap pass: `first` against every later rule. -/
def overlapErrorsOf (first : ForwardRule) (later : List ForwardRule) : List ValidationError :=
  later.flatMap fun second => first.protocols.iter.flatMap fun protocol =>
    if overlapsFor first second protocol then [.overlap first.id second.id protocol] else []

def overlapErrors : List ForwardRule → List ValidationError
  | [] => []
  | first :: later => overlapErrorsOf first later ++ overlapErrors later

/-- The loop over the rules: a duplicate identifier, then the rule's own errors. -/
def ruleErrors (context : ValidationContext) :
    SortedSet Uuid → List ForwardRule → List ValidationError
  | _, [] => []
  | seen, rule :: rules =>
    let (fresh, seen) := seen.insert rule.id
    (if !fresh then [.duplicateId rule.id] else []) ++ validateRule rule context ++
      ruleErrors context seen rules

namespace Config

/-- `Config::active_rules`. -/
def activeRules (self : Config) : List ForwardRule := self.rules.filter (·.enabled)

/-- Every error, in the order the validator pushes them. -/
def errors (self : Config) (context : ValidationContext) : List ValidationError :=
  (if self.schemaVersion ≠ Portalis.schemaVersion then
    [.schemaVersion self.schemaVersion] else []) ++
  ruleErrors context SortedSet.empty self.rules ++ overlapErrors self.activeRules

def validate (self : Config) (context : ValidationContext) :
    Except (List ValidationError) Unit :=
  let errors := self.errors context
  if errors.isEmpty then .ok () else .error errors

def requiresIpv4Forwarding (self : Config) : Bool :=
  self.activeRules.any fun r => r.effectiveFamily == .ipv4

def requiresIpv6Forwarding (self : Config) : Bool :=
  self.activeRules.any fun r => r.effectiveFamily == .ipv6

end Config

/-! ### The plan -/

structure RulePlan where
  ruleId : Uuid
  order : UInt32
  family : AddressFamily
  protocol : Protocol
  listenAddress : ListenAddress
  listenInterface : Option String
  sourceCidrs : List IpNet
  listenPort : PortRange
  targetIp : IpAddr
  targetPort : PortRange
  snat : SnatMode
  comment : String
  deriving DecidableEq

/-- The plan entry of a rule for one protocol. -/
def ForwardRule.planFor (rule : ForwardRule) (protocol : Protocol) : RulePlan where
  ruleId := rule.id
  order := rule.order
  family := rule.effectiveFamily
  protocol := protocol
  listenAddress := rule.listenAddress
  listenInterface := rule.listenInterface
  sourceCidrs := rule.sourceCidrs
  listenPort := rule.listenPort
  targetIp := rule.targetIp
  targetPort := rule.targetPort
  snat := rule.snat
  comment := rule.comment

/-- The sort key of the plan: order, identifier, protocol. -/
def RulePlan.sortKey (plan : RulePlan) : ℕ ×ₗ ℕ ×ₗ ℕ :=
  toLex (plan.order.toNat, toLex (plan.ruleId.bits.toNat, plan.protocol.rank))

/-- `Config::plan`: the entries of the enabled rules, stably sorted by key. -/
def Config.plan (self : Config) : List RulePlan :=
  (self.activeRules.flatMap fun rule => rule.protocols.iter.map rule.planFor).insertionSort
    fun a b => a.sortKey ≤ b.sortKey

theorem Config.mem_activeRules {self : Config} {rule : ForwardRule} :
    rule ∈ self.activeRules ↔ rule ∈ self.rules ∧ rule.enabled = true := by
  simp [Config.activeRules]

/-- **The plan, entry by entry**: one for each enabled rule and each of its protocols. -/
theorem Config.mem_plan {self : Config} {plan : RulePlan} :
    plan ∈ self.plan ↔
      ∃ rule ∈ self.activeRules, ∃ p, rule.protocols.has p = true ∧ plan = rule.planFor p := by
  simp only [Config.plan, List.mem_insertionSort, List.mem_flatMap, List.mem_map,
    Protocols.mem_iter]
  exact exists_congr fun rule => and_congr_right fun _ =>
    exists_congr fun p => and_congr_right fun _ => eq_comm

/-- The plan is in the order of its keys. -/
theorem Config.plan_sorted (self : Config) :
    self.plan.Pairwise fun a b => a.sortKey ≤ b.sortKey := by
  have htotal : Std.Total fun a b : RulePlan => a.sortKey ≤ b.sortKey :=
    ⟨fun a b => le_total a.sortKey b.sortKey⟩
  have htrans : IsTrans RulePlan fun a b => a.sortKey ≤ b.sortKey :=
    ⟨fun a b c hab hbc => le_trans hab hbc⟩
  exact List.pairwise_insertionSort _ _

/-- The key of an entry names its rule and its protocol. -/
theorem RulePlan.eq_of_sortKey_eq {a b : RulePlan} (h : a.sortKey = b.sortKey) :
    a.ruleId = b.ruleId ∧ a.protocol = b.protocol := by
  simp only [sortKey, toLex_inj, Prod.mk.injEq] at h
  refine ⟨Uuid.toNat_injective h.2.1, ?_⟩
  have hrank := h.2.2
  cases ha : a.protocol <;> cases hb : b.protocol <;> simp_all [Protocol.rank]

/-! ### SSH ports -/

/-- The port of a trimmed line of `sshd_config`, if it is a `Port` line. -/
def portOfLine (line : List Char) : Option UInt16 :=
  if line.head? = some '#' then none
  else
    match splitWhitespace line with
    | field :: value :: _ =>
      if eqIgnoreAsciiCase field "port".toList then (parseUnsigned 65536 value).map UInt16.ofNat
      else none
    | _ => none

/-- The loop body of `parse_ssh_ports`. -/
def insertPortOfLine (ports : SortedSet UInt16) (line : List Char) : SortedSet UInt16 :=
  match portOfLine line with
  | some port => (ports.insert port).2
  | none => ports

/-- `parse_ssh_ports`: the standard port and every port a line names. -/
def parseSshPorts (sshdConfig : String) : SortedSet UInt16 :=
  ((lines sshdConfig.toList).map trim).foldl insertPortOfLine (SortedSet.singleton 22)

theorem mem_insertPortOfLine {ports : SortedSet UInt16} {line : List Char} {port : UInt16} :
    port ∈ insertPortOfLine ports line ↔ port ∈ ports ∨ portOfLine line = some port := by
  unfold insertPortOfLine
  cases portOfLine line with
  | none => simp
  | some p =>
    rw [SortedSet.mem_insert, Option.some.injEq, eq_comm]
    exact or_comm

theorem mem_foldl_insertPortOfLine {ls : List (List Char)} {port : UInt16} :
    ∀ {ports : SortedSet UInt16}, port ∈ ls.foldl insertPortOfLine ports ↔
      port ∈ ports ∨ ∃ line ∈ ls, portOfLine line = some port := by
  induction ls with
  | nil => intro ports; simp
  | cons line ls ih =>
    intro ports
    rw [List.foldl_cons, ih, mem_insertPortOfLine, or_assoc]
    simp only [List.mem_cons, exists_eq_or_imp]

/-- **The ports the scan finds**: 22 and the ports of the `Port` lines. -/
theorem mem_parseSshPorts {sshdConfig : String} {port : UInt16} :
    port ∈ parseSshPorts sshdConfig ↔
      port = 22 ∨ ∃ line ∈ lines sshdConfig.toList, portOfLine (trim line) = some port := by
  simp only [parseSshPorts, mem_foldl_insertPortOfLine, SortedSet.mem_singleton, List.mem_map,
    exists_exists_and_eq_and]

example : (parseSshPorts "Port 2222\n  # Port 23\nport +44 x\nPort 70000").toList =
    [22, 44, 2222] := by decide

end Portalis
