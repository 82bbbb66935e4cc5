import Portalis.Kernel
import Portalis.Validation
import Portalis.Fallible

/-!
# The nftables compiler

`NftnlController::apply`: from the plan to one batch.  Each `add_*_match` pushes the loads and
comparisons of the source onto a rule; the three `add_*_rule(s)` functions assemble the rules of the
three chains; `buildRules` is the emission order.  An `unreachable!` is an error of its own, so that
its absence can be stated.

* `nftApply_eq`: whatever the table held before, a successful `apply` leaves the three chains and the
  compiled rules.
-/

namespace Portalis

open Octets RuleMachine Text

def ruleCommentVersion : String := "v2"

/-- `NftError`, with the panics of the compiler. -/
inductive NftError
  | io (message : String)
  | library (message : String)
  | permission
  | unreachable (message : String)
  deriving DecidableEq

/-- `u16::saturating_add`. -/
def saturatingAdd (a b : UInt16) : UInt16 :=
  if a.toNat + b.toNat < 65536 then a + b else 65535

/-- `CString::new`: refuses an interior NUL. -/
def cstring (s : String) (message : String) : Except NftError (List UInt8) :=
  if '\x00' ∈ s.toList then .error (.library message) else .ok (utf8 s)

namespace KernelRule

/-- `Rule::new`. -/
def new (chain : String) : KernelRule := ⟨chain, "", []⟩

def addExpr (rule : KernelRule) (e : Expr Selector Statement) : KernelRule :=
  { rule with exprs := rule.exprs ++ [e] }

@[simp] theorem addExpr_chain (rule : KernelRule) (e : Expr Selector Statement) :
    (rule.addExpr e).chain = rule.chain := rfl

@[simp] theorem addExpr_comment (rule : KernelRule) (e : Expr Selector Statement) :
    (rule.addExpr e).comment = rule.comment := rfl

@[simp] theorem addExpr_exprs (rule : KernelRule) (e : Expr Selector Statement) :
    (rule.addExpr e).exprs = rule.exprs ++ [e] := rfl

end KernelRule

/-! ### The pieces of a rule -/

def Protocol.text : Protocol → String
  | .tcp => "tcp"
  | .udp => "udp"

/-- The comment that names a rule in a dump. -/
def ruleComment (ruleId : Uuid) (protocol : Protocol) : String :=
  "portalis:" ++ ruleCommentVersion ++ ":" ++ ruleId.toString ++ ":" ++ protocol.text

/-- `Rule::set_comment` of the nftnl library, by the octets of the comment. -/
abbrev SetComment := List UInt8 → Except String Unit

/-- The library has room for every comment. -/
def acceptComment : SetComment := fun _ => .ok ()

def setRuleComment (rule : KernelRule) (plan : RulePlan)
    (setComment : SetComment := acceptComment) : Except NftError KernelRule := do
  let comment := ruleComment plan.ruleId plan.protocol
  let octets ← cstring comment "rule id contains NUL"
  let _ ← (setComment octets).mapError .library
  pure { rule with comment := comment }

def addDnatStatusMatch (rule : KernelRule) : KernelRule :=
  let mask := hostEndian 4 ipsDstNat.toNat
  ((rule.addExpr (.load .ctStatus)).addExpr (.bitwise mask (hostEndian 4 0))).addExpr
    (.cmp .eq mask)

def addFamilyMatch (rule : KernelRule) (family : AddressFamily) : Except NftError KernelRule := do
  let rule := rule.addExpr (.load .metaNfproto)
  let value ← match family with
    | .auto => .error (.unreachable "auto address family must be resolved in RulePlan")
    | .ipv4 => .ok nfprotoIpv4
    | .ipv6 => .ok nfprotoIpv6
  pure (rule.addExpr (.cmp .eq [value]))

def addProtocolMatch (rule : KernelRule) (protocol : Protocol) : KernelRule :=
  (rule.addExpr (.load .metaL4proto)).addExpr (.cmp .eq [protocol.number])

/-- The interface match of the listen side, compared with its terminator. -/
def addInterfaceMatch (rule : KernelRule) (interface : Option String) :
    Except NftError KernelRule :=
  match interface with
  | none => .ok rule
  | some interface => do
    let name ← cstring interface "interface contains NUL"
    pure ((rule.addExpr (.load .metaIifname)).addExpr (.cmp .eq (name ++ [0])))

def addPortRangeMatch (rule : KernelRule) (ports : PortRange) : KernelRule :=
  if ports.start = ports.stop then rule.addExpr (.cmp .eq (bigEndian 2 ports.start.toNat))
  else
    (rule.addExpr (.cmp .gte (bigEndian 2 ports.start.toNat))).addExpr
      (.cmp .lte (bigEndian 2 ports.stop.toNat))

/-- `payload tcp dport` or `payload udp dport`. -/
def payloadDport : Protocol → Selector
  | .tcp => .transportHeader 2 2
  | .udp => .transportHeader 2 2

/-- `payload tcp sport` or `payload udp sport`. -/
def payloadSport : Protocol → Selector
  | .tcp => .transportHeader 0 2
  | .udp => .transportHeader 0 2

def addPortMatch (rule : KernelRule) (protocol : Protocol) (ports : PortRange) : KernelRule :=
  addPortRangeMatch (rule.addExpr (.load (payloadDport protocol))) ports

def addSourcePortMatch (rule : KernelRule) (protocol : Protocol) (ports : PortRange) :
    KernelRule :=
  addPortRangeMatch (rule.addExpr (.load (payloadSport protocol))) ports

def addOriginalPortMatch (rule : KernelRule) (ports : PortRange) : KernelRule :=
  addPortRangeMatch (rule.addExpr (.load (.ctOriginal .protoDst))) ports

/-- `payload ipv4 saddr` and its three siblings. -/
def payloadAddress (address : IpAddr) (source : Bool) : Selector :=
  match address, source with
  | .v4 _, true => .networkHeader 12 4
  | .v4 _, false => .networkHeader 16 4
  | .v6 _, true => .networkHeader 8 16
  | .v6 _, false => .networkHeader 24 16

def addAddressMatch (rule : KernelRule) (address : IpAddr) (source : Bool) : KernelRule :=
  (rule.addExpr (.load (payloadAddress address source))).addExpr (.cmp .eq address.octets)

/-- The mask of a CIDR block and the zeros it is combined with. -/
def cidrMask : IpNet → List UInt8 × List UInt8
  | .v4 net => (bigEndian 4 net.netmask.toNat, List.replicate 4 0)
  | .v6 net => (bigEndian 16 net.netmask.toNat, List.replicate 16 0)

/-- The source says `saddr` whatever its flag is. -/
def addCidrMatch (rule : KernelRule) (cidr : IpNet) : KernelRule :=
  ((rule.addExpr (.load (payloadAddress cidr.network true))).addExpr
    (.bitwise (cidrMask cidr).1 (cidrMask cidr).2)).addExpr (.cmp .eq cidr.network.octets)

def addOriginalAddressMatch (rule : KernelRule) (address : ListenAddress) : KernelRule :=
  match address with
  | .any => rule
  | .address address =>
    (rule.addExpr (.load (.ctOriginal .dst))).addExpr (.cmp .eq address.octets)

def addOriginalCidrMatch (rule : KernelRule) (cidr : IpNet) : KernelRule :=
  ((rule.addExpr (.load (.ctOriginal .src))).addExpr
    (.bitwise (cidrMask cidr).1 (cidrMask cidr).2)).addExpr (.cmp .eq cidr.network.octets)

def nftFamily : AddressFamily → Except NftError ProtoFamily
  | .auto => .error (.unreachable "auto address family must be resolved in RulePlan")
  | .ipv4 => .ok .ipv4
  | .ipv6 => .ok .ipv6

def addNatTarget (rule : KernelRule) (natType : NatType) (family : AddressFamily)
    (address : IpAddr) (ports : Option PortRange) : Except NftError KernelRule := do
  let rule := rule.addExpr (.immediate address.octets .reg1)
  let rule := match ports with
    | some ports =>
      (rule.addExpr (.immediate (bigEndian 2 ports.start.toNat) .reg2)).addExpr
        (.immediate (bigEndian 2 ports.stop.toNat) .reg3)
    | none => rule
  let family ← nftFamily family
  pure (rule.addExpr (.action (.nat natType family ports.isSome)))

/-! ### The rules of the three chains -/

/-- One match per source block, or a single one without a source match. -/
def planSources (plan : RulePlan) : List (Option IpNet) :=
  if plan.sourceCidrs.isEmpty then [none] else plan.sourceCidrs.map some

/-- The target port of the listen port at `offset`. -/
def targetPortAt (plan : RulePlan) (offset : UInt32) : PortRange :=
  if plan.targetPort.isSingle then plan.targetPort
  else
    let port := saturatingAdd plan.targetPort.start offset.toUInt16
    ⟨port, port⟩

/-- The body of the two loops of `add_prerouting_rules`. -/
def preroutingRule (chain : String) (plan : RulePlan) (offset : UInt32) (source : Option IpNet)
    (setComment : SetComment := acceptComment) : Except NftError KernelRule := do
  let listenPort : PortRange :=
    ⟨saturatingAdd plan.listenPort.start offset.toUInt16,
      saturatingAdd plan.listenPort.start offset.toUInt16⟩
  let targetPort := targetPortAt plan offset
  let rule := KernelRule.new chain
  let rule ← setRuleComment rule plan setComment
  let rule ← addFamilyMatch rule plan.family
  let rule ← addInterfaceMatch rule plan.listenInterface
  let rule := match plan.listenAddress with
    | .address address => addAddressMatch rule address false
    | .any => rule
  let rule := match source with
    | some source => addCidrMatch rule source
    | none => rule
  let rule := addProtocolMatch rule plan.protocol
  let rule := addPortMatch rule plan.protocol listenPort
  let rule := rule.addExpr (.counter 0 0)
  addNatTarget rule .dnat plan.family plan.targetIp (some targetPort)

/-- The offsets of `0..listen_port.len()`. -/
def portOffsets (ports : PortRange) : List UInt32 :=
  (List.range ports.len.toNat).map UInt32.ofNat

def addPreroutingRules (chain : String) (plan : RulePlan)
    (setComment : SetComment := acceptComment) : Except NftError (List KernelRule) :=
  ((portOffsets plan.listenPort).flatMap fun offset =>
    (planSources plan).map fun source => (offset, source)).mapM
      fun (offset, source) => preroutingRule chain plan offset source setComment

def addPostroutingRule (chain : String) (plan : RulePlan)
    (setComment : SetComment := acceptComment) : Except NftError KernelRule := do
  let rule := KernelRule.new chain
  let rule ← setRuleComment rule plan setComment
  let rule := addDnatStatusMatch rule
  let rule ← addFamilyMatch rule plan.family
  let rule := addAddressMatch rule plan.targetIp false
  let rule := addProtocolMatch rule plan.protocol
  let rule := addPortMatch rule plan.protocol plan.targetPort
  let rule := rule.addExpr (.counter 0 0)
  match plan.snat with
  | .none => pure rule
  | .masquerade => pure (rule.addExpr (.action .masquerade))
  | .fixed address => addNatTarget rule .snat plan.family address none

def inboundRule (chain : String) (plan : RulePlan) (source : Option IpNet)
    (setComment : SetComment := acceptComment) : Except NftError KernelRule := do
  let inbound := KernelRule.new chain
  let inbound ← setRuleComment inbound plan setComment
  let inbound := addDnatStatusMatch inbound
  let inbound ← addFamilyMatch inbound plan.family
  let inbound := addOriginalAddressMatch inbound plan.listenAddress
  let inbound ← addInterfaceMatch inbound plan.listenInterface
  let inbound := match source with
    | some source => addCidrMatch inbound source
    | none => inbound
  let inbound := addProtocolMatch inbound plan.protocol
  let inbound := addOriginalPortMatch inbound plan.listenPort
  let inbound := addAddressMatch inbound plan.targetIp false
  let inbound := addPortMatch inbound plan.protocol plan.targetPort
  pure (inbound.addExpr (.counter 0 0))

def replyRule (chain : String) (plan : RulePlan) (source : Option IpNet)
    (setComment : SetComment := acceptComment) : Except NftError KernelRule := do
  let reply := KernelRule.new chain
  let reply ← setRuleComment reply plan setComment
  let reply := addDnatStatusMatch reply
  let reply ← addFamilyMatch reply plan.family
  let reply := addOriginalAddressMatch reply plan.listenAddress
  let reply := match source with
    | some source => addOriginalCidrMatch reply source
    | none => reply
  let reply := addProtocolMatch reply plan.protocol
  let reply := addOriginalPortMatch reply plan.listenPort
  let reply := addAddressMatch reply plan.targetIp true
  let reply := addSourcePortMatch reply plan.protocol plan.targetPort
  pure (reply.addExpr (.counter 0 0))

/-- The inbound rule and the reply rule of every source, in turn. -/
def addForwardCounterRules (chain : String) (plan : RulePlan)
    (setComment : SetComment := acceptComment) : Except NftError (List KernelRule) := do
  let pairs ← (planSources plan).mapM fun source => do
    let inbound ← inboundRule chain plan source setComment
    let reply ← replyRule chain plan source setComment
    pure [inbound, reply]
  pure pairs.flatten

/-! ### The batch -/

def prerouting : Chain := ⟨preroutingChain, .preRouting, -100, .nat⟩

def postrouting : Chain := ⟨postroutingChain, .postRouting, 100, .nat⟩

def forward : Chain := ⟨forwardChain, .forward, 0, .filter⟩

/-- The rules of the plan in emission order. -/
def buildRules (plans : List RulePlan) (setComment : SetComment := acceptComment) :
    Except NftError (List KernelRule) := do
  let pre ← plans.mapM (addPreroutingRules prerouting.name · setComment)
  let post ← (plans.filter (·.snat ≠ .none)).mapM (addPostroutingRule postrouting.name · setComment)
  let fwd ← plans.mapM (addForwardCounterRules forward.name · setComment)
  pure (pre.flatten ++ (post ++ fwd.flatten))

def buildBatch (hadTable : Bool) (config : Config) (setComment : SetComment := acceptComment) :
    Except NftError (List Message) := do
  let rules ← buildRules config.plan setComment
  pure ((if hadTable then [.delTable] else []) ++
    ([.addTable, .addChain prerouting, .addChain postrouting, .addChain forward] ++
      rules.map .addRule))

structure ApplyReceipt where
  ruleCount : ℕ
  replacedExistingTable : Bool
  deriving DecidableEq

/-- The count the receipt reports, recomputed from the plan. -/
def ruleCount (plans : List RulePlan) : ℕ :=
  (plans.map fun plan =>
    max plan.sourceCidrs.length 1 * plan.listenPort.len.toNat +
      if plan.snat = .none then 0 else 1).sum

/-- `NftnlController::apply` on the current table: the batch is built first and sent as one. -/
def nftApply (table : Option Table) (config : Config) :
    Except NftError (Option Table × ApplyReceipt) := do
  let batch ← buildBatch table.isSome config
  pure (commitBatch table batch, ⟨ruleCount config.plan, table.isSome⟩)

/-- The rules of the three chains, one chain after the other. -/
theorem filter_chains {pre post fwd : List KernelRule}
    (hpre : ∀ rule ∈ pre, rule.chain = preroutingChain)
    (hpost : ∀ rule ∈ post, rule.chain = postroutingChain)
    (hfwd : ∀ rule ∈ fwd, rule.chain = forwardChain) (chain : String) :
    (pre ++ (post ++ fwd)).filter (·.chain == chain) =
      if chain = preroutingChain then pre
      else if chain = postroutingChain then post
      else if chain = forwardChain then fwd else [] := by
  -- a block of rules of one chain is kept whole or dropped whole
  have hblock : ∀ {rules : List KernelRule} {c : String}, (∀ rule ∈ rules, rule.chain = c) →
      rules.filter (·.chain == chain) = if chain = c then rules else [] := by
    intro rules c hc
    split
    · rename_i heq
      exact List.filter_eq_self.mpr fun rule hr => by simp [hc rule hr, heq]
    · rename_i hne
      exact List.filter_eq_nil_iff.mpr fun rule hr => by simp [hc rule hr, Ne.symm hne]
  rw [List.filter_append, List.filter_append, hblock hpre, hblock hpost, hblock hfwd]
  have h1 : preroutingChain ≠ postroutingChain := by decide
  have h2 : preroutingChain ≠ forwardChain := by decide
  have h3 : postroutingChain ≠ forwardChain := by decide
  split
  · rename_i heq
    subst heq
    simp [h1, h2]
  · split
    · rename_i heq
      subst heq
      simp [h3]
    · simp

/-- The table a successful `apply` leaves. -/
def compile (config : Config) : Except NftError Table := do
  let rules ← buildRules config.plan
  pure ⟨[prerouting, postrouting, forward], rules⟩

/-- **`apply` replaces the table.**  Nothing of the previous table is left, and a batch that cannot
be built changes nothing. -/
theorem nftApply_eq (table : Option Table) (config : Config) :
    nftApply table config = (compile config).map fun t =>
      (some t, ⟨ruleCount config.plan, table.isSome⟩) := by
  unfold nftApply compile buildBatch
  cases buildRules config.plan with
  | error e => rfl
  | ok rules =>
    have hcommit : ∀ t : Option Table, commitBatch t ((if t.isSome then [.delTable] else []) ++
        ([.addTable, .addChain prerouting, .addChain postrouting, .addChain forward] ++
          rules.map .addRule)) = some ⟨[prerouting, postrouting, forward], rules⟩ := by
      intro t
      have h := commitBatch_addRules ⟨[prerouting, postrouting, forward], []⟩ rules
      cases t with
      | none => simpa [commitBatch, Message.commit] using h
      | some t => simpa [commitBatch, Message.commit] using h
    exact congrArg (fun t => Except.ok (t, _)) (hcommit table)

end Portalis
