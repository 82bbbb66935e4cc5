import Portalis.Config
import Portalis.RuleMachine

/-!
# Packets, fields and tables

The kernel's side of the rule machine: what a packet offers to a load, what the NAT statements do
with the registers, and how a batch of messages changes the one table Portalis manages.

A packet keeps its header octets, so that a load outside the packet's own family reads what lies
there.  Interface names are what a 16-octet, NUL-terminated name register can hold.
-/

namespace Portalis

open Octets RuleMachine

/-! ### Constants of the kernel interface -/

def nfprotoIpv4 : UInt8 := 2

def nfprotoIpv6 : UInt8 := 10

def ipprotoTcp : UInt8 := 6

def ipprotoUdp : UInt8 := 17

/-- `IPS_DST_NAT`: the flow has a destination translation. -/
def ipsDstNat : UInt32 := 32

/-- `IFNAMSIZ`: the size of an interface name with its terminator. -/
def ifnamsiz : ℕ := 16

/-! ### Packets -/

/-- The name of an interface: octets without NUL that leave room for the terminator.  The kernel's own names are
some of these: it also refuses `.`, `..`, slashes, colons and blanks. -/
structure InterfaceName where
  octets : List UInt8
  nonempty : octets ≠ []
  short : octets.length < ifnamsiz
  noNul : (0 : UInt8) ∉ octets

/-- The name as `meta iifname` loads it, padded with NUL. -/
def InterfaceName.register (name : InterfaceName) : List UInt8 :=
  name.octets ++ List.replicate (ifnamsiz - name.octets.length) 0

/-- A network header: what precedes the addresses, the addresses, and what follows them. -/
inductive NetworkHeader
  | ipv4 (lead : Vector UInt8 12) (saddr daddr : BitVec 32) (options : List UInt8)
  | ipv6 (lead : Vector UInt8 8) (saddr daddr : BitVec 128) (extensions : List UInt8)

namespace NetworkHeader

def octets : NetworkHeader → List UInt8
  | ipv4 lead saddr daddr options =>
    lead.toList ++ (bigEndian 4 saddr.toNat ++ (bigEndian 4 daddr.toNat ++ options))
  | ipv6 lead saddr daddr extensions =>
    lead.toList ++ (bigEndian 16 saddr.toNat ++ (bigEndian 16 daddr.toNat ++ extensions))

def saddr : NetworkHeader → IpAddr
  | ipv4 _ saddr _ _ => .v4 saddr
  | ipv6 _ saddr _ _ => .v6 saddr

def daddr : NetworkHeader → IpAddr
  | ipv4 _ _ daddr _ => .v4 daddr
  | ipv6 _ _ daddr _ => .v6 daddr

def isIpv4 : NetworkHeader → Bool
  | ipv4 .. => true
  | ipv6 .. => false

/-- Rewrite the destination address; a translation never changes the family. -/
def setDaddr : NetworkHeader → IpAddr → NetworkHeader
  | ipv4 lead saddr _ options, .v4 daddr => ipv4 lead saddr daddr options
  | ipv6 lead saddr _ extensions, .v6 daddr => ipv6 lead saddr daddr extensions
  | header, _ => header

@[simp] theorem saddr_isIpv4 (h : NetworkHeader) : h.saddr.isIpv4 = h.isIpv4 := by
  cases h <;> rfl

@[simp] theorem daddr_isIpv4 (h : NetworkHeader) : h.daddr.isIpv4 = h.isIpv4 := by
  cases h <;> rfl

@[simp] theorem setDaddr_saddr (h : NetworkHeader) (a : IpAddr) :
    (h.setDaddr a).saddr = h.saddr := by
  cases h <;> cases a <;> rfl

@[simp] theorem setDaddr_isIpv4 (h : NetworkHeader) (a : IpAddr) :
    (h.setDaddr a).isIpv4 = h.isIpv4 := by
  cases h <;> cases a <;> rfl

theorem setDaddr_daddr {h : NetworkHeader} {a : IpAddr} (ha : a.isIpv4 = h.isIpv4) :
    (h.setDaddr a).daddr = a := by
  cases h <;> cases a <;> simp_all [setDaddr, daddr, IpAddr.isIpv4, isIpv4]

end NetworkHeader

/-- A TCP or UDP packet as it enters the machine. -/
structure Packet where
  iifname : InterfaceName
  network : NetworkHeader
  protocol : Protocol
  sport : UInt16
  dport : UInt16
  payload : List UInt8

namespace Packet

def saddr (p : Packet) : IpAddr := p.network.saddr

def daddr (p : Packet) : IpAddr := p.network.daddr

def transportOctets (p : Packet) : List UInt8 :=
  bigEndian 2 p.sport.toNat ++ (bigEndian 2 p.dport.toNat ++ p.payload)

end Packet

/-- The addresses and ports of one direction of a flow. -/
structure Tuple where
  src : IpAddr
  dst : IpAddr
  protoSrc : UInt16
  protoDst : UInt16
  deriving DecidableEq

def Packet.tuple (p : Packet) : Tuple := ⟨p.saddr, p.daddr, p.sport, p.dport⟩

/-- The conntrack entry of a flow: its status bits and its original tuple. -/
structure Conntrack where
  status : UInt32
  original : Tuple

/-- A packet on its way through the hooks, with its flow. -/
structure SkBuff where
  packet : Packet
  ct : Conntrack

/-- A packet that opens a flow: nothing is translated yet. -/
def SkBuff.first (p : Packet) : SkBuff := ⟨p, ⟨0, p.tuple⟩⟩

/-! ### Fields -/

inductive CtKey
  | src
  | dst
  | protoDst
  deriving DecidableEq

/-- What a load can read. -/
inductive Selector
  | metaNfproto
  | metaL4proto
  | metaIifname
  | networkHeader (offset len : ℕ)
  | transportHeader (offset len : ℕ)
  | ctStatus
  | ctOriginal (key : CtKey)
  deriving DecidableEq

/-- `len` octets from `offset`, if there are that many. -/
def slice (offset len : ℕ) (bs : List UInt8) : Option (List UInt8) :=
  if offset + len ≤ bs.length then some ((bs.drop offset).take len) else none

def Protocol.number : Protocol → UInt8
  | .tcp => ipprotoTcp
  | .udp => ipprotoUdp

def nfproto (isIpv4 : Bool) : UInt8 := if isIpv4 then nfprotoIpv4 else nfprotoIpv6

def view (skb : SkBuff) : Selector → Option (List UInt8)
  | .metaNfproto => some [nfproto skb.packet.network.isIpv4]
  | .metaL4proto => some [skb.packet.protocol.number]
  | .metaIifname => some skb.packet.iifname.register
  | .networkHeader offset len =>
    slice offset len (skb.packet.network.octets ++ skb.packet.transportOctets)
  | .transportHeader offset len => slice offset len skb.packet.transportOctets
  | .ctStatus => some (hostEndian 4 skb.ct.status.toNat)
  | .ctOriginal .src => some skb.ct.original.src.octets
  | .ctOriginal .dst => some skb.ct.original.dst.octets
  | .ctOriginal .protoDst => some (bigEndian 2 skb.ct.original.protoDst.toNat)

/-! ### Statements -/

inductive NatType
  | snat
  | dnat
  deriving DecidableEq

inductive ProtoFamily
  | ipv4
  | ipv6
  deriving DecidableEq

/-- The statements that end a NAT chain.  `ports` says whether registers 2 and 3 hold a port range. -/
inductive Statement
  | nat (natType : NatType) (family : ProtoFamily) (ports : Bool)
  | masquerade
  deriving DecidableEq

/-- What a NAT chain decides for a flow. -/
inductive Translation
  | dnat (address : IpAddr) (ports : Option (UInt16 × UInt16))
  | snat (address : IpAddr) (ports : Option (UInt16 × UInt16))
  | masquerade
  deriving DecidableEq

def ProtoFamily.width : ProtoFamily → ℕ
  | ipv4 => 4
  | ipv6 => 16

/-- The port a register holds in network order. -/
def portOf (bs : List UInt8) : UInt16 := UInt16.ofNat (value (bs.take 2))

/-- The address is read from register 1, a port range from registers 2 and 3. -/
def perform : Statement → Registers → Option Translation
  | .masquerade, _ => some .masquerade
  | .nat natType family ports, r =>
    match IpAddr.ofOctets? ((r .reg1).take family.width) with
    | none => none
    | some address =>
      let range := if ports then some (portOf (r .reg2), portOf (r .reg3)) else none
      match natType with
      | .dnat => some (.dnat address range)
      | .snat => some (.snat address range)

theorem portOf_bigEndian (p : UInt16) : portOf (bigEndian 2 p.toNat) = p := by
  have hlt : p.toNat < 256 ^ 2 := p.toNat_lt
  rw [portOf, List.take_of_length_le (by simp), value_bigEndian_of_lt hlt, UInt16.ofNat_toNat]

/-! ### Tables and batches -/

inductive Hook
  | preRouting
  | postRouting
  | forward
  deriving DecidableEq

inductive ChainType
  | nat
  | filter
  deriving DecidableEq

/-- A base chain with policy accept. -/
structure Chain where
  name : String
  hook : Hook
  priority : ℤ
  chainType : ChainType
  deriving DecidableEq

structure KernelRule where
  chain : String
  comment : String
  exprs : List (Expr Selector Statement)
  deriving DecidableEq

structure Table where
  chains : List Chain
  rules : List KernelRule
  deriving DecidableEq

/-- The messages of a batch about the table `inet portalis`. -/
inductive Message
  | delTable
  | addTable
  | addChain (chain : Chain)
  | addRule (rule : KernelRule)
  deriving DecidableEq

/-- Adding a table that exists keeps it; rules and chains are appended. -/
def Message.commit (table : Option Table) : Message → Option Table
  | delTable => none
  | addTable => some (table.getD ⟨[], []⟩)
  | addChain chain => table.map fun t => { t with chains := t.chains ++ [chain] }
  | addRule rule => table.map fun t => { t with rules := t.rules ++ [rule] }

/-- A batch is committed as one transaction. -/
def commitBatch (table : Option Table) (batch : List Message) : Option Table :=
  batch.foldl Message.commit table

theorem commitBatch_addRules (t : Table) (rules : List KernelRule) :
    commitBatch (some t) (rules.map .addRule) = some { t with rules := t.rules ++ rules } := by
  induction rules generalizing t with
  | nil => simp [commitBatch]
  | cons rule rules ih =>
    rw [List.map_cons, commitBatch, List.foldl_cons]
    have h := ih { t with rules := t.rules ++ [rule] }
    simpa [commitBatch, Message.commit] using h

/-- The rules of one chain, in order. -/
def Table.chainRules (t : Table) (chain : String) : List KernelRule :=
  t.rules.filter (·.chain == chain)

/-- The verdict of a NAT chain made of these rules. -/
def natVerdict (rules : List KernelRule) (skb : SkBuff) : Option Translation :=
  runChain (view skb) perform (rules.map (·.exprs))

/-! ### Loads of well-placed fields -/

theorem slice_append_left {as bs cs : List UInt8} {offset len : ℕ} (ha : as.length = offset)
    (hb : bs.length = len) : slice offset len (as ++ (bs ++ cs)) = some bs := by
  subst ha hb
  simp [slice]

theorem view_saddr4 (skb : SkBuff) (lead : Vector UInt8 12) (s d : BitVec 32) (o : List UInt8)
    (h : skb.packet.network = .ipv4 lead s d o) :
    view skb (.networkHeader 12 4) = some (bigEndian 4 s.toNat) := by
  simp only [view, h, NetworkHeader.octets, List.append_assoc]
  exact slice_append_left (by simp) (by simp)

theorem view_daddr4 (skb : SkBuff) (lead : Vector UInt8 12) (s d : BitVec 32) (o : List UInt8)
    (h : skb.packet.network = .ipv4 lead s d o) :
    view skb (.networkHeader 16 4) = some (bigEndian 4 d.toNat) := by
  simp only [view, h, NetworkHeader.octets, List.append_assoc]
  rw [← List.append_assoc]
  exact slice_append_left (by simp) (by simp)

theorem view_saddr6 (skb : SkBuff) (lead : Vector UInt8 8) (s d : BitVec 128) (o : List UInt8)
    (h : skb.packet.network = .ipv6 lead s d o) :
    view skb (.networkHeader 8 16) = some (bigEndian 16 s.toNat) := by
  simp only [view, h, NetworkHeader.octets, List.append_assoc]
  exact slice_append_left (by simp) (by simp)

theorem view_daddr6 (skb : SkBuff) (lead : Vector UInt8 8) (s d : BitVec 128) (o : List UInt8)
    (h : skb.packet.network = .ipv6 lead s d o) :
    view skb (.networkHeader 24 16) = some (bigEndian 16 d.toNat) := by
  simp only [view, h, NetworkHeader.octets, List.append_assoc]
  rw [← List.append_assoc]
  exact slice_append_left (by simp) (by simp)

theorem view_sport (skb : SkBuff) :
    view skb (.transportHeader 0 2) = some (bigEndian 2 skb.packet.sport.toNat) := by
  simp only [view, Packet.transportOctets]
  exact @slice_append_left [] (bigEndian 2 skb.packet.sport.toNat) _ 0 2 rfl (by simp)

theorem view_dport (skb : SkBuff) :
    view skb (.transportHeader 2 2) = some (bigEndian 2 skb.packet.dport.toNat) := by
  simp only [view, Packet.transportOctets]
  exact slice_append_left (by simp) (by simp)

end Portalis
