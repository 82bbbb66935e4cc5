import Portalis.Octets
import Portalis.Prefix
import Portalis.Text

/-!
# Addresses and identifiers

The three leaf types the configuration is written in: IP addresses, CIDR blocks and UUIDs.  An address
carries its family in its constructor, so its octets have the width of the family.  A CIDR block keeps
the address as written, host bits included, beside a prefix length that fits the width.
-/

namespace Portalis

open Octets Text

/-! ### IP addresses -/

inductive IpAddr
  | v4 (bits : BitVec 32)
  | v6 (bits : BitVec 128)
  deriving DecidableEq

namespace IpAddr

def isIpv4 : IpAddr → Bool
  | v4 _ => true
  | v6 _ => false

/-- `127.0.0.0/8`, or `::1`. -/
def isLoopback : IpAddr → Bool
  | v4 bits => bits.toNat / 2 ^ 24 = 127
  | v6 bits => bits = 1#128

/-- The address in network order: four octets or sixteen. -/
def octets : IpAddr → List UInt8
  | v4 bits => bigEndian 4 bits.toNat
  | v6 bits => bigEndian 16 bits.toNat

/-- The address a register of four or sixteen octets holds. -/
def ofOctets? (bs : List UInt8) : Option IpAddr :=
  if bs.length = 4 then some (v4 (BitVec.ofNat 32 (value bs)))
  else if bs.length = 16 then some (v6 (BitVec.ofNat 128 (value bs)))
  else none

theorem octets_length (a : IpAddr) : a.octets.length = if a.isIpv4 then 4 else 16 := by
  cases a <;> simp [octets, isIpv4]

@[simp] theorem ofOctets?_octets (a : IpAddr) : ofOctets? a.octets = some a := by
  cases a with
  | v4 bits =>
    have hlt : bits.toNat < 256 ^ 4 := bits.isLt
    simp [ofOctets?, octets, value_bigEndian_of_lt hlt]
  | v6 bits =>
    have hlt : bits.toNat < 256 ^ 16 := bits.isLt
    simp [ofOctets?, octets, value_bigEndian_of_lt hlt]

theorem octets_inj {a b : IpAddr} : a.octets = b.octets ↔ a = b := by
  constructor
  · intro h
    have hab := congrArg ofOctets? h
    simpa using hab
  · rintro rfl; rfl

end IpAddr

/-! ### CIDR blocks -/

/-- A block of `w`-bit addresses: the address as written and a prefix length within the width. -/
structure Net (w : ℕ) where
  addr : BitVec w
  prefixLen : ℕ
  prefixLen_le : prefixLen ≤ w
  deriving DecidableEq

namespace Net

variable {w : ℕ}

def netmask (n : Net w) : BitVec w := Prefix.netmask w n.prefixLen

def network (n : Net w) : BitVec w := Prefix.network n.addr n.prefixLen

def broadcast (n : Net w) : BitVec w := Prefix.broadcast n.addr n.prefixLen

def contains (n : Net w) (other : BitVec w) : Bool :=
  n.network ≤ other && other ≤ n.broadcast

theorem contains_iff (n : Net w) (x : BitVec w) :
    n.contains x = true ↔ x ∈ Prefix.block n.addr n.prefixLen := by
  rw [Prefix.mem_block_iff_range _ _ n.prefixLen_le]
  simp only [contains, Bool.and_eq_true, decide_eq_true_eq]
  rfl

end Net

inductive IpNet
  | v4 (net : Net 32)
  | v6 (net : Net 128)
  deriving DecidableEq

namespace IpNet

def network : IpNet → IpAddr
  | v4 net => .v4 net.network
  | v6 net => .v6 net.network

def contains : IpNet → IpAddr → Bool
  | v4 net, .v4 other => net.contains other
  | v6 net, .v6 other => net.contains other
  | _, _ => false

/-- A block contains its own network address. -/
theorem contains_network (n : IpNet) : n.contains n.network = true := by
  cases n with
  | v4 net => exact (net.contains_iff _).mpr (Prefix.network_mem_block _ _)
  | v6 net => exact (net.contains_iff _).mpr (Prefix.network_mem_block _ _)

/-- A block contains addresses of its own family only. -/
theorem isIpv4_of_contains {n : IpNet} {a : IpAddr} (h : n.contains a = true) :
    a.isIpv4 = n.network.isIpv4 := by
  cases n <;> cases a <;> simp_all [contains, network, IpAddr.isIpv4]

/-- **Two blocks share an address iff one contains the other's network address.** -/
theorem exists_contains_iff (m n : IpNet) :
    (∃ a, m.contains a = true ∧ n.contains a = true) ↔
      m.contains n.network = true ∨ n.contains m.network = true := by
  constructor
  · rintro ⟨a, hm, hn⟩
    cases m with
    | v4 m =>
      cases n with
      | v4 n =>
        cases a with
        | v4 a =>
          simp only [contains, network, Net.contains_iff] at hm hn ⊢
          exact (Prefix.block_inter_nonempty_iff _ _ _ _).mp ⟨a, hm, hn⟩
        | v6 a => simp [contains] at hm
      | v6 n => cases a <;> simp [contains] at hm hn
    | v6 m =>
      cases n with
      | v4 n => cases a <;> simp [contains] at hm hn
      | v6 n =>
        cases a with
        | v4 a => simp [contains] at hm
        | v6 a =>
          simp only [contains, network, Net.contains_iff] at hm hn ⊢
          exact (Prefix.block_inter_nonempty_iff _ _ _ _).mp ⟨a, hm, hn⟩
  · rintro (h | h)
    · exact ⟨n.network, h, n.contains_network⟩
    · exact ⟨m.network, m.contains_network, h⟩

end IpNet

/-! ### Rule and revision identifiers -/

/-- A 128-bit identifier, ordered by its octets. -/
structure Uuid where
  bits : BitVec 128
  deriving DecidableEq

namespace Uuid

theorem toNat_injective : Function.Injective fun u : Uuid => u.bits.toNat := by
  rintro ⟨a⟩ ⟨b⟩ h
  exact congrArg Uuid.mk (BitVec.toNat_inj.mp h)

instance : LinearOrder Uuid := LinearOrder.lift' (fun u => u.bits.toNat) toNat_injective

/-- The hyphenated lower-case form: groups of 8, 4, 4, 4 and 12 digits. -/
def chars (u : Uuid) : List Char :=
  let x := u.bits.toNat
  hexDigits 8 (x / 16 ^ 24) ++ '-' :: (hexDigits 4 (x / 16 ^ 20) ++ '-' ::
    (hexDigits 4 (x / 16 ^ 16) ++ '-' :: (hexDigits 4 (x / 16 ^ 12) ++ '-' :: hexDigits 12 x)))

def toString (u : Uuid) : String := String.ofList u.chars

def parseSimple (s : List Char) : Option Uuid :=
  (parseHex 0 s).map fun n => ⟨BitVec.ofNat 128 n⟩

/-- Thirty-two digits in five groups with hyphens between them. -/
def parseHyphenated (s : List Char) : Option Uuid :=
  if s.length = 36 ∧ s[8]? = some '-' ∧ s[13]? = some '-' ∧ s[18]? = some '-' ∧
      s[23]? = some '-' then
    parseSimple (s.take 8 ++ ((s.drop 9).take 4 ++ ((s.drop 14).take 4 ++
      ((s.drop 19).take 4 ++ s.drop 24))))
  else none

/-- The accepted forms: plain digits, hyphenated, hyphenated in braces, and the URN. -/
def parse (s : List Char) : Option Uuid :=
  if s.length = 32 then parseSimple s
  else if s.length = 36 then parseHyphenated s
  else if s.length = 38 ∧ s.head? = some '\x7b' ∧ s.getLast? = some '\x7d' then
    parseHyphenated (s.tail.dropLast)
  else if s.length = 45 ∧ s.take 9 = "urn:uuid:".toList then parseHyphenated (s.drop 9)
  else none

theorem chars_length (u : Uuid) : u.chars.length = 36 := by
  simp [chars]

theorem ne_of_mem_chars {u : Uuid} {c : Char} (hc : c ∈ u.chars) : c ≠ ':' ∧ c ≠ '\x00' := by
  simp only [chars, List.mem_append, List.mem_cons] at hc
  rcases hc with h | rfl | h | rfl | h | rfl | h | rfl | h
  all_goals first
    | exact ⟨(hexDigits_ne_of_mem h).1, (hexDigits_ne_of_mem h).2.2⟩
    | decide

theorem chars_ascii {u : Uuid} {c : Char} (hc : c ∈ u.chars) : c.toNat < 128 := by
  simp only [chars, List.mem_append, List.mem_cons] at hc
  rcases hc with h | rfl | h | rfl | h | rfl | h | rfl | h
  all_goals first
    | exact hexDigits_ascii h
    | decide

/-- The five groups, hyphens dropped, are the 32 digits of the identifier. -/
theorem groups_chars (u : Uuid) :
    u.chars.take 8 ++ ((u.chars.drop 9).take 4 ++ ((u.chars.drop 14).take 4 ++
      ((u.chars.drop 19).take 4 ++ u.chars.drop 24))) = hexDigits 32 u.bits.toNat := by
  have hsplit : hexDigits 32 u.bits.toNat = hexDigits 8 (u.bits.toNat / 16 ^ 24) ++
      (hexDigits 4 (u.bits.toNat / 16 ^ 20) ++ (hexDigits 4 (u.bits.toNat / 16 ^ 16) ++
      (hexDigits 4 (u.bits.toNat / 16 ^ 12) ++ hexDigits 12 u.bits.toNat))) := by
    rw [← hexDigits_add 4 12, ← hexDigits_add 4 16, ← hexDigits_add 4 20, ← hexDigits_add 8 24]
  rw [hsplit]
  simp [chars, List.drop_append, List.drop_eq_nil_of_le]

/-- **A printed identifier parses back to itself.** -/
theorem parse_chars (u : Uuid) : parse u.chars = some u := by
  have hlen := u.chars_length
  have hlt : u.bits.toNat < 16 ^ 32 := u.bits.isLt
  have hhyphens : u.chars[8]? = some '-' ∧ u.chars[13]? = some '-' ∧ u.chars[18]? = some '-' ∧
      u.chars[23]? = some '-' := by
    simp [chars]
  rw [parse, if_neg (by omega), if_pos hlen, parseHyphenated, if_pos ⟨hlen, hhyphens⟩,
    groups_chars, parseSimple, parseHex_hexDigits, Nat.zero_mul, Nat.zero_add,
    Nat.mod_eq_of_lt hlt, Option.map_some, BitVec.ofNat_toNat, BitVec.setWidth_eq]

end Uuid

end Portalis
