import Mathlib

/-!
# Address prefixes

The arithmetic of prefix lengths on `w`-bit words: masks, network and broadcast addresses, and the
**block** of words that share the first `p` bits of `a`.

* `mem_block_iff_range`: a block is the interval from its network to its broadcast address.
* `mem_block_iff_mask`: a word is in the block iff masking it gives the network address.
* `block_inter_nonempty_iff`: two blocks meet iff one of them holds the other's network address,
  because a prefix of a prefix is nested in it.

Host bits of `a` never matter: everything is stated for the word as it was written down.
-/

namespace Prefix

variable {w : ℕ}

/-- The mask of a `p`-bit prefix. -/
def netmask (w p : ℕ) : BitVec w := BitVec.allOnes w <<< (w - p)

/-- The bits a `p`-bit prefix leaves free. -/
def hostmask (w p : ℕ) : BitVec w := BitVec.allOnes w >>> p

def network (a : BitVec w) (p : ℕ) : BitVec w := a &&& netmask w p

def broadcast (a : BitVec w) (p : ℕ) : BitVec w := a ||| hostmask w p

/-- The words whose first `p` bits are those of `a`. -/
def block (a : BitVec w) (p : ℕ) : Set (BitVec w) :=
  {x | x.toNat / 2 ^ (w - p) = a.toNat / 2 ^ (w - p)}

theorem toNat_and_netmask (a : BitVec w) (p : ℕ) :
    (a &&& netmask w p).toNat = a.toNat / 2 ^ (w - p) * 2 ^ (w - p) := by
  have hshift : a &&& BitVec.allOnes w <<< (w - p) = a >>> (w - p) <<< (w - p) := by
    ext i hi
    simp only [BitVec.getElem_and, BitVec.getElem_shiftLeft, BitVec.getElem_allOnes,
      BitVec.getElem_ushiftRight]
    by_cases h : i < w - p
    · simp [h]
    · simp only [h, decide_false, Bool.not_false, Bool.and_true, Bool.true_and]
      rw [show w - p + (i - (w - p)) = i by omega, BitVec.getLsbD_eq_getElem]
  have hle : a.toNat / 2 ^ (w - p) * 2 ^ (w - p) ≤ a.toNat := Nat.div_mul_le_self _ _
  rw [netmask, hshift, BitVec.toNat_shiftLeft, BitVec.toNat_ushiftRight, Nat.shiftRight_eq_div_pow,
    Nat.shiftLeft_eq, Nat.mod_eq_of_lt (lt_of_le_of_lt hle a.isLt)]

theorem toNat_network (a : BitVec w) (p : ℕ) :
    (network a p).toNat = a.toNat / 2 ^ (w - p) * 2 ^ (w - p) :=
  toNat_and_netmask a p

theorem toNat_hostmask {p : ℕ} (hp : p ≤ w) : (hostmask w p).toNat = 2 ^ (w - p) - 1 := by
  have hpow : (2 : ℕ) ^ w = 2 ^ p * 2 ^ (w - p) := by rw [← Nat.pow_add]; congr 1; omega
  have hpos : 0 < 2 ^ p * 2 ^ (w - p) := by positivity
  rw [hostmask, BitVec.toNat_ushiftRight, BitVec.toNat_allOnes, Nat.shiftRight_eq_div_pow, hpow,
    Nat.mul_sub_div 0 _ _ hpos, Nat.zero_div]

theorem toNat_broadcast (a : BitVec w) {p : ℕ} (hp : p ≤ w) :
    (broadcast a p).toNat = a.toNat / 2 ^ (w - p) * 2 ^ (w - p) + (2 ^ (w - p) - 1) := by
  have hlt : 2 ^ (w - p) - 1 < 2 ^ (w - p) := Nat.sub_lt (by positivity) (by decide)
  rw [broadcast, BitVec.toNat_or, toNat_hostmask hp, Nat.mul_comm, Nat.two_pow_add_eq_or_of_lt hlt]
  apply Nat.eq_of_testBit_eq
  intro i
  simp only [Nat.testBit_or, Nat.testBit_two_pow_sub_one, Nat.testBit_two_pow_mul,
    Nat.testBit_div_two_pow]
  by_cases h : i < w - p
  · simp [h]
  · simp [h, show w - p ≤ i by omega]

theorem network_mem_block (a : BitVec w) (p : ℕ) : network a p ∈ block a p := by
  have hpos : 0 < 2 ^ (w - p) := by positivity
  rw [block, Set.mem_ofPred_eq, toNat_network, Nat.mul_div_cancel _ hpos]

/-- **A block is an interval**: from the network address to the broadcast address. -/
theorem mem_block_iff_range (a x : BitVec w) {p : ℕ} (hp : p ≤ w) :
    x ∈ block a p ↔ network a p ≤ x ∧ x ≤ broadcast a p := by
  have hpos : 0 < 2 ^ (w - p) := by positivity
  rw [BitVec.le_def, BitVec.le_def, toNat_network, toNat_broadcast a hp, block, Set.mem_ofPred_eq,
    Nat.div_eq_iff hpos]
  omega

/-- **A block is what the mask maps to the network address.** -/
theorem mem_block_iff_mask (a x : BitVec w) (p : ℕ) :
    x ∈ block a p ↔ x &&& netmask w p = network a p := by
  have hpos : 0 < 2 ^ (w - p) := by positivity
  rw [← BitVec.toNat_inj, toNat_and_netmask, toNat_network, block, Set.mem_ofPred_eq,
    Nat.mul_left_inj hpos.ne']

/-- Two words in a block share the block of every shorter prefix. -/
theorem block_mono {a x : BitVec w} {p q : ℕ} (hpq : p ≤ q) (hx : x ∈ block a q) :
    x ∈ block a p := by
  have hpow : (2 : ℕ) ^ (w - p) = 2 ^ (w - q) * 2 ^ ((w - p) - (w - q)) := by
    rw [← Nat.pow_add]; congr 1; omega
  rw [block, Set.mem_ofPred_eq] at hx ⊢
  rw [hpow, ← Nat.div_div_eq_div_mul, ← Nat.div_div_eq_div_mul, hx]

theorem mem_block_comm {a x : BitVec w} {p : ℕ} : x ∈ block a p ↔ a ∈ block x p :=
  ⟨Eq.symm, Eq.symm⟩

theorem mem_block_trans {a b x : BitVec w} {p : ℕ} (hx : x ∈ block b p) (hb : b ∈ block a p) :
    x ∈ block a p :=
  Eq.trans hx hb

/-- **Two blocks meet iff one holds the other's network address.** -/
theorem block_inter_nonempty_iff (a b : BitVec w) (p q : ℕ) :
    (block a p ∩ block b q).Nonempty ↔ network b q ∈ block a p ∨ network a p ∈ block b q := by
  constructor
  · rintro ⟨x, hxa, hxb⟩
    rcases Nat.le_total p q with hpq | hqp
    · -- the block of `b` is the smaller one, so its network address shares the prefix of `a`
      left
      have hb : b ∈ block a p := mem_block_trans (mem_block_comm.mp (block_mono hpq hxb)) hxa
      exact mem_block_trans (block_mono hpq (network_mem_block b q)) hb
    · right
      have ha : a ∈ block b q := mem_block_trans (mem_block_comm.mp (block_mono hqp hxa)) hxb
      exact mem_block_trans (block_mono hqp (network_mem_block a p)) ha
  · rintro (h | h)
    · exact ⟨network b q, h, network_mem_block b q⟩
    · exact ⟨network a p, network_mem_block a p, h⟩

end Prefix
