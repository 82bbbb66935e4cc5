import Mathlib

/-!
# Big-endian octet strings

Numbers as fixed-width octet strings, most significant octet first, and the three operations a
packet matcher applies to them: comparison of equal-length strings (the order of `memcmp`), octetwise
masking, and decoding.  `value` is the decoder, `bigEndian` the encoder.

* `value_bigEndian`, `bigEndian_inj`: encoding loses only what does not fit the width.
* `lt_iff_value_lt`, `bigEndian_le_iff`: lexicographic order of equal-length strings is numeric order.
* `zipWith_and_bigEndian`: masking octet by octet is masking the number.
-/

namespace Octets

/-- The `n` octets of `x`, most significant first; what does not fit is dropped. -/
def bigEndian : ℕ → ℕ → List UInt8
  | 0, _ => []
  | n + 1, x => UInt8.ofNat (x / 256 ^ n) :: bigEndian n x

/-- The number an octet string spells, most significant octet first. -/
def value : List UInt8 → ℕ
  | [] => 0
  | b :: bs => b.toNat * 256 ^ bs.length + value bs

@[simp] theorem bigEndian_length (n x : ℕ) : (bigEndian n x).length = n := by
  induction n with
  | zero => rfl
  | succ n ih => simp only [bigEndian, List.length_cons, ih]

theorem value_lt (bs : List UInt8) : value bs < 256 ^ bs.length := by
  induction bs with
  | nil => decide
  | cons b bs ih =>
    have hb : b.toNat < 256 := b.toNat_lt
    have hmul : b.toNat * 256 ^ bs.length ≤ 255 * 256 ^ bs.length :=
      Nat.mul_le_mul_right _ (by omega)
    simp only [value, List.length_cons, Nat.pow_succ]
    omega

theorem value_bigEndian (n x : ℕ) : value (bigEndian n x) = x % 256 ^ n := by
  induction n with
  | zero => simp [bigEndian, value, Nat.mod_one]
  | succ n ih =>
    have hd : (UInt8.ofNat (x / 256 ^ n)).toNat = x / 256 ^ n % 256 := by simp
    rw [bigEndian, value, bigEndian_length, ih, hd, Nat.pow_succ, Nat.mod_mul]
    ring

theorem value_bigEndian_of_lt {n x : ℕ} (hx : x < 256 ^ n) : value (bigEndian n x) = x := by
  rw [value_bigEndian, Nat.mod_eq_of_lt hx]

theorem bigEndian_inj {n x y : ℕ} (hx : x < 256 ^ n) (hy : y < 256 ^ n) :
    bigEndian n x = bigEndian n y ↔ x = y := by
  constructor
  · intro h
    rw [← value_bigEndian_of_lt hx, h, value_bigEndian_of_lt hy]
  · rintro rfl; rfl

/-- **`memcmp` is numeric order.**  Lexicographic order of equal-length octet strings is the order
of the numbers they spell. -/
theorem lt_iff_value_lt : ∀ {as bs : List UInt8}, as.length = bs.length →
    (as < bs ↔ value as < value bs) := by
  intro as
  induction as with
  | nil =>
    intro bs hlen
    have hbs : bs = [] := by simpa using hlen.symm
    subst hbs
    simp [value]
  | cons a as ih =>
    intro bs hlen
    cases bs with
    | nil => simp at hlen
    | cons b bs =>
      simp only [List.length_cons, Nat.add_right_cancel_iff] at hlen
      have ha := value_lt as
      have hb := value_lt bs
      rw [hlen] at ha
      rw [List.cons_lt_cons_iff, ih hlen, UInt8.lt_iff_toNat_lt, ← UInt8.toNat_inj]
      simp only [value, hlen]
      constructor
      · rintro (hlt | ⟨heq, hlt⟩)
        · have hmul : (a.toNat + 1) * 256 ^ bs.length ≤ b.toNat * 256 ^ bs.length :=
            Nat.mul_le_mul_right _ hlt
          rw [Nat.add_mul] at hmul
          omega
        · rw [heq]; omega
      · intro hlt
        rcases Nat.lt_trichotomy a.toNat b.toNat with h | h | h
        · exact Or.inl h
        · rw [h] at hlt; exact Or.inr ⟨h, by omega⟩
        · have hmul : (b.toNat + 1) * 256 ^ bs.length ≤ a.toNat * 256 ^ bs.length :=
            Nat.mul_le_mul_right _ h
          rw [Nat.add_mul] at hmul
          omega

theorem bigEndian_le_iff {n x y : ℕ} (hx : x < 256 ^ n) (hy : y < 256 ^ n) :
    bigEndian n x ≤ bigEndian n y ↔ x ≤ y := by
  rw [← List.not_lt, lt_iff_value_lt (by simp), value_bigEndian_of_lt hx, value_bigEndian_of_lt hy,
    Nat.not_lt]

/-- Masking octet by octet is masking the number. -/
theorem zipWith_and_bigEndian (n x y : ℕ) :
    List.zipWith (· &&& ·) (bigEndian n x) (bigEndian n y) = bigEndian n (x &&& y) := by
  induction n with
  | zero => rfl
  | succ n ih =>
    have h256 : (256 : ℕ) ^ n = 2 ^ (8 * n) := by rw [Nat.pow_mul]
    simp only [bigEndian, List.zipWith_cons_cons, ih, h256, Nat.and_div_two_pow, UInt8.ofNat_and]

/-- The octets of `x` in the byte order of a little-endian host. -/
def hostEndian (n x : ℕ) : List UInt8 := (bigEndian n x).reverse

@[simp] theorem hostEndian_length (n x : ℕ) : (hostEndian n x).length = n := by
  simp [hostEndian]

theorem hostEndian_inj {n x y : ℕ} (hx : x < 256 ^ n) (hy : y < 256 ^ n) :
    hostEndian n x = hostEndian n y ↔ x = y := by
  rw [hostEndian, hostEndian, List.reverse_inj, bigEndian_inj hx hy]

theorem zipWith_and_hostEndian (n x y : ℕ) :
    List.zipWith (· &&& ·) (hostEndian n x) (hostEndian n y) = hostEndian n (x &&& y) := by
  rw [hostEndian, hostEndian, ← List.reverse_zipWith (by simp), zipWith_and_bigEndian, hostEndian]

/-- Combining with an all-zero string changes nothing. -/
theorem zipWith_xor_zero (bs : List UInt8) :
    List.zipWith (· ^^^ ·) bs (List.replicate bs.length 0) = bs := by
  induction bs with
  | nil => rfl
  | cons b bs ih => simp [List.replicate_succ, ih]

end Octets
