import Portalis.Octets

/-!
# SHA-256

The digest of octet strings: the padding, the schedule of words, the rounds over each block.  Words are
numbers, and sums of them are taken below `2 ^ 32`.

* `length_digest`: a digest has 32 octets.
-/

namespace Sha256

open Octets

/-- The constants of the rounds. -/
def roundConstants : List ℕ :=
  [0x428a2f98, 0x71374491, 0xb5c0fbcf, 0xe9b5dba5, 0x3956c25b, 0x59f111f1, 0x923f82a4, 0xab1c5ed5,
    0xd807aa98, 0x12835b01, 0x243185be, 0x550c7dc3, 0x72be5d74, 0x80deb1fe, 0x9bdc06a7, 0xc19bf174,
    0xe49b69c1, 0xefbe4786, 0x0fc19dc6, 0x240ca1cc, 0x2de92c6f, 0x4a7484aa, 0x5cb0a9dc, 0x76f988da,
    0x983e5152, 0xa831c66d, 0xb00327c8, 0xbf597fc7, 0xc6e00bf3, 0xd5a79147, 0x06ca6351, 0x14292967,
    0x27b70a85, 0x2e1b2138, 0x4d2c6dfc, 0x53380d13, 0x650a7354, 0x766a0abb, 0x81c2c92e, 0x92722c85,
    0xa2bfe8a1, 0xa81a664b, 0xc24b8b70, 0xc76c51a3, 0xd192e819, 0xd6990624, 0xf40e3585, 0x106aa070,
    0x19a4c116, 0x1e376c08, 0x2748774c, 0x34b0bcb5, 0x391c0cb3, 0x4ed8aa4a, 0x5b9cca4f, 0x682e6ff3,
    0x748f82ee, 0x78a5636f, 0x84c87814, 0x8cc70208, 0x90befffa, 0xa4506ceb, 0xbef9a3f7, 0xc67178f2]

structure HashState where
  a : ℕ
  b : ℕ
  c : ℕ
  d : ℕ
  e : ℕ
  f : ℕ
  g : ℕ
  h : ℕ

/-- The state before the first block. -/
def initialState : HashState :=
  ⟨0x6a09e667, 0xbb67ae85, 0x3c6ef372, 0xa54ff53a, 0x510e527f, 0x9b05688c, 0x1f83d9ab, 0x5be0cd19⟩

def addWord (x y : ℕ) : ℕ := (x + y) % 2 ^ 32

def rotateRight (n x : ℕ) : ℕ := x >>> n ||| x <<< (32 - n) % 2 ^ 32

/-- The bits of `y` where `x` has a bit, and those of `z` elsewhere. -/
def choose (x y z : ℕ) : ℕ := (x &&& y) ^^^ ((2 ^ 32 - 1 - x) &&& z)

def majority (x y z : ℕ) : ℕ := (x &&& y) ^^^ (x &&& z) ^^^ (y &&& z)

def round (constant word : ℕ) (s : HashState) : HashState :=
  let sum1 := rotateRight 6 s.e ^^^ rotateRight 11 s.e ^^^ rotateRight 25 s.e
  let sum0 := rotateRight 2 s.a ^^^ rotateRight 13 s.a ^^^ rotateRight 22 s.a
  let temporary := s.h + sum1 + choose s.e s.f s.g + constant + word
  ⟨addWord temporary (sum0 + majority s.a s.b s.c), s.a, s.b, s.c, addWord s.d temporary, s.e, s.f, s.g⟩

/-- The word after a window of sixteen. -/
def nextWord (window : List ℕ) : ℕ :=
  let small0 := fun x => rotateRight 7 x ^^^ rotateRight 18 x ^^^ x >>> 3
  let small1 := fun x => rotateRight 17 x ^^^ rotateRight 19 x ^^^ x >>> 10
  addWord (small1 (window.getD 14 0) + window.getD 9 0) (small0 (window.getD 1 0) + window.getD 0 0)

/-- The rounds of the constants; the first word of the window is the next one. -/
def rounds : List ℕ → List ℕ → HashState → HashState
  | [], _, s => s
  | constant :: constants, window, s =>
    rounds constants (window.tail ++ [nextWord window]) (round constant (window.getD 0 0) s)

def compress (block : List ℕ) (s : HashState) : HashState :=
  let t := rounds roundConstants block s
  ⟨addWord s.a t.a, addWord s.b t.b, addWord s.c t.c, addWord s.d t.d, addWord s.e t.e, addWord s.f t.f,
    addWord s.g t.g, addWord s.h t.h⟩

/-- A bit, as many zeros as fill the last block, and the number of bits. -/
def padded (bytes : List UInt8) : List UInt8 :=
  bytes ++ 0x80 :: (List.replicate ((119 - bytes.length % 64) % 64) 0 ++ bigEndian 8 (8 * bytes.length))

def words : List UInt8 → List ℕ
  | a :: b :: c :: d :: rest => value [a, b, c, d] :: words rest
  | _ => []

/-- `n` blocks of sixteen words. -/
def absorb : ℕ → List ℕ → HashState → HashState
  | 0, _, s => s
  | n + 1, ws, s => absorb n (ws.drop 16) (compress (ws.take 16) s)

def digest (bytes : List UInt8) : List UInt8 :=
  let ws := words (padded bytes)
  let s := absorb (ws.length / 16) ws initialState
  [s.a, s.b, s.c, s.d, s.e, s.f, s.g, s.h].flatMap (bigEndian 4)

/-- **A digest has 32 octets.** -/
theorem length_digest (bytes : List UInt8) : (digest bytes).length = 32 := by
  unfold digest
  simp only [List.flatMap_cons, List.flatMap_nil, List.length_append, bigEndian_length, List.length_nil]

/-- The digest of `abc`. -/
example : digest [0x61, 0x62, 0x63] =
    bigEndian 32 0xba7816bf8f01cfea414140de5dae2223b00361a396177a9cb410ff61f20015ad := by
  decide +kernel

end Sha256
