import Mathlib.Algebra.Ring.Nat
import Shyake.Lib.Bytes

/-!
# SHA-1 and SHA-256

The two hash functions of Go's `crypto/sha1` and `crypto/sha256` (FIPS 180-4),
as functions of byte strings. The proofs of this development never look inside
them; they are defined so that a concrete request can be evaluated, and words
are naturals below `2 ^ 32` because the kernel is fast on those.
-/

namespace Shyake.Lib.Sha

def add (x y : Nat) : Nat := (x + y) % 2 ^ 32
def rotl (x n : Nat) : Nat := (x <<< n) % 2 ^ 32 ||| x >>> (32 - n)
def rotr (x n : Nat) : Nat := x >>> n ||| (x <<< (32 - n)) % 2 ^ 32
def not (x : Nat) : Nat := x ^^^ (2 ^ 32 - 1)

/-- Big-endian words; a last partial word is dropped. -/
def wordsOf : Bytes → List Nat
  | a :: b :: c :: d :: rest =>
    (((a.toNat * 256 + b.toNat) * 256 + c.toNat) * 256 + d.toNat) :: wordsOf rest
  | _ => []

/-- The `k` low bytes of `n`, the most significant first. -/
def bigEndian (n : Nat) : Nat → Bytes
  | 0 => []
  | k + 1 => UInt8.ofNat (n / 256 ^ k) :: bigEndian n k

/-- One bit, zeros, and the length in bits: whole blocks of 64 bytes. -/
def pad (m : Bytes) : Bytes :=
  m ++ 0x80 :: List.replicate ((119 - m.length % 64) % 64) 0 ++ bigEndian (8 * m.length) 8

/-- Blocks of sixteen words. -/
def chunk16 : List Nat → List (List Nat)
  | w₀ :: w₁ :: w₂ :: w₃ :: w₄ :: w₅ :: w₆ :: w₇ :: w₈ :: w₉ :: w₁₀ :: w₁₁ :: w₁₂ :: w₁₃ :: w₁₄ :: w₁₅ :: rest =>
    [w₀, w₁, w₂, w₃, w₄, w₅, w₆, w₇, w₈, w₉, w₁₀, w₁₁, w₁₂, w₁₃, w₁₄, w₁₅] :: chunk16 rest
  | _ => []

/-- Extend a message schedule, kept newest first, by `n` words. -/
def extend (next : List Nat → Nat) : Nat → List Nat → List Nat
  | 0, ws => ws
  | n + 1, ws => extend next n (next ws :: ws)

/-! ## SHA-1 -/

structure State1 where
  (a b c d e : Nat)

def next1 : List Nat → Nat
  | _ :: _ :: w₁₃ :: _ :: _ :: _ :: _ :: w₈ :: _ :: _ :: _ :: _ :: _ :: w₂ :: _ :: w₀ :: _ =>
    rotl (w₁₃ ^^^ w₈ ^^^ w₂ ^^^ w₀) 1
  | _ => 0

/-- The round function and the constant of round `t`. -/
def round1 (t b c d : Nat) : Nat :=
  if t < 20 then (b &&& c ||| not b &&& d) + 0x5a827999
  else if t < 40 then (b ^^^ c ^^^ d) + 0x6ed9eba1
  else if t < 60 then (b &&& c ||| b &&& d ||| c &&& d) + 0x8f1bbcdc
  else (b ^^^ c ^^^ d) + 0xca62c1d6

def rounds1 : Nat → List Nat → State1 → State1
  | _, [], s => s
  | t, w :: ws, s =>
    rounds1 (t + 1) ws
      ⟨add (rotl s.a 5 + round1 t s.b s.c s.d + s.e) w, s.a, rotl s.b 30, s.c, s.d⟩

def compress1 (s : State1) (block : List Nat) : State1 :=
  let r := rounds1 0 (extend next1 64 block.reverse).reverse s
  ⟨add s.a r.a, add s.b r.b, add s.c r.c, add s.d r.d, add s.e r.e⟩

/-! ## SHA-256 -/

structure State256 where
  (a b c d e f g h : Nat)

def constants256 : List Nat :=
  [0x428a2f98, 0x71374491, 0xb5c0fbcf, 0xe9b5dba5, 0x3956c25b, 0x59f111f1, 0x923f82a4, 0xab1c5ed5,
   0xd807aa98, 0x12835b01, 0x243185be, 0x550c7dc3, 0x72be5d74, 0x80deb1fe, 0x9bdc06a7, 0xc19bf174,
   0xe49b69c1, 0xefbe4786, 0x0fc19dc6, 0x240ca1cc, 0x2de92c6f, 0x4a7484aa, 0x5cb0a9dc, 0x76f988da,
   0x983e5152, 0xa831c66d, 0xb00327c8, 0xbf597fc7, 0xc6e00bf3, 0xd5a79147, 0x06ca6351, 0x14292967,
   0x27b70a85, 0x2e1b2138, 0x4d2c6dfc, 0x53380d13, 0x650a7354, 0x766a0abb, 0x81c2c92e, 0x92722c85,
   0xa2bfe8a1, 0xa81a664b, 0xc24b8b70, 0xc76c51a3, 0xd192e819, 0xd6990624, 0xf40e3585, 0x106aa070,
   0x19a4c116, 0x1e376c08, 0x2748774c, 0x34b0bcb5, 0x391c0cb3, 0x4ed8aa4a, 0x5b9cca4f, 0x682e6ff3,
   0x748f82ee, 0x78a5636f, 0x84c87814, 0x8cc70208, 0x90befffa, 0xa4506ceb, 0xbef9a3f7, 0xc67178f2]

def next256 : List Nat → Nat
  | _ :: w₁₄ :: _ :: _ :: _ :: _ :: w₉ :: _ :: _ :: _ :: _ :: _ :: _ :: _ :: w₁ :: w₀ :: _ =>
    let s₀ := rotr w₁ 7 ^^^ rotr w₁ 18 ^^^ w₁ >>> 3
    let s₁ := rotr w₁₄ 17 ^^^ rotr w₁₄ 19 ^^^ w₁₄ >>> 10
    add (w₀ + s₀ + w₉) s₁
  | _ => 0

def rounds256 : List Nat → List Nat → State256 → State256
  | k :: ks, w :: ws, ⟨a, b, c, d, e, f, g, h⟩ =>
    let t₁ := h + (rotr e 6 ^^^ rotr e 11 ^^^ rotr e 25) + (e &&& f ^^^ not e &&& g) + k + w
    let t₂ := (rotr a 2 ^^^ rotr a 13 ^^^ rotr a 22) + (a &&& b ^^^ a &&& c ^^^ b &&& c)
    rounds256 ks ws ⟨add t₁ t₂, a, b, c, add d t₁, e, f, g⟩
  | _, _, s => s

def compress256 (s : State256) (block : List Nat) : State256 :=
  let r := rounds256 constants256 (extend next256 48 block.reverse).reverse s
  ⟨add s.a r.a, add s.b r.b, add s.c r.c, add s.d r.d,
   add s.e r.e, add s.f r.f, add s.g r.g, add s.h r.h⟩

theorem length_bigEndian (n k : Nat) : (bigEndian n k).length = k := by
  induction k with
  | zero => rfl
  | succ k ih => simp [bigEndian, ih]

end Sha

/-- `sha1.Sum`. -/
@[irreducible] def sha1 (m : Bytes) : Bytes :=
  let s := (Sha.chunk16 (Sha.wordsOf (Sha.pad m))).foldl Sha.compress1
    ⟨0x67452301, 0xefcdab89, 0x98badcfe, 0x10325476, 0xc3d2e1f0⟩
  [s.a, s.b, s.c, s.d, s.e].flatMap fun w => Sha.bigEndian w 4

/-- `sha256.Sum256`. -/
@[irreducible] def sha256 (m : Bytes) : Bytes :=
  let s := (Sha.chunk16 (Sha.wordsOf (Sha.pad m))).foldl Sha.compress256
    ⟨0x6a09e667, 0xbb67ae85, 0x3c6ef372, 0xa54ff53a, 0x510e527f, 0x9b05688c, 0x1f83d9ab, 0x5be0cd19⟩
  [s.a, s.b, s.c, s.d, s.e, s.f, s.g, s.h].flatMap fun w => Sha.bigEndian w 4

/-- A SHA-256 digest has 32 bytes. -/
theorem length_sha256 (m : Bytes) : (sha256 m).length = 32 := by
  unfold sha256
  simp [Sha.length_bigEndian]

/-- A SHA-1 digest has 20 bytes. -/
theorem length_sha1 (m : Bytes) : (sha1 m).length = 20 := by
  unfold sha1
  simp [Sha.length_bigEndian]

end Shyake.Lib
