import Mathlib.Algebra.Group.Nat.Defs
import Mathlib.Data.Nat.Find

/-! SHA-256 as FIPS 180-4 defines it, for messages of whole bytes: the functions on 32-bit words, the
    constants as fractional parts of roots of primes, the padded message, and the hash of its blocks. -/

namespace Zith.Lib.Sha256

abbrev Word := BitVec 32

/-! ### Functions on words -/

def Ch (x y z : Word) : Word := (x &&& y) ^^^ (~~~x &&& z)

def Maj (x y z : Word) : Word := (x &&& y) ^^^ (x &&& z) ^^^ (y &&& z)

def bigSigma0 (x : Word) : Word := x.rotateRight 2 ^^^ x.rotateRight 13 ^^^ x.rotateRight 22

def bigSigma1 (x : Word) : Word := x.rotateRight 6 ^^^ x.rotateRight 11 ^^^ x.rotateRight 25

def smallSigma0 (x : Word) : Word := x.rotateRight 7 ^^^ x.rotateRight 18 ^^^ x >>> 3

def smallSigma1 (x : Word) : Word := x.rotateRight 17 ^^^ x.rotateRight 19 ^^^ x >>> 10

/-! ### Constants -/

/-- The eight working variables, and the eight words of a hash value. -/
structure Working (α : Type) where
  a : α
  b : α
  c : α
  d : α
  e : α
  f : α
  g : α
  h : α
  deriving DecidableEq, Repr

def Working.map {α β : Type} (φ : α → β) (s : Working α) : Working β :=
  ⟨φ s.a, φ s.b, φ s.c, φ s.d, φ s.e, φ s.f, φ s.g, φ s.h⟩

def Working.toList {α : Type} (s : Working α) : List α := [s.a, s.b, s.c, s.d, s.e, s.f, s.g, s.h]

/-- The first sixty-four primes, by trial division: the square of 17 is the last below 312. -/
def primes : List ℕ :=
  (List.range 312).filter fun n => 1 < n && [2, 3, 5, 7, 11, 13, 17].all fun d => n == d || n % d != 0

/-- The word is the first thirty-two bits of the fractional part of the `k`-th root of `p`. -/
def IsFraction (k p : ℕ) (w : Word) : Prop :=
  ∃ whole < p, (whole * 2 ^ 32 + w.toNat) ^ k ≤ p * 2 ^ (32 * k) ∧ p * 2 ^ (32 * k) < (whole * 2 ^ 32 + w.toNat + 1) ^ k

instance (k p : ℕ) (w : Word) : Decidable (IsFraction k p w) := inferInstanceAs (Decidable (∃ whole < p, _ ∧ _))

/-- The round constants and the initial hash value, which the primes determine. -/
structure Constants where
  K : List Word
  H : Working Word
  primes_length : primes.length = 64
  K_length : K.length = 64
  cubeRoots : ∀ c ∈ primes.zip K, IsFraction 3 c.1 c.2
  squareRoots : ∀ c ∈ primes.zip H.toList, IsFraction 2 c.1 c.2

def constants : Constants where
  K :=
    [0x428a2f98, 0x71374491, 0xb5c0fbcf, 0xe9b5dba5, 0x3956c25b, 0x59f111f1, 0x923f82a4, 0xab1c5ed5,
      0xd807aa98, 0x12835b01, 0x243185be, 0x550c7dc3, 0x72be5d74, 0x80deb1fe, 0x9bdc06a7, 0xc19bf174,
      0xe49b69c1, 0xefbe4786, 0x0fc19dc6, 0x240ca1cc, 0x2de92c6f, 0x4a7484aa, 0x5cb0a9dc, 0x76f988da,
      0x983e5152, 0xa831c66d, 0xb00327c8, 0xbf597fc7, 0xc6e00bf3, 0xd5a79147, 0x06ca6351, 0x14292967,
      0x27b70a85, 0x2e1b2138, 0x4d2c6dfc, 0x53380d13, 0x650a7354, 0x766a0abb, 0x81c2c92e, 0x92722c85,
      0xa2bfe8a1, 0xa81a664b, 0xc24b8b70, 0xc76c51a3, 0xd192e819, 0xd6990624, 0xf40e3585, 0x106aa070,
      0x19a4c116, 0x1e376c08, 0x2748774c, 0x34b0bcb5, 0x391c0cb3, 0x4ed8aa4a, 0x5b9cca4f, 0x682e6ff3,
      0x748f82ee, 0x78a5636f, 0x84c87814, 0x8cc70208, 0x90befffa, 0xa4506ceb, 0xbef9a3f7, 0xc67178f2]
  H := ⟨0x6a09e667, 0xbb67ae85, 0x3c6ef372, 0xa54ff53a, 0x510e527f, 0x9b05688c, 0x1f83d9ab, 0x5be0cd19⟩
  primes_length := by decide +kernel
  K_length := rfl
  cubeRoots := by decide +kernel
  squareRoots := by decide +kernel

/-! ### Padding -/

/-- Some number of zero bytes leaves eight bytes of a block for the length. -/
theorem exists_zeros (length : ℕ) : ∃ zeros, (length + 1 + zeros) % 64 = 56 :=
  ⟨64 * (length + 1) + 56 - (length + 1), by omega⟩

/-- The least such number. -/
def zeros (length : ℕ) : ℕ := Nat.find (exists_zeros length)

theorem zeros_eq {length n : ℕ} (h : (length + 1 + n) % 64 = 56) (hlt : n < 64) : zeros length = n := by
  refine (Nat.find_eq_iff _).mpr ⟨h, fun m hm => ?_⟩
  omega

/-- A number as eight bytes, the most significant one first. -/
def bigEndian64 (n : ℕ) : List UInt8 := (List.range 8).map fun i => UInt8.ofNat (n / 2 ^ (8 * (7 - i)))

/-- The message, a one bit, the least number of zero bits, and the length in bits. -/
def pad (message : List UInt8) : List UInt8 :=
  message ++ 0x80 :: List.replicate (zeros message.length) 0 ++ bigEndian64 (8 * message.length)

/-- The 512-bit blocks of a padded message. -/
def blocks (padded : List UInt8) : List (List UInt8) :=
  (List.range (padded.length / 64)).map fun i => (padded.drop (64 * i)).take 64

/-! ### The hash -/

/-- The word `t` of a block. -/
def blockWord (block : List UInt8) (t : ℕ) : Word :=
  (block.getD (4 * t) 0).toBitVec ++ (block.getD (4 * t + 1) 0).toBitVec ++ (block.getD (4 * t + 2) 0).toBitVec ++
    (block.getD (4 * t + 3) 0).toBitVec

/-- The message schedule. -/
def schedule (block : List UInt8) (t : ℕ) : Word :=
  if t < 16 then blockWord block t
  else smallSigma1 (schedule block (t - 2)) + schedule block (t - 7) + smallSigma0 (schedule block (t - 15)) +
    schedule block (t - 16)

def round (K W : Word) (s : Working Word) : Working Word :=
  let T₁ := s.h + bigSigma1 s.e + Ch s.e s.f s.g + K + W
  let T₂ := bigSigma0 s.a + Maj s.a s.b s.c
  ⟨T₁ + T₂, s.a, s.b, s.c, s.d + T₁, s.e, s.f, s.g⟩

def add (s t : Working Word) : Working Word :=
  ⟨s.a + t.a, s.b + t.b, s.c + t.c, s.d + t.d, s.e + t.e, s.f + t.f, s.g + t.g, s.h + t.h⟩

/-- The next intermediate hash value. -/
def compress (H : Working Word) (block : List UInt8) : Working Word :=
  add ((List.range 64).foldl (fun s t => round (constants.K.getD t 0) (schedule block t) s) H) H

def hash (message : List UInt8) : Working Word := (blocks (pad message)).foldl compress constants.H

/-- The hash value as bytes. -/
def digest (H : Working Word) : List UInt8 :=
  H.toList.flatMap fun w => (List.range 4).map fun i => UInt8.ofNat (w.toNat / 2 ^ (8 * (3 - i)))

/-- A byte as two lowercase hexadecimal digits. -/
def hexByte (b : UInt8) : List Char := [Nat.digitChar (b.toNat / 16), Nat.digitChar (b.toNat % 16)]

def hex (bytes : List UInt8) : List Char := bytes.flatMap hexByte

end Zith.Lib.Sha256
