import Zith.Lib.Sha256

/-! `sha256Hex`, the digest that guards the lockfile: whole blocks straight from the input, then one or two
    blocks from a tail of 128 bytes that holds the rest, the byte `0x80` and the length in bits.

        tailSize < 56     rest 80 0 … 0 length | (unused)
        tailSize ≥ 56     rest 80 0 …  0 | 0 …  0 length                                        -/

namespace Zith.Packages
open Lib.Sha256 (Working)

def kRoundConstants : List UInt32 :=
  [0x428a2f98, 0x71374491, 0xb5c0fbcf, 0xe9b5dba5, 0x3956c25b, 0x59f111f1, 0x923f82a4, 0xab1c5ed5,
    0xd807aa98, 0x12835b01, 0x243185be, 0x550c7dc3, 0x72be5d74, 0x80deb1fe, 0x9bdc06a7, 0xc19bf174,
    0xe49b69c1, 0xefbe4786, 0x0fc19dc6, 0x240ca1cc, 0x2de92c6f, 0x4a7484aa, 0x5cb0a9dc, 0x76f988da,
    0x983e5152, 0xa831c66d, 0xb00327c8, 0xbf597fc7, 0xc6e00bf3, 0xd5a79147, 0x06ca6351, 0x14292967,
    0x27b70a85, 0x2e1b2138, 0x4d2c6dfc, 0x53380d13, 0x650a7354, 0x766a0abb, 0x81c2c92e, 0x92722c85,
    0xa2bfe8a1, 0xa81a664b, 0xc24b8b70, 0xc76c51a3, 0xd192e819, 0xd6990624, 0xf40e3585, 0x106aa070,
    0x19a4c116, 0x1e376c08, 0x2748774c, 0x34b0bcb5, 0x391c0cb3, 0x4ed8aa4a, 0x5b9cca4f, 0x682e6ff3,
    0x748f82ee, 0x78a5636f, 0x84c87814, 0x8cc70208, 0x90befffa, 0xa4506ceb, 0xbef9a3f7, 0xc67178f2]

abbrev State := Working UInt32

/-- `std::rotr` by a count between 0 and 32. -/
def rotr (x count : UInt32) : UInt32 := (x >>> count) ||| (x <<< (32 - count))

/-- The first loop of `compress`: a word from four bytes of the block. -/
def loadWord (block : List UInt8) (index : ℕ) : UInt32 :=
  let offset := index * 4
  ((block.getD offset 0).toUInt32 <<< 24) ||| ((block.getD (offset + 1) 0).toUInt32 <<< 16) |||
    ((block.getD (offset + 2) 0).toUInt32 <<< 8) ||| (block.getD (offset + 3) 0).toUInt32

/-- The second loop of `compress`: a word from earlier ones. -/
def extendWord (words : List UInt32) (index : ℕ) : UInt32 :=
  let x := words.getD (index - 15) 0
  let y := words.getD (index - 2) 0
  let sigma0 := rotr x 7 ^^^ rotr x 18 ^^^ (x >>> 3)
  let sigma1 := rotr y 17 ^^^ rotr y 19 ^^^ (y >>> 10)
  words.getD (index - 16) 0 + sigma0 + words.getD (index - 7) 0 + sigma1

def loadWords (block : List UInt8) : List UInt32 :=
  (List.range 16).foldl (fun words index => words.set index (loadWord block index)) (List.replicate 64 0)

def extendWords (words : List UInt32) (count : ℕ) : List UInt32 :=
  (List.range count).foldl (fun words i => words.set (16 + i) (extendWord words (16 + i))) words

/-- The third loop of `compress`. -/
def compressRound (words : List UInt32) (s : State) (index : ℕ) : State :=
  let sum1 := rotr s.e 6 ^^^ rotr s.e 11 ^^^ rotr s.e 25
  let choice := (s.e &&& s.f) ^^^ (~~~s.e &&& s.g)
  let temp1 := s.h + sum1 + choice + kRoundConstants.getD index 0 + words.getD index 0
  let sum0 := rotr s.a 2 ^^^ rotr s.a 13 ^^^ rotr s.a 22
  let majority := (s.a &&& s.b) ^^^ (s.a &&& s.c) ^^^ (s.b &&& s.c)
  let temp2 := sum0 + majority
  ⟨temp1 + temp2, s.a, s.b, s.c, s.d + temp1, s.e, s.f, s.g⟩

def compress (state : State) (block : List UInt8) : State :=
  let words := extendWords (loadWords block) 48
  let s := (List.range 64).foldl (compressRound words) state
  ⟨state.a + s.a, state.b + s.b, state.c + s.c, state.d + s.d, state.e + s.e, state.f + s.f, state.g + s.g,
    state.h + s.h⟩

def copyBlock (input : List UInt8) (offset : ℕ) : List UInt8 :=
  (List.range 64).map fun index => input.getD (offset + index) 0

def initialState : State :=
  ⟨0x6a09e667, 0xbb67ae85, 0x3c6ef372, 0xa54ff53a, 0x510e527f, 0x9b05688c, 0x1f83d9ab, 0x5be0cd19⟩

/-- The loop over the whole blocks of the input, with the offset behind them. -/
def compressInput (input : List UInt8) : ℕ → State → ℕ → State × ℕ
  | 0, state, offset => (state, offset)
  | fuel + 1, state, offset =>
    if input.length - offset ≥ 64 then
      compressInput input fuel (compress state (copyBlock input offset)) (offset + 64)
    else (state, offset)

def paddedSize (tailSize : ℕ) : ℕ := if tailSize < 56 then 64 else 128

/-- The bytes of `tail`. -/
def fillTail (input : List UInt8) (offset : ℕ) : List UInt8 :=
  let tailSize := input.length - offset
  let tail := (List.range tailSize).foldl (fun tail index => tail.set index (input.getD (offset + index) 0))
    (List.replicate 128 0)
  let tail := tail.set tailSize 0x80
  let bitLength : UInt64 := UInt64.ofNat input.length * 8
  (List.range 8).foldl
    (fun tail index =>
      tail.set (paddedSize tailSize - 1 - index) (bitLength >>> UInt64.ofNat (index * 8)).toUInt8) tail

def kHexDigits : List Char := "0123456789abcdef".toList

def hexWord (word : UInt32) : List Char :=
  (List.range 8).map fun nibble =>
    kHexDigits.getD ((word >>> UInt32.ofNat ((7 - nibble) * 4)) &&& 0x0f).toNat '0'

/-- The state that `sha256Hex` prints. -/
def finalState (input : List UInt8) : State :=
  -- a round of the loop takes 64 bytes, so there are no more rounds than bytes
  let (state, offset) := compressInput input input.length initialState 0
  let tail := fillTail input offset
  (List.range (paddedSize (input.length - offset) / 64)).foldl
    (fun state i => compress state (copyBlock tail (64 * i))) state

def sha256Hex (input : List UInt8) : List Char := (finalState input).toList.flatMap hexWord

end Zith.Packages

/-! `sha256Hex` computes SHA-256. `compress` is the compression of the standard, word by word and round by
    round; the blocks it is given are those of the padded message, whatever the length leaves modulo 64. -/

namespace Zith.Packages
open Lib
open Lib.Sha256 (Working Word)

/-! ### Words -/

theorem append_bytes (b₀ b₁ b₂ b₃ : BitVec 8) :
    b₀ ++ b₁ ++ b₂ ++ b₃ = b₀.setWidth 32 <<< 24 ||| b₁.setWidth 32 <<< 16 ||| b₂.setWidth 32 <<< 8 |||
      b₃.setWidth 32 := by
  have hshift : ∀ (b : BitVec 8) (n : ℕ), n ≤ 24 → (b.setWidth 32 <<< n).toNat = b.toNat <<< n := by
    intro b n hn
    have hlt : b.toNat * 2 ^ n < 2 ^ 32 := calc
      b.toNat * 2 ^ n < 2 ^ 8 * 2 ^ n := Nat.mul_lt_mul_of_pos_right b.isLt (Nat.two_pow_pos n)
      _ ≤ 2 ^ 8 * 2 ^ 24 := Nat.mul_le_mul_left _ (Nat.pow_le_pow_right (by decide) hn)
    have hb := b.isLt
    rw [BitVec.toNat_shiftLeft, BitVec.toNat_setWidth,
      Nat.mod_eq_of_lt (show b.toNat < 2 ^ 32 by omega), Nat.shiftLeft_eq, Nat.mod_eq_of_lt hlt]
  apply BitVec.eq_of_toNat_eq
  have h₃ := hshift b₃ 0 (by decide)
  rw [BitVec.shiftLeft_zero, Nat.shiftLeft_zero] at h₃
  simp only [BitVec.toNat_append, BitVec.toNat_or, hshift _ _ (Nat.le_refl 24), hshift _ 16 (by decide),
    hshift _ 8 (by decide), h₃, Nat.shiftLeft_or_distrib, ← Nat.shiftLeft_add]

theorem toBitVec_loadWord (block : List UInt8) (t : ℕ) : (loadWord block t).toBitVec = Sha256.blockWord block t := by
  rw [loadWord, Sha256.blockWord, Nat.mul_comm, append_bytes]
  rfl

theorem toBitVec_extendWord (words : List UInt32) (t : ℕ) : (extendWord words t).toBitVec =
      (words.getD (t - 16) 0).toBitVec + Sha256.smallSigma0 (words.getD (t - 15) 0).toBitVec +
        (words.getD (t - 7) 0).toBitVec + Sha256.smallSigma1 (words.getD (t - 2) 0).toBitVec := rfl

/-! ### Lists written index by index -/

section
variable {α : Type*} {f : ℕ → ℕ} {g : ℕ → α}

theorem length_foldl_set (n : ℕ) (l : List α) :
    ((List.range n).foldl (fun l i => l.set (f i) (g i)) l).length = l.length := by
  induction n with
  | zero => rfl
  | succ n ih => rw [List.range_succ, List.foldl_append, List.foldl_cons, List.foldl_nil, List.length_set, ih]

/-- A place that no round writes. -/
theorem foldl_set_of_ne {n j : ℕ} (l : List α) (hne : ∀ i < n, f i ≠ j) :
    ((List.range n).foldl (fun l i => l.set (f i) (g i)) l)[j]? = l[j]? := by
  induction n with
  | zero => rfl
  | succ n ih =>
    rw [List.range_succ, List.foldl_append, List.foldl_cons, List.foldl_nil,
      List.getElem?_set_ne (hne n (Nat.lt_succ_self n)), ih fun i hi => hne i (Nat.lt_succ_of_lt hi)]

/-- A place that one round writes. -/
theorem foldl_set_at {n i : ℕ} (l : List α) (hf : ∀ i < n, ∀ j < n, f i = f j → i = j) (hi : i < n)
    (hlt : f i < l.length) : ((List.range n).foldl (fun l i => l.set (f i) (g i)) l)[f i]? = some (g i) := by
  induction n with
  | zero => exact absurd hi (Nat.not_lt_zero i)
  | succ n ih =>
    rw [List.range_succ, List.foldl_append, List.foldl_cons, List.foldl_nil]
    by_cases hin : i = n
    · subst hin
      rw [List.getElem?_set_self (by rw [length_foldl_set]; exact hlt)]
    · have hlt' : i < n := by omega
      rw [List.getElem?_set_ne fun heq => hin (hf n (by omega) i hi heq).symm]
      exact ih (fun i hi j hj => hf i (by omega) j (by omega)) hlt'

end

/-! ### Compression -/

/-- The first `n` words are those of the message schedule. -/
structure Scheduled (block : List UInt8) (words : List UInt32) (n : ℕ) : Prop where
  length : words.length = 64
  word : ∀ t < n, (words.getD t 0).toBitVec = Sha256.schedule block t

theorem scheduled_loadWords (block : List UInt8) : Scheduled block (loadWords block) 16 where
  length := by rw [loadWords, length_foldl_set, List.length_replicate]
  word t ht := by
    have hat := foldl_set_at (f := fun i => i) (g := loadWord block) (List.replicate 64 0)
      (fun i _ j _ h => h) ht (by rw [List.length_replicate]; omega)
    rw [loadWords, List.getD_eq_getElem?_getD, hat, Option.getD_some, toBitVec_loadWord, Sha256.schedule, if_pos ht]

theorem extendWords_succ (words : List UInt32) (n : ℕ) :
    extendWords words (n + 1) = (extendWords words n).set (16 + n) (extendWord (extendWords words n) (16 + n)) := by
  rw [extendWords, List.range_succ, List.foldl_append]
  rfl

theorem Scheduled.extend {block : List UInt8} {words : List UInt32} (h : Scheduled block words 16) :
    ∀ {n : ℕ}, n ≤ 48 → Scheduled block (extendWords words n) (16 + n)
  | 0, _ => h
  | n + 1, hn => by
    have ih := h.extend (n := n) (by omega)
    rw [extendWords_succ]
    refine ⟨by rw [List.length_set, ih.length], fun t ht => ?_⟩
    by_cases hlast : t = 16 + n
    · subst hlast
      rw [List.getD_eq_getElem?_getD, List.getElem?_set_self (by rw [ih.length]; omega), Option.getD_some,
        toBitVec_extendWord, ih.word _ (by omega), ih.word _ (by omega), ih.word _ (by omega),
        ih.word _ (by omega), Sha256.schedule.eq_1 block (16 + n), if_neg (by omega)]
      ac_rfl
    · rw [List.getD_eq_getElem?_getD, List.getElem?_set_ne (Ne.symm hlast), ← List.getD_eq_getElem?_getD]
      exact ih.word t (by omega)

theorem kRoundConstants_eq : kRoundConstants.map UInt32.toBitVec = Sha256.constants.K := by decide

theorem toBitVec_kRoundConstants (t : ℕ) : (kRoundConstants.getD t 0).toBitVec = Sha256.constants.K.getD t 0 := by
  rw [← kRoundConstants_eq, List.getD_eq_getElem?_getD, List.getD_eq_getElem?_getD, List.getElem?_map]
  cases kRoundConstants[t]? <;> rfl

/-- One round. -/
theorem compressRound_map {block : List UInt8} {words : List UInt32} (h : Scheduled block words 64) (s : State)
    {t : ℕ} (ht : t < 64) : (compressRound words s t).map UInt32.toBitVec =
      Sha256.round (Sha256.constants.K.getD t 0) (Sha256.schedule block t) (s.map UInt32.toBitVec) := by
  rw [← h.word t ht, ← toBitVec_kRoundConstants]
  rfl

/-- All rounds. -/
theorem rounds_map {block : List UInt8} {words : List UInt32} (h : Scheduled block words 64) (s : State) :
    ∀ {n : ℕ}, n ≤ 64 → ((List.range n).foldl (compressRound words) s).map UInt32.toBitVec =
      (List.range n).foldl (fun s t => Sha256.round (Sha256.constants.K.getD t 0) (Sha256.schedule block t) s)
        (s.map UInt32.toBitVec)
  | 0, _ => rfl
  | n + 1, hn => by
    rw [List.range_succ, List.foldl_append, List.foldl_append, List.foldl_cons, List.foldl_nil,
      compressRound_map h _ (by omega), rounds_map h s (by omega)]
    rfl

theorem compress_map (s : State) (block : List UInt8) :
    (compress s block).map UInt32.toBitVec = Sha256.compress (s.map UInt32.toBitVec) block := by
  have hrounds := rounds_map ((scheduled_loadWords block).extend (Nat.le_refl 48)) s (Nat.le_refl 64)
  rw [compress, Sha256.compress, ← hrounds]
  simp only [Working.map, Sha256.add, UInt32.toBitVec_add, BitVec.add_comm]

theorem foldl_compress_map : ∀ (blocks : List (List UInt8)) (s : State),
    (blocks.foldl compress s).map UInt32.toBitVec = blocks.foldl Sha256.compress (s.map UInt32.toBitVec)
  | [], _ => rfl
  | block :: blocks, s => by
    rw [List.foldl_cons, foldl_compress_map blocks, compress_map]
    rfl

theorem initialState_map : initialState.map UInt32.toBitVec = Sha256.constants.H := by decide

/-! ### The blocks that are compressed -/

theorem length_copyBlock (input : List UInt8) (offset : ℕ) : (copyBlock input offset).length = 64 := by
  rw [copyBlock, List.length_map, List.length_range]

variable {input : List UInt8}

theorem copyBlock_eq {offset : ℕ} (h : offset + 64 ≤ input.length) :
    copyBlock input offset = (input.drop offset).take 64 := by
  refine List.ext_getElem? fun i => ?_
  rcases lt_or_ge i 64 with hi | hi
  · rw [copyBlock, List.getElem?_map, List.getElem?_range hi, List.getElem?_take_of_lt hi, List.getElem?_drop,
      Option.map_some, List.getD_eq_getElem?_getD, List.getElem?_eq_getElem (by omega), Option.getD_some]
  · rw [List.getElem?_eq_none (by rw [length_copyBlock]; exact hi),
      List.getElem?_eq_none (by rw [List.length_take, List.length_drop]; omega)]

/-- The blocks of a text are those that the loops copy from it. -/
theorem blocks_eq (bytes : List UInt8) :
    Sha256.blocks bytes = (List.range (bytes.length / 64)).map fun i => copyBlock bytes (64 * i) := by
  rw [Sha256.blocks]
  refine List.map_congr_left fun i hi => (copyBlock_eq ?_).symm
  have := List.mem_range.mp hi
  omega

/-- Whole blocks in front of a text are blocks of it. -/
theorem blocks_append {front back : List UInt8} (h : front.length % 64 = 0) :
    Sha256.blocks (front ++ back) = Sha256.blocks front ++ Sha256.blocks back := by
  have hlen : (front ++ back).length / 64 = front.length / 64 + back.length / 64 := by
    rw [List.length_append]; omega
  rw [Sha256.blocks, hlen, List.range_add, List.map_append, List.map_map]
  congr 1
  · refine List.map_congr_left fun i hi => ?_
    have := List.mem_range.mp hi
    rw [List.drop_append_of_le_length (by omega), List.take_append_of_le_length (by rw [List.length_drop]; omega)]
  · refine List.map_congr_left fun i _ => ?_
    have hskip : 64 * (front.length / 64 + i) = front.length + 64 * i := by omega
    rw [Function.comp_apply, hskip, List.drop_length_add_append]

/-- The loop over the input compresses its whole blocks. -/
theorem compressInput_eq (input : List UInt8) : ∀ {fuel k : ℕ} {state : State}, k ≤ input.length / 64 →
    input.length / 64 ≤ fuel + k → compressInput input fuel state (64 * k) =
      (((List.range (input.length / 64 - k)).map fun i => copyBlock input (64 * (k + i))).foldl compress state,
        64 * (input.length / 64))
  | 0, k, state, hk, hfuel => by
    obtain rfl : k = input.length / 64 := by omega
    simp [compressInput]
  | fuel + 1, k, state, hk, hfuel => by
    rw [compressInput]
    by_cases hmore : k = input.length / 64
    · subst hmore
      rw [if_neg (by omega)]
      simp
    · have hrest : input.length / 64 - k = input.length / 64 - (k + 1) + 1 := by omega
      rw [if_pos (by omega), show 64 * k + 64 = 64 * (k + 1) by omega,
        compressInput_eq input (by omega) (by omega), hrest, List.range_succ_eq_map, List.map_cons, List.foldl_cons,
        List.map_map]
      simp only [Nat.add_zero, Function.comp_def, Nat.succ_eq_add_one, Nat.add_assoc, Nat.add_comm 1]

/-! ### The tail -/

theorem toNat_bitLength {length : ℕ} (h : length < 2 ^ 61) : (UInt64.ofNat length * 8).toNat = 8 * length := by
  rw [UInt64.toNat_mul, UInt64.toNat_ofNat_of_lt' (by simp only [UInt64.size]; omega)]
  have h8 : (8 : UInt64).toNat = 8 := rfl
  rw [h8, Nat.mod_eq_of_lt (by omega), Nat.mul_comm]

/-- A byte of the bit length. -/
theorem lengthByte {length : ℕ} (h : length < 2 ^ 61) {i : ℕ} (hi : i < 8) :
    ((UInt64.ofNat length * 8) >>> UInt64.ofNat (i * 8)).toUInt8 = UInt8.ofNat (8 * length / 2 ^ (8 * i)) := by
  have hshift : (UInt64.ofNat (i * 8)).toNat = 8 * i := by
    rw [UInt64.toNat_ofNat_of_lt' (by simp only [UInt64.size]; omega), Nat.mul_comm]
  refine UInt8.toNat_inj.mp ?_
  rw [UInt64.toNat_toUInt8, UInt64.toNat_shiftRight, toNat_bitLength h, hshift,
    Nat.mod_eq_of_lt (show 8 * i < 64 by omega), Nat.shiftRight_eq_div_pow, UInt8.toNat_ofNat']

theorem bigEndian64_getElem? (n : ℕ) {i : ℕ} (hi : i < 8) :
    (Sha256.bigEndian64 n)[i]? = some (UInt8.ofNat (n / 2 ^ (8 * (7 - i)))) := by
  rw [Sha256.bigEndian64, List.getElem?_map, List.getElem?_range hi, Option.map_some]

/-- The tail as the standard writes it: the rest of the input, a one bit, zero bits, the bit length. -/
theorem fillTail_eq (hlen : input.length < 2 ^ 61) {offset : ℕ} (hoffset : offset = 64 * (input.length / 64)) :
    (fillTail input offset).take (paddedSize (input.length - offset)) =
      input.drop offset ++ 0x80 :: List.replicate (Sha256.zeros input.length) 0 ++
        Sha256.bigEndian64 (8 * input.length) := by
  have hzeros : Sha256.zeros input.length = paddedSize (input.length - offset) - 9 - (input.length - offset) := by
    refine Sha256.zeros_eq ?_ ?_
    · rw [paddedSize]; split <;> omega
    · rw [paddedSize]; split <;> omega
  have hsize : input.length - offset + 9 ≤ paddedSize (input.length - offset) := by
    rw [paddedSize]; split <;> omega
  have hmax : paddedSize (input.length - offset) ≤ 128 := by
    rw [paddedSize]; split <;> omega
  rw [hzeros]
  generalize hpadded : paddedSize (input.length - offset) = size at *
  have hrest : (input.drop offset).length = input.length - offset := List.length_drop ..
  refine List.ext_getElem? fun j => ?_
  rcases lt_or_ge j size with hj | hj
  · rw [List.getElem?_take_of_lt hj, fillTail, hpadded]
    rcases lt_or_ge j (size - 8) with hfront | hback
    · -- the bytes in front of the length
      rw [foldl_set_of_ne _ fun i hi => by omega, List.getElem?_append_left (by simp; omega)]
      rcases lt_trichotomy j (input.length - offset) with hin | rfl | hzero
      · rw [List.getElem?_set_ne (by omega), foldl_set_at (f := fun i => i) _ (fun i _ j _ h => h) hin (by simp; omega),
          List.getElem?_append_left (by omega), List.getElem?_drop, List.getD_eq_getElem?_getD,
          List.getElem?_eq_getElem (by omega), Option.getD_some]
      · rw [List.getElem?_set_self (by rw [length_foldl_set, List.length_replicate]; omega),
          List.getElem?_append_right (by omega), hrest, Nat.sub_self]
        rfl
      · rw [List.getElem?_set_ne (by omega), foldl_set_of_ne _ fun i hi => by omega,
          List.getElem?_append_right (by omega), hrest, List.getElem?_cons, if_neg (by omega),
          List.getElem?_replicate_of_lt (by omega), List.getElem?_replicate_of_lt (by omega)]
    · -- the length
      obtain ⟨i, hi, rfl⟩ : ∃ i < 8, j = size - 1 - i := ⟨size - 1 - j, by omega, by omega⟩
      rw [foldl_set_at (f := fun i => size - 1 - i) _ (fun a ha b hb h => by omega) hi
          (by rw [List.length_set, length_foldl_set, List.length_replicate]; omega),
        lengthByte hlen hi, List.getElem?_append_right (by simp; omega)]
      have hindex : size - 1 - i - (input.drop offset ++ 0x80 ::
          List.replicate (size - 9 - (input.length - offset)) (0 : UInt8)).length = 7 - i := by
        simp only [List.length_append, List.length_cons, List.length_replicate, hrest]
        omega
      rw [hindex, bigEndian64_getElem? _ (by omega), show 7 - (7 - i) = i by omega]
  · rw [List.getElem?_eq_none (by rw [List.length_take]; omega), List.getElem?_eq_none ?_]
    simp [Sha256.bigEndian64]
    omega

/-! ### The digest -/

theorem copyBlock_take {bytes : List UInt8} {n offset : ℕ} (h : offset + 64 ≤ n) :
    copyBlock (bytes.take n) offset = copyBlock bytes offset := by
  refine List.map_congr_left fun i hi => ?_
  have := List.mem_range.mp hi
  rw [List.getD_eq_getElem?_getD, List.getD_eq_getElem?_getD, List.getElem?_take_of_lt (by omega)]

/-- The padded message, cut where the loop over the input stops. -/
theorem pad_eq (hlen : input.length < 2 ^ 61) : Sha256.pad input = input.take (64 * (input.length / 64)) ++
      (fillTail input (64 * (input.length / 64))).take (paddedSize (input.length - 64 * (input.length / 64))) := by
  conv_lhs => rw [Sha256.pad, ← List.take_append_drop (64 * (input.length / 64)) input]
  rw [fillTail_eq hlen rfl, List.take_append_drop, ← List.append_assoc, ← List.append_assoc, List.take_append_drop]

/-- The blocks that are compressed are those of the padded message. -/
theorem finalState_eq (hlen : input.length < 2 ^ 61) :
    finalState input = (Sha256.blocks (Sha256.pad input)).foldl compress initialState := by
  have hinput := @compressInput_eq input input.length 0 initialState (Nat.zero_le _) (by omega)
  have hfull : (input.take (64 * (input.length / 64))).length = 64 * (input.length / 64) := by
    rw [List.length_take]; omega
  have hblocks : Sha256.blocks (input.take (64 * (input.length / 64))) =
      (List.range (input.length / 64)).map fun i => copyBlock input (64 * i) := by
    rw [blocks_eq, hfull, Nat.mul_div_cancel_left _ (by decide : 0 < 64)]
    refine List.map_congr_left fun i hi => copyBlock_take ?_
    have := List.mem_range.mp hi
    omega
  rw [pad_eq hlen, blocks_append (by rw [hfull]; omega), List.foldl_append, hblocks]
  rw [Nat.sub_zero] at hinput
  simp only [Nat.zero_add, Nat.mul_zero] at hinput
  rw [finalState, hinput]
  dsimp only
  generalize hstate : List.foldl compress initialState _ = state
  generalize hoffset : 64 * (input.length / 64) = offset at *
  have hpadded : 64 ∣ paddedSize (input.length - offset) ∧ paddedSize (input.length - offset) ≤ 128 := by
    rw [paddedSize]; split <;> decide
  generalize paddedSize (input.length - offset) = size at *
  have hlength : (fillTail input offset).length = 128 := by
    rw [fillTail, length_foldl_set, List.length_set, length_foldl_set, List.length_replicate]
  have htail : Sha256.blocks ((fillTail input offset).take size) =
      (List.range (size / 64)).map fun i => copyBlock (fillTail input offset) (64 * i) := by
    rw [blocks_eq, List.length_take, hlength, Nat.min_eq_left hpadded.2]
    refine List.map_congr_left fun i hi => copyBlock_take ?_
    have := List.mem_range.mp hi
    omega
  rw [htail, List.foldl_map]

/-- A text of whole blocks is put together from them. -/
theorem flatten_blocks : ∀ {n : ℕ} {bytes : List UInt8}, bytes.length = 64 * n →
    (Sha256.blocks bytes).flatten = bytes ∧ ∀ block ∈ Sha256.blocks bytes, block.length = 64
  | 0, bytes, h => by
    obtain rfl : bytes = [] := List.eq_nil_of_length_eq_zero (by omega)
    simp [Sha256.blocks]
  | n + 1, bytes, h => by
    have hfirst : (bytes.take 64).length = 64 := by rw [List.length_take]; omega
    have hone : Sha256.blocks (bytes.take 64) = [bytes.take 64] := by
      rw [Sha256.blocks, hfirst]
      simp [List.take_take]
    have hsplit := @blocks_append (bytes.take 64) (bytes.drop 64) (by rw [hfirst])
    rw [List.take_append_drop, hone] at hsplit
    obtain ⟨hrest, hlen⟩ := @flatten_blocks n (bytes.drop 64) (by rw [List.length_drop]; omega)
    rw [hsplit]
    refine ⟨?_, fun block hblock => ?_⟩
    · rw [List.singleton_append, List.flatten_cons, hrest, List.take_append_drop]
    · rcases List.mem_cons.mp hblock with rfl | hblock
      · exact hfirst
      · exact hlen block hblock

theorem kHexDigits_eq : ∀ d < 16, kHexDigits.getD d '0' = Nat.digitChar d := by decide

theorem hexDigit_eq (word : UInt32) {shift : ℕ} (h : shift < 32) :
    kHexDigits.getD ((word >>> UInt32.ofNat shift) &&& 0x0f).toNat '0' =
      Nat.digitChar (word.toNat / 2 ^ shift % 16) := by
  have hdigit : ((word >>> UInt32.ofNat shift) &&& 0x0f).toNat = word.toNat / 2 ^ shift % 16 := by
    have h15 : (0x0f : UInt32).toNat = 2 ^ 4 - 1 := rfl
    rw [UInt32.toNat_and, UInt32.toNat_shiftRight, UInt32.toNat_ofNat_of_lt' (by simp only [UInt32.size]; omega), h15,
      Nat.and_two_pow_sub_one_eq_mod, Nat.mod_eq_of_lt h, Nat.shiftRight_eq_div_pow]
  rw [hdigit, kHexDigits_eq _ (Nat.mod_lt _ (by decide))]

/-- The eight digits of a word are those of its four bytes. -/
theorem hexWord_eq (word : UInt32) : hexWord word = Sha256.hex ((List.range 4).map fun i =>
      UInt8.ofNat (word.toBitVec.toNat / 2 ^ (8 * (3 - i)))) := by
  have hbyte : ∀ i < 4, Sha256.hexByte (UInt8.ofNat (word.toBitVec.toNat / 2 ^ (8 * (3 - i)))) =
      [Nat.digitChar (word.toNat / 2 ^ ((7 - 2 * i) * 4) % 16),
        Nat.digitChar (word.toNat / 2 ^ ((7 - (2 * i + 1)) * 4) % 16)] := by
    intro i hi
    have hhigh : (7 - 2 * i) * 4 = 8 * (3 - i) + 4 := by omega
    have hlow : (7 - (2 * i + 1)) * 4 = 8 * (3 - i) := by omega
    rw [Sha256.hexByte, UInt8.toNat_ofNat', hhigh, hlow, Nat.pow_add, ← Nat.div_div_eq_div_mul, UInt32.toNat_toBitVec]
    generalize word.toNat / 2 ^ (8 * (3 - i)) = n
    congr 2
    · omega
    · congr 1
      omega
  rw [hexWord, show List.range 8 = [0, 1, 2, 3, 4, 5, 6, 7] from rfl, show List.range 4 = [0, 1, 2, 3] from rfl]
  simp only [List.map_cons, List.map_nil, Sha256.hex, List.flatMap_cons, List.flatMap_nil, hbyte 0 (by decide),
    hbyte 1 (by decide), hbyte 2 (by decide), hbyte 3 (by decide), List.cons_append, List.nil_append, List.append_nil]
  simp (disch := decide) only [hexDigit_eq]

theorem toList_flatMap_hexWord (s : State) :
    s.toList.flatMap hexWord = Sha256.hex (Sha256.digest (s.map UInt32.toBitVec)) := by
  simp only [Working.toList, Working.map, Sha256.digest, Sha256.hex, List.flatMap_cons, List.flatMap_nil, hexWord_eq,
    List.flatMap_append, List.append_nil]

/-- `sha256Hex` is SHA-256 in lowercase hexadecimal for every input below 2^61 bytes, and what it compresses are
    the blocks of the padded message. -/
theorem sha256Hex_eq (input : List UInt8) (hlen : input.length < 2 ^ 61) :
    sha256Hex input = Sha256.hex (Sha256.digest (Sha256.hash input)) ∧
      ∃ blocks : List (List UInt8), blocks.flatten = Sha256.pad input ∧ (∀ block ∈ blocks, block.length = 64) ∧
        finalState input = blocks.foldl compress initialState := by
  have hstate := finalState_eq hlen
  refine ⟨?_, Sha256.blocks (Sha256.pad input), ?_⟩
  · rw [sha256Hex, toList_flatMap_hexWord, hstate, foldl_compress_map, initialState_map, Sha256.hash]
  · have hzeros := Nat.find_spec (Sha256.exists_zeros input.length)
    have hpad : (Sha256.pad input).length = 64 * ((input.length + 1 + Sha256.zeros input.length) / 64 + 1) := by
      rw [Sha256.pad, Sha256.zeros, List.length_append, List.length_append, List.length_cons, List.length_replicate,
        Sha256.bigEndian64, List.length_map, List.length_range]
      omega
    obtain ⟨hflat, hsize⟩ := flatten_blocks hpad
    exact ⟨hflat, hsize, hstate⟩

/-- The digest of `abc`. -/
theorem sha256Hex_eq_abc : sha256Hex [0x61, 0x62, 0x63] = Sha256.hex (Sha256.digest (Sha256.hash [0x61, 0x62, 0x63])) ∧
      ∃ blocks : List (List UInt8), blocks.flatten = Sha256.pad [0x61, 0x62, 0x63] ∧
        (∀ block ∈ blocks, block.length = 64) ∧ finalState [0x61, 0x62, 0x63] = blocks.foldl compress initialState :=
  sha256Hex_eq [0x61, 0x62, 0x63] (by decide)

example : String.ofList (sha256Hex [0x61, 0x62, 0x63]) =
    "ba7816bf8f01cfea414140de5dae2223b00361a396177a9cb410ff61f20015ad" := by decide +kernel

end Zith.Packages
