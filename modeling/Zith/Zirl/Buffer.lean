import Zith.Lib.ByteCodec

/-! `zirl::ByteWriter` and `zirl::ByteReader`. A writer's method is the bytes it appends, a reader's
    method a `Reader` of the bytes from `pos_` on; a read past the end fails. Integers are fixed-width
    little-endian, strings and tables carry a 32-bit count, which `static_cast` truncates. -/

namespace Zith.Zirl
open Zith.Lib Zith.Lib.Reader

def writeU8 (v : UInt8) : List UInt8 := [v]
def writeU16 (v : UInt16) : List UInt8 := leBytes 2 v.toNat
def writeU32 (v : UInt32) : List UInt8 := leBytes 4 v.toNat
def writeI32 (v : Int32) : List UInt8 := writeU32 v.toUInt32
def writeU64 (v : UInt64) : List UInt8 := leBytes 8 v.toNat
def writeI64 (v : Int64) : List UInt8 := writeU64 v.toUInt64

/-- `writeU8(flag ? 1 : 0)`. -/
def writeFlag (b : Bool) : List UInt8 := writeU8 (if b then 1 else 0)

/-- `writeU32(static_cast<uint32_t>(n))`. -/
def writeCount (n : ℕ) : List UInt8 := writeU32 (UInt32.ofNat n)

def writeBlob (s : List UInt8) : List UInt8 := writeCount s.length ++ s

/-- A count, then the elements. -/
def writeCounted {α : Type} (enc : α → List UInt8) (l : List α) : List UInt8 := writeCount l.length ++ l.flatMap enc

def readU8 : Reader UInt8 := do return UInt8.ofNat (leNat (← Reader.take 1))
def readU16 : Reader UInt16 := do return UInt16.ofNat (leNat (← Reader.take 2))
def readU32 : Reader UInt32 := do return UInt32.ofNat (leNat (← Reader.take 4))
def readI32 : Reader Int32 := do return Int32.ofUInt32 (← readU32)
def readU64 : Reader UInt64 := do return UInt64.ofNat (leNat (← Reader.take 8))
def readI64 : Reader Int64 := do return Int64.ofUInt64 (← readU64)

/-- `canReadU32Count`: the bytes left have room for `count` items of `minBytes` bytes. -/
def canReadU32Count (count : UInt32) (minBytes : ℕ) : Reader Unit :=
  guardLeft fun bs => decide (minBytes ≠ 0 ∧ count.toNat ≤ bs.length / minBytes)

def readBlob : Reader (List UInt8) := do Reader.take (← readU32).toNat

/-- A flag byte: more than 1 is refused. -/
def flagOfU8 (b : UInt8) : Option Bool := if b > 1 then none else some (b != 0)

/-- The byte of an enumerator, with the range check of its cast. -/
def readEnum {α : Type} (ofU8 : UInt8 → Option α) : Reader α := do Reader.lift (ofU8 (← readU8))

/-- A count that passes `canReadU32Count`, then that many elements. -/
def readCounted {α : Type} (minBytes : ℕ) (rd : Reader α) : Reader (List α) := do
  let n ← readU32
  canReadU32Count n minBytes
  rd.replicate n.toNat

/-! ### Words -/

theorem leNat_take {w n : ℕ} (rest : List UInt8) (h : n < 256 ^ w) :
    Reader.take w (leBytes w n ++ rest) = some (leBytes w n, rest) ∧ leNat (leBytes w n) = n :=
  ⟨take_append (leBytes_length w n) rest, leNat_leBytes h⟩

theorem inverts_u8 (v : UInt8) : Inverts writeU8 readU8 v := by
  intro rest
  simp [readU8, writeU8, Reader.take, leNat]

theorem inverts_u16 (v : UInt16) : Inverts writeU16 readU16 v := by
  intro rest
  obtain ⟨htake, hval⟩ := leNat_take (w := 2) (n := v.toNat) rest (by
    have := v.toNat_lt; simpa using this)
  simp [readU16, writeU16, htake, hval]

theorem inverts_u32 (v : UInt32) : Inverts writeU32 readU32 v := by
  intro rest
  obtain ⟨htake, hval⟩ := leNat_take (w := 4) (n := v.toNat) rest (by
    have := v.toNat_lt; simpa using this)
  simp [readU32, writeU32, htake, hval]

theorem inverts_u64 (v : UInt64) : Inverts writeU64 readU64 v := by
  intro rest
  obtain ⟨htake, hval⟩ := leNat_take (w := 8) (n := v.toNat) rest (by
    have := v.toNat_lt; simpa using this)
  simp [readU64, writeU64, htake, hval]

theorem inverts_i32 (v : Int32) : Inverts writeI32 readI32 v := by
  intro rest
  simp [readI32, writeI32, inverts_u32 v.toUInt32 rest]

theorem inverts_i64 (v : Int64) : Inverts writeI64 readI64 v := by
  intro rest
  simp [readI64, writeI64, inverts_u64 v.toUInt64 rest]

theorem canonical_u8 : Canonical writeU8 readU8 := by
  intro bs v rest h
  obtain ⟨a, mid, ha, h⟩ := bind_eq_some h
  obtain ⟨rfl, rfl⟩ := pure_eq_some h
  obtain ⟨rfl, hlen⟩ := take_eq_some ha
  obtain ⟨b, rfl⟩ := List.length_eq_one_iff.mp hlen
  simp [writeU8, leNat]

@[simp] theorem flagOfU8_flag (b : Bool) : flagOfU8 (if b then 1 else 0) = some b := by
  cases b <;> rfl

variable {α : Type} {rd : Reader α} {minBytes : ℕ}

theorem inverts_enum {toU8 : α → UInt8} {ofU8 : UInt8 → Option α} {a : α} (h : ofU8 (toU8 a) = some a) :
    Inverts (fun a => writeU8 (toU8 a)) (readEnum ofU8) a := by
  intro rest
  rw [readEnum, (inverts_u8 (toU8 a)).bind, h]
  rfl

theorem flag_of_flagOfU8 {v : UInt8} {b : Bool} (h : flagOfU8 v = some b) :
    (if b then 1 else 0) = v := by
  unfold flagOfU8 at h
  split at h
  · cases h
  · next hle =>
    have hv : v = 0 ∨ v = 1 := by
      have : v.toNat ≤ 1 := by simpa [UInt8.le_iff_toNat_le] using hle
      rcases Nat.le_one_iff_eq_zero_or_eq_one.mp this with h0 | h1
      · exact .inl (UInt8.toNat_inj.mp h0)
      · exact .inr (UInt8.toNat_inj.mp h1)
    rcases hv with rfl | rfl <;> cases h <;> rfl

theorem canonical_u16 : Canonical writeU16 readU16 := by
  intro bs v rest h
  obtain ⟨a, mid, ha, h⟩ := bind_eq_some h
  obtain ⟨rfl, rfl⟩ := pure_eq_some h
  obtain ⟨rfl, hlen⟩ := take_eq_some ha
  have hlt := leNat_lt a
  rw [hlen] at hlt
  have hval : (UInt16.ofNat (leNat a)).toNat = leNat a := UInt16.toNat_ofNat_of_lt (by simpa using hlt)
  rw [writeU16, hval, ← hlen, leBytes_leNat]

theorem canonical_u32 : Canonical writeU32 readU32 := by
  intro bs v rest h
  obtain ⟨a, mid, ha, h⟩ := bind_eq_some h
  obtain ⟨rfl, rfl⟩ := pure_eq_some h
  obtain ⟨rfl, hlen⟩ := take_eq_some ha
  have hlt := leNat_lt a
  rw [hlen] at hlt
  have hval : (UInt32.ofNat (leNat a)).toNat = leNat a := UInt32.toNat_ofNat_of_lt (by simpa using hlt)
  rw [writeU32, hval, ← hlen, leBytes_leNat]

theorem canonical_u64 : Canonical writeU64 readU64 := by
  intro bs v rest h
  obtain ⟨a, mid, ha, h⟩ := bind_eq_some h
  obtain ⟨rfl, rfl⟩ := pure_eq_some h
  obtain ⟨rfl, hlen⟩ := take_eq_some ha
  have hlt := leNat_lt a
  rw [hlen] at hlt
  have hval : (UInt64.ofNat (leNat a)).toNat = leNat a := UInt64.toNat_ofNat_of_lt (by simpa using hlt)
  rw [writeU64, hval, ← hlen, leBytes_leNat]

theorem canonical_i64 : Canonical writeI64 readI64 := by
  intro bs v rest h
  obtain ⟨u, mid, hu, h⟩ := bind_eq_some h
  obtain ⟨rfl, rfl⟩ := pure_eq_some h
  exact canonical_u64 _ _ _ hu

theorem fixed_u8 : Fixed readU8 1 := (fixed_take 1).bind fun _ => fixed_pure _
theorem fixed_u16 : Fixed readU16 2 := (fixed_take 2).bind fun _ => fixed_pure _
theorem fixed_u32 : Fixed readU32 4 := (fixed_take 4).bind fun _ => fixed_pure _
theorem fixed_u64 : Fixed readU64 8 := (fixed_take 8).bind fun _ => fixed_pure _

/-! ### Counted data -/

theorem toNat_count {n : ℕ} (h : n < 2 ^ 32) : (UInt32.ofNat n).toNat = n :=
  UInt32.toNat_ofNat_of_lt (by simpa [UInt32.size] using h)

theorem read_count {n : ℕ} (rest : List UInt8) :
    readU32 (writeCount n ++ rest) = some (UInt32.ofNat n, rest) := inverts_u32 _ rest

@[simp] theorem writeCount_length (n : ℕ) : (writeCount n).length = 4 := leBytes_length _ _

theorem inverts_blob {s : List UInt8} (h : s.length < 2 ^ 32) : Inverts writeBlob readBlob s := by
  intro rest
  rw [readBlob, bind_apply, writeBlob, List.append_assoc, read_count, Option.bind_some,
    toNat_count h]
  exact take_append rfl rest

theorem canonical_blob : Canonical writeBlob readBlob := by
  intro bs s rest h
  obtain ⟨n, mid, hn, h⟩ := bind_eq_some h
  obtain ⟨rfl, hlen⟩ := take_eq_some h
  rw [canonical_u32 _ _ _ hn, writeBlob, writeCount, hlen, UInt32.ofNat_toNat, List.append_assoc]

/-- A table of items of at least `minBytes` bytes survives `readCounted`. -/
theorem inverts_counted {enc : α → List UInt8} {l : List α} (hpos : 0 < minBytes) (hlen : l.length < 2 ^ 32)
    (hmin : ∀ a ∈ l, minBytes ≤ (enc a).length) (h : ∀ a ∈ l, Inverts enc rd a) :
    Inverts (writeCounted enc) (readCounted minBytes rd) l := by
  intro rest
  have hroom : l.length ≤ (l.flatMap enc ++ rest).length / minBytes := by
    rw [Nat.le_div_iff_mul_le hpos, Nat.mul_comm, List.length_append]
    exact le_trans (mul_length_le_flatMap hmin) (Nat.le_add_right _ _)
  rw [readCounted, bind_apply, writeCounted, List.append_assoc, read_count, Option.bind_some,
    bind_apply, canReadU32Count, guardLeft, toNat_count hlen,
    if_pos (decide_eq_true ⟨Nat.pos_iff_ne_zero.mp hpos, hroom⟩), Option.bind_some]
  exact Inverts.replicate h rest

theorem canonical_counted {α : Type} {enc : α → List UInt8} {rd : Reader α} {minBytes : ℕ}
    (h : Canonical enc rd) : Canonical (writeCounted enc) (readCounted minBytes rd) := by
  intro bs l rest hrun
  obtain ⟨n, mid, hn, hrun⟩ := bind_eq_some hrun
  obtain ⟨u, mid', hu, hrun⟩ := bind_eq_some hrun
  obtain ⟨_, rfl⟩ := guardLeft_eq_some hu
  obtain ⟨rfl, hlen⟩ := h.replicate hrun
  rw [canonical_u32 _ _ _ hn, writeCounted, writeCount, hlen, UInt32.ofNat_toNat,
    List.append_assoc]

/-- What `readCounted` returns has fewer than `2 ^ 32` elements. -/
theorem readCounted_length {bs rest : List UInt8} {l : List α}
    (hrun : readCounted minBytes rd bs = some (l, rest)) : l.length < 2 ^ 32 := by
  obtain ⟨n, mid, _, hrun⟩ := bind_eq_some hrun
  obtain ⟨u, mid', _, hrun⟩ := bind_eq_some hrun
  rw [replicate_length hrun]
  simpa [UInt32.size] using n.toNat_lt

theorem forall_of_readCounted {bs rest : List UInt8} {l : List α} {P : α → Prop}
    (h : ∀ bs a rest, rd bs = some (a, rest) → P a) (hrun : readCounted minBytes rd bs = some (l, rest)) :
    ∀ a ∈ l, P a := by
  obtain ⟨n, mid, _, hrun⟩ := bind_eq_some hrun
  obtain ⟨u, mid', _, hrun⟩ := bind_eq_some hrun
  exact forall_of_replicate h hrun

/-- A list that passed its count fits the count, and its elements are what the reader ensures. -/
theorem ensures_counted {P : α → Prop} (h : Ensures rd P) :
    Ensures (readCounted minBytes rd) fun l => l.length < 2 ^ 32 ∧ ∀ a ∈ l, P a :=
  fun _ _ _ hrun => ⟨readCounted_length hrun, forall_of_readCounted h hrun⟩

theorem ensures_length (rd : Reader α) (minBytes : ℕ) :
    Ensures (readCounted minBytes rd) fun l => l.length < 2 ^ 32 :=
  fun _ _ _ hrun => readCounted_length hrun

theorem ensures_blob : Ensures readBlob fun s => s.length < 2 ^ 32 := by
  intro bs s rest hrun
  obtain ⟨n, mid, _, hrun⟩ := bind_eq_some hrun
  rw [(take_eq_some hrun).2]
  exact n.toNat_lt

@[simp] theorem writeU8_length (v : UInt8) : (writeU8 v).length = 1 := rfl
@[simp] theorem writeU16_length (v : UInt16) : (writeU16 v).length = 2 := leBytes_length _ _
@[simp] theorem writeU32_length (v : UInt32) : (writeU32 v).length = 4 := leBytes_length _ _
@[simp] theorem writeU64_length (v : UInt64) : (writeU64 v).length = 8 := leBytes_length _ _

theorem le_writeBlob_length (s : List UInt8) : 4 ≤ (writeBlob s).length := by simp [writeBlob]

/-- A table of 32-bit ids. -/
def writeIds (ids : List UInt32) : List UInt8 := writeCounted writeU32 ids

def readIds : Reader (List UInt32) := readCounted 4 readU32

theorem inverts_ids {ids : List UInt32} (h : ids.length < 2 ^ 32) : Inverts writeIds readIds ids :=
  inverts_counted (by norm_num) h (fun a _ => (writeU32_length a).ge) fun a _ => inverts_u32 a

theorem canonical_ids : Canonical writeIds readIds := canonical_counted canonical_u32

end Zith.Zirl
