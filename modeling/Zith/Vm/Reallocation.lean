import Mathlib.Data.List.Pairwise
import Zith.Vm.AllocationConvention

/-! `LinearMemory::reallocBytes` on a live block. Four outcomes rewrite the two lists differently; what
    the block held, and every other block, comes through all of them.

        count <= old size       the tail becomes a free block
        free block right behind the block takes bytes of it
        otherwise               mallocBytes, copy, freeBytes of the old block
        mallocBytes fails       nothing but `heap_` has moved -/

namespace Zith.Vm
open Zith.Lib

/-- The `count` bytes at `dst` of one memory are those at `src` of another; both lie inside. -/
structure SameBytes (m : LinearMemory) (src : ℕ) (m' : LinearMemory) (dst count : ℕ) : Prop where
  source : src + count ≤ m.bytes.length
  target : dst + count ≤ m'.bytes.length
  same : ∀ k < count, m'.bytes[dst + k]? = m.bytes[src + k]?

/-- A live block that is still live, at the same place with the same bytes. -/
def Untouched (m m' : LinearMemory) (b : Block) : Prop := b ∈ m'.allocatedBlocks ∧ SameBytes m b.1 m' b.1 b.2

/-- What a successful `reallocBytes` of the block `(offset, size)` to `count` bytes leaves. -/
structure Reallocated (m : LinearMemory) (offset size count : ℕ) (m' : LinearMemory) (r : ℕ) : Prop where
  content : SameBytes m offset m' r (min size count)
  inside : r + count ≤ m'.bytes.length
  live : ∀ b, b ∈ m'.allocatedBlocks ↔ b = (r, count) ∨ (b ∈ m.allocatedBlocks ∧ b.1 ≠ offset)
  others : ∀ b ∈ m.allocatedBlocks, b.1 ≠ offset → Untouched m m' b

section
variable {m m' m₁ : LinearMemory} {offset size count : ℕ}

/-! ### Live blocks -/

theorem LinearMemory.Inv.pairwise (h : m.Inv) : m.allocatedBlocks.Pairwise Block.Apart :=
  pairwise_apart_of_cover_le_one fun n => le_trans (Nat.le_add_right _ _) (h.owned_le n)

/-- Two live blocks that start at one place are one block. -/
theorem LinearMemory.Inv.eq_of_start (h : m.Inv) {a b : Block} (ha : a ∈ m.allocatedBlocks)
    (hb : b ∈ m.allocatedBlocks) (hstart : a.1 = b.1) : a = b := by
  by_contra hne
  have hdisjoint := h.pairwise.forall ha hb hne
  have hposa := h.alloc_pos a ha
  have hposb := h.alloc_pos b hb
  refine hdisjoint a.1 ⟨le_rfl, ?_⟩ ⟨hstart.ge, ?_⟩
  · simp only [Block.stop]; omega
  · simp only [Block.stop]; omega

theorem LinearMemory.Inv.apart (h : m.Inv) {a b : Block} (ha : a ∈ m.allocatedBlocks)
    (hb : b ∈ m.allocatedBlocks) (hne : a.1 ≠ b.1) : a.Apart b :=
  h.pairwise.forall ha hb fun heq => hne (congrArg Prod.fst heq)

/-- A live block lies inside the bytes. -/
theorem LinearMemory.Inv.stop_le_length (h : m.Inv) {b : Block} (hb : b ∈ m.allocatedBlocks) :
    b.1 + b.2 ≤ m.bytes.length := by
  have hstop := h.stop_le hb
  rw [h.size_eq]
  exact le_trans hstop (le_max_right _ _)

/-- `findBlock` finds a live block. -/
theorem LinearMemory.Inv.findBlock_live (h : m.Inv) (hlive : (offset, size) ∈ m.allocatedBlocks) :
    ∃ i, m.findBlock offset = some i ∧ m.allocatedBlocks[i]? = some (offset, size) := by
  cases hfind : m.findBlock offset with
  | none =>
    have hno := List.findIdx?_eq_none_iff.mp hfind _ hlive
    simp at hno
  | some i =>
    obtain ⟨b, hb, hstart⟩ := exists_of_findIdx? hfind
    have hmem := List.mem_of_getElem? hb
    have heq := h.eq_of_start hmem hlive (of_decide_eq_true hstart)
    exact ⟨i, rfl, heq ▸ hb⟩

/-- Without the block at `i`, the live blocks are those that start elsewhere. -/
theorem LinearMemory.Inv.mem_eraseIdx (h : m.Inv) {i : ℕ}
    (hi : m.allocatedBlocks[i]? = some (offset, size)) (b : Block) :
    b ∈ m.allocatedBlocks.eraseIdx i ↔ b ∈ m.allocatedBlocks ∧ b.1 ≠ offset := by
  rw [List.mem_eraseIdx_iff_getElem?]
  constructor
  · rintro ⟨j, hji, hj⟩
    have hmem := List.mem_of_getElem? hj
    refine ⟨hmem, fun hstart => ?_⟩
    obtain rfl := h.eq_of_start hmem (List.mem_of_getElem? hi) hstart
    obtain ⟨hjlt, hjeq⟩ := List.getElem?_eq_some_iff.mp hj
    obtain ⟨hilt, hieq⟩ := List.getElem?_eq_some_iff.mp hi
    have hpos := h.alloc_pos _ hmem
    have hself : Block.Apart (offset, size) (offset, size) := by
      rcases lt_or_gt_of_ne hji with hlt | hlt
      · have := List.pairwise_iff_getElem.mp h.pairwise _ _ hjlt hilt hlt
        rwa [hjeq, hieq] at this
      · have := List.pairwise_iff_getElem.mp h.pairwise _ _ hilt hjlt hlt
        rwa [hjeq, hieq] at this
    have hcov : Block.Covers (offset, size) offset := ⟨le_rfl, by simp only [Block.stop]; omega⟩
    exact hself offset hcov hcov
  · rintro ⟨hmem, hstart⟩
    obtain ⟨j, hj⟩ := List.getElem?_of_mem hmem
    refine ⟨j, ?_, hj⟩
    rintro rfl
    rw [hi, Option.some.injEq] at hj
    exact hstart (congrArg Prod.fst hj.symm)

/-! ### Bytes -/

/-- A memory that only grows keeps its bytes. -/
theorem SameBytes.extended (hle : m.bytes <+: m'.bytes) (h : offset + size ≤ m.bytes.length) :
    SameBytes m offset m' offset size :=
  ⟨h, le_trans h hle.length_le, fun k hk => by
    obtain ⟨more, hmore⟩ := hle
    rw [← hmore, List.getElem?_append_left (by omega)]⟩

/-- What `copy` writes, byte by byte. -/
theorem LinearMemory.getElem?_copy {dst src : ℕ} (hdst : dst + count ≤ m.bytes.length)
    (hsrc : src + count ≤ m.bytes.length) :
    ∃ m', m.copy dst src count = (true, m') ∧ m'.allocatedBlocks = m.allocatedBlocks ∧
      m'.bytes.length = m.bytes.length ∧
      ∀ j, m'.bytes[j]? = if dst ≤ j ∧ j < dst + count then m.bytes[src + (j - dst)]? else m.bytes[j]? := by
  have hbounds : ¬(dst > m.bytes.length ∨ src > m.bytes.length ∨ count > m.bytes.length - dst ∨
      count > m.bytes.length - src) := by omega
  have hlen : ((m.bytes.drop src).take count).length = count := by
    rw [List.length_take, List.length_drop]; omega
  rw [LinearMemory.copy, if_neg hbounds]
  refine ⟨_, rfl, rfl, ?_, fun j => ?_⟩
  · simp only [List.length_append, List.length_take, List.length_drop]
    omega
  · dsimp only
    rcases lt_or_ge j dst with hj | hj
    · rw [List.getElem?_append_left (by rw [List.length_take]; omega), if_neg (by omega),
        List.getElem?_take_of_lt hj]
    · have htake : (m.bytes.take dst).length = dst := by rw [List.length_take]; omega
      rw [List.getElem?_append_right (by omega), htake]
      rcases lt_or_ge j (dst + count) with hj' | hj'
      · rw [List.getElem?_append_left (by omega), if_pos ⟨hj, hj'⟩,
          List.getElem?_take_of_lt (by omega), List.getElem?_drop]
      · rw [List.getElem?_append_right (by omega), if_neg (by omega), hlen, List.getElem?_drop]
        congr 1
        omega

/-! ### The move -/

/-- `mallocBytes` of at least one byte keeps every byte; it fails, or adds its block. -/
theorem mallocBytes_keeps (m : LinearMemory) (hcount : 0 < count) (alignment : ℕ) :
    ∃ r m', m.mallocBytes count alignment = (r, m') ∧ m.bytes <+: m'.bytes ∧
      ((r = sizeMax ∧ m'.allocatedBlocks = m.allocatedBlocks) ∨
        (r ≠ sizeMax ∧ m'.allocatedBlocks = m.allocatedBlocks ++ [(r, count)])) := by
  have hdef := LinearMemory.mallocBytes.eq_1 m count alignment
  rw [if_neg hcount.ne'] at hdef
  generalize (if alignment = 0 then 1 else alignment) = a at hdef
  dsimp only at hdef
  split at hdef
  · exact ⟨_, _, hdef, List.prefix_rfl, .inl ⟨rfl, rfl⟩⟩
  · cases hfind : m.freeBlocks.findIdx? (LinearMemory.fits m.bump count a) with
    | some i =>
      obtain ⟨b, hb, hfits⟩ := exists_of_findIdx? hfind
      simp only [hfind, hb, Option.getD_some] at hdef
      simp only [LinearMemory.fits, decide_eq_true_eq] at hfits
      exact ⟨_, _, hdef, List.prefix_rfl, .inr ⟨fun heq => hfits.2.1 (Or.inl heq), rfl⟩⟩
    | none =>
      simp only [hfind] at hdef
      split at hdef
      · exact ⟨_, _, hdef, List.prefix_rfl, .inl ⟨rfl, rfl⟩⟩
      · next hroom =>
        refine ⟨_, _, hdef, ?_, .inr ⟨by omega, rfl⟩⟩
        simp only [LinearMemory.growBytes]
        split
        · next hlong =>
          rw [LinearMemory.resize, List.take_of_length_le (by omega)]
          exact List.prefix_append _ _
        · exact List.prefix_rfl

/-- The block is copied into a new one and freed. -/
theorem reallocated_move {alignment r : ℕ} {m₁ : LinearMemory} (h : m.Inv)
    (hlive : (offset, size) ∈ m.allocatedBlocks) (hlt : size < count)
    (hmalloc : m.mallocBytes count alignment = (r, m₁)) (hbytes : m.bytes <+: m₁.bytes)
    (hblocks : m₁.allocatedBlocks = m.allocatedBlocks ++ [(r, count)]) :
    ∃ m₂, m₁.copy r offset size = (true, m₂) ∧ Reallocated m offset size count (m₂.freeBytes offset).2 r := by
  have h₁ : m₁.Inv := malloc_inv h hmalloc
  have hlive₁ : (offset, size) ∈ m₁.allocatedBlocks := hblocks ▸ List.mem_append_left _ hlive
  have hnew : (r, count) ∈ m₁.allocatedBlocks := hblocks ▸ List.mem_append_right _ (List.mem_singleton_self _)
  have hinside := h₁.stop_le_length hlive₁
  have hinside' := h₁.stop_le_length hnew
  dsimp only at hinside hinside'
  obtain ⟨m₂, hcopy, hblocks₂, hlength, hget⟩ :=
    LinearMemory.getElem?_copy (show r + size ≤ m₁.bytes.length by omega) hinside
  obtain ⟨i, hfind, hi⟩ := h₁.findBlock_live hlive₁
  have hfind₂ : m₂.findBlock offset = some i := by rw [LinearMemory.findBlock, hblocks₂]; exact hfind
  -- the new block starts elsewhere: it would be the old one, which is smaller
  have hstart : r ≠ offset := by
    rintro rfl
    have := congrArg Prod.snd (h₁.eq_of_start hnew hlive₁ rfl)
    dsimp only at this
    omega
  have hfree : (m₂.freeBytes offset).2.allocatedBlocks = m₁.allocatedBlocks.eraseIdx i := by
    rw [LinearMemory.freeBytes, hfind₂]
    simp only [hblocks₂]
  have hkeep : (m₂.freeBytes offset).2.bytes = m₂.bytes := by
    rw [LinearMemory.freeBytes, hfind₂]
  refine ⟨m₂, hcopy, ⟨?_, ?_, fun k hk => ?_⟩, by rw [hkeep]; omega, fun b => ?_, fun b hb hne => ?_⟩
  · have := h.stop_le_length hlive
    dsimp only at this
    omega
  · rw [hkeep]; omega
  · have hold := (SameBytes.extended hbytes (h.stop_le_length hlive)).same k (by omega)
    rw [hkeep, hget, if_pos (by omega), Nat.add_sub_cancel_left]
    exact hold
  · rw [hfree, h₁.mem_eraseIdx hi, hblocks, List.mem_append, List.mem_singleton]
    constructor
    · rintro ⟨hb | rfl, hne⟩
      · exact .inr ⟨hb, hne⟩
      · exact .inl rfl
    · rintro (rfl | ⟨hb, hne⟩)
      · exact ⟨.inr rfl, hstart⟩
      · exact ⟨.inl hb, hne⟩
  · have hb₁ : b ∈ m₁.allocatedBlocks := hblocks ▸ List.mem_append_left _ hb
    have hsame := SameBytes.extended hbytes (h.stop_le_length hb)
    refine ⟨by rw [hfree, h₁.mem_eraseIdx hi]; exact ⟨hb₁, hne⟩, hsame.source, ?_, fun k hk => ?_⟩
    · rw [hkeep, hlength]; exact hsame.target
    · -- a byte of another block is outside the new one, so the copy does not reach it
      have hout : ¬ Block.Covers (r, count) (b.1 + k) := by
        by_cases hbr : b.1 = r
        · have hsame := h₁.eq_of_start hb₁ hnew hbr
          have hpair := h₁.pairwise
          rw [hblocks, List.pairwise_append] at hpair
          exact hpair.2.2 b hb _ (List.mem_singleton_self _) _ ⟨by omega, by simp only [Block.stop]; omega⟩
        · exact h₁.apart hb₁ hnew hbr _ ⟨by omega, by simp only [Block.stop]; omega⟩
      have hreach : ¬ (r ≤ b.1 + k ∧ b.1 + k < r + size) := fun hin =>
        hout ⟨hin.1, by simp only [Block.stop]; omega⟩
      rw [hkeep, hget, if_neg hreach]
      exact hsame.same k hk

/-- The block changes its size where it is. -/
theorem reallocated_in_place {i : ℕ} {frees : List Block} (h : m.Inv) (hi : m.allocatedBlocks[i]? = some (offset, size))
    (h' : LinearMemory.Inv { m with freeBlocks := frees, allocatedBlocks := m.allocatedBlocks.set i (offset, count) }) :
    Reallocated m offset size count
      { m with freeBlocks := frees, allocatedBlocks := m.allocatedBlocks.set i (offset, count) } offset := by
  have hlive := List.mem_of_getElem? hi
  obtain ⟨hlt, -⟩ := List.getElem?_eq_some_iff.mp hi
  have hnew : (offset, count) ∈ m.allocatedBlocks.set i (offset, count) :=
    List.mem_of_getElem? (List.getElem?_set_self hlt)
  have hinside := h.stop_le_length hlive
  have hinside' : offset + count ≤ m.bytes.length := h'.stop_le_length hnew
  have hlists : ∀ b, b ∈ m.allocatedBlocks.set i (offset, count) ↔
      b = (offset, count) ∨ (b ∈ m.allocatedBlocks ∧ b.1 ≠ offset) := by
    intro b
    have hperm := List.getElem_cons_eraseIdx_perm (l := m.allocatedBlocks.set i (offset, count)) (by simpa using hlt)
    rw [List.getElem_set_self, List.eraseIdx_set_eq] at hperm
    rw [← hperm.mem_iff, List.mem_cons, h.mem_eraseIdx hi]
  refine ⟨⟨?_, ?_, fun _ _ => rfl⟩, hinside', hlists, fun b hb hne => ⟨?_, .extended List.prefix_rfl (h.stop_le_length hb)⟩⟩
  · dsimp only at hinside; omega
  · dsimp only at hinside ⊢; omega
  · exact (hlists b).mpr (.inr ⟨hb, hne⟩)

end

/-- In every reachable memory, `reallocBytes` of a live block to at least one byte keeps what fits of
    its content, makes it a live block of the size asked for and leaves every other live block as it
    is; when it fails, every live block is as before. -/
theorem reallocBytes_preserves {V : Vectors} {m : LinearMemory} (hreach : Reachable V m) {offset size : ℕ}
    (hlive : (offset, size) ∈ m.allocatedBlocks) {count : ℕ} (hcount : 0 < count) (alignment : ℕ) :
    (∃ r m', m.reallocBytes offset count alignment = (r, m') ∧ r ≠ sizeMax ∧ Reallocated m offset size count m' r) ∨
      (∃ m', m.reallocBytes offset count alignment = (sizeMax, m') ∧
        m'.allocatedBlocks = m.allocatedBlocks ∧ ∀ b ∈ m.allocatedBlocks, Untouched m m' b) := by
  have h := hreach.inv.1
  obtain ⟨i, hfind, hi⟩ := h.findBlock_live hlive
  have hinv' := (LinearMemory.reallocBytes_step h offset count alignment).inv
  have hdef := LinearMemory.reallocBytes.eq_1 m offset count alignment
  simp only [hfind, hi, Option.getD_some, if_neg hcount.ne'] at hdef
  have hoffset : offset ≠ sizeMax := by
    have hstop := h.stop_le hlive
    have hpos := h.alloc_pos _ hlive
    have hheap := h.heap_le
    simp only [Block.stop] at hstop hpos
    omega
  by_cases hle : count ≤ size
  · rw [if_pos hle] at hdef
    rw [hdef] at hinv'
    exact .inl ⟨offset, _, hdef, hoffset, reallocated_in_place h hi hinv'⟩
  · rw [if_neg hle] at hdef
    cases hgrow : m.growthBlock (offset + size) (count - size) with
    | some j =>
      simp only [hgrow] at hdef
      rw [hdef] at hinv'
      exact .inl ⟨offset, _, hdef, hoffset, reallocated_in_place h hi hinv'⟩
    | none =>
      obtain ⟨r, m₁, hmalloc, hbytes, ⟨rfl, hblocks⟩ | ⟨hne, hblocks⟩⟩ := mallocBytes_keeps m hcount alignment
      · simp only [hgrow, hmalloc, if_true] at hdef
        refine .inr ⟨m₁, hdef, hblocks, fun b hb => ⟨hblocks ▸ hb, .extended hbytes (h.stop_le_length hb)⟩⟩
      · obtain ⟨m₂, hcopy, hre⟩ := reallocated_move h hlive (not_le.mp hle) hmalloc hbytes hblocks
        simp only [hgrow, hmalloc, if_neg hne, hcopy] at hdef
        exact .inl ⟨r, _, hdef, hne, hre⟩

/-- Two blocks of eight bytes side by side: the first one cannot grow where it is and is moved. -/
theorem reallocBytes_preserves_moved : let m := ((({} : LinearMemory).mallocBytes 8 1).2.mallocBytes 8 1).2
    (∃ r m', m.reallocBytes 0 16 1 = (r, m') ∧ r ≠ sizeMax ∧ Reallocated m 0 8 16 m' r) ∨
      (∃ m', m.reallocBytes 0 16 1 = (sizeMax, m') ∧
        m'.allocatedBlocks = m.allocatedBlocks ∧ ∀ b ∈ m.allocatedBlocks, Untouched m m' b) :=
  reallocBytes_preserves (show Reachable maxVectors _ from .malloc (.malloc .fresh 8 1 rfl) 8 1 rfl)
    (by decide) (by decide) 1

end Zith.Vm
