import Zith.Vm.AllocationExterns

/-! Which calls of the allocating externs follow the convention for `None`: those of `malloc` and `realloc` that return,
    and those of `calloc` and `aligned_alloc` that allocate. -/

namespace Zith.Vm
open Zith.Lib

/-! ### Room for a block -/

section
variable (V : Vectors) (m : LinearMemory) (size alignment : ℕ)

/-- A free block that `mallocBytes` takes. -/
def HasFree : Prop := ∃ b ∈ m.freeBlocks, LinearMemory.fits m.bump size alignment b = true

/-- Where a new block at the end of the heap ends. -/
def newEnd : ℕ := alignUp (max m.heap m.bump) alignment + size

/-- The block is taken from a free one, or the memory can grow by it. -/
def Room : Prop := HasFree m size alignment ∨ newEnd m size alignment ≤ V.limit

/-- The memory would grow beyond what a vector holds, but not beyond what a `size_t` says. -/
def Overgrows : Prop :=
  ¬HasFree m size alignment ∧ V.limit < newEnd m size alignment ∧ newEnd m size alignment ≤ sizeMax

/-- What `mallocBytes` answers. -/
inductive Malloced : Prop
  | block {offset : ℕ} {m' : LinearMemory} (hroom : Room V m size alignment)
      (heq : m.mallocBytes size alignment = (offset, m')) (hne : offset ≠ sizeMax)
      (hblocks : m'.allocatedBlocks = m.allocatedBlocks ++ [(offset, size)]) (hle : m'.bytes.length ≤ V.limit)
  | tooLong {offset : ℕ} {m' : LinearMemory} (hover : Overgrows V m size alignment)
      (heq : m.mallocBytes size alignment = (offset, m')) (hne : offset ≠ sizeMax)
      (hblocks : m'.allocatedBlocks = m.allocatedBlocks ++ [(offset, size)])
      (hgrown : m.bytes.length < m'.bytes.length ∧ V.limit < m'.bytes.length)
  | failed {m' : LinearMemory} (hroom : ¬Room V m size alignment) (hover : ¬Overgrows V m size alignment)
      (heq : m.mallocBytes size alignment = (sizeMax, m')) (hblocks : m'.allocatedBlocks = m.allocatedBlocks)
      (hbytes : m'.bytes = m.bytes)

end

section
variable {V : Vectors} {m m' : LinearMemory} {size alignment offset : ℕ} {kept : List Block}

theorem malloced (h : m.Inv) (hle : m.bytes.length ≤ V.limit) (hsize : 0 < size) (halign : 0 < alignment)
    (hpow : alignment &&& (alignment - 1) = 0) : Malloced V m size alignment := by
  have hdef := LinearMemory.mallocBytes.eq_1 m size alignment
  rw [if_neg hsize.ne', if_neg halign.ne'] at hdef
  simp only [hpow, ne_eq, not_true_eq_false, if_false] at hdef
  have hlimit := V.limit_lt
  cases hfind : m.freeBlocks.findIdx? (LinearMemory.fits m.bump size alignment) with
  | some i =>
    obtain ⟨b, hb, hfits⟩ := exists_of_findIdx? hfind
    have hfree : HasFree m size alignment := ⟨b, List.mem_of_getElem? hb, hfits⟩
    simp only [hfind, hb, Option.getD_some] at hdef
    refine .block (.inl hfree) hdef ?_ rfl hle
    simp only [LinearMemory.fits, decide_eq_true_eq] at hfits
    exact fun heq => hfits.2.1 (Or.inl heq)
  | none =>
    have hfree : ¬HasFree m size alignment := by
      rintro ⟨b, hb, hfits⟩
      have := List.findIdx?_eq_none_iff.mp hfind b hb
      rw [hfits] at this
      cases this
    simp only [hfind] at hdef
    have hheap := le_alignUp_of_le (max_le h.heap_le h.bump_le) alignment
    have hsizeEq := h.size_eq
    have hend : newEnd m size alignment = alignUp (max m.heap m.bump) alignment + size := rfl
    by_cases hfull : size > sizeMax - alignUp (max m.heap m.bump) alignment
    · rw [if_pos hfull] at hdef
      refine .failed ?_ ?_ hdef rfl rfl
      · rintro (hhas | hroom)
        · exact hfree hhas
        · rw [hend] at hroom
          simp only [sizeMax] at hfull
          omega
      · rintro ⟨-, -, hover⟩
        omega
    · rw [if_neg hfull] at hdef
      have hgrown : (LinearMemory.growBytes m.bytes (alignUp (max m.heap m.bump) alignment + size)).length =
          newEnd m size alignment := by
        rw [LinearMemory.length_growBytes, hend]
        omega
      have hne : alignUp (max m.heap m.bump) alignment ≠ sizeMax := by
        omega
      by_cases hroom : newEnd m size alignment ≤ V.limit
      · exact .block (.inr hroom) hdef hne rfl (hgrown.trans_le hroom)
      · refine .tooLong ⟨hfree, by omega, by omega⟩ hdef hne rfl ?_
        dsimp only
        rw [hgrown]
        omega

/-! ### What is returned -/

theorem toSize_toResult (offset : ℕ) : toSize (toResult offset) = offset % 2 ^ 64 := by
  simp [toSize, toResult]

theorem toResult_sizeMax : toResult sizeMax = noneSentinel := by decide

theorem toResult_ne (h : offset < 2 ^ 63) : toResult offset ≠ noneSentinel := by
  intro heq
  have := congrArg toSize heq
  have hnone : toSize noneSentinel = 2 ^ 64 - 1 := by decide
  rw [toSize_toResult, hnone] at this
  omega

/-- A block that the memory has beside others. -/
theorem newBlock_of_perm (h : m'.Inv) (hperm : m'.allocatedBlocks.Perm ((offset, size) :: kept)) :
    NewBlock m' kept size offset := by
  have hmem : (offset, size) ∈ m'.allocatedBlocks := hperm.mem_iff.mpr List.mem_cons_self
  refine ⟨hperm, fun b hb => ?_, ?_⟩
  · refine (apart_of_cover_le_one (k := [(offset, size)]) (fun n => ?_) (List.mem_singleton_self _) hb).symm
    have hone := h.owned_le n
    rw [cover_perm hperm n] at hone
    simp only [cover_cons, cover_nil] at hone ⊢
    omega
  · have hstop := h.stop_le hmem
    have hsize := h.size_eq
    simp only [Block.stop] at hstop
    omega

theorem NewBlock.small (h : NewBlock m' kept size offset) (hle : m'.bytes.length ≤ V.limit) : offset < 2 ^ 63 := by
  have := h.inside
  have := V.limit_lt
  omega

/-- The offset of a new block is returned. -/
theorem follows_block (h : NewBlock m' kept size offset) (hle : m'.bytes.length ≤ V.limit) :
    FollowsConvention m kept size (some (true, toResult offset, m')) :=
  ⟨_, m', rfl, Or.inr ⟨toResult_ne (h.small hle), offset, rfl, h⟩⟩

theorem follows_none (h : m'.allocatedBlocks = m.allocatedBlocks) :
    FollowsConvention m kept size (some (true, toResult sizeMax, m')) :=
  ⟨_, m', rfl, Or.inl ⟨toResult_sizeMax, h⟩⟩

/-- Returning 0 for no block breaks the convention. -/
theorem not_follows_null (h : m'.allocatedBlocks = m.allocatedBlocks) :
    ¬FollowsConvention m m.allocatedBlocks size (some (true, 0, m')) := by
  rintro ⟨r, m'', heq, hr⟩
  obtain ⟨rfl, rfl⟩ : (0 : Int64) = r ∧ m' = m'' := by simpa using heq
  rcases hr with ⟨hnone, -⟩ | ⟨-, offset, -, hblock⟩
  · exact absurd hnone (by decide)
  · have := hblock.live.length_eq
    rw [h, List.length_cons] at this
    omega

theorem not_follows_thrown : ¬FollowsConvention m kept size none := by
  rintro ⟨r, m', heq, -⟩
  cases heq

theorem growing_of_le {answer : ℕ × LinearMemory} (h : answer.2.bytes.length ≤ V.limit) :
    growing V m answer = some answer := if_neg fun hgrow => absurd hgrow.2 (by omega)

theorem growing_of_bytes {answer : ℕ × LinearMemory} (h : answer.2.bytes.length ≤ m.bytes.length) :
    growing V m answer = some answer := if_neg fun hgrow => absurd hgrow.1 (by omega)

end

/-! ### The calls -/

/-- `realloc` takes a new block: the old one is too small and cannot grow where it is, or there is none. -/
def NeedsBlock (m : LinearMemory) (offset size : ℕ) : Prop :=
  match m.findBlock offset with
  | some i =>
    let oldCount := (m.allocatedBlocks[i]?.getD (0, 0)).2
    oldCount < size ∧ m.growthBlock (offset + oldCount) (size - oldCount) = none
  | none => offset = 0

/-- The condition on the arguments and the memory before the call. -/
def AllocCall.Served (V : Vectors) (m : LinearMemory) : AllocCall → Prop
  | .malloc size => ¬Overgrows V m (max 1 (toSize size)) 1
  | .alignedAlloc alignment size => (0 < alignment ∧ 0 < size) ∧
      (toSize alignment &&& (toSize alignment - 1) = 0 ∧ toSize size % toSize alignment = 0) ∧
      Room V m (toSize size) (toSize alignment)
  | .calloc count size => (toSize count ≠ 0 ∧ toSize size ≠ 0 ∧ toSize count * toSize size ≤ sizeMax) ∧
      Room V m (toSize count * toSize size) 1
  | .realloc offset size => NeedsBlock m (toSize offset) (toSize size) → ¬Overgrows V m (toSize size) 1

section
variable {V : Vectors} {m m' : LinearMemory} {size offset : ℕ}

theorem toSize_ne_zero {a : Int64} (h : a ≠ 0) : toSize a ≠ 0 := by
  intro heq
  apply h
  rw [toSize] at heq
  have hzero : a.toUInt64 = 0 := UInt64.toNat_inj.mp heq
  rw [← Int64.toInt64_toUInt64 a, hzero]
  rfl

theorem mallocBytes_max (m : LinearMemory) (size alignment : ℕ) :
    m.mallocBytes size alignment = m.mallocBytes (max 1 size) alignment := by
  rcases Nat.eq_zero_or_pos size with rfl | hpos
  · rfl
  · rw [max_eq_right hpos]

/-- A block at the end of the list of live blocks. -/
theorem perm_concat {l : List Block} {b : Block} : (l ++ [b]).Perm (b :: l) := List.perm_append_singleton b l

theorem malloc_inv (h : m.Inv) {alignment : ℕ} (heq : m.mallocBytes size alignment = (offset, m')) : m'.Inv := by
  have := (LinearMemory.mallocBytes_step h size alignment).inv
  rwa [heq] at this

theorem Overgrows.not_room {alignment : ℕ} (h : Overgrows V m size alignment) : ¬Room V m size alignment := by
  rintro (hfree | hshort)
  · exact h.1 hfree
  · have := h.2.1
    omega

/-- What `malloc` and a `realloc` of nothing do. -/
theorem malloc_follows (h : Reachable V m) (hsize : 0 < size) :
    FollowsConvention m m.allocatedBlocks size ((growing V m (m.mallocBytes size 1)).map fun answer =>
      (true, toResult answer.1, answer.2)) ↔ ¬Overgrows V m size 1 := by
  obtain ⟨hinv, hle⟩ := h.inv
  cases malloced (V := V) hinv hle hsize Nat.one_pos rfl with
  | @block offset m' hroom heq hne hblocks hle' =>
    refine iff_of_true ?_ fun hover => hover.not_room hroom
    rw [heq, growing_of_le hle']
    exact follows_block (newBlock_of_perm (malloc_inv hinv heq) (hblocks ▸ perm_concat)) hle'
  | @tooLong offset m' hover heq hne hblocks hgrown =>
    refine iff_of_false ?_ (not_not.mpr hover)
    rw [heq, growing, if_pos hgrown]
    exact not_follows_thrown
  | @failed m' hroom hover heq hblocks hbytes =>
    refine iff_of_true ?_ hover
    rw [heq, growing_of_bytes (by rw [hbytes])]
    exact follows_none hblocks

theorem malloc_follows_iff (h : Reachable V m) (size : Int64) :
    FollowsConvention m m.allocatedBlocks (max 1 (toSize size)) (externMalloc V m { arg0 := size }) ↔
      ¬Overgrows V m (max 1 (toSize size)) 1 := by
  rw [← malloc_follows h (Nat.lt_of_lt_of_le Nat.one_pos (le_max_left ..)), ← mallocBytes_max]
  have hhandler : externMalloc V m { arg0 := size } =
      (growing V m (m.mallocBytes (toSize size) 1)).map fun answer => (true, toResult answer.1, answer.2) := by
    rw [externMalloc]
    cases growing V m (m.mallocBytes (toSize size) 1) <;> rfl
  rw [hhandler]

theorem calloc_follows_iff (h : Reachable V m) (count size : Int64) :
    FollowsConvention m m.allocatedBlocks (toSize count * toSize size)
        (externCalloc V m { arg0 := count, arg1 := size }) ↔ (AllocCall.calloc count size).Served V m := by
  obtain ⟨hinv, hle⟩ := h.inv
  simp only [AllocCall.Served]
  by_cases hbad : toSize count = 0 ∨ toSize size = 0 ∨ toSize count > sizeMax / toSize size
  · have hhandler : externCalloc V m { arg0 := count, arg1 := size } = some (true, 0, m) := by
      simp only [externCalloc, if_pos hbad]
      rfl
    rw [hhandler]
    refine iff_of_false (not_follows_null rfl) ?_
    rintro ⟨⟨hcount, hsize, hfits⟩, -⟩
    rcases hbad with hzero | hzero | hlarge
    · exact hcount hzero
    · exact hsize hzero
    · exact absurd ((Nat.le_div_iff_mul_le (Nat.pos_of_ne_zero hsize)).mpr hfits) (not_le.mpr hlarge)
  · obtain ⟨hcount, hsize, hlarge⟩ : toSize count ≠ 0 ∧ toSize size ≠ 0 ∧ ¬toSize count > sizeMax / toSize size := by
      simpa only [not_or] using hbad
    have hfits := (Nat.le_div_iff_mul_le (Nat.pos_of_ne_zero hsize)).mp (not_lt.mp hlarge)
    have hpos : 0 < toSize count * toSize size := Nat.mul_pos (Nat.pos_of_ne_zero hcount) (Nat.pos_of_ne_zero hsize)
    simp only [hcount, hsize, hfits, ne_eq, not_false_eq_true, true_and]
    simp only [externCalloc, if_neg hbad]
    generalize toSize count * toSize size = total at hpos hfits ⊢
    cases malloced (V := V) hinv hle hpos Nat.one_pos rfl with
    | @block offset m' hroom heq hne hblocks hle' =>
      have hinv' := malloc_inv hinv heq
      have hnew := newBlock_of_perm hinv' (hblocks ▸ perm_concat)
      have hinside := hnew.inside
      refine iff_of_true ?_ hroom
      have hwritten := LinearMemory.length_write m' offset (List.replicate total 0)
      have hwrite : m'.write offset (List.replicate total 0) =
          (true, (m'.write offset (List.replicate total 0)).2) := by
        rw [LinearMemory.write, if_neg]
        rw [List.length_replicate]
        omega
      have hkept : (m'.write offset (List.replicate total 0)).2.allocatedBlocks = m'.allocatedBlocks := by
        rw [LinearMemory.write]
        split <;> rfl
      rw [heq, growing_of_le hle']
      simp only [Option.bind_eq_bind, Option.bind_some, if_neg hne]
      rw [hwrite]
      refine follows_block (newBlock_of_perm (LinearMemory.write_step hinv' ..).inv ?_) (hwritten.trans_le hle')
      rw [hkept, hblocks]
      exact perm_concat
    | @tooLong offset m' hover heq hne hblocks hgrown =>
      refine iff_of_false ?_ hover.not_room
      rw [heq, growing, if_pos hgrown]
      exact not_follows_thrown
    | @failed m' hroom hover heq hblocks hbytes =>
      refine iff_of_false ?_ hroom
      rw [heq, growing_of_bytes (by rw [hbytes])]
      exact not_follows_null hblocks

theorem alignedAlloc_follows_iff (h : Reachable V m) (alignment size : Int64) :
    FollowsConvention m m.allocatedBlocks (toSize size) (externAlignedAlloc V m { arg0 := alignment, arg1 := size }) ↔
      (AllocCall.alignedAlloc alignment size).Served V m := by
  obtain ⟨hinv, hle⟩ := h.inv
  simp only [AllocCall.Served]
  by_cases hsigns : 0 < alignment ∧ 0 < size
  · have hsigned : ¬(alignment ≤ 0 ∨ size ≤ 0) := by
      rw [not_or, Int64.not_le, Int64.not_le]
      exact hsigns
    have hpos : ∀ {a : Int64}, 0 < a → 0 < toSize a := fun {a} ha =>
      Nat.pos_of_ne_zero (toSize_ne_zero fun heq => by simp [heq] at ha)
    simp only [externAlignedAlloc, if_neg hsigned, hsigns, and_self, true_and]
    by_cases hform : toSize alignment &&& (toSize alignment - 1) = 0 ∧ toSize size % toSize alignment = 0
    · simp only [hform, and_self, true_and, ne_eq, not_true_eq_false, or_self, if_false]
      cases malloced (V := V) hinv hle (hpos hsigns.2) (hpos hsigns.1) hform.1 with
      | @block offset m' hroom heq hne hblocks hle' =>
        have hnew := newBlock_of_perm (malloc_inv hinv heq) (hblocks ▸ perm_concat)
        refine iff_of_true ?_ hroom
        rw [heq, growing_of_le hle']
        simp only [Option.bind_eq_bind, Option.bind_some, if_neg hne, if_neg (not_le.mpr (hnew.small hle'))]
        exact follows_block hnew hle'
      | @tooLong offset m' hover heq hne hblocks hgrown =>
        refine iff_of_false ?_ hover.not_room
        rw [heq, growing, if_pos hgrown]
        exact not_follows_thrown
      | @failed m' hroom hover heq hblocks hbytes =>
        refine iff_of_false ?_ hroom
        rw [heq, growing_of_bytes (by rw [hbytes])]
        exact not_follows_null hblocks
    · have hill : toSize alignment &&& (toSize alignment - 1) ≠ 0 ∨ toSize size % toSize alignment ≠ 0 :=
        not_and_or.mp hform
      simp only [if_pos hill]
      exact iff_of_false (not_follows_null rfl) fun hserved => hform hserved.1
  · have hsigned : alignment ≤ 0 ∨ size ≤ 0 := by
      rw [not_and_or, Int64.not_lt, Int64.not_lt] at hsigns
      exact hsigns
    simp only [externAlignedAlloc, if_pos hsigned]
    exact iff_of_false (not_follows_null rfl) fun hserved => hsigns hserved.1

/-- A block that is resized where it is. -/
theorem follows_resized {i start : ℕ} (hinv : m'.Inv) (hle : m'.bytes.length ≤ V.limit)
    (hi : i < m.allocatedBlocks.length) (hblocks : m'.allocatedBlocks = m.allocatedBlocks.set i (start, size)) :
    FollowsConvention m (m.allocatedBlocks.eraseIdx i) size (some (true, toResult start, m')) := by
  have hperm := List.getElem_cons_eraseIdx_perm (l := m.allocatedBlocks.set i (start, size)) (by simpa using hi)
  rw [List.getElem_set_self, List.eraseIdx_set_eq, ← hblocks] at hperm
  exact follows_block (newBlock_of_perm hinv hperm.symm) hle

/-- A block that is freed after a new one is made. -/
theorem freeBytes_blocks {i : ℕ} {b : Block} (hfind : m.findBlock offset = some i)
    (hblocks : m'.allocatedBlocks = m.allocatedBlocks ++ [b]) :
    (m'.freeBytes offset).2.allocatedBlocks.Perm (b :: m.allocatedBlocks.eraseIdx i) := by
  obtain ⟨old, hold, -⟩ := exists_of_findIdx? hfind
  obtain ⟨hi, -⟩ := List.getElem?_eq_some_iff.mp hold
  have hfind' : m'.findBlock offset = some i := by
    rw [LinearMemory.findBlock, hblocks, List.findIdx?_append]
    rw [LinearMemory.findBlock] at hfind
    rw [hfind]
    rfl
  rw [LinearMemory.freeBytes, hfind']
  simp only [hblocks]
  rw [List.eraseIdx_append_of_lt_length hi]
  exact perm_concat

/-- The copy into a larger block succeeds. -/
theorem copy_new {start old : ℕ} (hinv : m'.Inv) (hlt : old < size) (hold : (start, old) ∈ m'.allocatedBlocks)
    (hnew : (offset, size) ∈ m'.allocatedBlocks) :
    ∃ m₂, m'.copy offset start old = (true, m₂) ∧ m₂.allocatedBlocks = m'.allocatedBlocks ∧ m₂.freeBlocks = m'.freeBlocks := by
  have hstop := hinv.stop_le hold
  have hstop' := hinv.stop_le hnew
  have hsize := hinv.size_eq
  simp only [Block.stop] at hstop hstop'
  have hbounds : ¬(offset > m'.bytes.length ∨ start > m'.bytes.length ∨ old > m'.bytes.length - offset ∨
      old > m'.bytes.length - start) := by omega
  rw [LinearMemory.copy, if_neg hbounds]
  exact ⟨_, rfl, rfl, rfl⟩

/-- A block that is too small and cannot grow where it is is moved into a new one. -/
theorem move_follows (h : Reachable V m) {i start old : ℕ} (hfind : m.findBlock start = some i)
    (hold : m.allocatedBlocks[i]? = some (start, old)) (hlt : old < size)
    (hnone : m.growthBlock (start + old) (size - old) = none) :
    FollowsConvention m (m.allocatedBlocks.eraseIdx i) size ((growing V m (m.reallocBytes start size 1)).map
      fun answer => (true, toResult answer.1, answer.2)) ↔ ¬Overgrows V m size 1 := by
  obtain ⟨hinv, hle⟩ := h.inv
  have hdef := LinearMemory.reallocBytes.eq_1 m start size 1
  have hinv₂ := (LinearMemory.reallocBytes_step hinv start size 1).inv
  simp only [hfind, hold, Option.getD_some, if_neg (show ¬size = 0 by omega), if_neg (not_le.mpr hlt), hnone] at hdef
  have hmoved : ∀ {offset m'}, m.mallocBytes size 1 = (offset, m') → offset ≠ sizeMax →
      m'.allocatedBlocks = m.allocatedBlocks ++ [(offset, size)] →
      ∃ m₂, m.reallocBytes start size 1 = (offset, m₂) ∧ m₂.bytes.length = m'.bytes.length ∧
        m₂.allocatedBlocks.Perm ((offset, size) :: m.allocatedBlocks.eraseIdx i) := by
    intro offset m' heq hne hblocks
    have hmem : (start, old) ∈ m'.allocatedBlocks := hblocks ▸ List.mem_append_left _ (List.mem_of_getElem? hold)
    have hmem' : (offset, size) ∈ m'.allocatedBlocks := hblocks ▸ List.mem_append_right _ (List.mem_singleton_self _)
    obtain ⟨m₁, hcopy, hblocks₁, -⟩ := copy_new (malloc_inv hinv heq) hlt hmem hmem'
    have hlength := LinearMemory.length_copy m' offset start old
    rw [hcopy] at hlength
    refine ⟨(m₁.freeBytes start).2, ?_, ?_, freeBytes_blocks hfind (hblocks₁.trans hblocks)⟩
    · rw [hdef, heq]
      simp only [if_neg hne, hcopy]
    · rw [LinearMemory.length_freeBytes]
      exact hlength
  cases malloced (V := V) hinv hle (by omega : 0 < size) Nat.one_pos rfl with
  | @block offset m' hroom heq hne hblocks hle' =>
    obtain ⟨m₂, hrealloc, hlength, hperm⟩ := hmoved heq hne hblocks
    rw [hrealloc] at hinv₂
    refine iff_of_true ?_ fun hover => hover.not_room hroom
    rw [hrealloc, growing_of_le (by dsimp only; omega)]
    exact follows_block (newBlock_of_perm hinv₂ hperm) (hlength.trans_le hle')
  | @tooLong offset m' hover heq hne hblocks hgrown =>
    obtain ⟨m₂, hrealloc, hlength, -⟩ := hmoved heq hne hblocks
    refine iff_of_false ?_ (not_not.mpr hover)
    rw [hrealloc, growing, if_pos (by dsimp only; omega)]
    exact not_follows_thrown
  | @failed m' hroom hover heq hblocks hbytes =>
    have hrealloc : m.reallocBytes start size 1 = (sizeMax, m') := by
      rw [hdef, heq]
      simp
    refine iff_of_true ?_ hover
    rw [hrealloc, growing_of_bytes (by rw [hbytes])]
    exact follows_none hblocks

theorem realloc_follows_iff (h : Reachable V m) (offset size : Int64) (hsize : size ≠ 0) :
    FollowsConvention m ((AllocCall.realloc offset size).kept m) (toSize size)
        (externRealloc V m { arg0 := offset, arg1 := size }) ↔ (AllocCall.realloc offset size).Served V m := by
  obtain ⟨hinv, hle⟩ := h.inv
  have hpos : 0 < toSize size := Nat.pos_of_ne_zero (toSize_ne_zero hsize)
  have hhandler : externRealloc V m { arg0 := offset, arg1 := size } =
      (growing V m (m.reallocBytes (toSize offset) (toSize size) 1)).map fun answer =>
        (true, toResult answer.1, answer.2) := by
    rw [externRealloc]
    cases growing V m (m.reallocBytes (toSize offset) (toSize size) 1) <;> rfl
  rw [hhandler]
  simp only [AllocCall.Served, AllocCall.kept, NeedsBlock]
  generalize toSize offset = start
  generalize toSize size = size at hpos
  have hdef := LinearMemory.reallocBytes.eq_1 m start size 1
  have hinv₂ := (LinearMemory.reallocBytes_step hinv start size 1).inv
  cases hfind : m.findBlock start with
  | none =>
    simp only [hfind, if_neg hpos.ne'] at hdef
    by_cases hstart : start = 0
    · subst hstart
      rw [if_pos rfl] at hdef
      rw [hdef]
      simp only [true_implies]
      exact malloc_follows h hpos
    · rw [if_neg hstart] at hdef
      refine iff_of_true ?_ fun hzero => absurd hzero hstart
      rw [hdef, growing_of_bytes (by exact le_rfl)]
      exact follows_none rfl
  | some i =>
    obtain ⟨⟨first, old⟩, hold, hfirst⟩ := exists_of_findIdx? hfind
    obtain rfl : first = start := by simpa using hfirst
    obtain ⟨hi, -⟩ := List.getElem?_eq_some_iff.mp hold
    simp only [hfind, hold, Option.getD_some, if_neg hpos.ne'] at hdef ⊢
    by_cases hfits : size ≤ old
    · rw [if_pos hfits] at hdef
      rw [hdef] at hinv₂
      refine iff_of_true ?_ fun hneeds => absurd hneeds.1 (not_lt.mpr hfits)
      rw [hdef, growing_of_bytes (by exact le_rfl)]
      exact follows_resized hinv₂ hle hi rfl
    · rw [if_neg hfits] at hdef
      cases hgrow : m.growthBlock (first + old) (size - old) with
      | some j =>
        simp only [hgrow] at hdef
        rw [hdef] at hinv₂
        refine iff_of_true ?_ fun hneeds => by simp at hneeds
        rw [hdef, growing_of_bytes (by exact le_rfl)]
        exact follows_resized hinv₂ hle hi rfl
      | none =>
        have hneeds : old < size ∧ (none : Option ℕ) = none := ⟨by omega, rfl⟩
        rw [move_follows h hfind hold hneeds.1 hgrow]
        exact ⟨fun hnot _ => hnot, fun hnot => hnot hneeds⟩

/-- A call follows the convention exactly when it does not throw and, of `calloc` and `aligned_alloc`, when it
    allocates. -/
theorem allocCall_follows_iff (h : Reachable V m) (call : AllocCall) (hcall : call.Allocates) :
    FollowsConvention m (call.kept m) call.size (call.handle V m) ↔ call.Served V m := by
  cases call with
  | malloc size => exact malloc_follows_iff h size
  | alignedAlloc alignment size => exact alignedAlloc_follows_iff h alignment size
  | calloc count size => exact calloc_follows_iff h count size
  | realloc offset size => exact realloc_follows_iff h offset size hcall

end

def maxVectors : Vectors := ⟨2 ^ 63 - 1, by decide⟩

/-- `realloc` of no block, in the empty memory. -/
theorem allocCall_follows_realloc : FollowsConvention {} [] 8 ((AllocCall.realloc 0 8).handle maxVectors {}) :=
  (allocCall_follows_iff (V := maxVectors) .fresh (.realloc 0 8) (by simp [AllocCall.Allocates])).mpr
    fun _ hover => absurd hover.2.1 (by decide)

/-- Two calls that fail return 0, and so does one that succeeds. -/
theorem allocCall_null : Reachable maxVectors {} ∧
    (AllocCall.calloc 1099511627776 1099511627776).handle maxVectors {} = some (true, 0, {}) ∧
    (AllocCall.alignedAlloc 8 12).handle maxVectors {} = some (true, 0, {}) ∧
    (AllocCall.calloc 1 8).handle maxVectors {} =
      some (true, 0, { bytes := List.replicate 8 0, heap := 8, allocatedBlocks := [(0, 8)] }) ∧
    ¬FollowsConvention {} [] (2 ^ 80) ((AllocCall.calloc 1099511627776 1099511627776).handle maxVectors {}) ∧
    ¬FollowsConvention {} [] 12 ((AllocCall.alignedAlloc 8 12).handle maxVectors {}) := by
  have hcalloc : (AllocCall.calloc 1099511627776 1099511627776).handle maxVectors {} = some (true, 0, {}) := by
    decide +kernel
  have haligned : (AllocCall.alignedAlloc 8 12).handle maxVectors {} = some (true, 0, {}) := by decide +kernel
  refine ⟨.fresh, hcalloc, haligned, by decide +kernel, ?_, ?_⟩
  · rw [hcalloc]
    exact not_follows_null rfl
  · rw [haligned]
    exact not_follows_null rfl

end Zith.Vm
