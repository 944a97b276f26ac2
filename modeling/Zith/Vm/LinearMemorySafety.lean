import Mathlib.Data.List.Infix
import Zith.Vm.LinearMemory

/-! What `LinearMemory` guarantees of the storage it hands out. The memory's own invariant is a count:
    no byte lies in two blocks (allocated or free), none beyond `heap_` in any. A session adds what the
    callers hold, the arena ranges not yet released, as a stack of watermarks:

        frames: (mark₂, ranges) , (mark₁, ranges) , (0, ranges)      mark₁ ≤ mark₂ ≤ bump

    `mallocBytes` takes bytes at or above `bump_` only, so it stays clear of the ranges. The in-place
    growth of `reallocBytes` does not look at `bump_`: the property holds along a run exactly when no
    such growth reaches into a live range. -/

namespace Zith.Vm
open Zith.Lib Zith.Lib.Block

theorem le_alignUp (value alignment : ℕ) : min value sizeMax ≤ alignUp value alignment := by
  unfold alignUp
  split
  · exact min_le_left _ _
  · split
    · exact min_le_right _ _
    · dsimp only
      split
      · exact min_le_right _ _
      · have hmask : (value + (alignment - 1)) &&& (alignment - 1) ≤ alignment - 1 := Nat.and_le_right
        omega

theorem le_alignUp_of_le {value : ℕ} (h : value ≤ sizeMax) (alignment : ℕ) : value ≤ alignUp value alignment := by
  have := le_alignUp value alignment
  rwa [min_eq_left h] at this

namespace LinearMemory

@[simp] theorem length_resize (bytes : List UInt8) (n : ℕ) : (resize bytes n).length = n := by
  simp only [resize, List.length_append, List.length_take, List.length_replicate]
  omega

@[simp] theorem length_growBytes (bytes : List UInt8) (n : ℕ) : (growBytes bytes n).length = max bytes.length n := by
  unfold growBytes
  split
  · rw [length_resize]; omega
  · omega

@[simp] theorem cover_leftover (offset size n : ℕ) : cover (leftover offset size) n = weight (offset, size) n := by
  unfold leftover
  split
  · rfl
  · next h =>
    obtain rfl : size = 0 := by omega
    rw [cover_nil, weight, if_neg]
    rintro ⟨hle, hlt⟩
    exact absurd hlt (not_lt.mpr hle)

/-! ### The invariant of the memory -/

/-- No byte belongs to two blocks and none beyond `heap_` to any. -/
structure Inv (m : LinearMemory) : Prop where
  owned_le : ∀ n, cover m.allocatedBlocks n + cover m.freeBlocks n ≤ 1
  owned_ge : ∀ n, m.heap ≤ n → cover m.allocatedBlocks n + cover m.freeBlocks n = 0
  alloc_pos : ∀ b ∈ m.allocatedBlocks, 0 < b.2
  heap_le : m.heap ≤ sizeMax
  bump_le : m.bump ≤ sizeMax
  size_eq : m.bytes.length = max m.bump m.heap

theorem Inv.fresh : Inv {} := by
  constructor <;> simp

variable {m : LinearMemory}

/-- Allocated blocks end at `heap_` or before. -/
theorem Inv.stop_le (h : m.Inv) {b : Block} (hb : b ∈ m.allocatedBlocks) : b.stop ≤ m.heap := by
  by_contra hlt
  have hpos := h.alloc_pos b hb
  have hcov : b.Covers (b.stop - 1) := by
    simp only [Covers, stop]
    omega
  have hone := weight_le_cover hb (b.stop - 1)
  rw [weight_of_covers hcov] at hone
  have hzero := h.owned_ge (b.stop - 1) (by omega)
  omega

/-- What a heap operation may do: it keeps `bump_`, and of the bytes below `bump_` it hands out none
    but those of `grown`. -/
structure HeapStep (m m' : LinearMemory) (grown : Option Block) : Prop where
  inv : m'.Inv
  bump_eq : m'.bump = m.bump
  below : ∀ n, n < m.bump → (∀ e ∈ grown, ¬ e.Covers n) → cover m'.allocatedBlocks n ≤ cover m.allocatedBlocks n

theorem HeapStep.refl (h : m.Inv) : HeapStep m m none := ⟨h, rfl, fun _ _ _ => le_rfl⟩

theorem HeapStep.trans {m₁ m₂ m₃ : LinearMemory} (h₁ : HeapStep m₁ m₂ none)
    (h₂ : HeapStep m₂ m₃ none) : HeapStep m₁ m₃ none where
  inv := h₂.inv
  bump_eq := h₂.bump_eq.trans h₁.bump_eq
  below n hn hgrown := le_trans (h₂.below n (h₁.bump_eq ▸ hn) hgrown) (h₁.below n hn hgrown)

/-- An operation that moves bytes between blocks: what is owned stays the same. -/
theorem HeapStep.of_conserved {m m' : LinearMemory} {grown : Option Block} (h : m.Inv)
    (howned : ∀ n, cover m'.allocatedBlocks n + cover m'.freeBlocks n =
      cover m.allocatedBlocks n + cover m.freeBlocks n)
    (hpos : ∀ b ∈ m'.allocatedBlocks, 0 < b.2) (hheap : m'.heap = m.heap)
    (hbump : m'.bump = m.bump) (hbytes : m'.bytes.length = m.bytes.length)
    (hbelow : ∀ n, n < m.bump → (∀ e ∈ grown, ¬ e.Covers n) →
      cover m'.allocatedBlocks n ≤ cover m.allocatedBlocks n) : HeapStep m m' grown where
  inv :=
    { owned_le := fun n => (howned n).trans_le (h.owned_le n)
      owned_ge := fun n hn => (howned n).trans (h.owned_ge n (hheap ▸ hn))
      alloc_pos := hpos
      heap_le := hheap.trans_le h.heap_le
      bump_le := hbump.trans_le h.bump_le
      size_eq := by rw [hbytes, hheap, hbump, h.size_eq] }
  bump_eq := hbump
  below := hbelow

/-! ### The heap operations -/

theorem freeBytes_step (h : m.Inv) (offset : ℕ) : HeapStep m (m.freeBytes offset).2 none := by
  unfold freeBytes
  split
  · exact .refl h
  · next i hfind =>
    obtain ⟨b, hb, _⟩ := exists_of_findIdx? hfind
    have herase := cover_eraseIdx hb
    refine .of_conserved h (fun n => ?_) (fun c hc => ?_) rfl rfl rfl fun n _ _ => ?_
    · have := herase n
      simp only [hb, Option.toList_some, cover_coalesce, cover_append, cover_cons, cover_nil]
      omega
    · exact h.alloc_pos c (List.mem_of_mem_eraseIdx hc)
    · have := herase n
      dsimp only
      omega

theorem mallocBytes_step (h : m.Inv) (count alignment : ℕ) : HeapStep m (m.mallocBytes count alignment).2 none := by
  unfold mallocBytes
  generalize hc : (if count = 0 then 1 else count) = c
  generalize (if alignment = 0 then 1 else alignment) = a
  have hcpos : 0 < c := by rw [← hc]; split <;> omega
  dsimp only
  split
  · exact .refl h
  split
  · -- a free block at or above `bump_` is split in three
    next i hfind =>
    obtain ⟨⟨offset, available⟩, hb, hfits⟩ := exists_of_findIdx? hfind
    simp only [fits, decide_eq_true_eq] at hfits
    obtain ⟨hbump, haligned, hroom⟩ := hfits
    have herase := cover_eraseIdx hb
    simp only [hb, Option.getD_some]
    generalize hal : alignUp offset a = aligned at *
    have hsplit : ∀ n, weight (offset, available) n = weight (offset, aligned - offset) n +
        (weight (aligned, c) n + weight (aligned + c, available - (aligned - offset) - c) n) := by
      intro n
      rw [← weight_split, show (aligned : ℕ) = offset + (aligned - offset) by omega,
        Nat.add_sub_cancel_left, ← weight_split]
      congr 2
      omega
    refine .of_conserved h (fun n => ?_) (fun b hb' => ?_) rfl rfl rfl fun n hn _ => ?_
    · have := herase n
      have := hsplit n
      simp only [cover_append, cover_leftover, cover_cons, cover_nil]
      omega
    · rcases List.mem_append.mp hb' with hb' | hb'
      · exact h.alloc_pos b hb'
      · rw [List.mem_singleton.mp hb']
        exact hcpos
    · have : weight (aligned, c) n = 0 := weight_of_lt (by dsimp only; omega)
      simp only [cover_append, cover_cons, cover_nil]
      omega
  · -- a new block at the end of the heap
    have hheap := le_alignUp_of_le (max_le h.heap_le h.bump_le) a
    generalize hal : alignUp (max m.heap m.bump) a = aligned at *
    have hle : m.heap ≤ aligned ∧ m.bump ≤ aligned := by omega
    have hheapLe := h.heap_le
    have hbumpLe := h.bump_le
    split
    · refine ⟨⟨h.owned_le, fun n hn => h.owned_ge n ?_, h.alloc_pos, max_le hheapLe hbumpLe,
        hbumpLe, ?_⟩, rfl, fun _ _ _ => le_rfl⟩
      · dsimp only at hn
        omega
      · rw [h.size_eq]
        dsimp only
        omega
    · next hroom =>
      refine ⟨⟨fun n => ?_, fun n hn => ?_, fun b hb => ?_, ?_, hbumpLe, ?_⟩, rfl, fun n hn _ => ?_⟩
      · simp only [cover_append, cover_cons, cover_nil]
        have hone := weight_le_one (aligned, c) n
        have hle₁ := h.owned_le n
        rcases lt_or_ge n aligned with hn | hn
        · have := weight_of_lt (b := (aligned, c)) hn
          omega
        · have := h.owned_ge n (by omega)
          omega
      · have hzero : weight (aligned, c) n = 0 := weight_of_stop_le hn
        have := h.owned_ge n (by dsimp only at hn; omega)
        simp only [cover_append, cover_cons, cover_nil]
        omega
      · rcases List.mem_append.mp hb with hb | hb
        · exact h.alloc_pos b hb
        · rw [List.mem_singleton.mp hb]
          exact hcpos
      · dsimp only
        omega
      · simp only [length_growBytes, h.size_eq]
        omega
      · have : weight (aligned, c) n = 0 := weight_of_lt (by dsimp only; omega)
        simp only [cover_append, cover_cons, cover_nil]
        omega

theorem copy_step (h : m.Inv) (dst src count : ℕ) : HeapStep m (m.copy dst src count).2 none := by
  unfold copy
  split
  · exact .refl h
  · next hbounds =>
    refine .of_conserved h (fun _ => rfl) h.alloc_pos rfl rfl ?_ fun _ _ _ => le_rfl
    simp only [List.length_append, List.length_take, List.length_drop]
    omega

/-- The bytes an in-place growth of `reallocBytes` would add, if it makes one. -/
def growth (m : LinearMemory) (offset count : ℕ) : Option Block :=
  match m.findBlock offset with
  | none => none
  | some i =>
    let oldCount := (m.allocatedBlocks[i]?.getD (0, 0)).2
    if count ≤ oldCount then none
    else
      match m.growthBlock (offset + oldCount) (count - oldCount) with
      | none => none
      | some _ => some (offset + oldCount, count - oldCount)

theorem reallocBytes_step (h : m.Inv) (offset count alignment : ℕ) :
    HeapStep m (m.reallocBytes offset count alignment).2 (m.growth offset count) := by
  unfold reallocBytes growth
  cases hfind : m.findBlock offset with
  | none =>
    dsimp only
    split
    · split
      · exact .refl h
      · exact mallocBytes_step h count alignment
    · exact .refl h
  | some i =>
    obtain ⟨⟨first, oldCount⟩, hb, hfirst⟩ := exists_of_findIdx? hfind
    obtain rfl : first = offset := by simpa using hfirst
    have hmem : (first, oldCount) ∈ m.allocatedBlocks := List.mem_of_getElem? hb
    have hold : 0 < oldCount := h.alloc_pos _ hmem
    have hset := cover_set hb (first, count)
    simp only [hb, Option.getD_some]
    split
    · next hzero =>
      rw [if_pos (by omega)]
      exact freeBytes_step h first
    · next hcount =>
      have hpos : ∀ b ∈ m.allocatedBlocks.set i (first, count), 0 < b.2 := by
        intro b hb'
        rcases List.mem_or_eq_of_mem_set hb' with hb' | rfl
        · exact h.alloc_pos b hb'
        · exact Nat.pos_of_ne_zero hcount
      split
      · next hle =>
        have hsplit := weight_split first count (oldCount - count)
        rw [Nat.add_sub_of_le hle] at hsplit
        refine .of_conserved h (fun n => ?_) hpos rfl rfl rfl fun n _ _ => ?_
        · have := hset n
          have := hsplit n
          simp only [cover_coalesce, cover_append, cover_leftover]
          omega
        · have := hset n
          have := hsplit n
          dsimp only
          omega
      · next hlt =>
        cases hgrow : m.growthBlock (first + oldCount) (count - oldCount) with
        | some j =>
          obtain ⟨⟨freeOffset, freeCount⟩, hj, hfree⟩ := exists_of_findIdx? hgrow
          obtain ⟨rfl, hroom⟩ : freeOffset = first + oldCount ∧ count - oldCount ≤ freeCount := by
            simpa using hfree
          have herase := cover_eraseIdx hj
          have hsplit := weight_split first oldCount (count - oldCount)
          have hrest := weight_split (first + oldCount) (count - oldCount) (freeCount - (count - oldCount))
          rw [Nat.add_sub_of_le (by omega)] at hsplit
          rw [Nat.add_sub_of_le hroom] at hrest
          simp only [hj, Option.getD_some]
          refine .of_conserved h (fun n => ?_) hpos rfl rfl rfl fun n _ hclear => ?_
          · have := hset n
            have := herase n
            have := hsplit n
            have := hrest n
            simp only [cover_append, cover_leftover]
            omega
          · have hzero : weight (first + oldCount, count - oldCount) n = 0 :=
              if_neg (hclear _ rfl)
            have := hset n
            have := hsplit n
            dsimp only
            omega
        | none =>
          have hmalloc := mallocBytes_step h count alignment
          generalize m.mallocBytes count alignment = res at hmalloc ⊢
          obtain ⟨replacement, m₁⟩ := res
          dsimp only
          split
          · exact hmalloc
          · have hcopy := copy_step hmalloc.inv replacement first oldCount
            generalize m₁.copy replacement first oldCount = res at hcopy ⊢
            obtain ⟨_ | _, m₂⟩ := res
            · exact (hmalloc.trans hcopy).trans (freeBytes_step hcopy.inv _)
            · exact (hmalloc.trans hcopy).trans (freeBytes_step hcopy.inv _)

/-! ### The arena -/

/-- What the loop of `allocBytes` returns is clear of every heap block. -/
theorem skipHeapBlocks_spec {blocks : List Block} {count alignment : ℕ} (hpos : 0 < count) :
    ∀ {fuel aligned r : ℕ}, skipHeapBlocks blocks count alignment fuel aligned = r → r ≠ sizeMax →
      aligned ≤ r ∧ count ≤ sizeMax - r ∧ ∀ b ∈ blocks, b.Apart (r, count)
  | 0, aligned, r, hr, hne => absurd hr.symm hne
  | fuel + 1, aligned, r, hr, hne => by
    rw [skipHeapBlocks] at hr
    split at hr
    · exact absurd hr.symm hne
    · next hguard =>
      split at hr
      · next hfind =>
        subst hr
        refine ⟨le_rfl, by omega, fun b hb n hn hr => ?_⟩
        have hclear := List.find?_eq_none.mp hfind b hb
        simp only [decide_eq_true_eq] at hclear
        simp only [Covers, stop] at hn hr
        omega
      · next b hfind =>
        have hhit := List.find?_some hfind
        simp only [decide_eq_true_eq] at hhit
        split at hr
        · exact absurd hr.symm hne
        · next hsize =>
          have hnext := le_alignUp (b.1 + b.2) alignment
          obtain ⟨hle, hroom, hclear⟩ := skipHeapBlocks_spec hpos hr hne
          exact ⟨by omega, hroom, hclear⟩

/-- What `allocBytes` does: the range starts at or above the old `bump_` and ends at the new one. -/
structure ArenaStep (m m' : LinearMemory) (range : Block) : Prop where
  inv : m'.Inv
  bump_eq : m'.bump = range.stop
  le_start : m.bump ≤ range.1
  blocks_eq : m'.allocatedBlocks = m.allocatedBlocks
  clear : ∀ b ∈ m.allocatedBlocks, b.Apart range

theorem allocBytes_step (h : m.Inv) (count alignment : ℕ) : (m.allocBytes count alignment = (sizeMax, m)) ∨
      ((m.allocBytes count alignment).1 ≠ sizeMax ∧ ArenaStep m (m.allocBytes count alignment).2
          ((m.allocBytes count alignment).1, if count = 0 then 1 else count)) := by
  unfold allocBytes
  generalize hc : (if count = 0 then 1 else count) = c
  generalize (if alignment = 0 then 1 else alignment) = a
  have hcpos : 0 < c := by rw [← hc]; split <;> omega
  dsimp only
  generalize hr : skipHeapBlocks m.allocatedBlocks c a _ _ = r
  split
  · exact .inl rfl
  · next hguard =>
    have hne : r ≠ sizeMax := fun he => hguard (.inl he)
    obtain ⟨hle, hroom, hclear⟩ := skipHeapBlocks_spec hcpos hr hne
    have hstart := le_trans (le_alignUp_of_le h.bump_le a) hle
    refine .inr ⟨hne, ⟨h.owned_le, h.owned_ge, h.alloc_pos, h.heap_le, ?_, ?_⟩, rfl, hstart, rfl, hclear⟩
    · dsimp only
      omega
    · simp only [length_growBytes, h.size_eq]
      omega

theorem restoreArena_inv (h : m.Inv) {watermark : ℕ} (hle : watermark ≤ m.bump) :
    (m.restoreArena watermark).Inv ∧ (m.restoreArena watermark).bump = watermark ∧
      (m.restoreArena watermark).allocatedBlocks = m.allocatedBlocks := by
  rw [restoreArena, if_neg (not_lt.mpr hle)]
  exact ⟨⟨h.owned_le, h.owned_ge, h.alloc_pos, h.heap_le, le_trans hle h.bump_le, length_resize _ _⟩, rfl, rfl⟩

end LinearMemory

/-! ### Sessions -/

/-- A memory and what its callers hold of the arena: watermarks taken and not restored past, the
    latest first, each with the ranges returned since. -/
structure Session where
  mem : LinearMemory := {}
  frames : List (ℕ × List Block) := [(0, [])]

/-- The arena ranges whose frame has not been restored. -/
def Session.live (s : Session) : List Block := s.frames.flatMap Prod.snd

/-- What a caller may do with the memory. -/
inductive MemOp where
  | allocBytes (count alignment : ℕ)
  | mallocBytes (count alignment : ℕ)
  | reallocBytes (offset count alignment : ℕ)
  | freeBytes (offset : ℕ)
  | arenaWatermark
  /-- Restore the watermark taken `depth` frames ago. -/
  | restoreArena (depth : ℕ)

/-- Record a range in the latest frame. -/
def addRange (r : Block) : List (ℕ × List Block) → List (ℕ × List Block)
  | [] => [(0, [r])]
  | (mark, ranges) :: frames => (mark, r :: ranges) :: frames

def Session.step (s : Session) : MemOp → Session
  | .allocBytes count alignment =>
    let (offset, mem) := s.mem.allocBytes count alignment
    if offset = sizeMax then { s with mem }
    else { mem, frames := addRange (offset, if count = 0 then 1 else count) s.frames }
  | .mallocBytes count alignment => { s with mem := (s.mem.mallocBytes count alignment).2 }
  | .reallocBytes offset count alignment =>
    { s with mem := (s.mem.reallocBytes offset count alignment).2 }
  | .freeBytes offset => { s with mem := (s.mem.freeBytes offset).2 }
  | .arenaWatermark => { s with frames := (s.mem.arenaWatermark, []) :: s.frames }
  | .restoreArena depth =>
    match s.frames.drop depth with
    | [] => s
    | (mark, _) :: frames => { mem := s.mem.restoreArena mark, frames := (mark, []) :: frames }

def Session.run (ops : List MemOp) : Session := ops.foldl Session.step {}

/-- The claim about a state: no storage handed out overlaps other storage. -/
structure Session.NoOverlap (s : Session) : Prop where
  blocks : s.mem.allocatedBlocks.Pairwise Apart
  inside : ∀ b ∈ s.mem.allocatedBlocks, b.stop ≤ s.mem.bytes.length
  free : ∀ b ∈ s.mem.allocatedBlocks, ∀ f ∈ s.mem.freeBlocks, b.Apart f
  arena : ∀ b ∈ s.mem.allocatedBlocks, ∀ r ∈ s.live, b.Apart r

/-- The condition on a step: an in-place growth reaches into no live arena range. -/
def Session.GrowsClear (s : Session) : MemOp → Prop
  | .reallocBytes offset count _ => ∀ e ∈ s.mem.growth offset count, ∀ r ∈ s.live, Apart e r
  | _ => True

/-- Ranges of a frame end where the next watermark was taken, or at `bump_`. -/
def Below : ℕ → List (ℕ × List Block) → Prop
  | _, [] => True
  | top, (mark, ranges) :: frames =>
    mark ≤ top ∧ (∀ r ∈ ranges, r.stop ≤ top) ∧ Below mark frames

structure Session.Inv (s : Session) : Prop where
  mem : s.mem.Inv
  below : Below s.mem.bump s.frames
  arena : ∀ b ∈ s.mem.allocatedBlocks, ∀ r ∈ s.live, b.Apart r

theorem Below.stop_le : ∀ {frames : List (ℕ × List Block)} {top : ℕ}, Below top frames →
    ∀ r ∈ frames.flatMap Prod.snd, r.stop ≤ top
  | [], _, _, r, hr => by simp at hr
  | (mark, ranges) :: frames, top, ⟨hmark, hranges, hrest⟩, r, hr => by
    rw [List.flatMap_cons, List.mem_append] at hr
    rcases hr with hr | hr
    · exact hranges r hr
    · exact le_trans (hrest.stop_le r hr) hmark

theorem Below.drop {mark : ℕ} {ranges : List Block} {rest : List (ℕ × List Block)} :
    ∀ {frames : List (ℕ × List Block)} {top depth : ℕ}, Below top frames →
      frames.drop depth = (mark, ranges) :: rest → mark ≤ top ∧ Below mark rest
  | [], _, _, _, heq => by simp at heq
  | (m, rs) :: frames, top, 0, ⟨hmark, hranges, hrest⟩, heq => by
    obtain ⟨⟨rfl, rfl⟩, rfl⟩ : (m = mark ∧ rs = ranges) ∧ frames = rest := by simpa using heq
    exact ⟨hmark, hrest⟩
  | (m, rs) :: frames, top, depth + 1, ⟨hmark, hranges, hrest⟩, heq => by
    obtain ⟨hle, hbelow⟩ := hrest.drop (by simpa using heq)
    exact ⟨le_trans hle hmark, hbelow⟩

theorem Below.addRange {range : Block} {frames : List (ℕ × List Block)} {top : ℕ}
    (h : Below top frames) (hle : top ≤ range.stop) : Below range.stop (addRange range frames) := by
  rcases frames with _ | ⟨⟨mark, ranges⟩, frames⟩
  · exact ⟨Nat.zero_le _, by simp, trivial⟩
  · obtain ⟨hmark, hranges, hrest⟩ := h
    exact ⟨le_trans hmark hle, List.forall_mem_cons.mpr ⟨le_rfl, fun r hr => le_trans (hranges r hr) hle⟩, hrest⟩

theorem mem_live_addRange {range r : Block} {frames : List (ℕ × List Block)}
    (h : r ∈ (addRange range frames).flatMap Prod.snd) : r = range ∨ r ∈ frames.flatMap Prod.snd := by
  rcases frames with _ | ⟨⟨mark, ranges⟩, frames⟩
  · simpa [Zith.Vm.addRange] using h
  · simpa [Zith.Vm.addRange, or_assoc] using h

/-! ### Steps and runs -/

theorem Session.Inv.fresh : Session.Inv {} := ⟨.fresh, ⟨Nat.le_refl 0, by simp, trivial⟩, by simp⟩

variable {s : Session}

theorem Session.Inv.noOverlap (h : s.Inv) : s.NoOverlap where
  blocks := pairwise_apart_of_cover_le_one fun n =>
    le_trans (Nat.le_add_right _ _) (h.mem.owned_le n)
  inside b hb := by
    rw [h.mem.size_eq]
    exact le_trans (h.mem.stop_le hb) (le_max_right _ _)
  free b hb f hf := apart_of_cover_le_one h.mem.owned_le hb hf
  arena := h.arena

/-- A heap operation whose growth is clear of the live ranges keeps the invariant. -/
theorem Session.Inv.heapStep (h : s.Inv) {mem : LinearMemory} {grown : Option Block}
    (hstep : s.mem.HeapStep mem grown) (hclear : ∀ e ∈ grown, ∀ r ∈ s.live, Apart e r) :
    Session.Inv { s with mem } where
  mem := hstep.inv
  below := by
    rw [hstep.bump_eq]
    exact h.below
  arena b hb r hr n hnb hnr := by
    have hstop := h.below.stop_le r hr
    have hlt : n < s.mem.bump := lt_of_lt_of_le hnr.2 hstop
    have hle := hstep.below n hlt fun e he hne => hclear e he r hr n hne hnr
    have hpos := weight_le_cover hb n
    rw [weight_of_covers hnb] at hpos
    obtain ⟨c, hc, hnc⟩ := exists_covers_of_cover_pos (lt_of_lt_of_le hpos hle)
    exact h.arena c hc r hr n hnc hnr

theorem Session.Inv.step {s : Session} (h : s.Inv) {op : MemOp} (hclear : s.GrowsClear op) : (s.step op).Inv := by
  cases op with
  | allocBytes count alignment =>
    simp only [Session.step]
    rcases LinearMemory.allocBytes_step h.mem count alignment with hfail | ⟨hne, hstep⟩
    · rw [hfail, if_pos rfl]
      exact h
    · rw [if_neg hne]
      refine ⟨hstep.inv, ?_, fun b hb r hr => ?_⟩
      · rw [hstep.bump_eq]
        exact h.below.addRange (le_trans hstep.le_start (Nat.le_add_right _ _))
      · rw [hstep.blocks_eq] at hb
        rcases mem_live_addRange hr with rfl | hr
        · exact hstep.clear b hb
        · exact h.arena b hb r hr
  | mallocBytes count alignment =>
    exact h.heapStep (LinearMemory.mallocBytes_step h.mem count alignment) (by simp)
  | reallocBytes offset count alignment =>
    exact h.heapStep (LinearMemory.reallocBytes_step h.mem offset count alignment) hclear
  | freeBytes offset => exact h.heapStep (LinearMemory.freeBytes_step h.mem offset) (by simp)
  | arenaWatermark => exact ⟨h.mem, ⟨le_rfl, by simp, h.below⟩, h.arena⟩
  | restoreArena depth =>
    simp only [Session.step]
    split
    · exact h
    · next mark ranges frames hdrop =>
      obtain ⟨hle, hbelow⟩ := h.below.drop hdrop
      obtain ⟨hmem, hbump, hblocks⟩ := LinearMemory.restoreArena_inv h.mem hle
      refine ⟨hmem, ?_, fun b hb r hr => ?_⟩
      · rw [hbump]
        exact ⟨le_rfl, by simp, hbelow⟩
      · rw [hblocks] at hb
        refine h.arena b hb r (List.mem_flatMap.mpr ?_)
        obtain ⟨f, hf, hrf⟩ := List.mem_flatMap.mp hr
        rcases List.mem_cons.mp hf with rfl | hf
        · simp at hrf
        · exact ⟨f, List.mem_of_mem_drop (hdrop ▸ List.mem_cons_of_mem _ hf), hrf⟩

/-- A growth makes one block of the old block and the bytes added. -/
theorem LinearMemory.reallocBytes_grown {m : LinearMemory} {offset count : ℕ} {e : Block}
    (h : m.growth offset count = some e) (alignment : ℕ) :
    ∃ b ∈ (m.reallocBytes offset count alignment).2.allocatedBlocks, ∀ n, e.Covers n → b.Covers n := by
  unfold growth at h
  unfold reallocBytes
  cases hfind : m.findBlock offset with
  | none => simp [hfind] at h
  | some i =>
    obtain ⟨⟨first, oldCount⟩, hb, hfirst⟩ := exists_of_findIdx? hfind
    obtain rfl : first = offset := by simpa using hfirst
    simp only [hfind, hb, Option.getD_some] at h ⊢
    split at h
    · simp at h
    · next hlt =>
      rw [if_neg (by omega), if_neg hlt]
      cases hgrow : m.growthBlock (first + oldCount) (count - oldCount) with
      | none => simp [hgrow] at h
      | some j =>
        obtain rfl : (first + oldCount, count - oldCount) = e := by simpa [hgrow] using h
        refine ⟨(first, count), List.mem_of_getElem? (List.getElem?_set_self ?_), fun n hn => ?_⟩
        · exact (List.getElem?_eq_some_iff.mp hb).1
        · simp only [Covers, stop] at hn ⊢
          omega

/-- A step that leaves no overlap met the condition. -/
theorem Session.growsClear_of_noOverlap {op : MemOp} (h : (s.step op).NoOverlap) : s.GrowsClear op := by
  cases op with
  | reallocBytes offset count alignment =>
    intro e he r hr n hne hnr
    obtain ⟨b, hb, hcov⟩ := LinearMemory.reallocBytes_grown he alignment
    exact h.arena b hb r hr n (hcov n hne) hnr
  | _ => trivial

theorem Session.run_concat (ops : List MemOp) (op : MemOp) : Session.run (ops ++ [op]) = (Session.run ops).step op := by
  simp [Session.run]

theorem Session.run_inv {ops : List MemOp} (hclear : ∀ pre op, pre ++ [op] <+: ops → (Session.run pre).GrowsClear op) :
    ∀ pre, pre <+: ops → (Session.run pre).Inv := by
  intro pre
  induction pre using List.reverseRecOn with
  | nil => exact fun _ => .fresh
  | append_singleton pre op ih =>
    intro hpre
    rw [Session.run_concat]
    exact (ih ((List.prefix_append pre [op]).trans hpre)).step (hclear pre op hpre)

/-- Along a run of any operations from a fresh memory, no state hands out overlapping storage exactly
    when no in-place growth reaches into a live arena range. -/
theorem linearMemory_run_noOverlap_iff (ops : List MemOp) : (∀ pre, pre <+: ops → (Session.run pre).NoOverlap) ↔
      ∀ pre op, pre ++ [op] <+: ops → (Session.run pre).GrowsClear op := by
  constructor
  · intro h pre op hpre
    have hnext := h _ hpre
    rw [Session.run_concat] at hnext
    exact Session.growsClear_of_noOverlap hnext
  · intro h pre hpre
    exact (Session.run_inv h pre hpre).noOverlap

/-- Two blocks, the second freed, an arena range in its place, then the first grows over it. -/
theorem linearMemory_overlaps : ¬ (Session.run [.mallocBytes 8 1, .mallocBytes 8 1, .freeBytes 8, .allocBytes 4 1,
      .reallocBytes 0 16 1]).NoOverlap := by
  intro h
  have hblock : (0, 16) ∈ (Session.run [.mallocBytes 8 1, .mallocBytes 8 1, .freeBytes 8,
      .allocBytes 4 1, .reallocBytes 0 16 1]).mem.allocatedBlocks := by decide +kernel
  have hrange : (8, 4) ∈ (Session.run [.mallocBytes 8 1, .mallocBytes 8 1, .freeBytes 8,
      .allocBytes 4 1, .reallocBytes 0 16 1]).live := by decide +kernel
  exact h.arena _ hblock _ hrange 8 (by decide) (by decide)

end Zith.Vm
