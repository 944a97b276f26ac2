import Zith.Vm.LinearMemorySafety
import Zith.Vm.LowerOperand

/-! The extern functions that allocate guest memory. Guest offset 0 is a block like any other, so what they return
    when they have allocated nothing must be the sentinel that `lowerMakeNone` writes for an optional pointer,
    which is -1 and the size of a vector that does not exist. `malloc` and `realloc` pass on what the memory
    returns; `calloc` and `aligned_alloc` return 0.

    A `resize` beyond what the platform gives a vector throws, and the call does not return. -/

namespace Zith.Vm
open Zith.Lib Layout

/-- The platform's vectors: how many bytes one can hold, which a signed difference of pointers can tell. -/
structure Vectors where
  limit : ℕ
  limit_lt : limit < 2 ^ 63

/-- What a handler does: whether it succeeds, its result, the memory. It may also throw. -/
abbrev Handled := Option (Bool × Int64 × LinearMemory)

/-- `static_cast<std::int64_t>(offset)`. -/
def toResult (offset : ℕ) : Int64 := (UInt64.ofNat offset).toInt64

/-! ### The handlers -/

section
variable (V : Vectors)

/-- An operation on the memory, which throws when it would grow the memory too far. -/
def growing (m : LinearMemory) (answer : ℕ × LinearMemory) : Option (ℕ × LinearMemory) :=
  if m.bytes.length < answer.2.bytes.length ∧ V.limit < answer.2.bytes.length then none else some answer

def externMalloc (m : LinearMemory) (args : ExternCall) : Handled := do
  let (offset, m) ← growing V m (m.mallocBytes (toSize args.arg0) 1)
  return (true, toResult offset, m)

def externAlignedAlloc (m : LinearMemory) (args : ExternCall) : Handled := do
  if args.arg0 ≤ 0 ∨ args.arg1 ≤ 0 then return (true, 0, m)
  let alignment := toSize args.arg0
  let size := toSize args.arg1
  if alignment &&& (alignment - 1) ≠ 0 ∨ size % alignment ≠ 0 then return (true, 0, m)
  let (offset, m) ← growing V m (m.mallocBytes size alignment)
  if offset = sizeMax then return (true, 0, m)
  -- `std::in_range<std::int64_t>(offset)`
  if 2 ^ 63 ≤ offset then return (true, 0, (m.freeBytes offset).2)
  return (true, toResult offset, m)

def externCalloc (m : LinearMemory) (args : ExternCall) : Handled := do
  let count := toSize args.arg0
  let size := toSize args.arg1
  if count = 0 ∨ size = 0 ∨ count > sizeMax / size then return (true, 0, m)
  let total := count * size
  let (offset, m) ← growing V m (m.mallocBytes total 1)
  if offset = sizeMax then return (true, 0, m)
  match m.write offset (List.replicate total 0) with
  | (false, m) => return (false, 0, m)
  | (true, m) => return (true, toResult offset, m)

def externRealloc (m : LinearMemory) (args : ExternCall) : Handled := do
  let (offset, m) ← growing V m (m.reallocBytes (toSize args.arg0) (toSize args.arg1) 1)
  return (true, toResult offset, m)

end

/-- A call of one of them. -/
inductive AllocCall where
  | malloc (size : Int64)
  | alignedAlloc (alignment size : Int64)
  | calloc (count size : Int64)
  | realloc (offset size : Int64)

namespace AllocCall

def handle (V : Vectors) (m : LinearMemory) : AllocCall → Handled
  | .malloc size => externMalloc V m { arg0 := size }
  | .alignedAlloc alignment size => externAlignedAlloc V m { arg0 := alignment, arg1 := size }
  | .calloc count size => externCalloc V m { arg0 := count, arg1 := size }
  | .realloc offset size => externRealloc V m { arg0 := offset, arg1 := size }

/-- The size of the block that is asked for; `malloc` makes a block of one byte out of none. -/
def size : AllocCall → ℕ
  | .malloc size => max 1 (toSize size)
  | .alignedAlloc _ size => toSize size
  | .calloc count size => toSize count * toSize size
  | .realloc _ size => toSize size

/-- The live blocks that the call is not about. -/
def kept (m : LinearMemory) : AllocCall → List Block
  | .realloc offset _ =>
    match m.findBlock (toSize offset) with
    | some i => m.allocatedBlocks.eraseIdx i
    | none => m.allocatedBlocks
  | _ => m.allocatedBlocks

/-- `realloc` to no bytes frees the block. -/
def Allocates : AllocCall → Prop
  | .realloc _ size => size ≠ 0
  | _ => True

end AllocCall

/-! ### The convention -/

/-- The optional pointer `None`, all bits set. -/
def noneSentinel : Int64 := -1

/-- The offset of a new live block of the memory, beside the blocks that are kept. -/
structure NewBlock (m : LinearMemory) (kept : List Block) (size offset : ℕ) : Prop where
  live : m.allocatedBlocks.Perm ((offset, size) :: kept)
  apart : ∀ b ∈ kept, b.Apart (offset, size)
  inside : offset + size ≤ m.bytes.length

/-- A call returns `None` and allocates nothing, or returns something else, the offset of a new live block. -/
def FollowsConvention (m : LinearMemory) (kept : List Block) (size : ℕ) (handled : Handled) : Prop :=
  ∃ r m', handled = some (true, r, m') ∧
    (r = noneSentinel ∧ m'.allocatedBlocks = m.allocatedBlocks ∨
      r ≠ noneSentinel ∧ ∃ offset, r = toResult offset ∧ NewBlock m' kept size offset)

/-! ### Reachable memories -/

/-- The memories of a run: no vector of theirs was ever made too long. -/
inductive Reachable (V : Vectors) : LinearMemory → Prop
  | fresh : Reachable V {}
  | alloc {m m' : LinearMemory} {offset : ℕ} (h : Reachable V m) (count alignment : ℕ)
      (hgrow : growing V m (m.allocBytes count alignment) = some (offset, m')) : Reachable V m'
  | malloc {m m' : LinearMemory} {offset : ℕ} (h : Reachable V m) (count alignment : ℕ)
      (hgrow : growing V m (m.mallocBytes count alignment) = some (offset, m')) : Reachable V m'
  | realloc {m m' : LinearMemory} {offset : ℕ} (h : Reachable V m) (start count alignment : ℕ)
      (hgrow : growing V m (m.reallocBytes start count alignment) = some (offset, m')) : Reachable V m'
  | free {m : LinearMemory} (h : Reachable V m) (offset : ℕ) : Reachable V (m.freeBytes offset).2
  | restore {m : LinearMemory} (h : Reachable V m) (watermark : ℕ) : Reachable V (m.restoreArena watermark)
  | write {m : LinearMemory} (h : Reachable V m) (offset : ℕ) (data : List UInt8) :
      Reachable V (m.write offset data).2
  | copy {m : LinearMemory} (h : Reachable V m) (dst src count : ℕ) : Reachable V (m.copy dst src count).2

theorem LinearMemory.write_step {m : LinearMemory} (h : m.Inv) (offset : ℕ) (data : List UInt8) :
    LinearMemory.HeapStep m (m.write offset data).2 none := by
  unfold LinearMemory.write
  split
  · exact .refl h
  · next hbounds =>
    refine .of_conserved h (fun _ => rfl) h.alloc_pos rfl rfl ?_ fun _ _ _ => le_rfl
    simp only [List.length_append, List.length_take, List.length_drop]
    omega

theorem growing_some {V : Vectors} {m m' : LinearMemory} {answer : ℕ × LinearMemory} {offset : ℕ}
    (h : growing V m answer = some (offset, m')) (hle : m.bytes.length ≤ V.limit) :
    answer = (offset, m') ∧ m'.bytes.length ≤ V.limit := by
  rw [growing] at h
  split at h
  · cases h
  · next hgrow =>
    obtain rfl := Option.some.inj h
    exact ⟨rfl, by dsimp only at hgrow; omega⟩

theorem LinearMemory.length_freeBytes (m : LinearMemory) (offset : ℕ) : (m.freeBytes offset).2.bytes = m.bytes := by
  rw [freeBytes]
  cases m.findBlock offset <;> rfl

theorem LinearMemory.length_write (m : LinearMemory) (offset : ℕ) (data : List UInt8) :
    (m.write offset data).2.bytes.length = m.bytes.length := by
  rw [write]
  split
  · rfl
  · simp only [List.length_append, List.length_take, List.length_drop]
    omega

theorem LinearMemory.length_copy (m : LinearMemory) (dst src count : ℕ) :
    (m.copy dst src count).2.bytes.length = m.bytes.length := by
  rw [copy]
  split
  · rfl
  · simp only [List.length_append, List.length_take, List.length_drop]
    omega

theorem Reachable.inv {V : Vectors} {m : LinearMemory} (h : Reachable V m) : m.Inv ∧ m.bytes.length ≤ V.limit := by
  induction h with
  | fresh => exact ⟨.fresh, Nat.zero_le _⟩
  | @alloc m m' _ _ count alignment hgrow ih =>
    obtain ⟨heq, hle⟩ := growing_some hgrow ih.2
    refine ⟨?_, hle⟩
    rcases LinearMemory.allocBytes_step ih.1 count alignment with hfail | ⟨-, hstep⟩
    · obtain ⟨-, rfl⟩ := Prod.mk.inj (hfail.symm.trans heq)
      exact ih.1
    · have hinv := hstep.inv
      rwa [heq] at hinv
  | @malloc m m' _ _ count alignment hgrow ih =>
    obtain ⟨heq, hle⟩ := growing_some hgrow ih.2
    have hinv := (LinearMemory.mallocBytes_step ih.1 count alignment).inv
    rw [heq] at hinv
    exact ⟨hinv, hle⟩
  | @realloc m m' _ _ start count alignment hgrow ih =>
    obtain ⟨heq, hle⟩ := growing_some hgrow ih.2
    have hinv := (LinearMemory.reallocBytes_step ih.1 start count alignment).inv
    rw [heq] at hinv
    exact ⟨hinv, hle⟩
  | free _ offset ih =>
    exact ⟨(LinearMemory.freeBytes_step ih.1 offset).inv, by rw [LinearMemory.length_freeBytes]; exact ih.2⟩
  | @restore m _ watermark ih =>
    by_cases hle : watermark ≤ m.bump
    · refine ⟨(LinearMemory.restoreArena_inv ih.1 hle).1, ?_⟩
      have hsize := (LinearMemory.restoreArena_inv ih.1 hle).1.size_eq
      have hold := ih.1.size_eq
      rw [LinearMemory.restoreArena, if_neg (not_lt.mpr hle)] at hsize ⊢
      dsimp only at hsize ⊢
      omega
    · rw [LinearMemory.restoreArena, if_pos (by omega)]
      exact ih
  | write _ offset data ih =>
    exact ⟨(LinearMemory.write_step ih.1 offset data).inv, by rw [LinearMemory.length_write]; exact ih.2⟩
  | copy _ dst src count ih =>
    exact ⟨(LinearMemory.copy_step ih.1 dst src count).inv, by rw [LinearMemory.length_copy]; exact ih.2⟩

end Zith.Vm
