import Mathlib.Algebra.Group.Nat.Defs
import Zith.Lib.Cover

/-! `LinearMemory`, the address range of the VM: a bump arena (`bump_`) that frames restore on exit,
    and a first-fit heap (`heap_`, `freeBlocks_`, `allocatedBlocks_`) in the same bytes. Offsets are
    natural numbers; every sum the source leaves unchecked stays at most `heap_`, which stays at most
    `SIZE_MAX` (`LinearMemory.Inv`), so none wraps. A `resize` that throws ends the run and has no
    step here. -/

namespace Zith.Vm
open Zith.Lib

/-- `std::numeric_limits<std::size_t>::max()`. -/
def sizeMax : ℕ := 2 ^ 64 - 1

def alignUp (value alignment : ℕ) : ℕ :=
  if alignment = 0 then value
  else if alignment &&& (alignment - 1) ≠ 0 then sizeMax
  else
    let mask := alignment - 1
    if value > sizeMax - mask then sizeMax
    -- `x & ~mask` clears the bits of `mask` in `x`
    else value + mask - ((value + mask) &&& mask)

structure LinearMemory where
  bytes : List UInt8 := []
  bump : ℕ := 0
  heap : ℕ := 0
  freeBlocks : List Block := []
  allocatedBlocks : List Block := []
  deriving DecidableEq

namespace LinearMemory

/-- `bytes_.resize(n)`. -/
def resize (bytes : List UInt8) (n : ℕ) : List UInt8 :=
  bytes.take n ++ List.replicate (n - bytes.length) 0

/-- `if (end > bytes_.size()) bytes_.resize(end)`. -/
def growBytes (bytes : List UInt8) (n : ℕ) : List UInt8 :=
  if n > bytes.length then resize bytes n else bytes

def read (m : LinearMemory) (offset count : ℕ) : List UInt8 :=
  if offset > m.bytes.length ∨ count > m.bytes.length - offset then []
  else (m.bytes.drop offset).take count

/-- The bytes from `offset` up to the next zero byte. -/
def cstring (m : LinearMemory) (offset : ℕ) : List UInt8 :=
  if offset ≥ m.bytes.length then [] else (m.bytes.drop offset).takeWhile (· ≠ 0)

def write (m : LinearMemory) (offset : ℕ) (data : List UInt8) : Bool × LinearMemory :=
  if offset > m.bytes.length ∨ data.length > m.bytes.length - offset then (false, m)
  else
    (true, { m with
      bytes := m.bytes.take offset ++ (data ++ m.bytes.drop (offset + data.length)) })

def writeString (m : LinearMemory) (offset : ℕ) (text : List UInt8) : Bool × LinearMemory :=
  m.write offset (text ++ [0])

def arenaWatermark (m : LinearMemory) : ℕ := m.bump

def copy (m : LinearMemory) (dstOffset srcOffset count : ℕ) : Bool × LinearMemory :=
  if dstOffset > m.bytes.length ∨ srcOffset > m.bytes.length ∨
      count > m.bytes.length - dstOffset ∨ count > m.bytes.length - srcOffset then (false, m)
  else
    (true, { m with
      bytes := m.bytes.take dstOffset ++ ((m.bytes.drop srcOffset).take count ++ m.bytes.drop (dstOffset + count)) })

def restoreArena (m : LinearMemory) (watermark : ℕ) : LinearMemory :=
  if watermark > m.bump then m
  else { m with bump := watermark, bytes := resize m.bytes (max watermark m.heap) }

/-- The loop of `allocBytes`: move `aligned` behind the first block in the way until none is. The
    fuel is the number of blocks left to pass. -/
def skipHeapBlocks (blocks : List Block) (count alignment : ℕ) : ℕ → ℕ → ℕ
  | 0, _ => sizeMax
  | fuel + 1, aligned =>
    if aligned = sizeMax ∨ count > sizeMax - aligned then sizeMax
    else
      match blocks.find? fun b => b.2 > sizeMax - b.1 ∨
          (aligned < b.1 + b.2 ∧ b.1 < aligned + count) with
      | none => aligned
      | some b =>
        if b.2 > sizeMax - b.1 then sizeMax
        else skipHeapBlocks blocks count alignment fuel (alignUp (b.1 + b.2) alignment)

def allocBytes (m : LinearMemory) (count alignment : ℕ) : ℕ × LinearMemory :=
  let count := if count = 0 then 1 else count
  let alignment := if alignment = 0 then 1 else alignment
  let aligned := skipHeapBlocks m.allocatedBlocks count alignment (m.allocatedBlocks.length + 1)
    (alignUp m.bump alignment)
  if aligned = sizeMax ∨ count > sizeMax - aligned then (sizeMax, m)
  else (aligned, { m with bytes := growBytes m.bytes (aligned + count), bump := aligned + count })

/-- What the first-fit loop of `mallocBytes` asks of a free block. -/
def fits (bump count alignment : ℕ) (b : Block) : Bool :=
  let aligned := alignUp b.1 alignment
  decide (¬ b.1 < bump ∧ ¬ (aligned = sizeMax ∨ aligned < b.1) ∧
    ¬ (aligned - b.1 > b.2 ∨ count > b.2 - (aligned - b.1)))

/-- The pieces of a free block before and after the bytes taken from it. -/
def leftover (offset size : ℕ) : List Block := if size > 0 then [(offset, size)] else []

def mallocBytes (m : LinearMemory) (count alignment : ℕ) : ℕ × LinearMemory :=
  let count := if count = 0 then 1 else count
  let alignment := if alignment = 0 then 1 else alignment
  if alignment &&& (alignment - 1) ≠ 0 then (sizeMax, m)
  else
    match m.freeBlocks.findIdx? (fits m.bump count alignment) with
    | some i =>
      let (offset, available) := m.freeBlocks[i]?.getD (0, 0)
      let aligned := alignUp offset alignment
      let pfx := aligned - offset
      (aligned, { m with
        freeBlocks := m.freeBlocks.eraseIdx i ++ leftover offset pfx ++
          leftover (aligned + count) (available - pfx - count)
        allocatedBlocks := m.allocatedBlocks ++ [(aligned, count)] })
    | none =>
      let m := { m with heap := max m.heap m.bump }
      let aligned := alignUp m.heap alignment
      if count > sizeMax - aligned then (sizeMax, m)
      else (aligned, { m with
        bytes := growBytes m.bytes (aligned + count)
        heap := aligned + count
        allocatedBlocks := m.allocatedBlocks ++ [(aligned, count)] })

/-- The first block that starts at `offset`. -/
def findBlock (m : LinearMemory) (offset : ℕ) : Option ℕ := m.allocatedBlocks.findIdx? fun b => b.1 = offset

def freeBytes (m : LinearMemory) (offset : ℕ) : Bool × LinearMemory :=
  match m.findBlock offset with
  | none => (false, m)
  | some i =>
    (true, { m with
      freeBlocks := coalesce (m.freeBlocks ++ m.allocatedBlocks[i]?.toList)
      allocatedBlocks := m.allocatedBlocks.eraseIdx i })

/-- The free block right behind a block that can take `extra` bytes more. -/
def growthBlock (m : LinearMemory) (stop extra : ℕ) : Option ℕ :=
  m.freeBlocks.findIdx? fun b => ¬ (b.1 ≠ stop ∨ b.2 < extra)

def reallocBytes (m : LinearMemory) (offset count alignment : ℕ) : ℕ × LinearMemory :=
  match m.findBlock offset with
  | some i =>
    let oldCount := (m.allocatedBlocks[i]?.getD (0, 0)).2
    if count = 0 then (0, (m.freeBytes offset).2)
    else if count ≤ oldCount then
      (offset, { m with
        freeBlocks := coalesce (m.freeBlocks ++ leftover (offset + count) (oldCount - count))
        allocatedBlocks := m.allocatedBlocks.set i (offset, count) })
    else
      let extra := count - oldCount
      match m.growthBlock (offset + oldCount) extra with
      | some j =>
        let (freeOffset, freeCount) := m.freeBlocks[j]?.getD (0, 0)
        (offset, { m with
          freeBlocks := m.freeBlocks.eraseIdx j ++ leftover (freeOffset + extra) (freeCount - extra)
          allocatedBlocks := m.allocatedBlocks.set i (offset, count) })
      | none =>
        let (replacement, m) := m.mallocBytes count alignment
        if replacement = sizeMax then (replacement, m)
        else
          match m.copy replacement offset oldCount with
          | (false, m) => (sizeMax, (m.freeBytes replacement).2)
          | (true, m) => (replacement, (m.freeBytes offset).2)
  | none =>
    if offset = 0 then (if count = 0 then (0, m) else m.mallocBytes count alignment)
    else (sizeMax, m)

end LinearMemory

end Zith.Vm
