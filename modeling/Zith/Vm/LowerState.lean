import Zith.Hir.Module
import Zith.Lib.Succeeds
import Zith.Vm.Layout
import Zith.Vm.Machine

/-! What lowering HIR to the typed IR changes, and its smallest steps: tables, registers, constants, storage,
    the tags of unions.

        newTypedReg    regTypes and regCount grow together
        findOrAdd…     a table of the module, by content
        u16            fails the lowering when an index does not fit

    A failure is noted and the lowering goes on, until somebody looks. A step without a result, `none`, has
    read where there is nothing, or the recursion was not deep enough. -/

namespace Zith.Vm
open Lib Hir Layout
open Types (TypeIntern)

def kUnassignedReg : UInt16 := 0xFFFF

def kVoidType : TypeId := 2
def kBoolType : TypeId := 3
def kCharType : TypeId := 4

structure LowerResult where
  ok : Bool := true
  message : List UInt8 := []
  deriving DecidableEq

/-- What happens to the registers of a function while it is lowered. The lowering does not read it. -/
inductive RegEvent where
  /-- `newTypedReg` has returned a register. -/
  | made (reg : UInt16) (type : ValueType)
  /-- A call of an extern has found so many register types and filled them up to five. -/
  | padded (count : ℕ)
  /-- A variadic call of an extern has left so many register types. -/
  | window (count : ℕ)
  deriving DecidableEq

structure LowerState where
  fn : Function := {}
  regs : List UInt16 := []
  paramRegs : List UInt16 := []
  slotRegs : List UInt16 := []
  slotWidths : List ℕ := []
  slotTypes : List TypeId := []
  slotAlignments : List UInt32 := []
  slotBacked : List Bool := []
  sretReg : UInt16 := kUnassignedReg
  out : Module := {}
  result : LowerResult := {}
  events : List RegEvent := []

/-- What lowering a function reads. -/
structure LowerContext where
  hir : HirModule
  types : TypeIntern
  functionIndices : List UInt16
  adapterIndices : List UInt16
  hirFn : HirFunction
  /-- How deep a recursion over types goes. -/
  depth : ℕ

abbrev LowerM := StateT LowerState Option

/-! ### Failures and tables -/

def fail (message : List UInt8) : LowerM Unit := modify fun s => { s with result := ⟨false, message⟩ }

def unassigned : LowerM UInt16 := return kUnassignedReg

def failed (message : String) : LowerM UInt16 := do
  fail (text message)
  unassigned

def isOk : LowerM Bool := return (← get).result.ok

def u16 (value : ℕ) : LowerM UInt16 := do
  if value > 0xFFFF then
    fail (text "v2 module table exceeds 65535 entries")
    return 0
  return UInt16.ofNat value

def findOrAddString (s : List UInt8) : LowerM UInt16 := do
  let strings := (← get).out.strings
  match strings.findIdx? (· == s) with
  | some i => u16 i
  | none =>
    modify fun st => { st with out := { st.out with strings := strings ++ [s] } }
    u16 strings.length

def findOrAddExtern (name : List UInt8) : LowerM UInt16 := do
  let externs := (← get).out.externs
  match externs.findIdx? (· == name) with
  | some i => u16 i
  | none =>
    modify fun st => { st with out := { st.out with externs := externs ++ [name] } }
    u16 externs.length

def pushI64Constant (value : Int64) : LowerM Unit :=
  modify fun s => { s with out := { s.out with i64Constants := s.out.i64Constants ++ [value] } }

def pushF64Constant (bits : Int64) : LowerM Unit :=
  modify fun s => { s with out := { s.out with f64Constants := s.out.f64Constants ++ [bits] } }

/-! ### Instructions and registers -/

def Instr.simple (op : Op) (dst lhs : UInt16) (rhs : UInt16 := 0) : Instr := { op, a := dst, b := lhs, c := rhs }

def Instr.withImm (op : Op) (dst tableIndex : UInt16) : Instr := { op, a := dst, imm := tableIndex }

def Instr.fieldPtr (dst base offset : UInt16) : Instr := { op := .fieldPtr, a := dst, b := base, imm := offset }

def emitAll (instrs : List Instr) : LowerM Unit :=
  modify fun s => { s with fn := { s.fn with body := s.fn.body ++ instrs } }

def emit (instr : Instr) : LowerM Unit := emitAll [instr]

def regCount : LowerM ℕ := return (← get).fn.regCount.toNat

def newTypedReg (vt : ValueType) : LowerM UInt16 := do
  let s ← get
  set { s with
    fn := { s.fn with regCount := s.fn.regCount + 1, regTypes := s.fn.regTypes ++ [vt] }
    events := s.events ++ [RegEvent.made s.fn.regCount vt] }
  return s.fn.regCount

def newTypedRegs : List ValueType → LowerM Unit
  | [] => return
  | vt :: vts => do
    let _ ← newTypedReg vt
    newTypedRegs vts

/-- `while (regTypes.size() < 5) regTypes.push(ValueType::I64);`, without the count. -/
def padRegTypes : LowerM Unit :=
  modify fun s =>
    { s with
      fn := { s.fn with regTypes := s.fn.regTypes ++ List.replicate (5 - s.fn.regTypes.length) .i64 }
      events := s.events ++ [.padded s.fn.regTypes.length] }

/-- Word-sized registers for the arguments of a variadic call, and the count as the number of types. -/
def pushVariadicWindow (count : ℕ) : LowerM Unit :=
  modify fun s =>
    { s with
      fn := { s.fn with
        regTypes := s.fn.regTypes ++ List.replicate count .i64
        regCount := UInt16.ofNat (s.fn.regTypes.length + count) }
      events := s.events ++ [.window (s.fn.regTypes.length + count)] }

/-- The registers of a call window, and the count as the number of types. -/
def pushWindow (types : List ValueType) : LowerM Unit := do
  modify fun s => { s with fn := { s.fn with regTypes := s.fn.regTypes ++ types } }
  let count ← u16 (← get).fn.regTypes.length
  modify fun s => { s with fn := { s.fn with regCount := count } }

/-! ### Constants and storage -/

def emitI64Constant (value : Int64) : LowerM UInt16 := do
  let reg ← newTypedReg .i64
  if 0 ≤ value ∧ value.toUInt64.toNat ≤ 0xFFFF then
    emit (.withImm .loadConstI64 reg value.toUInt64.toUInt16)
    return reg
  let index ← u16 (← get).out.i64Constants.length
  if !(← isOk) then return kUnassignedReg
  pushI64Constant value
  emit (.withImm .loadConstI64FromPool reg index)
  return reg

/-- Copy `size` bytes from `src` to `dst` (both guest addresses). -/
def copyBytes (dst src : UInt16) (size : ℕ) : LowerM Unit := do
  let count ← newTypedReg .i64
  emit (.withImm .loadConstI64 count (← u16 size))
  emit (.simple .memCopy dst src count)

def allocateGuestBytes (size : ℕ) : LowerM UInt16 := do
  if size = 0 ∨ size > 0xFFFF then return ← failed "unsupported aggregate size in v2 lowering"
  let base ← newTypedReg .ptr
  let count ← newTypedReg .i64
  let align ← newTypedReg .i64
  emit (.withImm .loadConstI64 count (← u16 size))
  emit (.withImm .loadConstI64 align 8)
  emit (.simple .allocBytes base count align)
  return base

def makeSlicePair (pointer length : UInt16) : LowerM UInt16 := do
  let base ← newTypedReg .ptr
  let _ ← newTypedReg .i64
  emit (.simple .makeSlice base pointer length)
  return base

def slotRegister (slot : HirSlotId) : LowerM UInt16 := return (← get).slotRegs[slot.toNat]?.getD kUnassignedReg

def slotIsBacked (slot : HirSlotId) : LowerM Bool := return (← get).slotBacked[slot.toNat]?.getD false

def slotType (slot : HirSlotId) : LowerM TypeId := return (← get).slotTypes[slot.toNat]?.getD kInvalidType

section
variable (C : LowerContext)

def newReg (type : TypeId) : LowerM UInt16 := newTypedReg (valueTypeOf C.types type.toNat)

def typeBytes (type : TypeId) : LowerM ℕ := ofOption (typeSize C.types C.depth type.toNat)

def getExpr (id : HirExprId) : LowerM HirExpr := ofOption C.hir.exprs[id.toNat]?

/-! ### Tags of unions -/

def unionTagByteAddress (address : UInt16) (type : TypeId) (byteIndex : ℕ) : LowerM UInt16 := do
  let offset ← ofOption (taggedUnionTagOffset C.types C.depth type.toNat)
  let width := taggedUnionTagWidth C.types type.toNat
  if width = 0 ∨ byteIndex ≥ width ∨ offset > 0xFFFF - byteIndex then
    return ← failed "invalid tagged-union layout in v2 lowering"
  let reg ← newTypedReg .ptr
  emit (.fieldPtr reg address (UInt16.ofNat (offset + byteIndex)))
  return reg

/-- The loop of `loadUnionTag`, with the bytes from `i` on still to read. -/
def loadTagBytes (address : UInt16) (type : TypeId) : ℕ → ℕ → UInt16 → LowerM UInt16
  | 0, _, value => return value
  | left + 1, i, value => do
    let byteAddress ← unionTagByteAddress C address type i
    if byteAddress = kUnassignedReg then return kUnassignedReg
    let byte ← newTypedReg .i64
    emit (.simple .loadI8 byte byteAddress)
    if i = 0 then return ← loadTagBytes address type left (i + 1) byte
    let shift ← emitI64Constant (Int64.ofNat (i * 8))
    if shift = kUnassignedReg then return kUnassignedReg
    let shifted ← newTypedReg .i64
    emit (.simple .shl shifted byte shift)
    let combined ← newTypedReg .i64
    emit (.simple .bitOr combined value shifted)
    loadTagBytes address type left (i + 1) combined

def loadUnionTag (address : UInt16) (type : TypeId) : LowerM UInt16 := do
  let width := taggedUnionTagWidth C.types type.toNat
  if width = 0 then return ← failed "invalid tagged-union tag in v2 lowering"
  loadTagBytes C address type width 0 kUnassignedReg

/-- The loop of `storeUnionTag`. -/
def storeTagBytes (address : UInt16) (type : TypeId) (value : UInt16) : ℕ → ℕ → LowerM Bool
  | 0, _ => return true
  | left + 1, i => do
    let byteAddress ← unionTagByteAddress C address type i
    if byteAddress = kUnassignedReg then return false
    if i = 0 then
      emit (.simple .storeI8 byteAddress value)
      return ← storeTagBytes address type value left (i + 1)
    let shift ← emitI64Constant (Int64.ofNat (i * 8))
    if shift = kUnassignedReg then return false
    let byte ← newTypedReg .i64
    emit (.simple .shr byte value shift)
    emit (.simple .storeI8 byteAddress byte)
    storeTagBytes address type value left (i + 1)

def storeUnionTag (address : UInt16) (type : TypeId) (memberIndex : UInt32) : LowerM Bool := do
  let width := taggedUnionTagWidth C.types type.toNat
  if width = 0 then
    fail (text "invalid tagged-union tag in v2 lowering")
    return false
  let value ← emitI64Constant (Int64.ofNat memberIndex.toNat)
  if value = kUnassignedReg then return false
  storeTagBytes C address type value width 0

def emitCheckedUnionCast (address : UInt16) (type : TypeId) (memberIndex : UInt32) : LowerM Bool := do
  let tag ← loadUnionTag C address type
  if tag = kUnassignedReg then return false
  let expected ← emitI64Constant (Int64.ofNat memberIndex.toNat)
  if expected = kUnassignedReg then return false
  let matched ← newTypedReg .i64
  emit (.simple .eq matched tag expected)
  let branchIndex := (← get).fn.body.length
  if branchIndex > 0xFFFF - 2 then
    fail (text "union cast branch exceeds the v2 instruction width")
    return false
  emit { op := .branch2, b := matched, imm := UInt16.ofNat (branchIndex + 2), d := UInt16.ofNat (branchIndex + 1) }
  emit { op := .trap }
  return true

/-! ### Slots -/

def lowerSlotValue (slot : HirSlotId) (type : TypeId) : LowerM UInt16 := do
  let base ← slotRegister slot
  if base = kUnassignedReg then return ← failed "unknown HIR slot in v2 lowering"
  let backed ← slotIsBacked slot
  if backed && isSlice C.types type.toNat then
    let value ← newTypedReg .ptr
    let _ ← newTypedReg .i64
    emit (.simple .loadI64 value base)
    let lengthAddress ← newTypedReg .ptr
    emit (.fieldPtr lengthAddress base 8)
    emit (.simple .loadI64 (value + 1) lengthAddress)
    return value
  if !(backed && !isPointerValued C.types type.toNat) then return base
  let value ← newReg C type
  emit (.simple .loadI64 value base)
  return value

end

end Zith.Vm
