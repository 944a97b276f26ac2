import Zith.Vm.LowerCall

/-! `lowerOperand`: the register that holds the value of an expression, and the code that puts it there. An
    expression that has a register is not lowered again. `aggregateAddress` is the address of storage
    behind an expression, `lvalueAddress` the one an assignment stores to.

    The recursion goes through a `Lowering`; `lowering fuel` ties the knot. -/

namespace Zith.Vm
open Lib Hir Layout
open Types (TypeIntern)
open Cache (CompactSafetyMode)

/-! ### Operators -/

def kUnaryRef : UInt8 := 3
def kUnaryDeref : UInt8 := 4
def kLengthOf : UInt8 := 3
def kPtrOf : UInt8 := 4

/-- In the order of `HirBinaryOp`. -/
def binaryOps : List Op :=
  [.add, .sub, .mul, .div, .rem, .eq, .ne, .lt, .le, .gt, .ge, .bitAnd, .bitOr, .bitXor, .shl, .shr]

/-- In the order of `HirUnaryOp`, up to `Ref`. -/
def unaryOps : List Op := [.neg, .not, .bitNot]

/-- The number of an expression that is lowered in no other way. -/
def unsupportedKind : HirExpr → ℕ
  | .let _ _ _ => 3
  | .ret _ => 6
  | .branch _ _ _ => 7
  | .jump _ => 8
  | .phi _ => 9
  | .slotAlloca _ _ _ => 16
  | .stateTailCall _ => 26
  | .canonicalType _ _ => 27
  | .globalConstLoad _ _ => 29
  | .runtimePanic _ => 35
  | _ => 0

section
variable (C : LowerContext) (R : Lowering)

/-! ### Addresses -/

def fieldAddress (object : HirExprId) (index : UInt32) (objectType : TypeId) : LowerM UInt16 := do
  let base ← R.address object
  if base = kUnassignedReg then return kUnassignedReg
  let offset ← ofOption (fieldByteOffset C.types C.depth objectType.toNat index.toNat)
  if offset > 0xFFFF then return ← failed "struct field offset exceeds the v2 instruction width"
  let addr ← newTypedReg .ptr
  emit (.fieldPtr addr base (UInt16.ofNat offset))
  return addr

/-- The register of the parameter with a name. -/
def paramRegister (name : Text) : LowerM (Option UInt16) := do
  match C.hirFn.paramNames.findIdx? (· == name) with
  | some p => return some ((← get).paramRegs[p]?.getD kUnassignedReg)
  | none => return none

def aggregateAddress (id : HirExprId) : LowerM UInt16 := do
  if id.toNat ≥ (← get).regs.length then return kUnassignedReg
  match ← getExpr C id with
  | .slotAddr slot _ => slotRegister slot
  | .slotLoad slot _ => slotRegister slot
  | .unary op operand _ => if op = kUnaryDeref then R.operand operand else R.operand id
  | .var name _ => return (← paramRegister C name).getD kUnassignedReg
  | .field object index _ objectType _ => fieldAddress C R object index objectType
  | _ => R.operand id

/-- Store a value at an offset of an address. -/
def storeField (address offset value : UInt16) : LowerM Unit := do
  let field ← newTypedReg .ptr
  emit (.fieldPtr field address offset)
  emit (.simple .storeI64 field value)

/-- The bytes of an element that an assignment stores to. -/
def storedElementSize (type objType : TypeId) (isArray : Bool) : Option ℕ :=
  if isArray then arrayElementSize C.types C.depth objType.toNat else some (scalarElementSize C.types type.toNat)

def lowerIndexAddress (object index : HirExprId) (type objType : TypeId) (isArray : Bool) : LowerM UInt16 := do
  let base ← R.operand object
  if base = kUnassignedReg then return kUnassignedReg
  if isPtr C.types objType.toNat then return ← failed "unsupported pointer index assignment in v2 lowering"
  let elementSize ← ofOption (storedElementSize C type objType isArray)
  if elementSize = 0 ∨ elementSize > 0xFFFF then
    return ← failed "unsupported index assignment in v2 lowering"
  let indexReg ← R.operand index
  if indexReg = kUnassignedReg then return kUnassignedReg
  let scale ← newTypedReg .i64
  emit (.withImm .loadConstI64 scale (UInt16.ofNat elementSize))
  let byteOffset ← newTypedReg .i64
  emit (.simple .mul byteOffset indexReg scale)
  let addr ← newTypedReg .ptr
  emit (.simple .add addr base byteOffset)
  return addr

def lvalueAddress (target : HirExprId) : LowerM UInt16 := do
  if target.toNat ≥ (← get).regs.length then return kUnassignedReg
  match ← getExpr C target with
  | .field object index _ objectType _ => fieldAddress C R object index objectType
  | .index object index type objType isArray _ => lowerIndexAddress C R object index type objType isArray
  | _ => aggregateAddress C R target

/-! ### Literals of aggregates -/

/-- Store the value of an expression at an address: its bytes when it lives by address, else its word. -/
def storeValue (op : Op) (type : ℕ) (size : Option ℕ) (addr : UInt16) (value : HirExprId) : LowerM Bool := do
  if isPointerValued C.types type then
    let source ← aggregateAddress C R value
    if source = kUnassignedReg then return false
    copyBytes addr source (← ofOption size)
    return true
  let reg ← R.operand value
  if reg = kUnassignedReg then return false
  emit (.simple op addr reg)
  return true

/-- The loop of `lowerArrayLiteral`. -/
def storeElements (elem elementSize : ℕ) (base : UInt16) : List HirExprId → ℕ → LowerM Bool
  | [], _ => return true
  | element :: elements, i => do
    let address ← newTypedReg .ptr
    emit (.fieldPtr address base (UInt16.ofNat (i * elementSize)))
    let op := if isChar C.types elem then .storeI8 else .storeI64
    if !(← storeValue C R op elem (some elementSize) address element) then return false
    storeElements elem elementSize base elements (i + 1)

def lowerArrayLiteral (elements : List HirExprId) (type : TypeId) : LowerM UInt16 := do
  let elementSize ← ofOption (arrayElementSize C.types C.depth type.toNat)
  match C.types.lookup type.toNat with
  | some (.array elem arrayCount) =>
    if elementSize = 0 ∨ elements.length ≠ arrayCount.toNat ∨ arrayCount.toNat * elementSize > 0xFFFF then
      return kUnassignedReg
    let count ← newTypedReg .i64
    let align ← newTypedReg .i64
    emit (.withImm .loadConstI64 count (UInt16.ofNat (arrayCount.toNat * elementSize)))
    emit (.withImm .loadConstI64 align 8)
    let base ← newTypedReg .ptr
    emit (.simple .allocBytes base count align)
    if !(← storeElements C R elem elementSize base elements 0) then return kUnassignedReg
    return base
  | _ => return kUnassignedReg

/-- The loop of `lowerStructLiteral`. A value without a field is left out. -/
def storeFields (type : TypeId) (base : UInt16) : List HirExprId → ℕ → LowerM Bool
  | [], _ => return true
  | value :: values, i => do
    if value = kInvalidHirExpr then return ← storeFields type base values (i + 1)
    match (memberTypes C.types type.toNat)[i]? with
    | none => storeFields type base values (i + 1)
    | some fieldType =>
      let offset ← ofOption (fieldByteOffset C.types C.depth type.toNat i)
      if offset > 0xFFFF then
        fail (text "struct field offset exceeds the v2 instruction width")
        return false
      let addr ← newTypedReg .ptr
      emit (.fieldPtr addr base (UInt16.ofNat offset))
      let size := typeSize C.types C.depth fieldType
      if !(← storeValue C R .storeI64 fieldType size addr value) then return false
      storeFields type base values (i + 1)

def lowerStructLiteral (values : List HirExprId) (type : TypeId) : LowerM UInt16 := do
  let size ← typeBytes C type
  if size = 0 ∨ size > 0xFFFF then return ← failed "unsupported aggregate size in v2 lowering"
  let base ← newTypedReg .ptr
  let count ← newTypedReg .i64
  let align ← newTypedReg .i64
  emit (.withImm .loadConstI64 count (UInt16.ofNat size))
  emit (.withImm .loadConstI64 align 8)
  emit (.simple .allocBytes base count align)
  if !(← storeFields C R type base values 0) then return kUnassignedReg
  return base

/-! ### Leaves -/

def lowerLiteral (value : HirLiteralValue) (type : TypeId) : LowerM UInt16 := do
  let reg ← newReg C type
  match C.types.lookup type.toNat with
  | some .bool | some .char | some (.int _) =>
    emit (.withImm .loadConstI32 reg (← ofOption (literalWord value)).toUInt64.toUInt16)
    return reg
  | some (.float _) =>
    let rawIndex := (← get).out.f64Constants.length
    let index ← u16 rawIndex
    if index = 0 ∧ rawIndex ≠ 0 then return reg
    pushF64Constant (← ofOption (literalWord value))
    emit (.withImm .loadConstF64 reg index)
    return reg
  | some (.ptr _ _ _) =>
    let index ← findOrAddString (← ofOption (literalText value))
    emit (.withImm .loadString reg index)
    return reg
  | _ =>
    fail (text "unsupported literal type in v2 lowering")
    return reg

/-- A constant in the pool, and the register it is loaded to. -/
def lowerPoolConstant (value : Int64) (type : TypeId) : LowerM UInt16 := do
  let index ← u16 (← get).out.i64Constants.length
  if !(← isOk) then return kUnassignedReg
  pushI64Constant value
  let result ← newReg C type
  emit (.withImm .loadConstI64FromPool result index)
  return result

def lowerEnumValue (value : Int64) (type : TypeId) : LowerM UInt16 := do
  match C.types.getEnumDef type.toNat with
  | none => failed "invalid HIR enum value in v2 lowering"
  | some _ => lowerPoolConstant C value type

def lowerVar (name : Text) : LowerM UInt16 := do
  match ← paramRegister C name with
  | some reg => return reg
  | none => failed "unsupported HIR variable in v2 lowering"

/-! ### Operators -/

def lowerBinary (lhs rhs : HirExprId) (op : UInt8) (type : TypeId) : LowerM UInt16 := do
  let lhs ← R.operand lhs
  let rhs ← R.operand rhs
  if lhs = kUnassignedReg ∨ rhs = kUnassignedReg then return kUnassignedReg
  match binaryOps[op.toNat]? with
  | none => failed "unsupported HIR binary operator in v2 lowering"
  | some op =>
    let dst ← newReg C type
    emit (.simple op dst lhs rhs)
    return dst

def lowerDeref (operand : HirExprId) (type : TypeId) : LowerM UInt16 := do
  let pointer ← R.operand operand
  if pointer = kUnassignedReg then return kUnassignedReg
  if isPointerValued C.types type.toNat then return pointer
  let dst ← newReg C type
  emit (.simple .loadI64 dst pointer)
  return dst

def lowerUnary (op : UInt8) (operand : HirExprId) (type : TypeId) : LowerM UInt16 := do
  if op = kUnaryRef then return ← lvalueAddress C R operand
  if op = kUnaryDeref then return ← lowerDeref C R operand type
  let operand ← R.operand operand
  if operand = kUnassignedReg then return kUnassignedReg
  match unaryOps[op.toNat]? with
  | none => failed "unsupported HIR unary operator in v2 lowering"
  | some op =>
    let dst ← newReg C type
    emit (.simple op dst operand)
    return dst

/-- The value of a cast is the value it casts, in the same register. -/
def lowerCast (value : HirExprId) : LowerM UInt16 := do
  let value ← R.operand value
  if value = kUnassignedReg then return kUnassignedReg
  return value

/-! ### Slots -/

def lowerSlotAddr (slot : HirSlotId) : LowerM UInt16 := do
  let base ← slotRegister slot
  if base = kUnassignedReg then return ← failed "unknown HIR slot address in v2 lowering"
  return base

/-- Copy what an expression has in storage to the storage of a slot. -/
def storeSlotBytes (destination : UInt16) (type : TypeId) (value : HirExprId) : LowerM UInt16 := do
  let source ← aggregateAddress C R value
  if source = kUnassignedReg then return kUnassignedReg
  if source = destination then return source
  copyBytes destination source (← typeBytes C type)
  return source

def lowerSlotStore (slot : HirSlotId) (value : HirExprId) : LowerM UInt16 := do
  let destination ← slotRegister slot
  if destination = kUnassignedReg then return ← failed "invalid HIR slot store in v2 lowering"
  let type ← slotType slot
  let backed ← slotIsBacked slot
  if backed && isSlice C.types type.toNat then
    let value ← R.operand value
    if value = kUnassignedReg ∨ value.toNat + 1 ≥ (← regCount) then
      return ← failed "invalid slice value in v2 slot store"
    emit (.simple .storeI64 destination value)
    storeField destination 8 (value + 1)
    return value
  if isAggregateType C.types type.toNat || (backed && isArray C.types type.toNat) then
    return ← storeSlotBytes C R destination type value
  let value ← R.operand value
  if value = kUnassignedReg then return kUnassignedReg
  if backed then
    emit (.simple .storeI64 destination value)
    return value
  let isSliceSlot := (← get).slotWidths[slot.toNat]? = some 2
  if isSliceSlot ∧ (destination.toNat + 1 ≥ (← regCount) ∨ value.toNat + 1 ≥ (← regCount)) then
    return ← failed "slice HIR slot store exceeds v2 registers"
  emitAll (if destination = value then [] else [.simple .move destination value])
  emitAll (if isSliceSlot then [.simple .move (destination + 1) (value + 1)] else [])
  return value

/-! ### Fields, casts and checks of unions -/

def lowerSliceField (object : HirExprId) (index : UInt32) : LowerM UInt16 := do
  let base ← R.operand object
  if base = kUnassignedReg then return kUnassignedReg
  if index = 0 then return base
  if index = 1 then
    if base.toNat + 1 ≥ (← regCount) then return ← failed "slice length field exceeds v2 registers"
    let length ← newTypedReg .i64
    emit (.simple .move length (base + 1))
    return length
  failed "unsupported slice field index in v2 lowering"

def lowerField (object : HirExprId) (index : UInt32) (type objectType : TypeId) : LowerM UInt16 := do
  if isUnion C.types objectType.toNat && index = 1 then
    let storage ← aggregateAddress C R object
    if storage = kUnassignedReg then return kUnassignedReg
    return ← loadUnionTag C storage objectType
  if isSlice C.types objectType.toNat then return ← lowerSliceField R object index
  let addr ← fieldAddress C R object index objectType
  if addr = kUnassignedReg then return kUnassignedReg
  if isPointerValued C.types type.toNat then return addr
  let dst ← newReg C type
  emit (.simple (if isOptional C.types objectType.toNat && index = 1 then .loadI8 else .loadI64) dst addr)
  return dst

def lowerToUnion (value : HirExprId) (source target : TypeId) (memberIndex : UInt32) : LowerM UInt16 := do
  match unionDef C.types target.toNat with
  | none => failed "invalid HIR union member in v2 lowering"
  | some d =>
    if d.isTagged && memberIndex.toNat ≥ d.members.length then
      return ← failed "invalid HIR union member in v2 lowering"
    let size ← typeBytes C target
    if size = 0 ∨ size > 0xFFFF then return ← failed "unsupported union size in v2 lowering"
    let storage ← allocateGuestBytes size
    let reg ← R.operand value
    if storage = kUnassignedReg ∨ reg = kUnassignedReg then return kUnassignedReg
    if isPointerValued C.types source.toNat then
      let address ← aggregateAddress C R value
      let payloadSize ← typeBytes C source
      if address = kUnassignedReg ∨ payloadSize = 0 then
        return ← failed "unsupported union payload in v2 lowering"
      copyBytes storage address payloadSize
      return ← tagged d storage
    emit (.simple .storeI64 storage reg)
    tagged d storage
where
  tagged (d : Types.UnionDef) (storage : UInt16) : LowerM UInt16 := do
    if d.isTagged then
      if !(← storeUnionTag C storage target memberIndex) then return kUnassignedReg
      return storage
    return storage

def lowerFromUnion (value : HirExprId) (source target : TypeId) (memberIndex : UInt32)
    (safety : CompactSafetyMode) : LowerM UInt16 := do
  let storage ← aggregateAddress C R value
  if storage = kUnassignedReg then return kUnassignedReg
  if safety = .requiredCheck ∧ taggedUnionTagWidth C.types source.toNat ≠ 0 ∧ memberIndex ≠ 0xFFFFFFFF then
    if !(← emitCheckedUnionCast C storage source memberIndex) then return kUnassignedReg
    return ← loaded storage
  loaded storage
where
  loaded (storage : UInt16) : LowerM UInt16 := do
    if isPointerValued C.types target.toNat then return storage
    let value ← newReg C target
    emit (.simple .loadI64 value storage)
    return value

def lowerUnionCast (value : HirExprId) (source target : TypeId) (memberIndex : UInt32)
    (safety : CompactSafetyMode) : LowerM UInt16 := do
  match isUnion C.types source.toNat, isUnion C.types target.toNat with
  | false, true => lowerToUnion C R value source target memberIndex
  | true, false => lowerFromUnion C R value source target memberIndex safety
  | _, _ => failed "unsupported HIR union cast in v2 lowering"

def lowerUnionCheck (value : HirExprId) (memberIndex : UInt32) : LowerM UInt16 := do
  if memberIndex = 0xFFFFFFFF then return ← failed "invalid HIR union check in v2 lowering"
  let tag ← R.operand value
  if tag = kUnassignedReg then return kUnassignedReg
  let expected ← emitI64Constant (Int64.ofNat memberIndex.toNat)
  if expected = kUnassignedReg then return kUnassignedReg
  let result ← newReg C kBoolType
  emit (.simple .eq result tag expected)
  return result

end

end Zith.Vm
