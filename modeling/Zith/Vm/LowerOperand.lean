import Zith.Vm.LowerExpr

/-! The rest of `lowerOperand`: indexing, slices, optionals, dynamic and opaque values, and the recursion. -/

namespace Zith.Vm
open Lib Hir Layout
open Types (TypeIntern)
open Cache (CompactSafetyMode)

section
variable (C : LowerContext) (R : Lowering)

/-! ### Indexing -/

/-- The bits of an `IndexLoad`: a length in a register, no check, an address as the result. -/
def indexFlags (lengthRegister raw addressResult : Bool) : UInt16 :=
  (if lengthRegister then 1 else 0) ||| (if raw then 2 else 0) ||| (if addressResult then 4 else 0)

/-- The load of an element, of a byte through its address. -/
def emitIndexLoad (object indexReg : UInt16) (elementSize : ℕ) (length : UInt16) (lengthRegister raw : Bool)
    (byteElement : Bool) (type : TypeId) : LowerM UInt16 := do
  let addressResult := byteElement || isPointerValued C.types type.toNat
  let address ← newTypedReg (if addressResult then .ptr else valueTypeOf C.types type.toNat)
  emit { op := .indexLoad, a := address, b := object, c := indexReg, imm := UInt16.ofNat elementSize,
         d := length, e := indexFlags lengthRegister raw addressResult }
  if !byteElement then return address
  let value ← newReg C type
  emit (.simple .loadI8 value address)
  return value

def lowerArrayIndex (object : UInt16) (index : HirExprId) (type objType : TypeId)
    (safety : CompactSafetyMode) : LowerM UInt16 := do
  let elementSize ← ofOption (arrayElementSize C.types C.depth objType.toNat)
  match C.types.lookup objType.toNat with
  | some (.array elem count) =>
    if elementSize = 0 ∨ count.toNat > 0xFFFF ∨ elementSize > 0xFFFF then
      return ← failed "unsupported array index in v2 lowering"
    let indexReg ← R.operand index
    if indexReg = kUnassignedReg then return kUnassignedReg
    emitIndexLoad C object indexReg elementSize count.toUInt16 false (safety == .raw) (isChar C.types elem) type
  | _ => failed "unsupported array index in v2 lowering"

/-- The bytes of an element of a slice, or of what a pointer points to. -/
def elementBytes (elem : ℕ) (type : TypeId) : Option ℕ :=
  if isChar C.types elem then some 1
  else if isPointerValued C.types type.toNat then typeSize C.types C.depth type.toNat
  else some (scalarElementSize C.types elem)

def lowerSliceIndex (object : UInt16) (index : HirExprId) (elem : ℕ) (type : TypeId)
    (safety : CompactSafetyMode) : LowerM UInt16 := do
  let elementSize ← ofOption (elementBytes C elem type)
  let indexReg ← R.operand index
  if elementSize = 0 ∨ elementSize > 0xFFFF ∨ object.toNat + 1 ≥ (← regCount) ∨ indexReg = kUnassignedReg ∨
      indexReg.toNat ≥ (← regCount) then
    return ← failed "unsupported slice index in v2 lowering"
  emitIndexLoad C object indexReg elementSize (object + 1) true (safety == .raw) (isChar C.types elem) type

/-- A byte behind a pointer, at an index that is a literal. -/
def lowerLiteralIndex (object : UInt16) (index : HirExprId) (type objType : TypeId) : LowerM UInt16 := do
  match ← getExpr C index with
  | .literal value _ =>
    let ptr ← newReg C objType
    emit (.fieldPtr ptr object (← ofOption (literalWord value)).toUInt64.toUInt16)
    let count ← newReg C kCharType
    emit (.withImm .loadConstI32 count 1)
    let dst ← newReg C type
    emit (.simple .loadBytes dst ptr count)
    return dst
  | _ => failed "unsupported dynamic index in v2 lowering"

/-- Pointers carry no length, so the access is raw. -/
def lowerPointerIndex (object : UInt16) (index : HirExprId) (pointee : ℕ) (type objType : TypeId) :
    LowerM UInt16 := do
  let elementSize ← ofOption (elementBytes C pointee type)
  if elementSize = 0 ∨ elementSize > 0xFFFF then return ← lowerLiteralIndex C object index type objType
  let indexReg ← R.operand index
  if indexReg = kUnassignedReg then return kUnassignedReg
  emitIndexLoad C object indexReg elementSize 0 false true (isChar C.types pointee) type

def lowerIndex (object index : HirExprId) (type objType : TypeId) (isArray : Bool)
    (safety : CompactSafetyMode) : LowerM UInt16 := do
  let object ← R.operand object
  if object = kUnassignedReg then return kUnassignedReg
  if isArray then return ← lowerArrayIndex C R object index type objType safety
  match C.types.lookup objType.toNat with
  | some (.slice elem) => lowerSliceIndex C R object index elem type safety
  | some (.ptr pointee _ _) => lowerPointerIndex C R object index pointee type objType
  | _ => lowerLiteralIndex C object index type objType

/-! ### Lengths and pointers of slices -/

def lowerLength (operand : UInt16) (operandType : TypeId) (stringLength : UInt64) : LowerM UInt16 := do
  match C.types.lookup operandType.toNat with
  | some (.slice _) =>
    if operand.toNat + 1 ≥ (← regCount) then return kUnassignedReg
    return operand + 1
  | some (.array _ count) =>
    let length ← newTypedReg .i64
    emit (.withImm .loadConstI64 length count.toUInt16)
    return length
  | _ =>
    if stringLength > 0xFFFF then return kUnassignedReg
    let length ← newTypedReg .i64
    emit (.withImm .loadConstI64 length stringLength.toUInt16)
    return length

def pointsToSlice (type : TypeId) : Bool :=
  match C.types.lookup type.toNat with
  | some (.ptr pointee _ _) => isSlice C.types pointee
  | _ => false

def lowerLayoutIntrinsic (which : UInt8) (type : TypeId) (operand : HirExprId) (operandType : TypeId)
    (stringLength : UInt64) : LowerM UInt16 := do
  if operand = kInvalidHirExpr then return kUnassignedReg
  let operand ← R.operand operand
  if operand = kUnassignedReg then return kUnassignedReg
  if which = kPtrOf then
    if !pointsToSlice C operandType then return operand
    let data ← newReg C type
    emit (.simple .loadI64 data operand)
    return data
  if which ≠ kLengthOf then return kUnassignedReg
  if !pointsToSlice C operandType then return ← lowerLength C operand operandType stringLength
  let lengthAddress ← newTypedReg .ptr
  emit (.fieldPtr lengthAddress operand 8)
  let length ← newTypedReg .i64
  emit (.simple .loadI64 length lengthAddress)
  return length

/-! ### Slices -/

/-- Whether a bound is the literal zero. -/
def isLiteralZero : HirExpr → Option Bool
  | .literal value _ => (literalWord value).map (· == 0)
  | _ => some false

/-- The pointer to the first element of a slice that starts at `lo`. -/
def sliceData (pointer lo : UInt16) (loExpr : HirExpr) (elementSize : ℕ) : LowerM UInt16 := do
  if ← ofOption (isLiteralZero loExpr) then return pointer
  let scale ← newTypedReg .i64
  emit (.withImm .loadConstI64 scale (UInt16.ofNat elementSize))
  let byteOffset ← newTypedReg .i64
  emit (.simple .mul byteOffset lo scale)
  let dataPointer ← newTypedReg .ptr
  emit (.simple .add dataPointer pointer byteOffset)
  return dataPointer

def sliceElementSize (type : TypeId) : Option ℕ :=
  match C.types.lookup type.toNat with
  | some (.slice elem) =>
    if isChar C.types elem then some (scalarElementSize C.types elem) else typeSize C.types C.depth elem
  | _ => some 0

def lowerMakeSlice (object lo hi : HirExprId) (type : TypeId) (isPointer : Bool) : LowerM UInt16 := do
  let (literalPointer, literalLength) ← lowerStringSlicePointerAndLength C object isPointer
  if literalPointer ≠ kUnassignedReg ∧ literalLength ≠ kUnassignedReg then
    return ← makeSlicePair literalPointer literalLength
  let pointer ← R.operand object
  let loReg ← R.operand lo
  let hiReg ← R.operand hi
  if pointer = kUnassignedReg ∨ loReg = kUnassignedReg ∨ hiReg = kUnassignedReg then return kUnassignedReg
  let elementSize ← ofOption (sliceElementSize C type)
  if elementSize = 0 ∨ elementSize > 0xFFFF then
    return ← failed "unsupported slice element type in v2 lowering"
  let dataPointer ← sliceData pointer loReg (← getExpr C lo) elementSize
  let length ← newTypedReg .i64
  emit (.simple .sub length hiReg loReg)
  makeSlicePair dataPointer length

/-! ### Optionals -/

def lowerMakeNone (type : TypeId) : LowerM UInt16 := do
  match C.types.lookup type.toNat with
  | some (.optional inner) =>
    -- Guest offset zero is a live pointer, so the sentinel is -1.
    if isPtr C.types inner then return ← lowerPoolConstant C (-1) type
    let base ← allocateGuestBytes (← typeBytes C type)
    if base = kUnassignedReg then return base
    let innerSize ← ofOption (typeSize C.types C.depth inner)
    let tagOffset ← u16 innerSize
    if !(← isOk) || innerSize = 0 then return kUnassignedReg
    let tag ← newTypedReg .ptr
    emit (.fieldPtr tag base tagOffset)
    let absent ← newTypedReg .i64
    emit (.withImm .loadConstI64 absent 0)
    emit (.simple .storeI8 tag absent)
    return base
  | _ => failed "HirMakeNone has a non-optional type in v2 lowering"

/-- The flag of an optional that has a value. -/
def storePresent (base : UInt16) (innerSize : ℕ) : LowerM Unit := do
  let tag ← newTypedReg .ptr
  emit (.fieldPtr tag base (← u16 innerSize))
  let present ← newTypedReg .i64
  emit (.withImm .loadConstI64 present 1)
  emit (.simple .storeI8 tag present)

def lowerMakeSome (value : HirExprId) (type : TypeId) : LowerM UInt16 := do
  match C.types.lookup type.toNat with
  | some (.optional inner) =>
    let reg ← R.operand value
    if reg = kUnassignedReg then return kUnassignedReg
    if isPtr C.types inner then return reg
    let innerSize ← ofOption (typeSize C.types C.depth inner)
    let base ← allocateGuestBytes (← typeBytes C type)
    if base = kUnassignedReg ∨ innerSize = 0 then return kUnassignedReg
    if isAggregateType C.types inner then
      let source ← aggregateAddress C R value
      if source = kUnassignedReg then return kUnassignedReg
      copyBytes base source innerSize
      storePresent base innerSize
      return base
    emit (.simple .storeI64 base reg)
    storePresent base innerSize
    return base
  | _ => failed "HirMakeSome has a non-optional type in v2 lowering"

/-! ### Dynamic values -/

def functionIndexForSymbol (id : HirFunctionId) : LowerM UInt16 := do
  let adapter := C.adapterIndices[id.toNat]?.getD kUnassignedReg
  if adapter ≠ kUnassignedReg then return adapter
  let function := C.functionIndices[id.toNat]?.getD kUnassignedReg
  if function ≠ kUnassignedReg then return function
  failed "vtable slot references a function outside the reachable VM module"

/-- The address of the value that a dynamic value is made of. -/
def dynData (value : HirExprId) (sourceType : TypeId) (valueIsPlace : Bool) : LowerM UInt16 := do
  if isSlice C.types sourceType.toNat then
    let reg ← R.operand value
    if reg = kUnassignedReg ∨ reg.toNat + 1 ≥ (← regCount) then return kUnassignedReg
    let data ← allocateGuestBytes (← typeBytes C sourceType)
    if data = kUnassignedReg then return kUnassignedReg
    emit (.simple .storeI64 data reg)
    storeField data 8 (reg + 1)
    return data
  if isPtr C.types sourceType.toNat then return ← R.operand value
  if valueIsPlace || isAggregateType C.types sourceType.toNat then return ← aggregateAddress C R value
  let reg ← R.operand value
  if reg = kUnassignedReg then return kUnassignedReg
  let data ← allocateGuestBytes (← typeBytes C sourceType)
  emitAll (if data = kUnassignedReg then [] else [.simple .storeI64 data reg])
  return data

/-- The loop over the slots of a vtable. -/
def storeVTable (vtableData : UInt16) : List HirFunctionId → ℕ → LowerM Bool
  | [], _ => return true
  | id :: slots, slot => do
    let functionIndex ← functionIndexForSymbol C id
    if functionIndex = kUnassignedReg then return false
    let functionRef ← newTypedReg .fnRef
    emit (.withImm .loadFnRef functionRef functionIndex)
    let slotAddress ← newTypedReg .ptr
    emit (.fieldPtr slotAddress vtableData (← u16 (slot * 8)))
    if !(← isOk) then return false
    emit (.simple .storeI64 slotAddress functionRef)
    storeVTable vtableData slots (slot + 1)

def lowerMakeDyn (value : HirExprId) (sourceType dynType : TypeId) (vtableName : Text) (valueIsPlace : Bool) :
    LowerM UInt16 := do
  if !isDyn C.types dynType.toNat then
    return ← failed "HirMakeDyn has a non-dyn result type in v2 lowering"
  match C.hir.vtables.find? (·.name == vtableName) with
  | none => failed "missing HIR vtable in v2 lowering"
  | some vtable =>
    if vtable.slots.length > 0xFFFF / 8 then return ← failed "vtable exceeds the v2 linear-memory limit"
    let data ← dynData C R value sourceType valueIsPlace
    if data = kUnassignedReg then return kUnassignedReg
    let dyn ← allocateGuestBytes (← typeBytes C dynType)
    let vtableData ← allocateGuestBytes (max vtable.slots.length 1 * 8)
    if dyn = kUnassignedReg ∨ vtableData = kUnassignedReg then return kUnassignedReg
    storeField dyn 0 data
    storeField dyn 8 vtableData
    if !(← storeVTable C vtableData vtable.slots 0) then return kUnassignedReg
    return dyn

/-! ### Opaque values -/

/-- An opaque value: the address of its payload, then the number of its type. -/
def storeOpaque (payloadData : UInt16) (opaqueType : TypeId) (typeId : UInt32) : LowerM UInt16 := do
  let opaqueData ← allocateGuestBytes (← typeBytes C opaqueType)
  if opaqueData = kUnassignedReg then return kUnassignedReg
  storeField opaqueData 0 payloadData
  let tagField ← newTypedReg .ptr
  emit (.fieldPtr tagField opaqueData 8)
  let tag ← emitI64Constant (Int64.ofNat typeId.toNat)
  if tag = kUnassignedReg then return kUnassignedReg
  emit (.simple .storeI64 tagField tag)
  return opaqueData

def lowerMakeOpaque (value : HirExprId) (sourceType opaqueType : TypeId) (typeId : UInt32) : LowerM UInt16 := do
  if !isOpaqueTagged C.types opaqueType.toNat then
    return ← failed "HirMakeOpaque has a non-opaque result type in v2 lowering"
  let payloadValue ← R.operand value
  if payloadValue = kUnassignedReg then return kUnassignedReg
  let payloadSize ← typeBytes C sourceType
  let payloadData ← allocateGuestBytes payloadSize
  if payloadData = kUnassignedReg then return kUnassignedReg
  if isPointerValued C.types sourceType.toNat then
    let source ← aggregateAddress C R value
    if source = kUnassignedReg then return ← failed "unsupported opaque aggregate payload in v2 lowering"
    copyBytes payloadData source payloadSize
    return ← storeOpaque C payloadData opaqueType typeId
  emit (.simple .storeI64 payloadData payloadValue)
  storeOpaque C payloadData opaqueType typeId

def lowerOpaqueCheck (value : HirExprId) (opaqueType : TypeId) (typeId : UInt32) : LowerM UInt16 := do
  if !isOpaqueTagged C.types opaqueType.toNat then
    return ← failed "HirOpaqueCheck has a non-opaque value in v2 lowering"
  let opaqueData ← aggregateAddress C R value
  if opaqueData = kUnassignedReg then return kUnassignedReg
  let actualTag ← loadField .i64 opaqueData 8
  let expectedTag ← emitI64Constant (Int64.ofNat typeId.toNat)
  if expectedTag = kUnassignedReg then return kUnassignedReg
  let matched ← newReg C kBoolType
  emit (.simple .eq matched actualTag expectedTag)
  return matched

def lowerOpaqueCast (value : HirExprId) (target opaqueType : TypeId) (safety : CompactSafetyMode)
    (returnsPtr : Bool) : LowerM UInt16 := do
  if !isOpaqueTagged C.types opaqueType.toNat || safety == .requiredCheck || returnsPtr then
    return ← failed "unsupported checked or raw opaque cast in v2 lowering"
  let opaqueData ← aggregateAddress C R value
  if opaqueData = kUnassignedReg then return kUnassignedReg
  let payloadData ← loadField .ptr opaqueData 0
  if isPointerValued C.types target.toNat then return payloadData
  let payloadValue ← newReg C target
  emit (.simple .loadI64 payloadValue payloadData)
  return payloadValue

/-! ### Assignment, pipes and cleanups -/

/-- The type that an assignment stores: of a field or an element only. -/
def assignedType : HirExpr → TypeId
  | .field _ _ type _ _ => type
  | .index _ _ type _ _ _ => type
  | _ => kInvalidType

/-- Whether an assignment stores one byte. -/
def assignsByte : HirExpr → Bool
  | .index _ _ type _ _ _ => isChar C.types type.toNat
  | _ => false

def lowerAssign (target value : HirExprId) : LowerM UInt16 := do
  let addr ← lvalueAddress C R target
  if addr = kUnassignedReg then return kUnassignedReg
  let targetExpr ← getExpr C target
  let targetType := assignedType targetExpr
  if isPointerValued C.types targetType.toNat then
    let source ← aggregateAddress C R value
    if source = kUnassignedReg then return kUnassignedReg
    copyBytes addr source (← typeBytes C targetType)
    return source
  let reg ← R.operand value
  if reg = kUnassignedReg then return kUnassignedReg
  emit (.simple (if assignsByte C targetExpr then .storeI8 else .storeI64) addr reg)
  return reg

def lowerPipe (sourceSlot : HirSlotId) (sourceType : TypeId) (stage : HirExprId) (isEffect : Bool) :
    LowerM UInt16 := do
  let stage ← R.operand stage
  if !isEffect then return stage
  if !(← isOk) then return kUnassignedReg
  lowerSlotValue C sourceSlot sourceType

def lowerCleanup : List HirExprId → LowerM UInt16
  | [] => return kUnassignedReg
  | expr :: exprs => do
    let _ ← R.operand expr
    if !(← isOk) then return kUnassignedReg
    lowerCleanup exprs

/-! ### The recursion -/

/-- The visitor of `lowerOperand`. -/
def lowerExpr : HirExpr → LowerM UInt16
  | .literal value type => lowerLiteral C value type
  | .enumValue value type => lowerEnumValue C value type
  | .var name _ => lowerVar C name
  | .externalGlobalAddr name _ => do
    fail (text "unsupported external global '" ++ name ++ text "' in v2 VM")
    return kUnassignedReg
  | .binary lhs rhs op type _ => lowerBinary C R lhs rhs op type
  | .unary op operand type => lowerUnary C R op operand type
  | .slotLoad slot type => lowerSlotValue C slot type
  | .slotAddr slot _ => lowerSlotAddr slot
  | .slotStore slot value => lowerSlotStore C R slot value
  | .field object index type objectType _ => lowerField C R object index type objectType
  | .unionCast value source target memberIndex safety =>
    lowerUnionCast C R value source target memberIndex safety
  | .unionCheck value _ memberIndex => lowerUnionCheck C R value memberIndex
  | .makeDyn value sourceType dynType vtableName valueIsPlace =>
    lowerMakeDyn C R value sourceType dynType vtableName valueIsPlace
  | .dynCall receiver _ slotIndex hasReceiver resultType _ args argTypes =>
    lowerDynCall C R receiver slotIndex hasReceiver resultType args argTypes
  | .makeOpaque value sourceType opaqueType typeId _ => lowerMakeOpaque C R value sourceType opaqueType typeId
  | .opaqueCast value _ target opaqueType _ _ _ safety returnsPtr =>
    lowerOpaqueCast C R value target opaqueType safety returnsPtr
  | .opaqueCheck value opaqueType typeId _ => lowerOpaqueCheck C R value opaqueType typeId
  | .makeNone type => lowerMakeNone C type
  | .makeSome value type => lowerMakeSome C R value type
  | .structLiteral values type => lowerStructLiteral C R values type
  | .assign target value => lowerAssign C R target value
  | .cast value _ _ => lowerCast R value
  | .index object index type objType isArray safety => lowerIndex C R object index type objType isArray safety
  | .layoutIntrinsic which type _ operand operandType stringLength =>
    lowerLayoutIntrinsic C R which type operand operandType stringLength
  | .makeSlice object lo hi type _ _ _ isPointer _ => lowerMakeSlice C R object lo hi type isPointer
  | .arrayLiteral elements type => lowerArrayLiteral C R elements type
  | .call call => lowerCall C R call false
  | .pipe sourceSlot sourceType stage _ isEffect => lowerPipe C R sourceSlot sourceType stage isEffect
  | .pipeCurrent slot type => lowerSlotValue C slot type
  | .cleanup exprs => lowerCleanup R exprs
  | expr => do
    fail (text ("unsupported HIR expression kind " ++ toString (unsupportedKind expr) ++ " in v2 lowering"))
    return kUnassignedReg

/-- `if (reg != kUnassignedReg) state.regs[id] = reg;`. -/
def remember (id : HirExprId) (reg : UInt16) : LowerM Unit :=
  modify fun s => if reg = kUnassignedReg then s else { s with regs := s.regs.set id.toNat reg }

def lowerOperand (id : HirExprId) : LowerM UInt16 := do
  match (← get).regs[id.toNat]? with
  | none => return kUnassignedReg
  | some known =>
    if known ≠ kUnassignedReg then return known
    let reg ← lowerExpr C R (← getExpr C id)
    remember id reg
    return reg

end

/-- The lowering of expressions that are nested no deeper than the fuel. -/
def lowering (C : LowerContext) : ℕ → Lowering
  | 0 => { operand := fun _ _ => none, address := fun _ _ => none }
  | fuel + 1 =>
    { operand := lowerOperand C (lowering C fuel), address := aggregateAddress C (lowering C fuel) }

end Zith.Vm
