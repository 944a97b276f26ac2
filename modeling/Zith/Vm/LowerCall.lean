import Zith.Vm.LowerState

/-! `lowerCall` and `lowerDynCall`. A direct call finds its arguments in a window of registers, one after the
    other; the window is reserved first, then the arguments are lowered and moved there.

        std.io.console.print…   puts, or write_stdout
        an extern by name       CallExtern, or CallExternRange for printf and snprintf
        a function of the VM    CallRange, or TailCallRange

    A pass over the functions that ends without a call reports the target as unsupported. -/

namespace Zith.Vm
open Lib Hir Layout
open Types (TypeIntern)

/-- How the lowering goes on below an expression. -/
structure Lowering where
  operand : HirExprId → LowerM UInt16
  address : HirExprId → LowerM UInt16

/-! ### Names -/

def sourceName (linkage : List UInt8) : List UInt8 :=
  ((linkage.takeWhile (· ≠ 40)).reverse.takeWhile (· ≠ 46)).reverse

def startsWith (value start : List UInt8) : Bool := start.isPrefixOf value

/-- The externs that `lowerCall` knows. -/
def externNames : List (List UInt8) :=
  ["puts", "putchar", "malloc", "aligned_alloc", "free", "realloc", "printf", "snprintf", "strlen", "memcpy",
    "calloc", "strncmp", "strcpy", "strcat", "strcmp", "memcmp", "getchar"].map text

/-! ### Literals -/

/-- The eight bytes of a literal. A text is read as a text only, and only a text is. -/
def literalWord : HirLiteralValue → Option Int64
  | .i value => some value
  | .f bits => some bits.toInt64
  | .b value => some (if value then 1 else 0)
  | .strVal _ => none

def literalText : HirLiteralValue → Option Text
  | .strVal s => some s
  | _ => none

section
variable (C : LowerContext) (R : Lowering)

/-! ### Slices of literals -/

/-- The text that a slice is taken of when it can be loaded, with the type of the literal. -/
def sliceLiteral (object : HirExprId) (isPointer : Bool) : LowerM (Option (Text × TypeId)) := do
  match ← getExpr C object with
  | .literal value type =>
    let s ← ofOption (literalText value)
    return if !s.isEmpty && (isPointer || isPtr C.types type.toNat) then some (s, type) else none
  | _ => return none

def lowerStringSlicePointer (object : HirExprId) (isPointer : Bool) : LowerM UInt16 := do
  match ← sliceLiteral C object isPointer with
  | some (s, type) =>
    let index ← findOrAddString s
    let reg ← newReg C type
    emit (.withImm .loadString reg index)
    return reg
  | none => if isPointer then R.operand object else unassigned

/-- Pointer and length. -/
def lowerStringSlicePointerAndLength (object : HirExprId) (isPointer : Bool) : LowerM (UInt16 × UInt16) := do
  match ← sliceLiteral C object isPointer with
  | some (s, type) =>
    let index ← findOrAddString s
    let reg ← newReg C type
    emit (.withImm .loadString reg index)
    let lenReg ← newTypedReg .i64
    emit (.withImm .loadConstI64 lenReg (UInt16.ofNat s.length))
    return (reg, lenReg)
  | none => return (kUnassignedReg, kUnassignedReg)

/-- The placeholders of a message: every `#` that no unit separator follows. -/
def placeholderCount : Text → ℕ
  | [] => 0
  | 35 :: 31 :: s => placeholderCount s
  | 35 :: s => placeholderCount s + 1
  | _ :: s => placeholderCount s

def slicePlaceholderCount (object : HirExprId) : LowerM ℕ := do
  match ← getExpr C object with
  | .literal value _ => return placeholderCount (← ofOption (literalText value))
  | _ => return 0

/-! ### Externs -/

/-- The first parameter that is a slice of characters. -/
def consoleMessageArg (fn : HirFunction) (call : HirCall) : ℕ :=
  ((fn.params.take call.args.length).findIdx? fun type =>
    match C.types.lookup type.toNat with
    | some (.slice elem) => isChar C.types elem
    | _ => false).getD call.args.length

def kNoVmTarget : String := "state tail transfer does not target a VM function"

/-- Behind the loop over the functions. -/
def unsupportedTarget (call : HirCall) (linkage : Text) : LowerM UInt16 := do
  if linkage.isEmpty then
    fail (text ("resolved call target " ++ toString call.resolvedFn ++ " is missing in v2 lowering"))
  else fail (text "unsupported resolved call target '" ++ linkage ++ text "' in v2 lowering")
  return 0

def lowerConsoleCall (hirFn : HirFunction) (call : HirCall) (isPrintln : Bool) : LowerM UInt16 := do
  if call.args.isEmpty then return ← newReg C kVoidType
  let messageIndex := consoleMessageArg C hirFn call
  if messageIndex ≥ call.args.length then return ← newReg C kVoidType
  match ← getExpr C (call.args[messageIndex]?.getD kInvalidHirExpr) with
  | .makeSlice object _ _ _ _ _ _ isPointer _ =>
    if call.args.length > messageIndex + 1 ∧ (← slicePlaceholderCount C object) > 0 then
      return ← failed "variadic print formatting is not in the v2 lowering subset"
    let ptr ← lowerStringSlicePointer C R object isPointer
    if ptr = kUnassignedReg then return ← unsupportedTarget call hirFn.name
    padRegTypes
    if isPrintln then
      let externIndex ← findOrAddExtern (text "puts")
      let scratch ← newReg C kVoidType
      emit { op := .callExtern, a := scratch, b := ptr, c := 0, imm := externIndex }
      return scratch
    let (_, len) ← lowerStringSlicePointerAndLength C object isPointer
    if len = kUnassignedReg then return ← unsupportedTarget call hirFn.name
    let externIndex ← findOrAddExtern (text "write_stdout")
    let scratch ← newReg C kVoidType
    emit { op := .callExtern, a := scratch, b := ptr, c := len, imm := externIndex }
    return scratch
  | _ => unsupportedTarget call hirFn.name

/-- Lower arguments and move them to one register after the other; `false` when one has no register. -/
def moveArgs : List HirExprId → UInt16 → LowerM Bool
  | [], _ => return true
  | arg :: args, destination => do
    let value ← R.operand arg
    if value = kUnassignedReg then return false
    emit (.simple .move destination value)
    moveArgs args (destination + 1)

def lowerVariadicExtern (call : HirCall) (name : Text) : LowerM UInt16 := do
  let fixedCount := if name = text "printf" then 1 else 3
  if call.args.length < fixedCount then return ← failed "variadic call has too few fixed arguments"
  let argBase ← u16 (← get).fn.regTypes.length
  let argCount ← u16 call.args.length
  if !(← isOk) then return kUnassignedReg
  pushVariadicWindow call.args.length
  if !(← moveArgs R call.args argBase) then return kUnassignedReg
  let externIndex ← findOrAddExtern name
  let resultReg ← newReg C call.fnType
  emit { op := .callExternRange, a := resultReg, b := argBase, c := argCount, imm := externIndex }
  return resultReg

/-- `call.args.size() > i ? lowerOperand(state, call.args[i]) : 0`. -/
def externArg (call : HirCall) (i : ℕ) : LowerM UInt16 :=
  match call.args[i]? with
  | some arg => R.operand arg
  | none => return 0

def lowerExternCall (call : HirCall) (name : Text) : LowerM UInt16 := do
  if call.args.length > 4 then return kUnassignedReg
  let arg0 ← externArg R call 0
  let arg1 ← externArg R call 1
  let arg2 ← externArg R call 2
  let arg3 ← externArg R call 3
  padRegTypes
  let externIndex ← findOrAddExtern name
  let reg ← newReg C call.fnType
  emit { op := .callExtern, a := reg, b := arg0, c := arg1, imm := externIndex, d := arg2, e := arg3 }
  return reg

/-! ### Calls of functions of the VM -/

/-- The slot that a borrowed slice is the address of. -/
def borrowedSlot : HirExpr → Option HirSlotId
  | .slotAddr slot _ | .slotLoad slot _ => some slot
  | _ => none

/-- Whether a slot of this type is borrowed as an argument of that type. -/
def borrowsSlice (argumentType slotType : TypeId) : Bool :=
  match C.types.lookup argumentType.toNat with
  | some (.ptr pointee _ _) => isSlice C.types pointee && isSlice C.types slotType.toNat
  | _ => false

/-- A descriptor in memory for a slice that lives in registers, and nothing for any other argument. -/
def materializeBorrowedSlice (argument : HirExprId) (argumentType : TypeId) : LowerM (Option UInt16) := do
  if argument.toNat ≥ (← get).regs.length then return none
  match borrowedSlot (← getExpr C argument) with
  | none => return none
  | some slot =>
    let type ← slotType slot
    if !borrowsSlice C argumentType type then return none
    let source ← lowerSlotValue C slot type
    if source = kUnassignedReg ∨ source.toNat + 1 ≥ (← regCount) then
      return some (← failed "invalid slice slot in borrowed v2 call argument")
    let descriptor ← newTypedReg .ptr
    let size ← newTypedReg .i64
    let alignment ← newTypedReg .i64
    emit (.withImm .loadConstI64 size 16)
    emit (.withImm .loadConstI64 alignment 8)
    emit (.simple .allocBytes descriptor size alignment)
    emit (.simple .storeI64 descriptor source)
    let lengthAddress ← newTypedReg .ptr
    emit (.fieldPtr lengthAddress descriptor 8)
    emit (.simple .storeI64 lengthAddress (source + 1))
    return some descriptor

/-- An argument of a call with its type, `kInvalidType` behind the end of the types, and its width. -/
structure CallArg where
  id : HirExprId
  type : TypeId
  width : ℕ

def callArgs (call : HirCall) : List CallArg :=
  call.args.zipIdx.map fun (id, i) =>
    let planned := call.isVariadicSlice && i == call.variadicSliceParam.toNat
    let type := call.argumentTypes[i]?.getD kInvalidType
    { id, type, width := if planned || isSlice C.types type.toNat then 2 else 1 }

/-- The registers of an argument in the window. -/
def CallArg.types (arg : CallArg) : List ValueType :=
  if arg.width = 2 then [.ptr, .i64]
  else [if arg.type = kInvalidType then .i64 else valueTypeOf C.types arg.type.toNat]

def lowerCallArg (arg : CallArg) : LowerM UInt16 := do
  match ← materializeBorrowedSlice C arg.id arg.type with
  | some descriptor => return descriptor
  | none => R.operand arg.id

/-- Lower the arguments of a call and move them to the window, whose next register is `destination`. -/
def moveCallArgs : List CallArg → ℕ → LowerM Bool
  | [], _ => return true
  | arg :: args, destination => do
    let value ← lowerCallArg C R arg
    if value = kUnassignedReg then return false
    let target ← u16 destination
    emit (.simple .move target value)
    if arg.width = 2 ∧ value.toNat + 1 ≥ (← regCount) then
      fail (text "slice argument pair exceeds v2 caller registers")
      return false
    emitAll (if arg.width = 2 then [.simple .move (target + 1) (value + 1)] else [])
    moveCallArgs args (destination + arg.width)

/-- The hidden result pointer of a callee that returns an aggregate. -/
def lowerSret (hirFn : HirFunction) (sretSlot : UInt16) (tailTransfer : Bool) : LowerM Bool := do
  if !isAggregateType C.types hirFn.returnType.toNat then return true
  if tailTransfer then
    let sretReg := (← get).sretReg
    if sretReg = kUnassignedReg then
      fail (text "state tail transfer has no return slot in v2 lowering")
      return false
    emit (.simple .move sretSlot sretReg)
    return true
  let size ← typeBytes C hirFn.returnType
  if size = 0 ∨ size > 0xFFFF then
    fail (text "unsupported aggregate return size in v2 lowering")
    return false
  let count ← newTypedReg .i64
  let align ← newTypedReg .i64
  emit (.withImm .loadConstI64 count (UInt16.ofNat size))
  emit (.withImm .loadConstI64 align 8)
  emit (.simple .allocBytes sretSlot count align)
  return true

/-- Whether the slice that a variadic call has collected is one of its arguments. -/
def validSlicePlan (call : HirCall) : Bool :=
  let param := call.variadicSliceParam.toNat
  !call.isVariadicSlice || (param < call.args.length &&
    (call.argumentTypes[param]?.any fun type => isSlice C.types type.toNat))

def lowerRangeCall (hirFn : HirFunction) (call : HirCall) (tailTransfer : Bool) (fnIndex : UInt16) :
    LowerM UInt16 := do
  if !validSlicePlan C call then return ← failed "invalid variadic slice plan in v2 lowering"
  let returnsAggregate := isAggregateType C.types hirFn.returnType.toNat
  if tailTransfer && ((← get).fn.returnsAggregate != returnsAggregate) then
    return ← failed "state tail transfer has an incompatible aggregate return in v2 lowering"
  let args := callArgs C call
  let argCount := (args.map (·.width)).sum
  if argCount > 0xFFFF then return ← failed "v2 call argument range exceeds 65535 registers"
  let windowSize := argCount + if returnsAggregate then 1 else 0
  let next := (← get).fn.regCount
  let argBase := if windowSize = 0 then 0 else next
  if !(← isOk) then return kUnassignedReg
  if (← regCount) + windowSize > 0xFFFF then
    return ← failed "v2 caller registers exceed 65535 while preparing arguments"
  let sretSlot := if returnsAggregate then argBase else kUnassignedReg
  pushWindow ((if returnsAggregate then [.ptr] else []) ++ args.flatMap (CallArg.types C))
  if !(← isOk) then return kUnassignedReg
  if !(← lowerSret C hirFn sretSlot tailTransfer) then return kUnassignedReg
  if !(← moveCallArgs C R args (argBase.toNat + if returnsAggregate then 1 else 0)) then return kUnassignedReg
  if tailTransfer then
    emit (.tailCallRange argBase (← u16 windowSize) fnIndex)
    return 0
  let returnsSlice := isSlice C.types hirFn.returnType.toNat
  let reg ← newTypedReg (if returnsSlice then .ptr else valueTypeOf C.types call.fnType.toNat)
  newTypedRegs (if returnsSlice then [.i64] else [])
  emit (.callRange reg argBase (← u16 windowSize) fnIndex)
  return if returnsAggregate then sretSlot else reg

local instance lawfulText : LawfulBEq Text := List.instLawfulBEq

def lowerCall (call : HirCall) (tailTransfer : Bool) : LowerM UInt16 := do
  if call.resolvedFn = kInvalidHirFunction then
    return ← failed "unsupported unresolved call target in v2 lowering"
  if tailTransfer && !call.musttail then
    return ← failed "state tail transfer is missing musttail metadata in v2 lowering"
  match C.hir.fns[call.resolvedFn.toNat]? with
  | none => unsupportedTarget call []
  | some hirFn =>
    let linkage := hirFn.name
    let name := sourceName linkage
    let isPrintln := startsWith linkage (text "std.io.console.println")
    if isPrintln || startsWith linkage (text "std.io.console.print") then
      if tailTransfer then return ← failed kNoVmTarget
      lowerConsoleCall C R hirFn call isPrintln
    else if name = text "main" ∨ hirFn.hasBody = false then
      if tailTransfer then return ← failed kNoVmTarget
      if name ∉ externNames then unsupportedTarget call linkage
      else if (name = text "printf" ∨ name = text "snprintf") ∧ hirFn.isVariadic = true then
        lowerVariadicExtern C R call name
      else lowerExternCall C R call name
    else
      match C.functionIndices[call.resolvedFn.toNat]? with
      | some fnIndex =>
        if fnIndex = kUnassignedReg then unsupportedTarget call linkage
        else lowerRangeCall C R hirFn call tailTransfer fnIndex
      | none => unsupportedTarget call linkage

/-! ### Dynamic calls -/

/-- The arguments of a dynamic call, in registers, until one has none. -/
def lowerDynArgs : List (HirExprId × TypeId) → LowerM (Option (List (UInt16 × TypeId)))
  | [] => return some []
  | (arg, type) :: args => do
    let value ← R.operand arg
    if value = kUnassignedReg then return none
    if isSlice C.types type.toNat = true ∧ value.toNat + 1 ≥ (← regCount) then
      fail (text "slice argument pair exceeds v2 caller registers")
      return none
    match ← lowerDynArgs args with
    | none => return none
    | some values => return some ((value, type) :: values)

def dynArgTypes (type : TypeId) : List ValueType :=
  if isSlice C.types type.toNat then [.ptr, .i64] else [valueTypeOf C.types type.toNat]

/-- Move values to the window, a slice as a pair. -/
def moveDynArgs : List (UInt16 × ℕ) → ℕ → LowerM Unit
  | [], _ => return
  | (value, width) :: args, destination => do
    let target ← u16 destination
    emit (.simple .move target value)
    emitAll (if width = 2 then [.simple .move (target + 1) (value + 1)] else [])
    moveDynArgs args (destination + width)

/-- Load a word at an offset of an address. -/
def loadField (type : ValueType) (address offset : UInt16) : LowerM UInt16 := do
  let field ← newTypedReg .ptr
  emit (.fieldPtr field address offset)
  let value ← newTypedReg type
  emit (.simple .loadI64 value field)
  return value

def lowerDynCall (receiver : HirExprId) (slotIndex : UInt32) (hasReceiver : Bool) (resultType : TypeId)
    (args : List HirExprId) (argTypes : List TypeId) : LowerM UInt16 := do
  if args.length ≠ argTypes.length then
    return ← failed "dynamic call argument metadata is inconsistent in v2 lowering"
  if isAggregateType C.types resultType.toNat then
    return ← failed "aggregate-returning dynamic calls are unsupported in v2"
  let receiver ← R.operand receiver
  if receiver = kUnassignedReg then return kUnassignedReg
  let data ← loadField .ptr receiver 0
  let vtable ← loadField .ptr receiver 8
  let slotOffset := slotIndex.toNat * 8
  if slotOffset > 0xFFFF then return ← failed "dynamic call slot exceeds the v2 instruction width"
  let functionRef ← loadField .fnRef vtable (UInt16.ofNat slotOffset)
  match ← lowerDynArgs C R (args.zip argTypes) with
  | none => return kUnassignedReg
  | some values =>
    let arguments := (if hasReceiver then [(data, 1)] else []) ++
      values.map fun (value, type) => (value, valueRegisterWidth C.types type.toNat)
    let flattenedTypes := (if hasReceiver then [.ptr] else []) ++ argTypes.flatMap (dynArgTypes C)
    if flattenedTypes.length ≥ 0xFFFF ∨ (← regCount) > 0xFFFF - flattenedTypes.length - 1 then
      return ← failed "dynamic call argument range exceeds v2 registers"
    let argBase ← u16 (← regCount)
    if !(← isOk) then return kUnassignedReg
    newTypedRegs flattenedTypes
    moveDynArgs arguments argBase.toNat
    let result ← newReg C resultType
    if !(← isOk) then return kUnassignedReg
    newTypedRegs (if isSlice C.types resultType.toNat then [.i64] else [])
    emit { op := .callRangeFnRef, a := result, b := functionRef, c := argBase, d := ← u16 flattenedTypes.length }
    return result

end

end Zith.Vm
