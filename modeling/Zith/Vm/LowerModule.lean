import Zith.Vm.LowerOperand

/-! `lowerModule`: the functions that are reachable, the registers and the code of each, and the adapters
    that vtables call through.

        reachableFunctions ──▶ functionIndices, adapterIndices ──▶ a row for each
             prepareFunctionRegisters ──▶ slots ──▶ blocks ──▶ branch targets   (of each function)

    A lowering that fails stops where the source returns its result. -/

namespace Zith.Vm
open Lib Hir Layout
open Types (TypeIntern)

/-! ### Reachable functions -/

def isUserFunction (fn : HirFunction) : Bool :=
  fn.hasBody && (sourceName fn.name == text "main" ||
    (!startsWith fn.name (text "std.") && !startsWith fn.name (text "zith.")))

structure Reach where
  reachable : List Bool
  pending : List HirFunctionId
  visited : List Bool

section
variable (hir : HirModule)

def enqueueFunction (s : Reach) (id : HirFunctionId) : Reach :=
  match hir.fns[id.toNat]?, s.reachable[id.toNat]? with
  | some fn, some false =>
    if fn.hasBody then { s with reachable := s.reachable.set id.toNat true, pending := s.pending ++ [id] } else s
  | _, _ => s

def enqueueDirectCall (s : Reach) (id : HirFunctionId) : Reach :=
  match hir.fns[id.toNat]? with
  | some fn => if startsWith fn.name (text "std.io.console.print") then s else enqueueFunction hir s id
  | none => s

def enqueueVTable (s : Reach) (name : Text) : Reach :=
  match hir.vtables.find? (·.name == name) with
  | some vtable => vtable.slots.foldl (enqueueFunction hir) s
  | none => s

/-- What an expression calls. -/
def enqueueCallees (s : Reach) : HirExpr → Reach
  | .call call => enqueueDirectCall hir s call.resolvedFn
  | .stateTailCall call => enqueueDirectCall hir s call.resolvedFn
  | .makeDyn _ _ _ vtableName _ => enqueueVTable hir s vtableName
  | .dynCall _ vtableName _ _ _ _ _ _ => enqueueVTable hir s vtableName
  | _ => s

/-- The expressions that are scanned below one. -/
def scanned : HirExpr → List HirExprId
  | .binary lhs rhs _ _ _ => [lhs, rhs]
  | .unary _ operand _ => [operand]
  | .makeSome value _ => [value]
  | .cast value _ _ => [value]
  | .unionCast value _ _ _ _ => [value]
  | .unionCheck value _ _ => [value]
  | .opaqueCast value _ _ _ _ _ _ _ _ => [value]
  | .opaqueCheck value _ _ _ => [value]
  | .let _ _ init => [init]
  | .call call => call.callee :: call.args
  | .ret value => [value]
  | .branch cond _ _ => [cond]
  | .phi incoming => incoming
  | .assign target value => [target, value]
  | .index object index _ _ _ _ => [object, index]
  | .field object _ _ _ _ => [object]
  | .structLiteral values _ => values
  | .arrayLiteral elements _ => elements
  | .slotStore _ value => [value]
  | .makeSlice object lo hi _ _ _ _ _ _ => [object, lo, hi]
  | .layoutIntrinsic _ _ _ operand _ _ => [operand]
  | .stateTailCall call => call.callee :: call.args
  | .cleanup exprs => exprs
  | .makeDyn value _ _ _ _ => [value]
  | .dynCall receiver _ _ _ _ _ args _ => receiver :: args
  | .makeOpaque value _ _ _ _ => [value]
  | .pipe _ _ stage _ _ => [stage]
  | _ => []

def scanExpression : ℕ → Reach → HirExprId → Option Reach
  | 0, _, _ => none
  | fuel + 1, s, id =>
    match hir.exprs[id.toNat]?, s.visited[id.toNat]? with
    | some expr, some false =>
      (scanned expr).foldlM (scanExpression fuel)
        (enqueueCallees hir { s with visited := s.visited.set id.toNat true } expr)
    | _, _ => some s

/-- The loop over the functions that wait. -/
def scanFunctions (depth : ℕ) : ℕ → ℕ → Reach → Option Reach
  | 0, _, _ => none
  | fuel + 1, cursor, s =>
    match s.pending[cursor]? with
    | none => some s
    | some id => do
      let fn ← hir.fns[id.toNat]?
      let roots := fn.blocks.flatMap fun block => block.insts ++ [block.terminator]
      scanFunctions depth fuel (cursor + 1) (← roots.foldlM (scanExpression hir depth) s)

def reachableFunctions (fuel : ℕ) : Option (List Bool) := do
  let roots := (List.range hir.fns.length).filter fun i => hir.fns[i]?.any isUserFunction
  let start : Reach :=
    { reachable := List.replicate hir.fns.length false, pending := [],
      visited := List.replicate hir.exprs.length false }
  let s ← scanFunctions hir fuel fuel 0 ((roots.map UInt32.ofNat).foldl (enqueueFunction hir) start)
  return s.reachable

end

/-! ### Registers of a function -/

section
variable (C : LowerContext)

/-- The slot that an instruction of a block mentions. -/
def mentionedSlot : HirExpr → Option HirSlotId
  | .slotAlloca slot _ _ | .slotStore slot _ | .slotLoad slot _ | .slotAddr slot _ => some slot
  | _ => none

/-- The instructions of the blocks, one after the other. -/
def instructions : Option (List HirExpr) :=
  (C.hirFn.blocks.flatMap HirBasicBlock.insts).mapM fun id => C.hir.exprs[id.toNat]?

/-- `includeSlot` of one slot after the other: as many slots as the greatest needs. -/
def countSlots (slots : List HirSlotId) : LowerM (Option ℕ) := do
  if slots.any (fun slot => 0xFFFF ≤ slot.toNat) then
    fail (text "HIR slot index exceeds v2 register limit")
    return none
  return some (slots.foldl (fun count slot => max count (slot.toNat + 1)) 0)

/-- One `HirSlotAlloca`. -/
def allocaSlot (slot : HirSlotId) (type : TypeId) (alignmentBytes : UInt32) : LowerM Bool := do
  let s ← get
  match s.slotWidths[slot.toNat]? with
  | none => return true
  | some known =>
    let width := valueRegisterWidth C.types type.toNat
    if known ≠ 0 ∧ known ≠ width then
      fail (text "inconsistent HIR slot widths in v2 lowering")
      return false
    set { s with
      slotWidths := s.slotWidths.set slot.toNat width
      slotTypes := s.slotTypes.set slot.toNat type
      slotAlignments := s.slotAlignments.modify slot.toNat (max alignmentBytes) }
    return true

def allocaSlots : List HirExpr → LowerM Bool
  | [] => return true
  | .slotAlloca slot type alignmentBytes :: exprs => do
    if !(← allocaSlot C slot type alignmentBytes) then return false
    allocaSlots exprs
  | _ :: exprs => allocaSlots exprs

/-- The slot of a parameter, in the register of the parameter when it needs no storage. -/
def paramSlot (slot : HirSlotId) (type : TypeId) (reg : UInt16) : LowerM Bool := do
  let s ← get
  match s.slotWidths[slot.toNat]? with
  | none => return true
  | some known =>
    let width := valueRegisterWidth C.types type.toNat
    if known ≠ 0 ∧ known ≠ width then
      fail (text "parameter slot width disagrees with its v2 ABI")
      return false
    let slotTypes := s.slotTypes.modify slot.toNat fun old => if old = kInvalidType then type else old
    let slotRegs := if isMemorySlotType C.types type.toNat then s.slotRegs else s.slotRegs.set slot.toNat reg
    set { s with slotWidths := s.slotWidths.set slot.toNat width, slotTypes, slotRegs }
    return true

def paramSlots : List (HirSlotId × TypeId × UInt16) → LowerM Bool
  | [] => return true
  | (slot, type, reg) :: params => do
    if !(← paramSlot C slot type reg) then return false
    paramSlots params

/-- Registers for the parameters, from `next` on: their number, or nothing when there are too many. -/
def paramRegisters : List TypeId → ℕ → LowerM (Option ℕ)
  | [], next => return some next
  | type :: types, next => do
    let width := valueRegisterWidth C.types type.toNat
    if next + width > 0xFFFF then
      fail (text "v2 function parameter registers exceed 65535")
      return none
    modify fun s =>
      { s with
        paramRegs := s.paramRegs ++ [UInt16.ofNat next]
        fn := { s.fn with
          regTypes := s.fn.regTypes ++ valueTypeOf C.types type.toNat :: (if width = 2 then [.i64] else []) } }
    paramRegisters types (next + width)

/-- A register for a slot that has none: as wide as the slot, unless it holds an address. -/
def slotRegisters : List HirSlotId → ℕ → LowerM (Option ℕ)
  | [], next => return some next
  | slot :: slots, next => do
    let s ← get
    let widths := s.slotWidths.modify slot.toNat fun width => if width = 0 then 1 else width
    set { s with slotWidths := widths }
    if s.slotRegs[slot.toNat]?.getD kUnassignedReg ≠ kUnassignedReg then return ← slotRegisters slots next
    let width := if s.slotBacked[slot.toNat]?.getD false then 1 else widths[slot.toNat]?.getD 1
    if next + width > 0xFFFF then
      fail (text "v2 function local registers exceed 65535")
      return none
    modify fun s => { s with slotRegs := s.slotRegs.set slot.toNat (UInt16.ofNat next) }
    slotRegisters slots (next + width)

/-- Register types for all registers, with the slots that hold an address as pointers. -/
def fillRegTypes (count : ℕ) : LowerM Unit :=
  modify fun s =>
    let regTypes := s.fn.regTypes ++ List.replicate (count - s.fn.regTypes.length) .i64
    let backed := (s.slotRegs.zip s.slotBacked).filterMap fun (reg, backed) =>
      if backed && reg != kUnassignedReg then some reg.toNat else none
    { s with fn := { s.fn with regTypes := backed.foldl (fun types reg => types.set reg .ptr) regTypes } }

/-- The hidden result pointer in register 0, or the mark of a function that returns a slice. -/
def prepareReturn : LowerM ℕ := do
  let returnType := C.hirFn.returnType.toNat
  if isAggregateType C.types returnType then
    modify fun s =>
      { s with
        fn := { s.fn with returnsAggregate := true, regTypes := s.fn.regTypes ++ [.ptr] }
        sretReg := 0 }
    return 1
  modify fun s => { s with fn := { s.fn with returnsSlice := isSlice C.types returnType } }
  return 0

def prepareFunctionRegisters : LowerM Bool := do
  if C.hirFn.paramNames.length ≠ C.hirFn.params.length then
    fail (text "HIR parameter names and types disagree in v2 lowering")
    return false
  let firstParam ← prepareReturn C
  match ← paramRegisters C C.hirFn.params firstParam with
  | none => return false
  | some firstSlot =>
    modify fun s => { s with fn := { s.fn with paramCount := UInt16.ofNat firstSlot } }
    let exprs ← ofOption (instructions C)
    match ← countSlots (C.hirFn.paramSlots ++ exprs.filterMap mentionedSlot) with
    | none => return false
    | some slotCount =>
      modify fun s =>
        { s with
          slotRegs := List.replicate slotCount kUnassignedReg
          slotWidths := List.replicate slotCount 0
          slotTypes := List.replicate slotCount kInvalidType
          slotAlignments := List.replicate slotCount 0 }
      if !(← allocaSlots C exprs) then return false
      if !(← paramSlots C (C.hirFn.paramSlots.zip (C.hirFn.params.zip (← get).paramRegs))) then return false
      modify fun s =>
        { s with
          slotBacked := (s.slotTypes.zip s.slotAlignments).map fun (type, alignment) =>
            isMemorySlotType C.types type.toNat || alignment != 0 }
      match ← slotRegisters ((List.range slotCount).map UInt32.ofNat) firstSlot with
      | none => return false
      | some count =>
        modify fun s => { s with fn := { s.fn with regCount := UInt16.ofNat (max count 1) } }
        fillRegTypes (max count 1)
        return true

/-! ### The code of a function -/

/-- Storage for the slots that own some, once, at the entry of the function. -/
def allocateSlots : List HirSlotId → LowerM Bool
  | [] => return true
  | slot :: slots => do
    let s ← get
    let type ← slotType slot
    if !(← slotIsBacked slot) || type = kInvalidType then return ← allocateSlots slots
    let destination ← slotRegister slot
    if destination = kUnassignedReg then
      fail (text "invalid memory HIR slot in v2 lowering")
      return false
    let (size, alignment) ← ofOption (layoutSize C.types C.depth type.toNat)
    if size = 0 ∨ size > 0xFFFF then
      fail (text "unsupported slot size in v2 lowering")
      return false
    let count ← newTypedReg .i64
    emit (.withImm .loadConstI64 count (UInt16.ofNat size))
    let slotAlignment := max (max alignment (s.slotAlignments[slot.toNat]?.getD 0).toNat) 8
    let align ← emitI64Constant (Int64.ofNat slotAlignment)
    emit (.simple .allocBytes destination count align)
    allocateSlots slots

/-- A branch target that is filled in when all blocks have their place. -/
structure PendingTarget where
  pc : ℕ
  block : HirBlockId
  falseBranch : Bool

section
variable (R : Lowering)

def lowerInsts : List HirExprId → LowerM Bool
  | [] => return true
  | id :: ids => do
    match ← getExpr C id with
    | .slotAlloca _ _ _ => lowerInsts ids
    | .slotStore slot value =>
      if (← lowerSlotStore C R slot value) = kUnassignedReg ∧ !(← isOk) then return false
      lowerInsts ids
    | _ =>
      let _ ← R.operand id
      lowerInsts ids

/-- Note a failure, unless there is one, with the linkage of the function. -/
def failReturn (message : String) : LowerM (Option (List PendingTarget)) := do
  if ← isOk then
    fail (text message ++ C.hirFn.name)
    return none
  return none

def lowerRet (value : HirExprId) : LowerM (Option (List PendingTarget)) := do
  let sretReg := (← get).sretReg
  if (← get).fn.returnsAggregate then
    if value ≠ kInvalidHirExpr then
      let source ← aggregateAddress C R value
      if source = kUnassignedReg then return ← failReturn C "unsupported aggregate return in v2 lowering for "
      copyBytes sretReg source (← typeBytes C C.hirFn.returnType)
      emit { op := .ret, a := sretReg }
      return some []
    emit { op := .ret, a := sretReg }
    return some []
  if value = kInvalidHirExpr then
    emit { op := .ret }
    return some []
  let reg ← R.operand value
  if reg = kUnassignedReg then return ← failReturn C "unsupported return value in v2 lowering for "
  emit { op := .ret, a := reg }
  return some []

def blockExists (block : HirBlockId) : Bool := block.toNat < C.hirFn.blocks.length

def lowerTerminator (id : HirExprId) : LowerM (Option (List PendingTarget)) := do
  match ← getExpr C id with
  | .ret value => lowerRet C R value
  | .jump target =>
    if !blockExists C target then
      fail (text "invalid HIR jump target in v2 lowering")
      return none
    let pc := (← get).fn.body.length
    emit { op := .jump }
    return some [⟨pc, target, false⟩]
  | .branch cond thenBlock elseBlock =>
    let cond ← R.operand cond
    if cond = kUnassignedReg ∧ !(← isOk) then return none
    if cond = kUnassignedReg ∨ !blockExists C thenBlock ∨ !blockExists C elseBlock then
      fail (text "invalid HIR branch in v2 lowering")
      return none
    let pc := (← get).fn.body.length
    emit { op := .branch2, b := cond }
    return some [⟨pc, thenBlock, false⟩, ⟨pc, elseBlock, true⟩]
  | .stateTailCall call =>
    if (← lowerCall C R call true) = kUnassignedReg ∨ !(← isOk) then return none
    return some []
  | .runtimePanic code =>
    if code > 0xFFFF then
      fail (text "runtime panic code does not fit the v2 opcode immediate")
      return none
    emit (if code = 10003 then { op := .nullDeref } else { op := .panic, imm := code.toUInt16 })
    return some []
  | _ => return some []

/-- The blocks in their order: where each starts, and the targets to fill in. -/
def lowerBlocks : List HirBasicBlock → LowerM (Option (List ℕ × List PendingTarget))
  | [] => return some ([], [])
  | block :: blocks => do
    let start := (← get).fn.body.length
    if !(← lowerInsts C R block.insts) then return none
    match ← (if block.terminator = kInvalidHirExpr then pure (some []) else lowerTerminator C R block.terminator) with
    | none => return none
    | some targets =>
      match ← lowerBlocks blocks with
      | none => return none
      | some (starts, pending) => return some (start :: starts, targets ++ pending)

end

/-- Write the target of a branch. -/
def patch (pc : ℕ) (falseBranch : Bool) (target : UInt16) : LowerM Unit :=
  modify fun s =>
    { s with fn := { s.fn with body := s.fn.body.modify pc fun instr =>
      if falseBranch then { instr with d := target } else { instr with imm := target } } }

def patchTargets (starts : List ℕ) : List PendingTarget → LowerM Bool
  | [] => return true
  | target :: targets => do
    match starts[target.block.toNat]? with
    | none =>
      fail (text "unresolved HIR block target in v2 lowering")
      return false
    | some start =>
      if start ≥ (← get).fn.body.length then
        fail (text "unresolved HIR block target in v2 lowering")
        return false
      patch target.pc target.falseBranch (← u16 start)
      patchTargets starts targets

/-- One function; `false` where the source returns its result. -/
def lowerFunction (fuel : ℕ) : LowerM Bool := do
  if !(← prepareFunctionRegisters C) then return false
  if !(← allocateSlots C ((List.range (← get).slotBacked.length).map UInt32.ofNat)) then return false
  match ← lowerBlocks C (lowering C fuel) C.hirFn.blocks with
  | none => return false
  | some (starts, targets) => patchTargets starts targets

end

/-! ### Adapters -/

section
variable (types : TypeIntern)

/-- The registers that the parameters behind the receiver take. -/
def explicitTypes (target : HirFunction) : List ValueType :=
  (target.params.drop 1).flatMap fun type =>
    valueTypeOf types type.toNat :: (if valueRegisterWidth types type.toNat = 2 then [.i64] else [])

/-- The body of an adapter: load the receiver behind the data pointer in register 0, copy the other
    arguments, call. -/
def adapterBody (receiverIsSlice : Bool) (explicitCount argBase receiverWidth returnReg : ℕ) (target : UInt16) :
    List Instr :=
  let reg := UInt16.ofNat
  let callArgCount := receiverWidth + explicitCount
  (if receiverIsSlice then
    [.simple .loadI64 (reg argBase) 0, .fieldPtr (reg (argBase + callArgCount)) 0 8,
      .simple .loadI64 (reg (argBase + 1)) (reg (argBase + callArgCount))]
  else [.simple .loadI64 (reg argBase) 0]) ++
  (List.range explicitCount).map (fun i => .simple .move (reg (argBase + receiverWidth + i)) (reg (1 + i))) ++
  [.callRange (reg returnReg) (reg argBase) (reg callArgCount) target, { op := .ret, a := reg returnReg }]

/-- What a vtable calls for a method whose receiver is no pointer. -/
def adapterFunction (target : HirFunction) (functionIndex : UInt16) : Except LowerResult Function :=
  match target.params with
  | [] => .error ⟨false, text "invalid dynamic receiver signature in v2 lowering"⟩
  | receiver :: _ =>
    if target.params.length ≠ target.paramNames.length then
      .error ⟨false, text "invalid dynamic receiver signature in v2 lowering"⟩
    else
      let returnType := valueTypeOf types target.returnType.toNat
      let returnsSlice := isSlice types target.returnType.toNat
      let explicit := explicitTypes types target
      let receiverIsSlice := isSlice types receiver.toNat
      let receiverWidth := valueRegisterWidth types receiver.toNat
      let paramCount := 1 + explicit.length
      let callArgCount := receiverWidth + explicit.length
      let returnReg := paramCount + callArgCount + if receiverIsSlice then 1 else 0
      let regCount := returnReg + if returnsSlice then 2 else 1
      if paramCount > 0xFFFF ∨ regCount > 0xFFFF ∨ callArgCount > 0xFFFF then
        .error ⟨false, text "dynamic adapter register range exceeds v2 limits"⟩
      else
        .ok {
          name := sourceName target.name
          returnType
          returnsSlice
          paramCount := UInt16.ofNat paramCount
          regCount := UInt16.ofNat regCount
          regTypes := .ptr :: explicit ++ valueTypeOf types receiver.toNat ::
            (if receiverWidth = 2 then [.i64] else []) ++ explicit ++ (if receiverIsSlice then [.ptr] else []) ++
            returnType :: (if returnsSlice then [.i64] else [])
          body := adapterBody receiverIsSlice explicit.length paramCount receiverWidth returnReg functionIndex }

end

/-! ### The module -/

/-- What a lowering has come to, with what has happened to the registers of each row. -/
structure Lowered where
  result : LowerResult := {}
  out : Module := {}
  events : List (List RegEvent) := []

def tooManyRows : LowerResult := ⟨false, text "v2 module table exceeds 65535 entries"⟩

/-- Rows for the reachable functions, from `next` on. -/
def assignIndices : List Bool → ℕ → Except LowerResult (List UInt16 × ℕ)
  | [], next => .ok ([], next)
  | false :: flags, next => do
    let (indices, last) ← assignIndices flags next
    return (kUnassignedReg :: indices, last)
  | true :: flags, next => do
    if next > 0xFFFF then .error tooManyRows
    else
      let (indices, last) ← assignIndices flags (next + 1)
      return (UInt16.ofNat next :: indices, last)

section
variable (hir : HirModule) (types : TypeIntern)

/-- Whether a method takes its receiver by value. -/
def needsAdapter (target : HirFunction) : Bool :=
  match target.params with
  | [] => false
  | receiver :: _ =>
    !isAggregateType types target.returnType.toNat &&
      match types.lookup receiver.toNat with
      | some (.slice _) | some .bool | some (.int _) | some (.float _) => true
      | _ => false

/-- A row for the adapter of one slot of a vtable. -/
def assignAdapter (reachable : List Bool) (s : List UInt16 × ℕ) (id : HirFunctionId) :
    Except LowerResult (List UInt16 × ℕ) :=
  match hir.fns[id.toNat]? with
  | none => .ok s
  | some target =>
    if reachable[id.toNat]? ≠ some true ∨ s.1[id.toNat]? ≠ some kUnassignedReg ∨ needsAdapter types target = false then
      .ok s
    else if s.2 > 0xFFFF then .error tooManyRows
    else .ok (s.1.set id.toNat (UInt16.ofNat s.2), s.2 + 1)

section
variable (reachable : List Bool) (functionIndices adapterIndices : List UInt16) (fuel : ℕ)

def functionContext (hirFn : HirFunction) : LowerContext :=
  { hir, types, functionIndices, adapterIndices, hirFn, depth := fuel }

/-- The state before a function is lowered. -/
def functionStart (hirFn : HirFunction) (l : Lowered) : LowerState :=
  { fn := { name := sourceName hirFn.name, returnType := valueTypeOf types hirFn.returnType.toNat }
    regs := List.replicate hir.exprs.length kUnassignedReg
    out := l.out
    result := l.result }

/-- Write a row. -/
def setRow (out : Module) (events : List (List RegEvent)) (result : LowerResult) (row : ℕ) (fn : Function)
    (happened : List RegEvent) : Lowered :=
  { result, out := { out with functions := out.functions.set row fn }, events := events.set row happened }

/-- The round of one function; `false` where the source returns its result. -/
def lowerNext (i : ℕ) (hirFn : HirFunction) (l : Lowered) : Option (Bool × Lowered) := do
  if reachable[i]? ≠ some true then
    if hirFn.hasBody = false ∧ hirFn.isForeignC = true then
      let (_, s) ← findOrAddExtern (sourceName hirFn.name) { out := l.out, result := l.result }
      return (true, { l with out := s.out, result := s.result })
    return (true, l)
  let row := (functionIndices[i]?.getD 0).toNat
  let (done, s) ← lowerFunction (functionContext hir types functionIndices adapterIndices fuel hirFn) fuel
    (functionStart hir types hirFn l)
  return (done, setRow s.out l.events s.result row s.fn s.events)

def lowerFunctions : List (ℕ × HirFunction) → Lowered → Option (Bool × Lowered)
  | [], l => some (true, l)
  | (i, hirFn) :: fns, l => do
    let (done, l) ← lowerNext hir types reachable functionIndices adapterIndices fuel i hirFn l
    if !done then return (false, l)
    lowerFunctions fns l

/-- The rows of the adapters. -/
def lowerAdapters : List (ℕ × UInt16) → Lowered → Lowered
  | [], l => l
  | (id, row) :: adapters, l =>
    if row = kUnassignedReg then lowerAdapters adapters l
    else
      match hir.fns[id]? with
      | none => lowerAdapters adapters l
      | some target =>
        match adapterFunction types target (functionIndices[id]?.getD 0) with
        | .error result => { l with result }
        | .ok fn => lowerAdapters adapters (setRow l.out l.events l.result row.toNat fn [])

end

/-- `lowerModule(hir, interner, types, arena, out)`. -/
def lowerModule (out : Module) (fuel : ℕ) : Option Lowered := do
  let reachable ← reachableFunctions hir fuel
  match assignIndices reachable out.functions.length with
  | .error result => return { result, out, events := out.functions.map fun _ => [] }
  | .ok (functionIndices, next) =>
    match (hir.vtables.flatMap HirVTable.slots).foldlM (assignAdapter hir types reachable)
        (List.replicate hir.fns.length kUnassignedReg, next) with
    | .error result => return { result, out, events := out.functions.map fun _ => [] }
    | .ok (adapterIndices, next) =>
      let functions := out.functions ++ List.replicate (next - out.functions.length) {}
      let (done, l) ← lowerFunctions hir types reachable functionIndices adapterIndices fuel
        (hir.fns.zipIdx.map Prod.swap) { out := { out with functions }, events := functions.map fun _ => [] }
      if !done then return l
      return lowerAdapters hir types functionIndices (adapterIndices.zipIdx.map Prod.swap) l

end

end Zith.Vm
