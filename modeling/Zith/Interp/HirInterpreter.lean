import Zith.Interp.Externs

/-! The `HirInterpreter`: `eval`, `addressOf` and `runFunction`, which call each other. A step is given
    what it calls (`Calls`); at depth 0 nothing has a result. What an expression does is a function of the
    evaluations of its operands.

        runMain ──▶ runFunction ──▶ eval ◀──▶ addressOf
                        ▲            │
                        └────────────┘            -/

namespace Zith.Interp
open Hir (TypeId InternedId StringRow TypeKind TypeRow ExprRow FunctionRow HirExprId HirFunctionId HirSlotId
  HirCall HirBasicBlock Program lookup kindOf kInvalidHirExpr kInvalidHirFunction kInvalidHirSlot kErrorType
  kInvalidType)

/-- `Frame`, with what is read of its function. The registers and the slots are arrays of cells. -/
structure Frame where
  name : InternedId
  paramNames : List InternedId
  regs : ℕ
  regCount : ℕ
  slots : ℕ

/-- What a step calls. -/
structure Calls where
  depth : ℕ
  eval : Frame → HirExprId → Run Value
  addressOf : Frame → HirExprId → Run Value
  runFunction : FunctionRow → List Value → Run (Option Value)

/-! ### Tables -/

/-- The slot an expression of the four kinds names. -/
def slotOf : ExprRow → Option HirSlotId
  | .slotAlloca slot _ _ | .slotLoad slot _ | .slotAddr slot _ | .slotStore slot _ =>
    if slot = kInvalidHirSlot then none else some slot
  | _ => none

/-- `slotCount_`. -/
def slotCount (p : Program) : ℕ :=
  max ((p.exprs.filterMap slotOf).foldl (fun count slot => max count (slot.toNat + 1)) 0) p.attrs.slots.length

/-- `TypeIntern::memberCount`. -/
def memberCount (p : Program) (type : TypeId) : Option ℕ :=
  if type = kErrorType ∨ type = kInvalidType then some 0
  else
    match p.types[type.toNat]? with
    | none => none
    | some (.struct defId) => (p.structDefs[defId.toNat]?).map fun d => d.fields.length
    | some (.pack members) => some members.length
    | some _ => some 0

def findFunction (p : Program) (name : StringRow) : Option FunctionRow :=
  p.fns.find? fun f => sourceName (lookup p.pool f.name) == name

/-- The kind of an expression, in a message. -/
def kindText (p : Program) (id : HirExprId) : Option Text := (p.exprs[id.toNat]?).map fun e => utf8 (toString e.kind)

def num (n : ℕ) : Text := utf8 (toString n)

def flagText (b : Bool) : Text := num (if b then 1 else 0)

/-! ### Arithmetic -/

/-- The result of a signed operation that does not overflow. -/
def exact (z : ℤ) : Option Int64 := if -2 ^ 63 ≤ z ∧ z < 2 ^ 63 then some (Int64.ofInt z) else none

def boolValue (b : Bool) : Int64 := if b then 1 else 0

/-- A count of bits that a shift is defined for. -/
def shiftCount (i : Int64) : Option ℕ := if 0 ≤ i.toInt ∧ i.toInt < 64 then some i.toInt.toNat else none

/-- The operators of two integers; the outer `none` is undefined, the inner one an unknown operator. -/
def binaryOp (op : UInt8) (l r : Int64) : Option (Option Int64) :=
  match op.toNat with
  | 0 => (exact (l.toInt + r.toInt)).map some
  | 1 => (exact (l.toInt - r.toInt)).map some
  | 2 => (exact (l.toInt * r.toInt)).map some
  | 3 => if r = 0 then none else (exact (l.toInt.tdiv r.toInt)).map some
  | 4 => if r = 0 then none else (exact (l.toInt.tdiv r.toInt)).map fun _ => some (Int64.ofInt (l.toInt.tmod r.toInt))
  | 5 => some (some (boolValue (l = r)))
  | 6 => some (some (boolValue (l ≠ r)))
  | 7 => some (some (boolValue (l < r)))
  | 8 => some (some (boolValue (l ≤ r)))
  | 9 => some (some (boolValue (r < l)))
  | 10 => some (some (boolValue (r ≤ l)))
  | 11 => some (some (l &&& r))
  | 12 => some (some (l ||| r))
  | 13 => some (some (l ^^^ r))
  | 14 => (shiftCount r).map fun n => some (Int64.ofInt (l.toInt * 2 ^ n))
  | 15 => (shiftCount r).map fun n => some (Int64.ofInt (l.toInt / 2 ^ n))
  | _ => some none

/-- A pointer that points to nothing. -/
def isNull (pointer : Value) : Bool := pointer.object = kInvalidObject ∧ pointer.cell = none ∧ pointer.text = none

/-! ### Expressions -/

def literal (p : Program) (bits : UInt64) (type : TypeId) : Run Value :=
  match kindOf p.types type with
  | .int | .enum | .char => return { kind := .int, i := Int64.ofUInt64 bits }
  | .bool => return { kind := .int, i := boolValue (bits.toUInt8 != 0) }
  | .float => return { kind := .float, f := bits }
  | .ptr => return { kind := .string, text := stringData p.pool bits.toUInt32 }
  | _ => do
    fail .unsupportedExpr
    return {}
where
  /-- `lookup`, with no data outside the pool. -/
  stringData (pool : List StringRow) (id : InternedId) : Option Text := pool[id.toNat]?

/-- A comparison of a pointer with 0. -/
def comparesNull (op : UInt8) (l r : Value) : Bool :=
  (op = 5 ∨ op = 6) ∧ ((l.kind = .ptr ∧ r.kind = .int ∧ r.i = 0) ∨ (r.kind = .ptr ∧ l.kind = .int ∧ l.i = 0))

def binary (p : Program) (frame : Frame) (id lhs rhs : HirExprId) (op : UInt8) (operandType : TypeId)
    (evalLhs evalRhs : Run Value) : Run Value := do
  let l ← evalLhs
  if ← failed then return {}
  let r ← evalRhs
  if ← failed then return {}
  if comparesNull op l r then
    let null := isNull (if l.kind = .ptr then l else r)
    return intValue (boolValue (if op = 5 then null else !null))
  if l.kind ≠ .int ∨ r.kind ≠ .int then
    let lhsKind ← orUndefined (kindText p lhs)
    let rhsKind ← orUndefined (kindText p rhs)
    failWith .unsupportedExpr (utf8 "HIR interpreter cannot evaluate binary expression " ++ num id.toNat ++
      utf8 " (operation " ++ num op.toNat ++ utf8 ", operand expressions " ++ num lhs.toNat ++
      utf8 " and " ++ num rhs.toNat ++ utf8 " (HIR kinds " ++ lhsKind ++ utf8 " and " ++ rhsKind ++
      utf8 "), operand kinds " ++ num l.kind.ctorIdx ++ utf8 " and " ++ num r.kind.ctorIdx ++
      utf8 ", type " ++ num operandType.toNat ++ utf8 ", function " ++ lookup p.pool frame.name ++ utf8 ")")
    return { kind := .int }
  match ← orUndefined (binaryOp op l.i r.i) with
  | some i => return intValue i
  | none =>
    fail .unsupportedExpr
    return {}

def unary (kindOf : TypeId → TypeKind) (depth : ℕ) (op : UInt8) (evalOperand addressOfOperand : Run Value) :
    Run Value := do
  let operand ← evalOperand
  match op.toNat with
  | 0 => return { kind := operand.kind, i := ← orUndefined (exact (-operand.i.toInt)) }
  | 1 => return intValue (boolValue (operand.i = 0))
  | 2 => return intValue (~~~operand.i)
  | 3 => addressOfOperand
  | 4 => readPointer kindOf depth operand
  | _ => return {}

/-- The fields from `index` on, one evaluation after another; `false` when one fails. -/
def storeFields (object : UInt32) : ℕ → List (Option (Run Value)) → Run Bool
  | _, [] => return true
  | index, e :: rest => do
    if let some run := e then setField object index (← run)
    if ← failed then return false
    storeFields object (index + 1) rest

/-- An object of a type with these fields, and with as many as the type has members. -/
def aggregateLiteral (type : TypeId) (members : Option ℕ) (fields : List (Option (Run Value))) : Run Value := do
  let object ← addObject type
  if object = kInvalidObject then
    fail .internalError
    return {}
  resizeFields object (max fields.length (← orUndefined members))
  if ← storeFields object 0 fields then return { kind := .aggregate, object }
  else return {}

/-- What an index expression reads, or nothing: the value, whether it is invalid where that is refused. -/
def indexed (st : State) (depth : ℕ) (object : Value) (item : UInt64) : Option (Option (Value × Bool)) :=
  let ofBytes : Option (Option (Value × Bool)) :=
    (readByte st depth object item).map fun b => b.map fun b => (byteValue b, false)
  let ofField (o : RuntimeObject) (index : ℕ) : Value × Bool := (st.field o index, (st.field o index).kind = .invalid)
  let ofSlice : Option (Option (Value × Bool)) :=
    let offset := object.offset + item
    if object.object = kInvalidObject then
      some ((textByte object.text offset).map fun b => (byteValue b, false))
    else
      match st.object object.object with
      | none => some none
      | some o =>
        if offset.toNat < o.bytes.length then
          some ((o.bytes[offset.toNat]?).map fun b => (byteValue b, false))
        else if offset.toNat < o.fieldCount then some (some (ofField o offset.toNat))
        else some none
  match object.kind with
  | .aggregate =>
    match st.object object.object with
    | some o => if item.toNat < o.fieldCount then some (some (ofField o item.toNat)) else some none
    | none => some none
  | .slice =>
    match object.cell with
    | none => ofSlice
    | some c =>
      let backing := st.cells c
      let element : Option (Value × Bool) := do
        if backing.kind ≠ .aggregate then none
        let o ← st.object backing.object
        if object.offset.toNat < o.fieldCount ∧ item.toNat < o.fieldCount - object.offset.toNat then
          some (ofField o (object.offset.toNat + item.toNat))
        else none
      match element with
      | some e => some (some e)
      | none =>
        match ofBytes with
        | none => none
        | some (some b) => some (some b)
        | some none => ofSlice
  | .ptr => ofBytes
  | _ => some none

def index (p : Program) (depth : ℕ) (object index : HirExprId) (type objType : TypeId) (isArray : Bool)
    (evalObject evalIndex : Run Value) : Run Value := do
  let o ← evalObject
  let i ← evalIndex
  if ← failed then return {}
  if i.kind ≠ .int ∨ i.i < 0 then
    let indexKind ← orUndefined (kindText p index)
    failWith .unsupportedExpr (utf8 "HIR interpreter cannot evaluate index expression " ++ num index.toNat ++
      utf8 " (HIR kind " ++ indexKind ++ utf8 ", value kind " ++ num i.kind.ctorIdx ++ utf8 ")")
    return {}
  let item := i.i.toUInt64
  if o.kind = .slice ∧ item ≥ o.length then
    failWith .unsupportedExpr (utf8 "HIR interpreter slice index is out of bounds (object expression " ++
      num object.toNat ++ utf8 ", index " ++ num item.toNat ++ utf8 ", length " ++ num o.length.toNat ++
      utf8 ")")
    return {}
  let st ← get
  match ← orUndefined (indexed st depth o item) with
  | some (value, false) => return value
  | some (_, true) =>
    failWith .unsupportedExpr (utf8 "HIR interpreter indexed an invalid element (object expression " ++
      num object.toNat ++ utf8 ", object kind " ++ num o.kind.ctorIdx ++ utf8 ", object " ++
      num o.object.toNat ++ utf8 ", cell " ++ flagText o.cell.isSome ++ utf8 ", index " ++ num item.toNat ++
      utf8 ")")
    return {}
  | none =>
    let backing := o.cell.map st.cells
    failWith .unsupportedExpr (utf8 "HIR interpreter cannot read indexed value (kind " ++ num o.kind.ctorIdx ++
      utf8 ", object " ++ num o.object.toNat ++ utf8 ", offset " ++ num o.offset.toNat ++ utf8 ", length " ++
      num o.length.toNat ++ utf8 ", text bytes " ++ num (o.text.getD []).length ++ utf8 ", cell " ++
      flagText o.cell.isSome ++ utf8 ", index " ++ num item.toNat ++ utf8 ", object type " ++
      num objType.toNat ++ utf8 ", result type " ++ num type.toNat ++ utf8 ", cell kind " ++
      num ((backing.map Value.kind).getD .invalid).ctorIdx ++ utf8 ", cell object " ++
      num ((backing.map Value.object).getD kInvalidObject).toNat ++ utf8 ", cell text bytes " ++
      num (((backing.bind Value.text).getD []).length) ++ utf8 ", array " ++ flagText isArray ++ utf8 ")")
    return {}

def assign (depth : ℕ) (addressOfTarget evalValue : Run Value) : Run Value := do
  let address ← addressOfTarget
  let value ← evalValue
  if ← failed then return {}
  if ← writePointer depth address value then return value else return {}

/-- A bound of a slice; `none` when it is no index. -/
def sliceBound (run : Run Value) : Run (Option UInt64) := do
  let bound ← run
  if bound.kind ≠ .int ∨ bound.i < 0 then return none else return some bound.i.toUInt64

/-- The end of a slice without an upper bound. -/
def naturalLength (st : State) (source : Value) : UInt64 :=
  match source.kind with
  | .string => UInt64.ofNat (source.text.getD []).length
  | .slice => source.length
  | .aggregate => ((st.object source.object).map fun o => UInt64.ofNat o.fieldCount).getD 0
  | _ => 0

def sliceOf (source : Value) (low high : UInt64) : Value :=
  let length := high - low
  match source.kind with
  | .string => { kind := .slice, length, text := source.text, offset := low }
  | .slice => { kind := .slice, length, object := source.object, text := source.text, offset := source.offset + low }
  | .aggregate => { kind := .slice, length, object := source.object, offset := low }
  | .ptr =>
    { kind := .slice, length, object := source.object, text := source.text, cell := source.cell
      offset := source.offset + low }
  | _ => {}

def makeSlice (evalObject : Run Value) (lo hi : Option (Run Value)) : Run Value := do
  let source ← evalObject
  if ← failed then return {}
  let low ← match lo with
    | some run => sliceBound run
    | none => pure (some 0)
  match low with
  | none => return {}
  | some low =>
    let high ← match hi with
      | some run => sliceBound run
      | none => pure (some (naturalLength (← get) source))
    match high with
    | none => return {}
    | some high => if high < low then return {} else return sliceOf source low high

def layoutIntrinsic (which : UInt8) (stringLength : UInt64) (evalOperand addressOfOperand : Run Value) :
    Run Value := do
  if which = 3 then
    if stringLength ≠ 0 then return intValue (Int64.ofUInt64 stringLength)
    let operand ← evalOperand
    let st ← get
    match operand.kind with
    | .slice => return intValue (Int64.ofUInt64 operand.length)
    | .string => return intValue (Int64.ofNat (operand.text.getD []).length)
    | .aggregate =>
      match st.object operand.object with
      | some o => return intValue (Int64.ofNat o.fieldCount)
      | none => return {}
    | _ => return {}
  else if which = 4 then
    let operand ← evalOperand
    match operand.kind with
    | .slice =>
      return { kind := .ptr, object := operand.object, text := operand.text, cell := operand.cell
               offset := operand.offset }
    | .string => return { kind := .ptr, text := operand.text }
    | _ => addressOfOperand
  else return {}

/-- The data pointer of a dyn, by its source type and by whether the source is a place. -/
def dynData (kindOf : TypeId → TypeKind) (sourceType : TypeId) (valueIsPlace : Bool)
    (evalValue addressOfValue : Run Value) : Run Value := do
  if kindOf sourceType = .ptr then
    let data ← evalValue
    return if data.kind = .string then { data with kind := .ptr } else data
  else if valueIsPlace then addressOfValue
  else
    let source ← evalValue
    if source.kind = .aggregate then return pointerToObject (← cloneAggregate source).object
    let object ← addObject sourceType
    if object = kInvalidObject then
      fail .internalError
      return {}
    pushField object source
    return pointerToObject object

def makeDyn (kindOf : TypeId → TypeKind) (sourceType : TypeId) (vtableName : InternedId) (valueIsPlace : Bool)
    (evalValue addressOfValue : Run Value) : Run Value := do
  let data ← dynData kindOf sourceType valueIsPlace evalValue addressOfValue
  if (← failed) ∨ data.kind ≠ .ptr then return {}
  return { data with kind := .dyn, i := 0, f := 0, length := 0, vtable := vtableName }

/-- The arguments of a call, one evaluation after another; `none` when one fails. -/
def evalArgs : List (Run Value) → Run (Option (List Value))
  | [] => return some []
  | run :: runs => do
    let value ← run
    if ← failed then return none
    match ← evalArgs runs with
    | some values => return some (value :: values)
    | none => return none

/-- What a call does with the result of `runFunction`. -/
def returned (result : Option Value) : Run Value := do
  match result with
  | some value => return value
  | none =>
    modify fun st => { st with result := { st.result with
      status := if st.result.status = .ok then .internalError else st.result.status, exitCode := 1 } }
    return {}

/-- The function of a vtable slot, or the message of a slot that has none. -/
def dynTarget (p : Program) (vtable : InternedId) (slotIndex : UInt32) : Except Text FunctionRow :=
  match p.vtables.find? fun v => v.name == vtable with
  | none => .error (utf8 "HIR interpreter cannot find runtime vtable '" ++ lookup p.pool vtable ++
      utf8 "' for dyn call")
  | some v =>
    match v.slots[slotIndex.toNat]? with
    | none => .error (utf8 "HIR interpreter dyn-call slot is outside runtime vtable")
    | some functionId =>
      match p.fns[functionId.toNat]? with
      | none => .error (utf8 "HIR interpreter runtime vtable contains an invalid function")
      | some callee => .ok callee

/-- The receiver of a dyn call, as the first parameter of its target takes it. -/
def dynReceiver (kindOf : TypeId → TypeKind) (depth : ℕ) (param : TypeId) (receiver : Value) : Run Value := do
  let data : Value :=
    { kind := .ptr, object := receiver.object, offset := receiver.offset, text := receiver.text
      cell := receiver.cell }
  let byValue := match kindOf param with
    | .int | .bool | .float | .slice | .dyn | .optional => true
    | _ => isAggregateType kindOf param
  if !byValue then return data
  let value ← readPointer kindOf depth data
  if kindOf param = .dyn then
    return { value with
      kind := .dyn, object := data.object, offset := data.offset, text := data.text, cell := data.cell
      vtable := receiver.vtable }
  else return value

def dynCall (p : Program) (rec : Calls) (slotIndex : UInt32) (hasReceiver : Bool) (evalReceiver : Run Value)
    (args : List (Run Value)) : Run Value := do
  let receiver ← evalReceiver
  if ← failed then return {}
  if receiver.kind ≠ .dyn then
    failWith .unsupportedExpr (utf8 "HIR interpreter dyn call has a non-dyn receiver")
    return {}
  match dynTarget p receiver.vtable slotIndex with
  | .error message =>
    failWith .unsupportedExpr message
    return {}
  | .ok callee =>
    match hasReceiver, callee.params with
    | true, [] =>
      failWith .unsupportedExpr (utf8 "HIR interpreter dyn-call target has no receiver parameter")
      return {}
    | true, param :: _ =>
      let self ← dynReceiver (kindOf p.types) rec.depth param receiver
      match ← evalArgs args with
      | some values => returned (← rec.runFunction callee (self :: values))
      | none => return {}
    | false, _ =>
      match ← evalArgs args with
      | some values => returned (← rec.runFunction callee values)
      | none => return {}

/-- A slot of the frame, when there is one of this id. -/
def slotCell (p : Program) (frame : Frame) (slot : HirSlotId) : Option Cell :=
  if slot.toNat < slotCount p then some ⟨frame.slots, slot.toNat⟩ else none

/-- An expression that needs a slot. -/
def withSlot (cell : Option Cell) (f : Cell → Run Value) : Run Value :=
  match cell with
  | some c => f c
  | none => do
    fail .internalError
    return {}

def slotStore (cell : Option Cell) (evalValue : Run Value) : Run Value := do
  let value ← evalValue
  withSlot cell fun c => do
    setCell c (← if value.kind = .aggregate then cloneAggregate value else pure value)
    return {}

def slotLoad (cell : Option Cell) : Run Value := withSlot cell fun c => do return (← get).cells c

/-- A variable: the register of the first parameter of this name. -/
def var (frame : Frame) (name : InternedId) : Run Value := do
  match frame.paramNames.findIdx? (· == name) with
  | some i => if i < frame.regCount then return (← get).cells ⟨frame.regs, i⟩
  | none => pure ()
  fail .internalError
  return {}

/-- The function a call resolves to: by its index, else by the name of the variable that is called. -/
def callee (p : Program) (c : HirCall) : Option (Option FunctionRow) :=
  match if c.resolvedFn = kInvalidHirFunction then none else p.fns[c.resolvedFn.toNat]? with
  | some f => some (some f)
  | none =>
    match p.exprs[c.callee.toNat]? with
    | none => none
    | some (.var name _) => some (findFunction p (lookup p.pool name))
    | some _ => some none

/-- A call of a function that was found. -/
def callFunction (p : Program) (rec : Calls) (f : FunctionRow) (args : List (Run Value)) : Run Value := do
  match ← evalArgs args with
  | none => return {}
  | some values =>
    if f.hasBody then returned (← rec.runFunction f values)
    else
      match ← runExtern rec.depth (lookup p.pool f.name) values with
      | some value => return value
      | none =>
        failWith .missingExtern (utf8 "HIR interpreter does not support extern '" ++ lookup p.pool f.name ++
          utf8 "'")
        return {}

def call (p : Program) (rec : Calls) (resolvedFn : HirFunctionId) (target : Option (Option FunctionRow))
    (args : List (Run Value)) : Run Value := do
  match ← orUndefined target with
  | none =>
    failWith .missingExtern (utf8 "HIR call target " ++ num resolvedFn.toNat ++ utf8 " is missing")
    return {}
  | some f => callFunction p rec f args

def isTrue (cond : Value) : Bool :=
  match cond.kind with
  | .int => cond.i != 0
  | .ptr => !isNull cond
  | kind => kind != .invalid

def branch (thenBlock elseBlock : UInt32) (evalCond : Run Value) : Run Value := do
  let cond ← evalCond
  if ← failed then return {}
  let block := if isTrue cond then thenBlock else elseBlock
  modify fun st => { st with block := block.toNat }
  return {}

/-- `eval` of an expression. -/
def evalExpr (p : Program) (rec : Calls) (frame : Frame) (id : HirExprId) : ExprRow → Run Value
  | .literal bits type => literal p bits type
  | .binary lhs rhs op _ operandType =>
    binary p frame id lhs rhs op operandType (rec.eval frame lhs) (rec.eval frame rhs)
  | .unary op operand _ =>
    unary (kindOf p.types) rec.depth op (rec.eval frame operand) (rec.addressOf frame operand)
  | .structLiteral values type =>
    aggregateLiteral type (memberCount p type)
      (values.map fun e => if e = kInvalidHirExpr then none else some (rec.eval frame e))
  | .arrayLiteral elements type =>
    aggregateLiteral type (some 0) (elements.map fun e => some (rec.eval frame e))
  | .field _ _ _ _ _ => do readPointer (kindOf p.types) rec.depth (← rec.addressOf frame id)
  | .index object i type objType isArray _ =>
    index p rec.depth object i type objType isArray (rec.eval frame object) (rec.eval frame i)
  | .assign target value => assign rec.depth (rec.addressOf frame target) (rec.eval frame value)
  | .enumValue value _ => return intValue value
  | .makeNone _ => return intValue 0
  | .makeSome value _ => rec.eval frame value
  | .cast value _ _ | .unionCast value _ _ _ _ => rec.eval frame value
  | .makeSlice object lo hi _ _ _ _ _ _ =>
    makeSlice (rec.eval frame object) (if lo = kInvalidHirExpr then none else some (rec.eval frame lo))
      (if hi = kInvalidHirExpr then none else some (rec.eval frame hi))
  | .layoutIntrinsic which _ _ operand _ stringLength =>
    layoutIntrinsic which stringLength (rec.eval frame operand) (rec.addressOf frame operand)
  | .makeDyn value sourceType _ vtableName valueIsPlace =>
    makeDyn (kindOf p.types) sourceType vtableName valueIsPlace (rec.eval frame value) (rec.addressOf frame value)
  | .dynCall receiver _ slotIndex hasReceiver _ _ args _ =>
    dynCall p rec slotIndex hasReceiver (rec.eval frame receiver) (args.map (rec.eval frame))
  | .slotAlloca slot _ _ => withSlot (slotCell p frame slot) fun _ => return {}
  | .slotLoad slot _ => slotLoad (slotCell p frame slot)
  | .slotStore slot value => slotStore (slotCell p frame slot) (rec.eval frame value)
  | .slotAddr slot _ => withSlot (slotCell p frame slot) fun c => return pointerToCell c
  | .var name _ => var frame name
  | .call c => call p rec c.resolvedFn (callee p c) (c.args.map (rec.eval frame))
  | .ret value => if value = kInvalidHirExpr then return {} else rec.eval frame value
  | .branch cond thenBlock elseBlock => branch thenBlock elseBlock (rec.eval frame cond)
  | .jump target => do
    modify fun st => { st with block := target.toNat }
    return {}
  | e => do
    failWith .unsupportedExpr (utf8 "HIR interpreter does not support expression kind " ++ num e.kind)
    return {}

/-- The message of a failed evaluation that has none. -/
def noteFailure (message : Text) : Run Unit := do
  if ← failed then setMessageIfEmpty message

def evalStep (p : Program) (rec : Calls) (frame : Frame) (id : HirExprId) : Run Value := do
  let e ← orUndefined p.exprs[id.toNat]?
  let value ← evalExpr p rec frame id e
  noteFailure (utf8 "HIR interpreter failed evaluating expression " ++ num id.toNat ++ utf8 " (kind " ++
    num e.kind ++ utf8 ")")
  return value

/-! ### Addresses -/

/-- The address of a field of the aggregate a place holds. -/
def addressOfField (kindOf : TypeId → TypeKind) (depth : ℕ) (index : UInt32) (evalObject : Run Value) :
    Run Value := do
  let base ← evalObject
  let base ← if base.kind = .ptr then readPointer kindOf depth base else pure base
  let st ← get
  match base.kind, st.object base.object with
  | .aggregate, some o =>
    if index.toNat < o.fieldCount then return pointerToCell ⟨o.fields, index.toNat⟩
    failWith .unsupportedExpr (utf8 "HIR interpreter cannot address this aggregate field")
    return {}
  | _, _ =>
    failWith .unsupportedExpr (utf8 "HIR interpreter cannot address this aggregate field")
    return {}

def addressOfIndex (evalObject evalIndex : Run Value) : Run Value := do
  let object ← evalObject
  let index ← evalIndex
  if index.kind ≠ .int ∨ index.i < 0 then
    fail .unsupportedExpr
    return {}
  let item := index.i.toUInt64
  let st ← get
  match object.kind, st.object object.object with
  | .aggregate, some o =>
    if item.toNat < o.fieldCount then return pointerToCell ⟨o.fields, item.toNat⟩
    failWith .unsupportedExpr (utf8 "HIR interpreter array index is out of bounds")
    return {}
  | .slice, _ =>
    if item < object.length then
      return { kind := .ptr, object := object.object, text := object.text, offset := object.offset + item }
    failWith .unsupportedExpr (utf8 "HIR interpreter cannot address this indexed value")
    return {}
  | .ptr, _ => return { object with offset := object.offset + item }
  | _, _ =>
    failWith .unsupportedExpr (utf8 "HIR interpreter cannot address this indexed value")
    return {}

/-- The register of a parameter of this name that the frame has. -/
def addressOfVar (frame : Frame) (name : InternedId) : Run Value := do
  match (frame.paramNames.take frame.regCount).findIdx? (· == name) with
  | some i => return pointerToCell ⟨frame.regs, i⟩
  | none =>
    failWith .internalError (utf8 "HIR interpreter cannot take the address of this variable")
    return {}

/-- The address of a value: its object, or a fresh one that holds it. -/
def addressOfValue (evalValue : Run Value) : Run Value := do
  let value ← evalValue
  if value.kind = .aggregate then return pointerToObject value.object
  let object ← addObject kInvalidType
  if object = kInvalidObject then
    fail .internalError
    return {}
  pushField object value
  return pointerToObject object

def addressOfExpr (p : Program) (rec : Calls) (frame : Frame) (id : HirExprId) : ExprRow → Run Value
  | .slotAddr slot _ => withSlot (slotCell p frame slot) fun c => return pointerToCell c
  | .var name _ => addressOfVar frame name
  | .field object i _ _ _ => addressOfField (kindOf p.types) rec.depth i (rec.eval frame object)
  | .index object i _ _ _ _ => addressOfIndex (rec.eval frame object) (rec.eval frame i)
  | .unary op operand _ =>
    if op = 4 then rec.eval frame operand
    else if op = 3 then rec.addressOf frame operand
    else do
      fail .unsupportedExpr
      return {}
  | _ => addressOfValue (rec.eval frame id)

def addressOfStep (p : Program) (rec : Calls) (frame : Frame) (id : HirExprId) : Run Value :=
  match if id = kInvalidHirExpr then none else p.exprs[id.toNat]? with
  | some e => addressOfExpr p rec frame id e
  | none => return {}

/-! ### Functions -/

/-- The instructions of a block; `false` when one fails. -/
def runInsts (failure : HirExprId → Text) (eval : HirExprId → Run Value) : List HirExprId → Run Bool
  | [] => return true
  | inst :: insts => do
    let _ ← eval inst
    if ← failed then
      setMessageIfEmpty (failure inst)
      return false
    runInsts failure eval insts

/-- Where a block leads: a return, or the number of the next block; `none` when it fails. -/
inductive Exit where
  | returns (value : Value)
  | goto (block : ℕ)

/-- The terminator of a block. -/
def runTerminator (p : Program) (name : Text) (block : ℕ) (terminator : HirExprId)
    (eval : HirExprId → Run Value) : Run (Option Exit) := do
  if terminator = kInvalidHirExpr then return some (.goto (block + 1))
  let e ← orUndefined p.exprs[terminator.toNat]?
  let value ← match e with
    | .ret value => if value = kInvalidHirExpr then pure {} else eval terminator
    | _ => pure {}
  if ← failed then
    setMessageIfEmpty (utf8 "HIR interpreter failed in function '" ++ name ++ utf8 "', block " ++ num block ++
      utf8 ", terminator " ++ num terminator.toNat)
    return none
  match e with
  | .ret _ => return some (.returns value)
  | .jump target => return some (.goto target.toNat)
  | .branch _ _ _ =>
    let _ ← eval terminator
    if ← failed then return none
    return some (.goto (← get).block)
  | _ =>
    failWith .unsupportedExpr (utf8 "HIR interpreter encountered an unsupported terminator in function '" ++
      name ++ utf8 "', block " ++ num block)
    return none

/-- The loop over the blocks. -/
def runBlocks (p : Program) (name : Text) (blocks : List HirBasicBlock) (eval : HirExprId → Run Value) :
    ℕ → ℕ → Run (Option Value)
  | 0, _ => undefinedBehaviour
  | fuel + 1, block => do
    match blocks[block]? with
    | none =>
      failWith .internalError (utf8 "HIR interpreter function '" ++ name ++
        utf8 "' reached the end without returning")
      return none
    | some b =>
      let failure inst := utf8 "HIR interpreter failed in function '" ++ name ++ utf8 "', block " ++ num block ++
        utf8 ", expression " ++ num inst.toNat
      unless ← runInsts failure eval b.insts do return none
      match ← runTerminator p name block b.terminator eval with
      | none => return none
      | some (.returns value) => return some value
      | some (.goto next) => runBlocks p name blocks eval fuel next

/-- The arguments as the registers hold them: an aggregate is copied. -/
def passArgs (kindOf : TypeId → TypeKind) : List TypeId → List Value → Run (List Value)
  | _, [] => return []
  | [], args => return args
  | param :: params, arg :: args => do
    let arg ← if isAggregateType kindOf param then cloneAggregate arg else pure arg
    return arg :: (← passArgs kindOf params args)

/-- The frame of a call, and the loop over the blocks; the block of the caller is kept. -/
def runFunctionStep (p : Program) (rec : Calls) (f : FunctionRow) (args : List Value) : Run (Option Value) := do
  let slots ← newArray []
  let regs ← newArray (← passArgs (kindOf p.types) f.params args)
  let frame : Frame := { name := f.name, paramNames := f.paramNames, regs, regCount := args.length, slots }
  let callerBlock := (← get).block
  modify fun st => { st with block := 0 }
  let result ← runBlocks p (lookup p.pool f.name) f.blocks (rec.eval frame) rec.depth 0
  modify fun st => { st with block := callerBlock }
  return result

/-! ### The program -/

/-- The calls at a depth. -/
def calls (p : Program) : ℕ → Calls
  | 0 => ⟨0, fun _ _ => undefinedBehaviour, fun _ _ => undefinedBehaviour, fun _ _ => undefinedBehaviour⟩
  | depth + 1 =>
    let below := calls p depth
    ⟨depth + 1, evalStep p below, addressOfStep p below, runFunctionStep p below⟩

def findMain (p : Program) : Option FunctionRow := findFunction p (utf8 "main")

/-- What `runMain` makes of the result of `main`. -/
def mainResult (ran : Option (Option Value × State)) : Option HirInterpResult :=
  ran.map fun (value, st) =>
    match value with
    | none =>
      { st.result with
        status := if st.result.status = .ok then .internalError else st.result.status, exitCode := 1 }
    | some value =>
      { st.result with
        status := .ok, exitCode := if value.kind = .int then value.i else 0, output := st.output.take }

/-- `HirInterpreter::runMain`; `none` when the depth is too small for the run, or the run is undefined. -/
def runMain (p : Program) (depth : ℕ) : Option HirInterpResult :=
  match findMain p with
  | none =>
    some { status := .missingMain, message := utf8 "interpreter requires a definitive main function" }
  | some main => mainResult ((calls p depth).runFunction main [] {})

end Zith.Interp
