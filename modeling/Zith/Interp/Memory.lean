import Zith.Hir.Rows

/-! `common::TestOutputBuffer`: the bytes a program prints, of which the body of a framed test log is cut
    at 4096 bytes a log. -/

namespace Zith.Interp

abbrev Text := List UInt8

/-- The bytes of a string. -/
def utf8 (s : String) : Text := s.toUTF8.toList

def kTestLogBeginPrefix : Text := 0x1E :: utf8 "ZITH-TEST-LOG-BEGIN:"
def kTestLogEndMarker : Text := 0x1E :: utf8 "ZITH-TEST-LOG-END" ++ [0x1E, 10]
def kTestLogContextPrefix : Text := 0x1E :: utf8 "ZITH-TEST-CONTEXT:"
def kTestLogCapacity : ℕ := 4096

inductive BufferState where
  | outside | context | header | body
  deriving DecidableEq, Repr

structure TestOutputBuffer where
  output : Text := []
  outsidePending : Text := []
  contextName : Text := []
  header : Text := []
  logName : Text := []
  endPending : Text := []
  logBytes : List (Text × ℕ) := []
  logBuffer : Text := []
  activeTest : Text := []
  state : BufferState := .outside

def isProtocolPrefix (text : Text) : Bool :=
  text.isPrefixOf kTestLogBeginPrefix || text.isPrefixOf kTestLogContextPrefix

/-- The bytes at the front of `pending` that begin no marker go out, one by one. -/
def release (isStart : Text → Bool) : Text → Text × Text
  | [] => ([], [])
  | b :: pending =>
    if isStart (b :: pending) then ([], b :: pending)
    else
      let (out, rest) := release isStart pending
      (b :: out, rest)

namespace TestOutputBuffer

def appendOutside (buf : TestOutputBuffer) (value : UInt8) : TestOutputBuffer :=
  let (out, pending) := release isProtocolPrefix (buf.outsidePending ++ [value])
  let buf := { buf with output := buf.output ++ out, outsidePending := pending }
  if pending = kTestLogBeginPrefix then
    { buf with
      output := buf.output ++ kTestLogBeginPrefix, outsidePending := [], header := [], state := .header }
  else if pending = kTestLogContextPrefix then
    { buf with outsidePending := [], contextName := [], state := .context }
  else buf

def appendContext (buf : TestOutputBuffer) (value : UInt8) : TestOutputBuffer :=
  if value = 10 then { buf with activeTest := buf.contextName, contextName := [], state := .outside }
  else { buf with contextName := buf.contextName ++ [value] }

def appendHeader (buf : TestOutputBuffer) (value : UInt8) : TestOutputBuffer :=
  if value ≠ 10 then { buf with header := buf.header ++ [value] }
  else
    let logName := if buf.header.isEmpty then buf.activeTest else buf.header
    { buf with
      logName, header := [], output := buf.output ++ logName ++ [10], endPending := [], logBuffer := []
      state := .body }

def appendBodyByte (buf : TestOutputBuffer) (value : UInt8) : TestOutputBuffer :=
  let count := ((buf.logBytes.find? fun e => e.1 == buf.logName).map Prod.snd).getD 0
  let others := buf.logBytes.filter fun e => e.1 != buf.logName
  if count < kTestLogCapacity ∧ buf.logBuffer.length < kTestLogCapacity then
    { buf with logBuffer := buf.logBuffer ++ [value], logBytes := others ++ [(buf.logName, count + 1)] }
  else { buf with logBytes := others ++ [(buf.logName, count)] }

def flushLogBuffer (buf : TestOutputBuffer) : TestOutputBuffer :=
  { buf with output := buf.output ++ buf.logBuffer, logBuffer := [] }

def appendBody (buf : TestOutputBuffer) (value : UInt8) : TestOutputBuffer :=
  let (out, pending) := release (·.isPrefixOf kTestLogEndMarker) (buf.endPending ++ [value])
  let buf := out.foldl appendBodyByte { buf with endPending := pending }
  if pending = kTestLogEndMarker then
    let buf := buf.flushLogBuffer
    { buf with output := buf.output ++ kTestLogEndMarker, endPending := [], logName := [], state := .outside }
  else buf

def appendByte (buf : TestOutputBuffer) (value : UInt8) : TestOutputBuffer :=
  match buf.state with
  | .outside => buf.appendOutside value
  | .context => buf.appendContext value
  | .header => buf.appendHeader value
  | .body => buf.appendBody value

def append (buf : TestOutputBuffer) (text : Text) : TestOutputBuffer := text.foldl appendByte buf

def take (buf : TestOutputBuffer) : Text :=
  match buf.state with
  | .outside => buf.output ++ buf.outsidePending
  | .context => buf.output ++ kTestLogContextPrefix ++ buf.contextName
  | .header => buf.output ++ buf.header
  | .body => (buf.endPending.foldl appendBodyByte buf).flushLogBuffer.output

end TestOutputBuffer

end Zith.Interp

/-! The values and the memory of the `HirInterpreter`. A `Value` that is pointed to is a cell of an array
    (the registers or the slots of a frame, or the fields of an object); the arena frees none of them. A
    result of `none` is no result: a call too deep for the depth that is left, or undefined behaviour. -/

namespace Zith.Interp
open Hir (TypeId InternedId TypeKind HirExprId)

def kInvalidObject : UInt32 := 0xFFFFFFFF

inductive HirInterpStatus where
  | ok | missingMain | unsupportedExpr | missingExtern | internalError
  deriving DecidableEq, Repr

structure HirInterpResult where
  status : HirInterpStatus := .ok
  exitCode : Int64 := 0
  message : Text := []
  output : Text := []
  deriving DecidableEq

/-- `Value::Kind`. -/
inductive ValueKind where
  | int | float | ptr | string | aggregate | slice | dyn | invalid
  deriving DecidableEq, Repr

structure Cell where
  array : ℕ
  index : ℕ
  deriving DecidableEq

/-- `text` is `none` for a view without data, `f` the bits of the double. -/
structure Value where
  kind : ValueKind := .invalid
  i : Int64 := 0
  f : UInt64 := 0
  text : Option Text := none
  cell : Option Cell := none
  object : UInt32 := kInvalidObject
  offset : UInt64 := 0
  length : UInt64 := 0
  vtable : InternedId := Hir.kInvalidInternedId
  deriving DecidableEq

/-- An object; its fields are the first cells of an array. -/
structure RuntimeObject where
  type : TypeId
  fields : ℕ
  fieldCount : ℕ := 0
  bytes : Text := []
  alive : Bool := true
  deriving DecidableEq

/-- `block` is that of the frame that runs. -/
structure State where
  cells : Cell → Value := fun _ => {}
  arrays : ℕ := 0
  objects : List RuntimeObject := []
  block : ℕ := 0
  output : TestOutputBuffer := {}
  result : HirInterpResult := {}

abbrev Run (α : Type) := StateT State Option α

/-- No result. -/
def undefinedBehaviour {α : Type} : Run α := fun _ => none

def orUndefined {α : Type} (o : Option α) : Run α := fun st => o.map fun a => (a, st)

theorem orUndefined_none_bind {α β : Type} (f : α → Run β) : (orUndefined none >>= f) = undefinedBehaviour := rfl

theorem orUndefined_some_bind {α β : Type} (a : α) (f : α → Run β) : (orUndefined (some a) >>= f) = f a := rfl

/-! ### The result -/

/-- `result.status = status; result.exitCode = 1`. -/
def fail (status : HirInterpStatus) : Run Unit :=
  modify fun st => { st with result := { st.result with status, exitCode := 1 } }

def failWith (status : HirInterpStatus) (message : Text) : Run Unit :=
  modify fun st => { st with result := { st.result with status, exitCode := 1, message } }

def failed : Run Bool := do return (← get).result.status != .ok

def setMessageIfEmpty (message : Text) : Run Unit :=
  modify fun st =>
    if st.result.message.isEmpty then { st with result := { st.result with message } } else st

/-! ### Cells and objects -/

def intValue (i : Int64) : Value := { kind := .int, i }

def byteValue (b : UInt8) : Value := intValue (Int64.ofNat b.toNat)

def setCell (c : Cell) (v : Value) : Run Unit :=
  modify fun st => { st with cells := fun c' => if c' = c then v else st.cells c' }

/-- A new array whose first cells hold `values`. -/
def newArray (values : List Value) : Run ℕ := fun st =>
  some (st.arrays, { st with
    arrays := st.arrays + 1
    cells := fun c => if c.array = st.arrays then values.getD c.index {} else st.cells c })

def addObject (type : TypeId) : Run UInt32 := do
  let st ← get
  if st.objects.length ≥ kInvalidObject.toNat then return kInvalidObject
  let fields ← newArray []
  modify fun st => { st with objects := st.objects ++ [{ type, fields }] }
  return UInt32.ofNat st.objects.length

/-- The object of an id that is one. -/
def State.object (st : State) (id : UInt32) : Option RuntimeObject := st.objects[id.toNat]?

def modifyObject (id : UInt32) (f : RuntimeObject → RuntimeObject) : Run Unit :=
  modify fun st => { st with objects := st.objects.modify id.toNat f }

/-- A field of an object. -/
def State.field (st : State) (o : RuntimeObject) (index : ℕ) : Value := st.cells ⟨o.fields, index⟩

def setField (id : UInt32) (index : ℕ) (v : Value) : Run Unit := do
  match (← get).object id with
  | some o => setCell ⟨o.fields, index⟩ v
  | none => undefinedBehaviour

/-- `fields.resize`. -/
def resizeFields (id : UInt32) (count : ℕ) : Run Unit := modifyObject id fun o => { o with fieldCount := count }

def pushField (id : UInt32) (v : Value) : Run Unit := do
  match (← get).object id with
  | some o =>
    setCell ⟨o.fields, o.fieldCount⟩ v
    resizeFields id (o.fieldCount + 1)
  | none => undefinedBehaviour

def pointerToCell (c : Cell) : Value := { kind := .ptr, cell := some c }

def pointerToObject (object : UInt32) : Value := { kind := .ptr, object }

def isAggregateType (kindOf : TypeId → TypeKind) (type : TypeId) : Bool :=
  match kindOf type with
  | .array | .pack | .struct | .union | .optional | .sum => true
  | _ => false

def cloneAggregate (value : Value) : Run Value := do
  let st ← get
  match value.kind, st.object value.object with
  | .aggregate, some source =>
    if !source.alive then return {}
    let object ← addObject source.type
    if object = kInvalidObject then return {}
    let fields := (List.range source.fieldCount).map (st.field source)
    for e in fields do pushField object e
    modifyObject object fun o => { o with bytes := source.bytes }
    return { kind := .aggregate, object }
  | _, _ => return value

/-! ### Bytes -/

/-- `static_cast<char>`. -/
def charOf (i : Int64) : UInt8 := i.toUInt64.toUInt8

def textByte (text : Option Text) (offset : UInt64) : Option UInt8 := (text.getD [])[offset.toNat]?

/-- The byte of an object: of its storage, else of an integer among its fields. -/
def objectByte (st : State) (object : UInt32) (offset : UInt64) : Option UInt8 := do
  let o ← st.object object
  if !o.alive then none
  else if offset.toNat < o.bytes.length then o.bytes[offset.toNat]?
  else if offset.toNat < o.fieldCount ∧ (st.field o offset.toNat).kind = .int then
    some (charOf (st.field o offset.toNat).i)
  else none

/-- The byte of an aggregate that a slice views. -/
def elementByte (st : State) (object : UInt32) (offset index : UInt64) : Option UInt8 := do
  let o ← st.object object
  if offset.toNat ≥ o.fieldCount ∨ index.toNat ≥ o.fieldCount - offset.toNat then none
  else
    let element := st.field o (offset.toNat + index.toNat)
    if element.kind = .int then some (charOf element.i) else none

/-- `readByte`; the inner `none` is its `false`. A cell that holds a pointer is followed. -/
def readByte (st : State) : ℕ → Value → UInt64 → Option (Option UInt8)
  | 0, _, _ => none
  | depth + 1, pointer, index =>
    let ofCell (c : Cell) : Option (Option UInt8) :=
      let backing := st.cells c
      match backing.kind with
      | .int => some (if index ≠ 0 ∨ pointer.offset ≠ 0 then none else some (charOf backing.i))
      | .ptr | .slice => readByte st depth { backing with offset := backing.offset + pointer.offset } index
      | .string => some (textByte backing.text (pointer.offset + index))
      | .aggregate =>
        some (if pointer.kind = .slice then elementByte st backing.object pointer.offset index else none)
      | _ => some none
    match pointer.kind with
    | .string => some (textByte pointer.text index)
    | .slice =>
      if index ≥ pointer.length then some none
      else
        match pointer.cell with
        | some c => ofCell c
        | none =>
          some (if pointer.object = kInvalidObject then textByte pointer.text (pointer.offset + index)
            else objectByte st pointer.object (pointer.offset + index))
    | .ptr =>
      match pointer.cell with
      | some c => ofCell c
      | none =>
        some (if pointer.text.isSome then textByte pointer.text (pointer.offset + index)
          else if pointer.object = kInvalidObject then none
          else objectByte st pointer.object (pointer.offset + index))
    | _ => some none

def readByteAt (depth : ℕ) (pointer : Value) (index : UInt64) : Run (Option UInt8) := do
  orUndefined (readByte (← get) depth pointer index)

def writeByte : ℕ → Value → UInt64 → UInt8 → Run Bool
  | 0, _, _, _ => undefinedBehaviour
  | depth + 1, pointer, index, value => do
    let st ← get
    match pointer.kind, pointer.cell with
    | .ptr, some c =>
      let backing := st.cells c
      match backing.kind with
      | .int =>
        if index ≠ 0 ∨ pointer.offset ≠ 0 then return false
        setCell c { backing with i := Int64.ofNat value.toNat }
        return true
      | .ptr | .slice =>
        writeByte depth { backing with offset := backing.offset + pointer.offset } index value
      | _ => return false
    | .ptr, none =>
      if pointer.object = kInvalidObject then return false
      match st.object pointer.object with
      | none => return false
      | some o =>
        let offset := pointer.offset + index
        if !o.alive ∨ offset.toNat ≥ o.bytes.length then return false
        modifyObject pointer.object fun o => { o with bytes := o.bytes.set offset.toNat value }
        return true
    | _, _ => return false

/-! ### Pointers -/

/-- The first byte a pointer points to, as a value. -/
def readFirstByte (depth : ℕ) (pointer : Value) : Run Value := do
  match ← readByteAt depth pointer 0 with
  | some b => return byteValue b
  | none => return {}

def readPointer (kindOf : TypeId → TypeKind) (depth : ℕ) (pointer : Value) : Run Value := do
  if pointer.kind ≠ .ptr then
    failWith .unsupportedExpr (utf8 "HIR interpreter expected a pointer value")
    return {}
  let st ← get
  match pointer.cell with
  | some c => return st.cells c
  | none =>
    if pointer.text.isSome then readFirstByte depth pointer
    else
      match st.object pointer.object with
      | none => return intValue 0
      | some o =>
        if !o.alive then
          failWith .internalError (utf8 "HIR interpreter dereferenced released memory")
          return {}
        else if !o.bytes.isEmpty then readFirstByte depth pointer
        else if isAggregateType kindOf o.type then return { kind := .aggregate, object := pointer.object }
        else if o.fieldCount ≠ 0 then return st.field o 0
        else return {}

def writePointer (depth : ℕ) (pointer value : Value) : Run Bool := do
  if pointer.kind ≠ .ptr then
    failWith .unsupportedExpr (utf8 "HIR interpreter expected an addressable value")
    return false
  match pointer.cell with
  | some c =>
    let value ← if value.kind = .aggregate then cloneAggregate value else pure value
    setCell c value
    return true
  | none =>
    let written ← if value.kind = .int then writeByte depth pointer 0 (charOf value.i) else pure false
    if !written then
      failWith .unsupportedExpr (utf8 "HIR interpreter cannot store through this pointer")
    return written

end Zith.Interp
