import Zith.Hir.Rows
import Zith.Lib.ThreadedCodec

/-! The flat HIR blob: `encodeHir` and `decodeHir`. The `Writer` and the `Reader` move the same words as
    those of the container format. A read past the end is final: from then on every read returns zero, and
    the call that sees it returns no module; `orZero` keeps the zeros where they are looked at.

        header │ 1 strings │ 2 types from row 5 │ 3 expressions │ 4 functions │ 5 safety proofs -/

namespace Zith.Wasm
open Zith.Lib Zith.Lib.Reader
open Zirl (writeU8 writeU32 writeU64 writeI64 writeFlag writeCount writeBlob writeCounted readU8 readU32
  readU64 readI64 readBlob readEnum)
open Cache (CompactSafetyMode CompactSafetyProofKind)
open Types (TypeCanonicalId)
open Hir (TypeId InternedId StringRow TypeRow ExprRow FunctionRow FlatModule HirExprId HirCall HirBasicBlock
  HirAttrs HirSafetyProof Span lookup intern builtinTypes kFirstCustom provenAt)

def kBlobMagic : UInt32 := 0x5A4D4849
def kBlobVersion : UInt32 := 6
def kMaxArrayCount : ℕ := 2 ^ 20

/-- `reader.u8() != 0`. -/
def readBool : Reader Bool := do return (← readU8) != 0

/-- A counted list of ids. -/
def writeIds (ids : List UInt32) : List UInt8 := writeCounted writeU32 ids

/-- `readDynU32` and `readDynType`. -/
def readDynU32 : Reader (List UInt32) := do
  let count ← readU32
  check (count.toNat ≤ kMaxArrayCount)
  readU32.replicate count.toNat

def readSafety : Reader CompactSafetyMode := readEnum CompactSafetyMode.ofU8

/-! ### Types -/

def writeTypeData (pool : List StringRow) : TypeRow → List UInt8
  | .error => writeU8 0
  | .never => writeU8 2
  | .void => writeU8 3
  | .bool => writeU8 4
  | .char => writeU8 5
  | .int width => writeU8 6 ++ writeU8 width
  | .float width => writeU8 7 ++ writeU8 width
  | .ptr pointee isMut ownership =>
    writeU8 8 ++ (writeU32 pointee ++ (writeFlag isMut ++ writeU8 ownership))
  | .array elem count => writeU8 9 ++ (writeU32 elem ++ writeU32 count)
  | .struct defId => writeU8 10 ++ writeU32 defId
  | .fn params ret => writeU8 11 ++ (writeIds params ++ writeU32 ret)
  | .typeVar id => writeU8 12 ++ writeU32 id
  | .optional inner => writeU8 13 ++ writeU32 inner
  | .failable inner => writeU8 14 ++ writeU32 inner
  | .opaqueUntagged => writeU8 15
  | .opaqueTagged => writeU8 16
  | .unknown => writeU8 17
  | .slice elem => writeU8 18 ++ writeU32 elem
  | .enum defId => writeU8 19 ++ writeU32 defId
  | .union defId => writeU8 20 ++ writeU32 defId
  | .pack members =>
    writeU8 21 ++ (writeIds (members.map Prod.fst) ++ (members.map Prod.snd).flatMap writeU32)
  | .sum members => writeU8 22 ++ writeIds members
  | .dyn target methodCount => writeU8 23 ++ (writeU32 target ++ writeU32 methodCount.toUInt32)
  | .genericParam ownerName paramIndex =>
    writeU8 24 ++ (writeBlob (lookup pool ownerName) ++ writeU32 paramIndex)
  | .incomplete base args => writeU8 25 ++ (writeU32 base ++ writeIds args)
  | .alias target => writeU8 27 ++ writeU32 target
  | .nominal name target => writeU8 28 ++ (writeU32 name ++ writeU32 target)
  | .trait name => writeU8 29 ++ writeU32 name
  | .qualified inner ownership isMut =>
    writeU8 30 ++ (writeU32 inner ++ (writeU8 ownership ++ writeFlag isMut))

/-- A count and as many items; a count above the limit gives up the row, not the blob. -/
def readRowOf (count : UInt32) (rd : Reader TypeRow) : Reader TypeRow :=
  if count.toNat > kMaxArrayCount then pure .error else rd

/-- The rest of a row of a kind that interns nothing. -/
def readPlainType : ℕ → Reader TypeRow
  | 2 => pure .never
  | 3 => pure .void
  | 4 => pure .bool
  | 5 => pure .char
  | 6 => do return .int (← readU8)
  | 7 => do return .float (← readU8)
  | 8 => do return .ptr (← readU32) (← readBool) (← readU8)
  | 9 => do return .array (← readU32) (← readU32)
  | 10 => do return .struct (← readU32)
  | 11 => do
    let count ← readU32
    readRowOf count do return .fn (← readU32.replicate count.toNat) (← readU32)
  | 12 => do return .typeVar (← readU32)
  | 13 => do return .optional (← readU32)
  | 14 => do return .failable (← readU32)
  | 15 => pure .opaqueUntagged
  | 16 => pure .opaqueTagged
  | 17 => pure .unknown
  | 18 => do return .slice (← readU32)
  | 19 => do return .enum (← readU32)
  | 20 => do return .union (← readU32)
  | 21 => do
    let count ← readU32
    readRowOf count do
      let members ← readU32.replicate count.toNat
      let names ← readU32.replicate count.toNat
      return .pack (members.zip names)
  | 22 => do
    let count ← readU32
    readRowOf count do return .sum (← readU32.replicate count.toNat)
  | 23 => do return .dyn (← readU32) (← readU32).toUInt64
  | 25 => do
    let count ← readU32
    readRowOf count do
      let args ← readU32.replicate count.toNat
      return .incomplete (← readU32) args
  | 27 => do return .alias (← readU32)
  | 28 => do return .nominal (← readU32) (← readU32)
  | 29 => do return .trait (← readU32)
  | 30 => do return .qualified (← readU32) (← readU8) (← readBool)
  | _ => pure .error

/-- A row, and the pool once the owner of a generic parameter is interned. -/
def readTypeData (pool : List StringRow) : Reader (TypeRow × List StringRow) := do
  let kind ← readU8
  if kind = 24 then
    let ownerName ← readBlob
    let (ownerId, pool) := intern pool ownerName
    return (.genericParam ownerId (← readU32), pool)
  else
    return (← readPlainType kind.toNat, pool)

/-! ### Expressions -/

def writeCanonicalId (id : TypeCanonicalId) : List UInt8 := writeU64 id.hi ++ writeU64 id.lo

def readCanonicalId : Reader TypeCanonicalId := do return { hi := ← readU64, lo := ← readU64 }

/-- The low half of a union of eight bytes, and the union with that half overwritten. -/
def lowHalf (bits : UInt64) : UInt32 := bits.toUInt32

def withLowHalf (bits : UInt64) (low : UInt32) : UInt64 := (bits >>> 32) <<< 32 ||| low.toUInt64

def writeExpr : ExprRow → List UInt8
  | .literal bits type => writeU8 0 ++ (writeU32 type ++ (writeU64 bits ++ writeU32 (lowHalf bits)))
  | .binary lhs rhs op type operandType =>
    writeU8 1 ++ (writeU32 lhs ++ (writeU32 rhs ++ (writeU8 op ++ (writeU32 type ++ writeU32 operandType))))
  | .unary op operand type => writeU8 2 ++ (writeU8 op ++ (writeU32 operand ++ writeU32 type))
  | .let name type init => writeU8 3 ++ (writeU32 name ++ (writeU32 type ++ writeU32 init))
  | .var name version => writeU8 4 ++ (writeU32 name ++ writeU32 version)
  | .call c =>
    writeU8 5 ++ (writeU32 c.callee ++ (writeIds c.args ++ (writeIds c.argumentTypes ++
      (writeU32 c.fnType ++ (writeU32 c.resolvedFn ++ (writeU32 c.variadicSliceParam ++
        (writeFlag c.isVariadicSlice ++ (writeFlag c.autoCollectTail ++
          (writeFlag c.usesTailCC ++ writeFlag c.musttail)))))))))
  | .ret value => writeU8 6 ++ writeU32 value
  | .branch cond thenBlock elseBlock =>
    writeU8 7 ++ (writeU32 cond ++ (writeU32 thenBlock ++ writeU32 elseBlock))
  | .jump target => writeU8 8 ++ writeU32 target
  | .phi incoming => writeU8 9 ++ writeIds incoming
  | .assign target value => writeU8 10 ++ (writeU32 target ++ writeU32 value)
  | .index object index type objType isArray safety =>
    writeU8 11 ++ (writeU32 object ++ (writeU32 index ++ (writeU32 type ++ (writeU32 objType ++
      (writeFlag isArray ++ writeU8 safety.toU8)))))
  | .field object index type objectType safety =>
    writeU8 12 ++ (writeU32 object ++ (writeU32 index ++ (writeU32 type ++ (writeU32 objectType ++
      writeU8 safety.toU8))))
  | .structLiteral values type => writeU8 13 ++ (writeIds values ++ writeU32 type)
  | .arrayLiteral elements type => writeU8 14 ++ (writeIds elements ++ writeU32 type)
  | .enumValue value type => writeU8 15 ++ (writeI64 value ++ writeU32 type)
  | .slotAlloca slot type _ => writeU8 16 ++ (writeU32 slot ++ writeU32 type)
  | .slotStore slot value => writeU8 17 ++ (writeU32 slot ++ writeU32 value)
  | .slotLoad slot type => writeU8 18 ++ (writeU32 slot ++ writeU32 type)
  | .makeNone type => writeU8 19 ++ writeU32 type
  | .makeSome value type => writeU8 20 ++ (writeU32 value ++ writeU32 type)
  | .makeSlice object lo hi type objectType boundType isArray isPointer safety =>
    writeU8 21 ++ (writeU32 object ++ (writeU32 lo ++ (writeU32 hi ++ (writeU32 type ++
      (writeU32 objectType ++ (writeU32 boundType ++ (writeFlag isArray ++ (writeFlag isPointer ++
        writeU8 safety.toU8))))))))
  | .slotAddr slot type => writeU8 22 ++ (writeU32 slot ++ writeU32 type)
  | .cast value source target =>
    writeU8 23 ++ (writeU8 0 ++ (writeU32 value ++ (writeU32 source ++ writeU32 target)))
  | .unionCast value source target memberIndex safety =>
    writeU8 23 ++ (writeU8 1 ++ (writeU32 value ++ (writeU32 source ++ (writeU32 target ++
      (writeU32 memberIndex ++ writeU8 safety.toU8)))))
  | .unionCheck value unionType memberIndex =>
    writeU8 24 ++ (writeU32 value ++ (writeU32 unionType ++ writeU32 memberIndex))
  | .layoutIntrinsic which type fieldIndex operand operandType stringLength =>
    writeU8 25 ++ (writeU8 which ++ (writeU32 type ++ (writeU32 fieldIndex ++ (writeU32 operand ++
      (writeU32 operandType ++ writeU64 stringLength)))))
  | .stateTailCall c =>
    writeU8 26 ++ (writeU32 c.callee ++ (writeIds c.args ++ (writeIds c.argumentTypes ++
      (writeU32 c.fnType ++ (writeU32 c.resolvedFn ++ (writeFlag c.usesTailCC ++ writeFlag c.musttail))))))
  | .canonicalType canonicalId type => writeU8 27 ++ (writeCanonicalId canonicalId ++ writeU32 type)
  | .cleanup exprs => writeU8 28 ++ writeIds exprs
  | .globalConstLoad name type => writeU8 29 ++ (writeU32 name ++ writeU32 type)
  | .makeDyn value sourceType dynType vtableName valueIsPlace =>
    writeU8 30 ++ (writeU32 value ++ (writeU32 sourceType ++ (writeU32 dynType ++ (writeU32 vtableName ++
      writeFlag valueIsPlace))))
  | .dynCall receiver vtableName slotIndex hasReceiver resultType fnType args argTypes =>
    writeU8 31 ++ (writeU32 receiver ++ (writeU32 vtableName ++ (writeU32 slotIndex ++
      (writeFlag hasReceiver ++ (writeU32 resultType ++ (writeU32 fnType ++ (writeIds args ++ writeIds argTypes)))))))
  | .makeOpaque value sourceType opaqueType typeId canonicalId =>
    writeU8 32 ++ (writeU32 value ++ (writeU32 sourceType ++ (writeU32 opaqueType ++ (writeU32 typeId ++
      writeCanonicalId canonicalId))))
  | .opaqueCast value source target opaqueType resultType typeId canonicalId safety returnsPtr =>
    writeU8 33 ++ (writeU32 value ++ (writeU32 source ++ (writeU32 target ++ (writeU32 opaqueType ++
      (writeU32 resultType ++ (writeU32 typeId ++ (writeCanonicalId canonicalId ++
        (writeU8 safety.toU8 ++ writeFlag returnsPtr))))))))
  | .opaqueCheck value opaqueType typeId canonicalId =>
    writeU8 34 ++ (writeU32 value ++ (writeU32 opaqueType ++ (writeU32 typeId ++ writeCanonicalId canonicalId)))
  | .runtimePanic code => writeU8 35 ++ writeU32 code
  | .pipe sourceSlot sourceType stage type isEffect =>
    writeU8 36 ++ (writeU32 sourceSlot ++ (writeU32 sourceType ++ (writeU32 stage ++ (writeU32 type ++
      writeFlag isEffect))))
  | .pipeCurrent slot type => writeU8 37 ++ (writeU32 slot ++ writeU32 type)
  | .externalGlobalAddr name type => writeU8 38 ++ (writeU32 name ++ writeU32 type)

/-- Fail as a `return false` does. -/
def refuse {α : Type} : Reader α := fun _ => none

/-- The casts of numbers and of unions share a kind. -/
def readCast : ℕ → Reader ExprRow
  | 0 => do return .cast (← readU32) (← readU32) (← readU32)
  | 1 => do return .unionCast (← readU32) (← readU32) (← readU32) (← readU32) (← readSafety)
  | _ => refuse

/-- The rest of a row of a kind. -/
def readExprOf : ℕ → Reader ExprRow
  | 0 => do
    let type ← readU32
    let bits ← readU64
    return .literal (withLowHalf bits (← readU32)) type
  | 1 => do return .binary (← readU32) (← readU32) (← readU8) (← readU32) (← readU32)
  | 2 => do return .unary (← readU8) (← readU32) (← readU32)
  | 3 => do return .let (← readU32) (← readU32) (← readU32)
  | 4 => do return .var (← readU32) (← readU32)
  | 5 => do
    let callee ← readU32
    let args ← readDynU32
    let argumentTypes ← readDynU32
    return .call {
      callee, args, argumentTypes
      fnType := ← readU32
      resolvedFn := ← readU32
      variadicSliceParam := ← readU32
      isVariadicSlice := ← readBool
      autoCollectTail := ← readBool
      usesTailCC := ← readBool
      musttail := ← readBool }
  | 6 => do return .ret (← readU32)
  | 7 => do return .branch (← readU32) (← readU32) (← readU32)
  | 8 => do return .jump (← readU32)
  | 9 => do return .phi (← readDynU32)
  | 10 => do return .assign (← readU32) (← readU32)
  | 11 => do
    return .index (← readU32) (← readU32) (← readU32) (← readU32) (← readBool) (← readSafety)
  | 12 => do return .field (← readU32) (← readU32) (← readU32) (← readU32) (← readSafety)
  | 13 => do return .structLiteral (← readDynU32) (← readU32)
  | 14 => do return .arrayLiteral (← readDynU32) (← readU32)
  | 15 => do return .enumValue (← readI64) (← readU32)
  | 16 => do return .slotAlloca (← readU32) (← readU32) 0
  | 17 => do return .slotStore (← readU32) (← readU32)
  | 18 => do return .slotLoad (← readU32) (← readU32)
  | 19 => do return .makeNone (← readU32)
  | 20 => do return .makeSome (← readU32) (← readU32)
  | 21 => do
    return .makeSlice (← readU32) (← readU32) (← readU32) (← readU32) (← readU32) (← readU32)
      (← readBool) (← readBool) (← readSafety)
  | 22 => do return .slotAddr (← readU32) (← readU32)
  | 23 => do readCast (← readU8).toNat
  | 24 => do return .unionCheck (← readU32) (← readU32) (← readU32)
  | 25 => do
    return .layoutIntrinsic (← readU8) (← readU32) (← readU32) (← readU32) (← readU32) (← readU64)
  | 26 => do
    let callee ← readU32
    let args ← readDynU32
    let argumentTypes ← readDynU32
    return .stateTailCall {
      callee, args, argumentTypes
      fnType := ← readU32
      resolvedFn := ← readU32
      usesTailCC := ← readBool
      musttail := ← readBool }
  | 27 => do return .canonicalType (← readCanonicalId) (← readU32)
  | 28 => do return .cleanup (← readDynU32)
  | 29 => do return .globalConstLoad (← readU32) (← readU32)
  | 30 => do return .makeDyn (← readU32) (← readU32) (← readU32) (← readU32) (← readBool)
  | 31 => do
    return .dynCall (← readU32) (← readU32) (← readU32) (← readBool) (← readU32) (← readU32)
      (← readDynU32) (← readDynU32)
  | 32 => do
    return .makeOpaque (← readU32) (← readU32) (← readU32) (← readU32) (← readCanonicalId)
  | 33 => do
    return .opaqueCast (← readU32) (← readU32) (← readU32) (← readU32) (← readU32) (← readU32)
      (← readCanonicalId) (← readSafety) (← readBool)
  | 34 => do return .opaqueCheck (← readU32) (← readU32) (← readU32) (← readCanonicalId)
  | 35 => do return .runtimePanic (← readU32)
  | 36 => do return .pipe (← readU32) (← readU32) (← readU32) (← readU32) (← readBool)
  | 37 => do return .pipeCurrent (← readU32) (← readU32)
  | 38 => do return .externalGlobalAddr (← readU32) (← readU32)
  | _ => refuse

def readExpr : Reader ExprRow := do readExprOf (← readU8).toNat

/-! ### Functions -/

def writeBlock (b : HirBasicBlock) : List UInt8 := writeIds b.insts ++ writeU32 b.terminator

def readBlock : Reader HirBasicBlock := do return { insts := ← readDynU32, terminator := ← readU32 }

def writeSpan (s : Span) : List UInt8 := writeU32 s.file ++ (writeU32 s.start ++ writeU32 s.end)

def readSpan : Reader Span := do return { file := ← readU32, start := ← readU32, «end» := ← readU32 }

def writeFunction (f : FunctionRow) : List UInt8 :=
  writeU32 f.name ++ (writeIds f.params ++ (writeIds f.paramNames ++ (writeIds f.paramSlots ++
    (writeU32 f.returnType ++ (writeFlag f.isState ++ (writeFlag f.usesTailCC ++
      (writeU32 f.machineReturnType ++ (writeU32 f.machineId ++ (writeFlag f.isVariadic ++
        (writeU32 f.variadicSliceParam.toUInt32 ++ (writeFlag f.isForeignC ++ (writeFlag f.hasBody ++
          (writeSpan f.fnSpan ++ writeCounted writeBlock f.blocks)))))))))))))

def readFunction : Reader FunctionRow := do
  let name ← readU32
  let params ← readDynU32
  let paramNames ← readDynU32
  let paramSlots ← readDynU32
  let returnType ← readU32
  let isState ← readBool
  let usesTailCC ← readBool
  let machineReturnType ← readU32
  let machineId ← readU32
  let isVariadic ← readBool
  let variadicSliceParam ← readU32
  let isForeignC ← readBool
  let hasBody ← readBool
  let fnSpan ← readSpan
  let blockCount ← readU32
  check (blockCount.toNat ≤ kMaxArrayCount)
  let blocks ← readBlock.replicate blockCount.toNat
  return {
    name, params, paramNames, paramSlots, returnType, isState, usesTailCC, machineReturnType, machineId
    isVariadic, variadicSliceParam := variadicSliceParam.toUInt64, isForeignC, hasBody, fnSpan, blocks }

/-! ### The blob -/

/-- The ids of the expressions that have a proof, in order. -/
def provenIds (h : FlatModule) : List HirExprId :=
  ((List.range h.exprs.length).map UInt32.ofNat).filter fun id => (provenAt h.attrs id).isSome

def writeProof (h : FlatModule) (id : HirExprId) : List UInt8 :=
  let proof := (provenAt h.attrs id).getD {}
  writeU32 id ++ (writeU8 proof.kind.toU8 ++
    (writeU32 proof.operandA ++ (writeU32 proof.operandB ++ writeU32 proof.operandC)))

def encodeHir (h : FlatModule) : List UInt8 :=
  writeU32 kBlobMagic ++ (writeU32 kBlobVersion ++
    (writeU8 1 ++ (writeCounted writeBlob h.pool ++
      (writeU8 2 ++ (writeCounted (writeTypeData h.pool) (h.types.drop kFirstCustom) ++
        (writeU8 3 ++ (writeCounted writeExpr h.exprs ++
          (writeU8 4 ++ (writeCounted writeFunction h.fns ++
            (writeU8 5 ++ writeCounted (writeProof h) (provenIds h)))))))))))

/-- A step of `decodeHir` that fails with a message. -/
abbrev Decoder (α : Type) := StateT (List UInt8) (Except String) α

def orFail {α : Type} (message : String) (rd : Reader α) : Decoder α := fun bs =>
  match rd bs with
  | some r => .ok r
  | none => .error message

def readHeader : Reader Unit := do
  check ((← readU32) == kBlobMagic)
  check ((← readU32) == kBlobVersion)

/-- The marker of a section, and its count. -/
def readMarker (marker : UInt8) : Reader UInt32 := do
  check ((← readU8) == marker)
  readU32

/-- The section of a table: its marker, its count and its rows, with the messages of a count above the limit
    and of rows that are refused. -/
def readSection {α : Type} (marker : UInt8) (overflow message : String) (rows : ℕ → Reader α) :
    Decoder α := do
  let count ← orFail "" (readMarker marker)
  orFail overflow (check (count.toNat ≤ kMaxArrayCount))
  orFail message (rows count.toNat)

/-- The rows of the types, which may add to the pool. -/
def readTypes (count : ℕ) (pool : List StringRow) : Reader (List TypeRow × List StringRow) :=
  thread readTypeData count pool

/-- The bytes left; `none` once a read went past the end. -/
abbrev Cursor := Option (List UInt8)

/-- A read past the end yields zero, and so does every read after it. -/
def orZero {α : Type} (rd : Reader α) (zero : α) (c : Cursor) : α × Cursor :=
  match c.bind rd with
  | some (a, rest) => (a, some rest)
  | none => (zero, none)

/-- The table grows to the id; it always has a record for an id below the count of expressions. -/
def recordProof (attrs : HirAttrs) (id : HirExprId) (proof : HirSafetyProof) : HirAttrs :=
  (attrs.safetyProof id fun _ => proof).getD attrs

/-- `proofSeen` holds the ids that have a proof. -/
def readProofs (exprCount : ℕ) :
    ℕ → List HirExprId → HirAttrs → Cursor → Except String (HirAttrs × Cursor)
  | 0, _, attrs, c => .ok (attrs, c)
  | n + 1, proofSeen, attrs, c =>
    let (exprId, c) := orZero readU32 0 c
    let (kind, c) := orZero readU8 0 c
    match CompactSafetyProofKind.ofU8 kind with
    | some kind =>
      if exprId.toNat < exprCount ∧ exprId ∉ proofSeen then
        let (operandA, c) := orZero readU32 0 c
        let (operandB, c) := orZero readU32 0 c
        let (operandC, c) := orZero readU32 0 c
        let proof : HirSafetyProof := { kind, operandA, operandB, operandC, present := true }
        readProofs exprCount n (exprId :: proofSeen) (recordProof attrs exprId proof) c
      else .error "flat HIR safety-proof row invalid"
    | none => .error "flat HIR safety-proof row invalid"

/-- The proof section, and the test that no read went past the end. -/
def readProofSection (exprCount : ℕ) : Decoder HirAttrs := fun bs =>
  let (proofCount, c) := orZero readU32 0 (some bs)
  if proofCount.toNat > exprCount then
    .error "flat HIR safety-proof count exceeds expression count"
  else do
    match ← readProofs exprCount proofCount.toNat [] {} c with
    | (attrs, some rest) => .ok (attrs, rest)
    | (_, none) => .error "flat HIR blob truncated"

def decodeTables : Decoder FlatModule := do
  orFail "invalid flat HIR header" readHeader
  let pool ← readSection 1 "flat HIR string count overflow" "flat HIR string pool truncated" readBlob.replicate
  let (types, pool) ← readSection 2 "flat HIR type count overflow" "" (readTypes · pool)
  let exprs ← readSection 3 "flat HIR expression count overflow" "flat HIR expression row invalid"
    readExpr.replicate
  let fns ← readSection 4 "flat HIR function count overflow" "flat HIR function row invalid"
    readFunction.replicate
  orFail "flat HIR safety-proof section marker invalid" (do check ((← readU8) == 5))
  let attrs ← readProofSection exprs.length
  return { pool, types := builtinTypes ++ types, exprs, fns, attrs }

/-- The module of a blob, or the message it is refused with. -/
def decodeHir (data : List UInt8) : Except String FlatModule := do
  return (← decodeTables data).1

end Zith.Wasm
