import Zith.Cache.Artifact
import Zith.Types.CanonicalTags

/-! `hir::HirModule`. An interned name is its text; an operator, an ownership and a consumed state are
    the bytes they are cast from. The side tables of attributes grow when they are asked for an id: slots,
    calls and proofs by an id of 32 bits, functions by a `size_t`. -/

namespace Zith.Hir
open Types (TypeCanonicalId)
open Cache (CompactSafetyMode CompactSafetyProofKind)
open Zirl (CompactSymKind CompactVisibility)

abbrev Text := List UInt8
abbrev TypeId := UInt32
abbrev HirExprId := UInt32
abbrev HirFunctionId := UInt32
abbrev HirBlockId := UInt32
abbrev HirSlotId := UInt32
abbrev HirDeclarationId := UInt32
abbrev HirTemplateId := UInt32

def kErrorType : TypeId := 0
def kInvalidType : TypeId := 0xFFFFFFFF
def kInvalidHirExpr : HirExprId := 0xFFFFFFFF
def kInvalidHirFunction : HirFunctionId := 0xFFFFFFFF
def kInvalidHirSlot : HirSlotId := 0xFFFFFFFF
def kInvalidHirDeclaration : HirDeclarationId := 0xFFFFFFFF
def kInvalidHirTemplate : HirTemplateId := 0xFFFFFFFF

/-! ### Expressions -/

/-- The union of a literal: the member that was written last. -/
inductive HirLiteralValue where
  | i (value : Int64)
  | f (bits : UInt64)
  | b (value : Bool)
  | strVal (text : Text)
  deriving DecidableEq

structure HirCall where
  callee : HirExprId := kInvalidHirExpr
  args : List HirExprId := []
  argumentTypes : List TypeId := []
  fnType : TypeId := kInvalidType
  resolvedFn : HirFunctionId := kInvalidHirFunction
  variadicSliceParam : UInt32 := 0xFFFFFFFF
  isVariadicSlice : Bool := false
  autoCollectTail : Bool := false
  usesTailCC : Bool := false
  musttail : Bool := false
  deriving DecidableEq

inductive HirExpr where
  | literal (value : HirLiteralValue) (type : TypeId)
  | binary (lhs rhs : HirExprId) (op : UInt8) (type operandType : TypeId)
  | unary (op : UInt8) (operand : HirExprId) (type : TypeId)
  | «let» (name : Text) (type : TypeId) (init : HirExprId)
  | var (name : Text) (version : UInt32)
  | call (call : HirCall)
  | ret (value : HirExprId)
  | branch (cond : HirExprId) (thenBlock elseBlock : HirBlockId)
  | jump (target : HirBlockId)
  | phi (incoming : List HirExprId)
  | assign (target value : HirExprId)
  | index (object index : HirExprId) (type objType : TypeId) (isArray : Bool) (safety : CompactSafetyMode)
  | field (object : HirExprId) (index : UInt32) (type objectType : TypeId) (safety : CompactSafetyMode)
  | structLiteral (values : List HirExprId) (type : TypeId)
  | arrayLiteral (elements : List HirExprId) (type : TypeId)
  | enumValue (value : Int64) (type : TypeId)
  | slotAlloca (slot : HirSlotId) (type : TypeId) (alignmentBytes : UInt32)
  | slotStore (slot : HirSlotId) (value : HirExprId)
  | slotLoad (slot : HirSlotId) (type : TypeId)
  | slotAddr (slot : HirSlotId) (type : TypeId)
  | makeNone (type : TypeId)
  | makeSome (value : HirExprId) (type : TypeId)
  | makeSlice (object lo hi : HirExprId) (type objectType boundType : TypeId) (isArray isPointer : Bool)
      (safety : CompactSafetyMode)
  | cast (value : HirExprId) (source target : TypeId)
  | unionCast (value : HirExprId) (source target : TypeId) (memberIndex : UInt32)
      (safety : CompactSafetyMode)
  | unionCheck (value : HirExprId) (unionType : TypeId) (memberIndex : UInt32)
  | layoutIntrinsic (which : UInt8) (type : TypeId) (fieldIndex : UInt32) (operand : HirExprId)
      (operandType : TypeId) (stringLength : UInt64)
  | stateTailCall (call : HirCall)
  | cleanup (exprs : List HirExprId)
  | globalConstLoad (name : Text) (type : TypeId)
  | externalGlobalAddr (name : Text) (type : TypeId)
  | makeDyn (value : HirExprId) (sourceType dynType : TypeId) (vtableName : Text) (valueIsPlace : Bool)
  | dynCall (receiver : HirExprId) (vtableName : Text) (slotIndex : UInt32) (hasReceiver : Bool)
      (resultType fnType : TypeId) (args : List HirExprId) (argTypes : List TypeId)
  | makeOpaque (value : HirExprId) (sourceType opaqueType : TypeId) (typeId : UInt32)
      (canonicalId : TypeCanonicalId)
  | opaqueCast (value : HirExprId) (source target opaqueType resultType : TypeId) (typeId : UInt32)
      (canonicalId : TypeCanonicalId) (safety : CompactSafetyMode) (returnsPtr : Bool)
  | opaqueCheck (value : HirExprId) (opaqueType : TypeId) (typeId : UInt32) (canonicalId : TypeCanonicalId)
  | runtimePanic (code : UInt32)
  | canonicalType (canonicalId : TypeCanonicalId) (type : TypeId)
  | pipe (sourceSlot : HirSlotId) (sourceType : TypeId) (stage : HirExprId) (type : TypeId)
      (isEffect : Bool)
  | pipeCurrent (slot : HirSlotId) (type : TypeId)
  deriving DecidableEq

/-! ### Declarations, functions and tables -/

structure HirDeclaration where
  isExtern : Bool
  name : Text
  kind : CompactSymKind
  visibility : CompactVisibility
  moduleDepth : Int32
  type : TypeId
  discardable : Bool
  bodyFunction : HirFunctionId
  templateId : HirTemplateId
  methodDeclarations : List HirDeclarationId
  deriving DecidableEq

structure HirGenericParam where
  name : Text
  bounds : List TypeId
  deriving DecidableEq

structure HirTemplate where
  declarationId : HirDeclarationId
  functionId : HirFunctionId
  kind : CompactSymKind
  isExtern : Bool
  name : Text
  returnType : TypeId
  variadic : Bool
  isState : Bool
  isForeignC : Bool
  usesTailCc : Bool
  params : List HirGenericParam
  parameterTypes : List TypeId
  parameterNames : List Text
  fieldNames : List Text
  fieldTypes : List TypeId
  canonicalFieldOrder : List UInt32
  methodDeclarations : List HirDeclarationId
  traitTypes : List TypeId
  deriving DecidableEq

structure HirBasicBlock where
  insts : List HirExprId
  terminator : HirExprId
  deriving DecidableEq

structure HirFunction where
  name : Text
  params : List TypeId
  paramNames : List Text
  paramSlots : List HirSlotId
  returnType : TypeId
  isState : Bool
  usesTailCC : Bool
  machineReturnType : TypeId
  machineId : UInt32
  isVariadic : Bool
  /-- `none` is the greatest `size_t`. -/
  variadicSliceParam : Option UInt32
  isForeignC : Bool
  hasBody : Bool
  foreignAdapterName : Option Text
  blocks : List HirBasicBlock
  deriving DecidableEq

structure HirGlobalConst where
  name : Text
  type : TypeId
  init : HirExprId
  alignmentBytes : UInt32
  deriving DecidableEq

structure HirVTable where
  name : Text
  slots : List HirFunctionId
  deriving DecidableEq

/-! ### Attributes -/

structure HirSlotAttrs where
  ownership : UInt8 := 0
  consumed : UInt8 := 0
  nonNull : Bool := false
  volatileSlot : Bool := false
  deriving DecidableEq

structure HirCallAttrs where
  args : List UInt8 := []
  returnsArg : UInt32 := 0xFFFFFFFF
  deriving DecidableEq

structure HirFnAttrs where
  returnConsumed : UInt8 := 0
  nonNull : Bool := false
  noAlias : Bool := false
  readOnly : Bool := false
  noCapture : Bool := false
  discardable : Bool := false
  deriving DecidableEq

structure HirSafetyProof where
  kind : CompactSafetyProofKind := .boundsValid
  operandA : HirExprId := kInvalidHirExpr
  operandB : HirExprId := kInvalidHirExpr
  operandC : HirExprId := kInvalidHirExpr
  present : Bool := false
  deriving DecidableEq

structure HirAttrs where
  slots : List HirSlotAttrs := []
  calls : List HirCallAttrs := []
  fns : List HirFnAttrs := []
  safetyProofs : List HirSafetyProof := []
  deriving DecidableEq

/-- `DynArray::resize`. -/
def resize {α : Type} (l : List α) (count : ℕ) (default : α) : List α :=
  if l.length < count then l ++ List.replicate (count - l.length) default else l.take count

/-- The record at `index`, of a table that is resized to `count` when it has no such record; `none` when
    it has none even then. -/
def recordAt {α : Type} (l : List α) (index count : ℕ) (default : α) (f : α → α) : Option (List α) :=
  let l := if l.length ≤ index then resize l count default else l
  if index < l.length then some (l.modify index f) else none

def HirAttrs.slot (a : HirAttrs) (id : HirSlotId) (f : HirSlotAttrs → HirSlotAttrs) : Option HirAttrs := do
  return { a with slots := ← recordAt a.slots id.toNat (id + 1).toNat {} f }

def HirAttrs.call (a : HirAttrs) (id : HirExprId) (f : HirCallAttrs → HirCallAttrs) : Option HirAttrs := do
  return { a with calls := ← recordAt a.calls id.toNat (id + 1).toNat {} f }

def HirAttrs.fn (a : HirAttrs) (index : ℕ) (f : HirFnAttrs → HirFnAttrs) : Option HirAttrs := do
  return { a with fns := ← recordAt a.fns index (index + 1) {} f }

def HirAttrs.safetyProof (a : HirAttrs) (id : HirExprId) (f : HirSafetyProof → HirSafetyProof) :
    Option HirAttrs := do
  return { a with safetyProofs := ← recordAt a.safetyProofs id.toNat (id + 1).toNat {} f }

structure HirModule where
  exprs : List HirExpr := []
  fns : List HirFunction := []
  declarations : List HirDeclaration := []
  templates : List HirTemplate := []
  globals : List HirGlobalConst := []
  vtables : List HirVTable := []
  attrs : HirAttrs := {}
  deriving DecidableEq

/-! ### Asking for a record -/

theorem lt_length_resize {α : Type} (l : List α) {index count : ℕ} (default : α) (h : index < count)
    (hl : l.length ≤ index) : index < (resize l count default).length := by
  rw [resize, if_pos (by omega), List.length_append, List.length_replicate]
  omega

/-- A table that is resized to more than the index has the record. -/
theorem recordAt_isSome {α : Type} (l : List α) {index count : ℕ} (default : α) (f : α → α)
    (h : index < count) : (recordAt l index count default f).isSome = true := by
  rw [recordAt]
  split
  · next hl =>
    rw [if_pos (lt_length_resize l default h hl)]
    rfl
  · next hl =>
    rw [if_pos (by omega)]
    rfl

/-- The count does not wrap around below the greatest id. -/
theorem lt_toNat_add_one {id : UInt32} (h : id.toNat < 2 ^ 32 - 1) : id.toNat < (id + 1).toNat := by
  rw [UInt32.toNat_add, UInt32.toNat_one, Nat.mod_eq_of_lt (by omega)]
  omega

end Zith.Hir
