import Zith.Hir.Module

/-! The rows of a `HirModule`, of its `StringInterner` and of its `TypeIntern` as they stand in their
    tables: a name is the index of its string, a type, an expression and a slot the index of its row. A
    literal is the eight bytes of its union, an enumerator that nothing checks its byte, and a `size_t`
    has 64 bits. -/

namespace Zith.Hir
open Types (TypeCanonicalId)
open Cache (CompactSafetyMode)

/-- The text of an interned string. -/
abbrev StringRow := List UInt8
abbrev InternedId := UInt32

def kInvalidInternedId : InternedId := 0xFFFFFFFF

/-! ### Types -/

/-- `types::TypeData`. The two arrays of a pack have one count. -/
inductive TypeRow where
  | error
  | never
  | void
  | bool
  | char
  | int (width : UInt8)
  | float (width : UInt8)
  | ptr (pointee : TypeId) (isMut : Bool) (ownership : UInt8)
  | array (elem : TypeId) (count : UInt32)
  | struct (defId : TypeId)
  | fn (params : List TypeId) (ret : TypeId)
  | typeVar (id : UInt32)
  | optional (inner : TypeId)
  | failable (inner : TypeId)
  | «alias» (target : TypeId)
  | nominal (name : InternedId) (target : TypeId)
  | trait (name : InternedId)
  | dyn (target : TypeId) (methodCount : UInt64)
  | opaqueUntagged
  | opaqueTagged
  | unknown
  | qualified (inner : TypeId) (ownership : UInt8) (isMut : Bool)
  | slice (elem : TypeId)
  | enum (defId : TypeId)
  | union (defId : TypeId)
  | pack (members : List (TypeId × InternedId))
  | sum (members : List TypeId)
  | genericParam (ownerName : InternedId) (paramIndex : UInt32)
  | incomplete (base : TypeId) (args : List TypeId)
  deriving DecidableEq

inductive TypeKind where
  | error | invalid | never | void | bool | char | int | float | ptr | array | struct | fn | typeVar
  | optional | failable | opaqueUntagged | opaqueTagged | unknown | slice | enum | union | pack | sum | dyn
  | genericParam | incomplete | string | «alias» | nominal | trait | qualified
  deriving DecidableEq, Repr

/-- `kindFromIndex`. -/
def TypeRow.kind : TypeRow → TypeKind
  | .error => .error
  | .never => .never
  | .void => .void
  | .bool => .bool
  | .char => .char
  | .int _ => .int
  | .float _ => .float
  | .ptr _ _ _ => .ptr
  | .array _ _ => .array
  | .struct _ => .struct
  | .fn _ _ => .fn
  | .typeVar _ => .typeVar
  | .optional _ => .optional
  | .failable _ => .failable
  | .alias _ => .alias
  | .nominal _ _ => .nominal
  | .trait _ => .trait
  | .dyn _ _ => .dyn
  | .opaqueUntagged => .opaqueUntagged
  | .opaqueTagged => .opaqueTagged
  | .unknown => .unknown
  | .qualified _ _ _ => .qualified
  | .slice _ => .slice
  | .enum _ => .enum
  | .union _ => .union
  | .pack _ => .pack
  | .sum _ => .sum
  | .genericParam _ _ => .genericParam
  | .incomplete _ _ => .incomplete

/-- `TypeIntern::kindOf`. -/
def kindOf (types : List TypeRow) (id : TypeId) : TypeKind :=
  if id = kInvalidType then .error else (types[id.toNat]?.map TypeRow.kind).getD .error

/-- The rows every table of types starts with. -/
def builtinTypes : List TypeRow := [.error, .never, .void, .bool, .char]

def kFirstCustom : ℕ := 5

/-! ### Expressions -/

inductive ExprRow where
  | literal (bits : UInt64) (type : TypeId)
  | binary (lhs rhs : HirExprId) (op : UInt8) (type operandType : TypeId)
  | unary (op : UInt8) (operand : HirExprId) (type : TypeId)
  | «let» (name : InternedId) (type : TypeId) (init : HirExprId)
  | var (name : InternedId) (version : UInt32)
  | call (call : HirCall)
  | ret (value : HirExprId)
  | branch (cond : HirExprId) (thenBlock elseBlock : HirBlockId)
  | jump (target : HirBlockId)
  | phi (incoming : List HirExprId)
  | assign (target value : HirExprId)
  | index (object index : HirExprId) (type objType : TypeId) (isArray : Bool) (safety : CompactSafetyMode)
  | field (object : HirExprId) (index : UInt32) (type objectType : TypeId) (safety : CompactSafetyMode)
  | structLiteral (values : List HirExprId) (type : TypeId)
  | arrayLiteral (elements : List HirExprId) (type : TypeId)
  | enumValue (value : Int64) (type : TypeId)
  | slotAlloca (slot : HirSlotId) (type : TypeId) (alignmentBytes : UInt32)
  | slotStore (slot : HirSlotId) (value : HirExprId)
  | slotLoad (slot : HirSlotId) (type : TypeId)
  | slotAddr (slot : HirSlotId) (type : TypeId)
  | makeNone (type : TypeId)
  | makeSome (value : HirExprId) (type : TypeId)
  | makeSlice (object lo hi : HirExprId) (type objectType boundType : TypeId) (isArray isPointer : Bool)
      (safety : CompactSafetyMode)
  | cast (value : HirExprId) (source target : TypeId)
  | unionCast (value : HirExprId) (source target : TypeId) (memberIndex : UInt32)
      (safety : CompactSafetyMode)
  | unionCheck (value : HirExprId) (unionType : TypeId) (memberIndex : UInt32)
  | layoutIntrinsic (which : UInt8) (type : TypeId) (fieldIndex : UInt32) (operand : HirExprId)
      (operandType : TypeId) (stringLength : UInt64)
  | stateTailCall (call : HirCall)
  | cleanup (exprs : List HirExprId)
  | globalConstLoad (name : InternedId) (type : TypeId)
  | externalGlobalAddr (name : InternedId) (type : TypeId)
  | makeDyn (value : HirExprId) (sourceType dynType : TypeId) (vtableName : InternedId)
      (valueIsPlace : Bool)
  | dynCall (receiver : HirExprId) (vtableName : InternedId) (slotIndex : UInt32) (hasReceiver : Bool)
      (resultType fnType : TypeId) (args : List HirExprId) (argTypes : List TypeId)
  | makeOpaque (value : HirExprId) (sourceType opaqueType : TypeId) (typeId : UInt32)
      (canonicalId : TypeCanonicalId)
  | opaqueCast (value : HirExprId) (source target opaqueType resultType : TypeId) (typeId : UInt32)
      (canonicalId : TypeCanonicalId) (safety : CompactSafetyMode) (returnsPtr : Bool)
  | opaqueCheck (value : HirExprId) (opaqueType : TypeId) (typeId : UInt32) (canonicalId : TypeCanonicalId)
  | runtimePanic (code : UInt32)
  | canonicalType (canonicalId : TypeCanonicalId) (type : TypeId)
  | pipe (sourceSlot : HirSlotId) (sourceType : TypeId) (stage : HirExprId) (type : TypeId)
      (isEffect : Bool)
  | pipeCurrent (slot : HirSlotId) (type : TypeId)
  deriving DecidableEq

/-- The number of the `HirExprKind`; the two casts share one. -/
def ExprRow.kind : ExprRow → ℕ
  | .literal _ _ => 0
  | .binary _ _ _ _ _ => 1
  | .unary _ _ _ => 2
  | .let _ _ _ => 3
  | .var _ _ => 4
  | .call _ => 5
  | .ret _ => 6
  | .branch _ _ _ => 7
  | .jump _ => 8
  | .phi _ => 9
  | .assign _ _ => 10
  | .index _ _ _ _ _ _ => 11
  | .field _ _ _ _ _ => 12
  | .structLiteral _ _ => 13
  | .arrayLiteral _ _ => 14
  | .enumValue _ _ => 15
  | .slotAlloca _ _ _ => 16
  | .slotStore _ _ => 17
  | .slotLoad _ _ => 18
  | .makeNone _ => 19
  | .makeSome _ _ => 20
  | .makeSlice _ _ _ _ _ _ _ _ _ => 21
  | .slotAddr _ _ => 22
  | .cast _ _ _ | .unionCast _ _ _ _ _ => 23
  | .unionCheck _ _ _ => 24
  | .layoutIntrinsic _ _ _ _ _ _ => 25
  | .stateTailCall _ => 26
  | .canonicalType _ _ => 27
  | .cleanup _ => 28
  | .globalConstLoad _ _ => 29
  | .makeDyn _ _ _ _ _ => 30
  | .dynCall _ _ _ _ _ _ _ _ => 31
  | .makeOpaque _ _ _ _ _ => 32
  | .opaqueCast _ _ _ _ _ _ _ _ _ => 33
  | .opaqueCheck _ _ _ _ => 34
  | .runtimePanic _ => 35
  | .pipe _ _ _ _ _ => 36
  | .pipeCurrent _ _ => 37
  | .externalGlobalAddr _ _ => 38

/-! ### Functions -/

structure Span where
  file : UInt32 := 0
  start : UInt32 := 0
  «end» : UInt32 := 0
  deriving DecidableEq

structure FunctionRow where
  name : InternedId
  params : List TypeId := []
  paramNames : List InternedId := []
  paramSlots : List HirSlotId := []
  returnType : TypeId := kInvalidType
  isState : Bool := false
  usesTailCC : Bool := false
  machineReturnType : TypeId := kInvalidType
  machineId : UInt32 := 0
  isVariadic : Bool := false
  variadicSliceParam : UInt64 := 0xFFFFFFFFFFFFFFFF
  isForeignC : Bool := false
  hasBody : Bool := false
  foreignAdapterName : InternedId := kInvalidInternedId
  fnSpan : Span := {}
  blocks : List HirBasicBlock := []
  deriving DecidableEq

/-! ### The string pool -/

/-- `StringInterner::lookup`. -/
def lookup (pool : List StringRow) (id : InternedId) : StringRow := pool.getD id.toNat []

/-- The id the map holds for a text: every copy of a text overwrites the entry of the one before. -/
def lastIdOf (pool : List StringRow) (text : StringRow) : Option ℕ :=
  (List.range pool.length).reverse.find? fun i => pool[i]? == some text

/-- `StringInterner::intern`. -/
def intern (pool : List StringRow) (text : StringRow) : InternedId × List StringRow :=
  match lastIdOf pool text with
  | some id => (UInt32.ofNat id, pool)
  | none => (UInt32.ofNat pool.length, pool ++ [text])

/-! ### A module with its pools -/

/-- What a blob is made of: `interner`, `types`, and the expressions, functions and attributes of the
    module. -/
structure FlatModule where
  pool : List StringRow := []
  types : List TypeRow := builtinTypes
  exprs : List ExprRow := []
  fns : List FunctionRow := []
  attrs : HirAttrs := {}

/-- The safety proof that is present at an expression. -/
def provenAt (attrs : HirAttrs) (id : HirExprId) : Option HirSafetyProof :=
  attrs.safetyProofs[id.toNat]?.filter (·.present)

/-- A definition of a struct: the names and the types of its fields. -/
structure StructRow where
  fields : List (InternedId × TypeId) := []
  deriving DecidableEq

structure VTableRow where
  name : InternedId
  slots : List HirFunctionId := []
  deriving DecidableEq

/-- A module that can be run: the flat tables, and those that no blob has. The constructor of the types
    interns the builtin rows; the table of slot attributes is resized to a count of 32 bits. -/
structure Program extends FlatModule where
  structDefs : List StructRow := []
  vtables : List VTableRow := []
  builtin_prefix : builtinTypes <+: types := by decide
  slots_lt : attrs.slots.length < 2 ^ 32 := by decide

end Zith.Hir
