import Zith.Hir.DominatingGuards
import Zith.Types.TypeIntern

/-! The conditions that `HirVerifier::verify` takes for the guard of a use: five matchers, each on the
    condition of a branch and on the fields of a guarded operation. A matcher says which answer of the
    condition makes the operation safe, or nothing.

        operation      condition                              safe when it is
        field 0        field 1 of the same slot, negated or not   true, or false
        index          0 ≤ i & i < length                     true
        slice          (0 ≤ lo & hi ≤ length) & lo ≤ hi       true
        opaque cast    the check of the same type             true
        union cast     the check of a member                  true, or false for the other of two -/

namespace Zith.Hir
open Types (TypeIntern)

def HirBinaryOp.lt : UInt8 := 7
def HirBinaryOp.le : UInt8 := 8
def HirBinaryOp.ge : UInt8 := 10
def HirBinaryOp.and : UInt8 := 11

/-- The member `i` of a literal. A text is the id it is interned under. -/
def HirLiteralValue.word (internedId : Text → UInt32) : HirLiteralValue → Int64
  | .i value => value
  | .f bits => bits.toInt64
  | .b value => if value then 1 else 0
  | .strVal s => (internedId s).toUInt64.toInt64

section
variable (m : HirModule) (types : TypeIntern) (internedId : Text → UInt32)

/-! ### Slots -/

def optionalSlot (id : HirExprId) : Option HirSlotId :=
  match m.tryExpr id with
  | some (.slotAddr slot _) => if slot = kInvalidHirSlot then none else some slot
  | _ => none

def slotOfValue (id : HirExprId) : Option HirSlotId :=
  match m.tryExpr id with
  | some (.slotAddr slot _) | some (.slotLoad slot _) => if slot = kInvalidHirSlot then none else some slot
  | _ => none

def sameValue (lhs rhs : HirExprId) : Bool :=
  lhs == rhs || (slotOfValue m lhs).isSome && slotOfValue m lhs == slotOfValue m rhs

def isSlotLoad (id : HirExprId) (slot : HirSlotId) : Bool :=
  match m.tryExpr id with
  | some (.slotLoad loaded _) => loaded == slot
  | _ => false

/-! ### Optional payloads -/

def isOptionalType (type : TypeId) : Bool :=
  match types.lookup type.toNat with
  | some (.optional _) => true
  | _ => false

/-- A chain of negations that is longer than the table of expressions is a circle; `guardPolarity` then
    has no answer either. -/
def presentWhenTrue (slot : HirSlotId) : ℕ → HirExprId → Option Bool
  | 0, _ => none
  | fuel + 1, id =>
    match m.tryExpr id with
    | some (.field object index _ objectType _) =>
      if index = 1 ∧ optionalSlot m object = some slot ∧ isOptionalType types objectType then some true else none
    | some (.unary op operand _) =>
      if op = HirUnaryOp.not then (presentWhenTrue slot fuel operand).map not else none
    | _ => none

def matchesOptionalFieldGuard (object : HirExprId) (index : UInt32) (objectType : TypeId)
    (condition : HirExprId) : Option Bool :=
  if index ≠ 0 ∨ !isOptionalType types objectType then none
  else do presentWhenTrue m types (← optionalSlot m object) (m.exprs.length + 1) condition

/-! ### Bounds -/

def isZero (id : HirExprId) : Bool :=
  match m.tryExpr id with
  | some (.literal value _) => value.word internedId == 0
  | _ => false

/-- Behind any number of casts, the length of the slice in the slot. -/
def isSliceLength (objectType : TypeId) (objectSlot : HirSlotId) : ℕ → HirExprId → Bool
  | 0, _ => false
  | depth + 1, length =>
    match m.tryExpr length with
    | some (.cast value _ _) => isSliceLength objectType objectSlot depth value
    | some (.field object index _ fieldObjectType _) =>
      index == 1 && fieldObjectType == objectType && isSlotLoad m object objectSlot
    | _ => false

def isLengthOf (id : HirExprId) (objectType : TypeId) (objectSlot : HirSlotId) : Bool :=
  match types.lookup objectType.toNat with
  | some (.array _ count) =>
    match m.tryExpr id with
    | some (.literal value _) =>
      0 ≤ value.word internedId && (value.word internedId).toUInt64.toNat == count.toNat
    | _ => false
  | some (.slice _) => isSliceLength m objectType objectSlot m.exprs.length id
  | _ => false

/-- The operands of a binary operation of this kind. -/
def binary (id : HirExprId) (op : UInt8) : Option (HirExprId × HirExprId) :=
  match m.tryExpr id with
  | some (.binary lhs rhs op' _ _) => if op' = op then some (lhs, rhs) else none
  | _ => none

def matchesIndexGuard (object index : HirExprId) (objType : TypeId) (condition : HirExprId) : Option Bool := do
  let objectSlot ← slotOfValue m object
  let indexSlot ← slotOfValue m index
  let allOk ← binary m condition HirBinaryOp.and
  let lower ← binary m allOk.1 HirBinaryOp.ge
  let upper ← binary m allOk.2 HirBinaryOp.lt
  if isSlotLoad m lower.1 indexSlot && isZero m internedId lower.2 && isSlotLoad m upper.1 indexSlot &&
      isLengthOf m types internedId upper.2 objType objectSlot then some true
  else none

def matchesSliceGuard (object lo hi : HirExprId) (objectType : TypeId) (condition : HirExprId) :
    Option Bool := do
  let objectSlot ← slotOfValue m object
  let loSlot ← slotOfValue m lo
  let hiSlot ← slotOfValue m hi
  let allOk ← binary m condition HirBinaryOp.and
  let first ← binary m allOk.1 HirBinaryOp.and
  let loNonnegative ← binary m first.1 HirBinaryOp.ge
  let hiBounded ← binary m first.2 HirBinaryOp.le
  let ordered ← binary m allOk.2 HirBinaryOp.le
  if isSlotLoad m loNonnegative.1 loSlot && isZero m internedId loNonnegative.2 &&
      isSlotLoad m hiBounded.1 hiSlot && isLengthOf m types internedId hiBounded.2 objectType objectSlot &&
      isSlotLoad m ordered.1 loSlot && isSlotLoad m ordered.2 hiSlot then some true
  else none

/-! ### Casts -/

def matchesOpaqueGuard (value : HirExprId) (opaqueType : TypeId) (typeId : UInt32)
    (canonicalId : Types.TypeCanonicalId) (condition : HirExprId) : Option Bool :=
  match m.tryExpr condition with
  | some (.opaqueCheck checked checkedOpaqueType checkedTypeId checkedCanonicalId) =>
    if checkedOpaqueType = opaqueType ∧ checkedTypeId = typeId ∧ checkedCanonicalId = canonicalId ∧
        sameValue m checked value then some true
    else none
  | _ => none

/-- The members of a union type. -/
def unionMembers (type : TypeId) : Option (List ℕ) :=
  match types.lookup type.toNat with
  | some (.union defId) => some (types.getUnionDef defId).members
  | _ => none

/-- The value whose member tag an expression reads. -/
def tagOf (id : HirExprId) (unionType : TypeId) : Option HirExprId :=
  match m.tryExpr id with
  | some (.field object index _ objectType _) =>
    if index = 1 ∧ objectType = unionType then some object else none
  | _ => none

def matchesUnionGuard (value : HirExprId) (source : TypeId) (memberIndex : UInt32) (condition : HirExprId) :
    Option Bool := do
  let members ← unionMembers types source
  match m.tryExpr condition with
  | some (.unionCheck tag unionType checkedIndex) =>
    if unionType ≠ source ∨ memberIndex.toNat ≥ members.length then none
    else
      let object ← tagOf m tag source
      if !sameValue m object value then none
      else if checkedIndex = memberIndex then some true
      else if members.length = 2 ∧ checkedIndex.toNat < members.length then some false
      else none
  | _ => none

/-! ### Guarded uses -/

/-- The matcher of a guarded operation, with the report when no branch matches. -/
def guardedUse : HirExpr → Option ((HirExprId → Option Bool) × String)
  | .field object index _ objectType .guarded =>
    some (matchesOptionalFieldGuard m types object index objectType,
      "HIR guarded optional payload lacks its dominating true edge")
  | .index object index _ objType _ .guarded =>
    some (matchesIndexGuard m types internedId object index objType,
      "HIR guarded index lacks its dominating bounds-check edge")
  | .makeSlice object lo hi _ objectType _ _ _ .guarded =>
    some (matchesSliceGuard m types internedId object lo hi objectType,
      "HIR guarded slice lacks its dominating bounds-check edge")
  | .unionCast value source _ memberIndex .guarded =>
    some (matchesUnionGuard m types value source memberIndex,
      "HIR guarded union cast lacks its matching member-check edge")
  | .opaqueCast value _ _ opaqueType _ typeId canonicalId .guarded _ =>
    some (matchesOpaqueGuard m value opaqueType typeId canonicalId,
      "HIR guarded opaque cast lacks its matching type-check edge")
  | _ => none

end

end Zith.Hir
