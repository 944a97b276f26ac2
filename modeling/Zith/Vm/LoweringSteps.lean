import Zith.Vm.LowerSteps

/-! The lowering of every expression and of the blocks of a function is made of steps: one lemma for each
    function of the lowering, by the rules, and an induction on the fuel that ties the knot. -/

namespace Zith.Vm
open Lib Hir Layout
open Cache (CompactSafetyMode)

section
variable {C : LowerContext} {R : Lowering}

/-! ### Addresses -/

theorem lowers_fieldAddress (hR : R.IsLowers) (object : HirExprId) (index : UInt32) (objectType : TypeId) :
    Lowers (fieldAddress C R object index objectType) := by
  refine (hR.address _).bind fun _ => .ite .pure (.ofOption fun _ => .ite (lowers_failed _) ?_)
  exact lowers_makes fun _ => lowers_emits .pure

theorem lowers_paramRegister {α : Type} {name : Text} {f : Option UInt16 → LowerM α} (h : ∀ o, Lowers (f o)) :
    Lowers (paramRegister C name >>= f) := by
  refine Moves.bind ?_ h
  rw [paramRegister]
  split
  · exact .get fun _ => .pure
  · exact .pure

theorem lowers_aggregateAddress (hR : R.IsLowers) (id : HirExprId) : Lowers (aggregateAddress C R id) := by
  refine .get fun _ => .ite .pure (lowers_getExpr fun expr => ?_)
  split
  · exact .get fun _ => .pure
  · exact .get fun _ => .pure
  · exact .ite (hR.operand _) (hR.operand _)
  · exact lowers_paramRegister fun _ => .pure
  · exact lowers_fieldAddress hR ..
  · exact hR.operand _

theorem lowers_storeField (address offset value : UInt16) : Lowers (storeField address offset value) :=
  lowers_makes fun _ => lowers_emits (lowers_emit _)

theorem lowers_lowerIndexAddress (hR : R.IsLowers) (object index : HirExprId) (type objType : TypeId)
    (isArray : Bool) : Lowers (lowerIndexAddress C R object index type objType isArray) := by
  refine (hR.operand _).bind fun _ => .ite .pure (.ite (lowers_failed _) (.ofOption fun _ => ?_))
  refine .ite (lowers_failed _) ((hR.operand _).bind fun _ => .ite .pure (lowers_makes fun _ => lowers_emits ?_))
  exact lowers_makes fun _ => lowers_emits (lowers_makes fun _ => lowers_emits .pure)

theorem lowers_lvalueAddress (hR : R.IsLowers) (target : HirExprId) : Lowers (lvalueAddress C R target) := by
  refine .get fun _ => .ite .pure (lowers_getExpr fun expr => ?_)
  split
  · exact lowers_fieldAddress hR ..
  · exact lowers_lowerIndexAddress hR ..
  · exact lowers_aggregateAddress hR _

/-! ### Literals of aggregates -/

theorem lowers_storeValue (hR : R.IsLowers) (op : Op) (type : ℕ) (size : Option ℕ) (addr : UInt16)
    (value : HirExprId) : Lowers (storeValue C R op type size addr value) := by
  refine .ite ((lowers_aggregateAddress hR _).bind fun _ => .ite .pure (.ofOption fun _ => ?_)) ?_
  · exact (lowers_copyBytes ..).bind fun _ => .pure
  · exact (hR.operand _).bind fun _ => .ite .pure (lowers_emits .pure)

theorem lowers_storeElements (hR : R.IsLowers) (elem elementSize : ℕ) (base : UInt16) :
    ∀ (elements : List HirExprId) (i : ℕ), Lowers (storeElements C R elem elementSize base elements i) := by
  intro elements
  induction elements with
  | nil => exact fun _ => .pure
  | cons element elements ih =>
    exact fun _ => lowers_makes fun _ => lowers_emits <| (lowers_storeValue hR ..).bind fun _ => .ite .pure (ih _)

theorem lowers_lowerArrayLiteral (hR : R.IsLowers) (elements : List HirExprId) (type : TypeId) :
    Lowers (lowerArrayLiteral C R elements type) := by
  refine .ofOption fun elementSize => ?_
  split
  · refine .ite .pure (lowers_makes fun _ => lowers_makes fun _ => lowers_emits (lowers_emits ?_))
    refine lowers_makes fun _ => lowers_emits ((lowers_storeElements hR ..).bind fun _ => ?_)
    exact .ite .pure .pure
  · exact .pure

theorem lowers_storeFields (hR : R.IsLowers) (type : TypeId) (base : UInt16) :
    ∀ (values : List HirExprId) (i : ℕ), Lowers (storeFields C R type base values i) := by
  intro values
  induction values with
  | nil => exact fun _ => .pure
  | cons value values ih =>
    intro i
    refine .ite (ih _) ?_
    split
    · exact ih _
    · refine .ofOption fun _ => .ite ((lowers_fail _).bind fun _ => .pure) (lowers_makes fun _ => lowers_emits ?_)
      exact (lowers_storeValue hR ..).bind fun _ => .ite .pure (ih _)

theorem lowers_lowerStructLiteral (hR : R.IsLowers) (values : List HirExprId) (type : TypeId) :
    Lowers (lowerStructLiteral C R values type) := by
  refine lowers_typeBytes fun _ => .ite (lowers_failed _) ?_
  refine lowers_makes fun _ => lowers_makes fun _ => lowers_makes fun _ => ?_
  refine lowers_emits <| lowers_emits <| lowers_emits <| (lowers_storeFields hR ..).bind fun _ => ?_
  exact .ite .pure .pure

/-! ### Leaves and operators -/

theorem lowers_lowerLiteral (value : HirLiteralValue) (type : TypeId) : Lowers (lowerLiteral C value type) := by
  refine (lowers_newReg _).bind fun reg => ?_
  split
  · exact .ofOption fun _ => lowers_emits .pure
  · exact .ofOption fun _ => lowers_emits .pure
  · exact .ofOption fun _ => lowers_emits .pure
  · refine .get fun _ => (lowers_u16 _).bind fun _ => .ite .pure (.ofOption fun _ => ?_)
    exact (lowers_pushF64Constant _).bind fun _ => lowers_emits .pure
  · exact .ofOption fun _ => (lowers_findOrAddString _).bind fun _ => lowers_emits .pure
  · exact (lowers_fail _).bind fun _ => .pure

theorem lowers_lowerPoolConstant (value : Int64) (type : TypeId) : Lowers (lowerPoolConstant C value type) := by
  refine .get fun _ => (lowers_u16 _).bind fun _ => lowers_isOk fun _ => .ite .pure ?_
  exact (lowers_pushI64Constant _).bind fun _ => (lowers_newReg _).bind fun _ => lowers_emits .pure

theorem lowers_lowerEnumValue (value : Int64) (type : TypeId) : Lowers (lowerEnumValue C value type) := by
  rw [lowerEnumValue]
  split
  · exact lowers_failed _
  · exact lowers_lowerPoolConstant ..

theorem lowers_lowerVar (name : Text) : Lowers (lowerVar C name) := by
  refine lowers_paramRegister fun reg => ?_
  split
  · exact .pure
  · exact lowers_failed _

theorem lowers_lowerBinary (hR : R.IsLowers) (lhs rhs : HirExprId) (op : UInt8) (type : TypeId) :
    Lowers (lowerBinary C R lhs rhs op type) := by
  refine (hR.operand _).bind fun _ => (hR.operand _).bind fun _ => .ite .pure ?_
  split
  · exact lowers_failed _
  · exact (lowers_newReg _).bind fun _ => lowers_emits .pure

theorem lowers_lowerDeref (hR : R.IsLowers) (operand : HirExprId) (type : TypeId) :
    Lowers (lowerDeref C R operand type) := by
  refine (hR.operand _).bind fun _ => .ite .pure (.ite .pure ?_)
  exact (lowers_newReg _).bind fun _ => lowers_emits .pure

theorem lowers_lowerUnary (hR : R.IsLowers) (op : UInt8) (operand : HirExprId) (type : TypeId) :
    Lowers (lowerUnary C R op operand type) := by
  refine .ite (lowers_lvalueAddress hR _) (.ite (lowers_lowerDeref hR ..) ?_)
  refine (hR.operand _).bind fun _ => .ite .pure ?_
  split
  · exact lowers_failed _
  · exact (lowers_newReg _).bind fun _ => lowers_emits .pure

theorem lowers_lowerCast (hR : R.IsLowers) (value : HirExprId) : Lowers (lowerCast R value) :=
  (hR.operand _).bind fun _ => .ite .pure .pure

/-! ### Slots, fields and unions -/

theorem lowers_lowerSlotAddr (slot : HirSlotId) : Lowers (lowerSlotAddr slot) :=
  lowers_slotRegister fun _ => .ite (lowers_failed _) .pure

theorem lowers_storeSlotBytes (hR : R.IsLowers) (destination : UInt16) (type : TypeId) (value : HirExprId) :
    Lowers (storeSlotBytes C R destination type value) := by
  refine (lowers_aggregateAddress hR _).bind fun _ => .ite .pure (.ite .pure (lowers_typeBytes fun _ => ?_))
  exact (lowers_copyBytes ..).bind fun _ => .pure

theorem lowers_lowerSlotStore (hR : R.IsLowers) (slot : HirSlotId) (value : HirExprId) :
    Lowers (lowerSlotStore C R slot value) := by
  refine lowers_slotRegister fun _ => .ite (lowers_failed _) (lowers_slotType fun _ => lowers_slotIsBacked fun _ => ?_)
  refine .ite ((hR.operand _).bind fun _ => lowers_regCount fun _ => .ite (lowers_failed _) ?_) ?_
  · exact lowers_emits ((lowers_storeField ..).bind fun _ => .pure)
  · refine .ite (lowers_storeSlotBytes hR ..) ((hR.operand _).bind fun _ => .ite .pure ?_)
    refine .ite (lowers_emits .pure) (.get fun _ => lowers_regCount fun _ => lowers_regCount fun _ => ?_)
    exact .ite (lowers_failed _) ((lowers_emitAll _).bind fun _ => (lowers_emitAll _).bind fun _ => .pure)

theorem lowers_lowerSliceField (hR : R.IsLowers) (object : HirExprId) (index : UInt32) :
    Lowers (lowerSliceField R object index) := by
  refine (hR.operand _).bind fun _ => .ite .pure (.ite .pure (.ite ?_ (lowers_failed _)))
  exact lowers_regCount fun _ => .ite (lowers_failed _) (lowers_makes fun _ => lowers_emits .pure)

theorem lowers_lowerField (hR : R.IsLowers) (object : HirExprId) (index : UInt32) (type objectType : TypeId) :
    Lowers (lowerField C R object index type objectType) := by
  refine .ite ((lowers_aggregateAddress hR _).bind fun _ => .ite .pure (lowers_loadUnionTag ..)) ?_
  refine .ite (lowers_lowerSliceField hR ..) ((lowers_fieldAddress hR ..).bind fun _ => .ite .pure (.ite .pure ?_))
  exact (lowers_newReg _).bind fun _ => lowers_emits .pure

theorem lowers_tagged (target : TypeId) (memberIndex : UInt32) (d : Types.UnionDef) (storage : UInt16) :
    Lowers (lowerToUnion.tagged C target memberIndex d storage) :=
  .ite ((lowers_storeUnionTag ..).bind fun _ => .ite .pure .pure) .pure

theorem lowers_lowerToUnion (hR : R.IsLowers) (value : HirExprId) (source target : TypeId) (memberIndex : UInt32) :
    Lowers (lowerToUnion C R value source target memberIndex) := by
  rw [lowerToUnion]
  split
  · exact lowers_failed _
  · refine .ite (lowers_failed _) (lowers_typeBytes fun _ => .ite (lowers_failed _) ?_)
    refine (lowers_allocateGuestBytes _).bind fun _ => (hR.operand _).bind fun _ => .ite .pure (.ite ?_ ?_)
    · refine (lowers_aggregateAddress hR _).bind fun _ => lowers_typeBytes fun _ => .ite (lowers_failed _) ?_
      exact (lowers_copyBytes ..).bind fun _ => lowers_tagged ..
    · exact lowers_emits (lowers_tagged ..)

theorem lowers_loaded (target : TypeId) (storage : UInt16) : Lowers (lowerFromUnion.loaded C target storage) :=
  .ite .pure ((lowers_newReg _).bind fun _ => lowers_emits .pure)

theorem lowers_lowerFromUnion (hR : R.IsLowers) (value : HirExprId) (source target : TypeId) (memberIndex : UInt32)
    (safety : CompactSafetyMode) : Lowers (lowerFromUnion C R value source target memberIndex safety) := by
  refine (lowers_aggregateAddress hR _).bind fun _ => .ite .pure (.ite ?_ (lowers_loaded ..))
  exact (lowers_emitCheckedUnionCast ..).bind fun _ => .ite .pure (lowers_loaded ..)

theorem lowers_lowerUnionCast (hR : R.IsLowers) (value : HirExprId) (source target : TypeId) (memberIndex : UInt32)
    (safety : CompactSafetyMode) : Lowers (lowerUnionCast C R value source target memberIndex safety) := by
  rw [lowerUnionCast]
  split
  · exact lowers_lowerToUnion hR ..
  · exact lowers_lowerFromUnion hR ..
  · exact lowers_failed _

theorem lowers_lowerUnionCheck (hR : R.IsLowers) (value : HirExprId) (memberIndex : UInt32) :
    Lowers (lowerUnionCheck C R value memberIndex) := by
  refine .ite (lowers_failed _) ((hR.operand _).bind fun _ => .ite .pure ?_)
  refine (lowers_emitI64Constant _).bind fun _ => .ite .pure ?_
  exact (lowers_newReg _).bind fun _ => lowers_emits .pure

/-! ### Indexing and slices -/

theorem lowers_emitIndexLoad (object indexReg : UInt16) (elementSize : ℕ) (length : UInt16)
    (lengthRegister raw byteElement : Bool) (type : TypeId) :
    Lowers (emitIndexLoad C object indexReg elementSize length lengthRegister raw byteElement type) :=
  lowers_makes fun _ => lowers_emits <| .ite .pure <| (lowers_newReg _).bind fun _ => lowers_emits .pure

theorem lowers_lowerArrayIndex (hR : R.IsLowers) (object : UInt16) (index : HirExprId) (type objType : TypeId)
    (safety : CompactSafetyMode) : Lowers (lowerArrayIndex C R object index type objType safety) := by
  refine .ofOption fun _ => ?_
  split
  · exact .ite (lowers_failed _) ((hR.operand _).bind fun _ => .ite .pure (lowers_emitIndexLoad ..))
  · exact lowers_failed _

theorem lowers_lowerSliceIndex (hR : R.IsLowers) (object : UInt16) (index : HirExprId) (elem : ℕ) (type : TypeId)
    (safety : CompactSafetyMode) : Lowers (lowerSliceIndex C R object index elem type safety) := by
  refine .ofOption fun _ => (hR.operand _).bind fun _ => lowers_regCount fun _ => lowers_regCount fun _ => ?_
  exact .ite (lowers_failed _) (lowers_emitIndexLoad ..)

theorem lowers_lowerLiteralIndex (object : UInt16) (index : HirExprId) (type objType : TypeId) :
    Lowers (lowerLiteralIndex C object index type objType) := by
  refine lowers_getExpr fun expr => ?_
  split
  · refine (lowers_newReg _).bind fun _ => .ofOption fun _ => lowers_emits ((lowers_newReg _).bind fun _ => ?_)
    exact lowers_emits ((lowers_newReg _).bind fun _ => lowers_emits .pure)
  · exact lowers_failed _

theorem lowers_lowerPointerIndex (hR : R.IsLowers) (object : UInt16) (index : HirExprId) (pointee : ℕ)
    (type objType : TypeId) : Lowers (lowerPointerIndex C R object index pointee type objType) := by
  refine .ofOption fun _ => .ite (lowers_lowerLiteralIndex ..) ((hR.operand _).bind fun _ => .ite .pure ?_)
  exact lowers_emitIndexLoad ..

theorem lowers_lowerIndex (hR : R.IsLowers) (object index : HirExprId) (type objType : TypeId) (isArray : Bool)
    (safety : CompactSafetyMode) : Lowers (lowerIndex C R object index type objType isArray safety) := by
  refine (hR.operand _).bind fun _ => .ite .pure (.ite (lowers_lowerArrayIndex hR ..) ?_)
  split
  · exact lowers_lowerSliceIndex hR ..
  · exact lowers_lowerPointerIndex hR ..
  · exact lowers_lowerLiteralIndex ..

theorem lowers_lowerLength (operand : UInt16) (operandType : TypeId) (stringLength : UInt64) :
    Lowers (lowerLength C operand operandType stringLength) := by
  rw [lowerLength]
  split
  · exact lowers_regCount fun _ => .ite .pure .pure
  · exact lowers_makes fun _ => lowers_emits .pure
  · exact .ite .pure (lowers_makes fun _ => lowers_emits .pure)

theorem lowers_lowerLayoutIntrinsic (hR : R.IsLowers) (which : UInt8) (type : TypeId) (operand : HirExprId)
    (operandType : TypeId) (stringLength : UInt64) :
    Lowers (lowerLayoutIntrinsic C R which type operand operandType stringLength) := by
  refine .ite .pure ((hR.operand _).bind fun _ => .ite .pure (.ite (.ite .pure ?_) (.ite .pure ?_)))
  · exact (lowers_newReg _).bind fun _ => lowers_emits .pure
  · refine .ite (lowers_lowerLength ..) (lowers_makes fun _ => lowers_emits ?_)
    exact lowers_makes fun _ => lowers_emits .pure

theorem lowers_sliceData (pointer lo : UInt16) (loExpr : HirExpr) (elementSize : ℕ) :
    Lowers (sliceData pointer lo loExpr elementSize) := by
  refine .ofOption fun _ => .ite .pure (lowers_makes fun _ => lowers_emits ?_)
  exact lowers_makes fun _ => lowers_emits (lowers_makes fun _ => lowers_emits .pure)

theorem lowers_lowerMakeSlice (hR : R.IsLowers) (object lo hi : HirExprId) (type : TypeId) (isPointer : Bool) :
    Lowers (lowerMakeSlice C R object lo hi type isPointer) := by
  refine (lowers_lowerStringSlicePointerAndLength ..).bind fun _ => .ite (lowers_makeSlicePair ..) ?_
  refine (hR.operand _).bind fun _ => (hR.operand _).bind fun _ => (hR.operand _).bind fun _ => .ite .pure ?_
  refine .ofOption fun _ => .ite (lowers_failed _) (lowers_getExpr fun _ => (lowers_sliceData ..).bind fun _ => ?_)
  exact lowers_makes fun _ => lowers_emits (lowers_makeSlicePair ..)

/-! ### Optionals, dynamic and opaque values -/

theorem lowers_lowerMakeNone (type : TypeId) : Lowers (lowerMakeNone C type) := by
  rw [lowerMakeNone]
  split
  · refine .ite (lowers_lowerPoolConstant ..) (lowers_typeBytes fun _ => (lowers_allocateGuestBytes _).bind fun _ => ?_)
    refine .ite .pure (.ofOption fun _ => (lowers_u16 _).bind fun _ => lowers_isOk fun _ => .ite .pure ?_)
    exact lowers_makes fun _ => lowers_emits (lowers_makes fun _ => lowers_emits (lowers_emits .pure))
  · exact lowers_failed _

theorem lowers_storePresent (base : UInt16) (innerSize : ℕ) : Lowers (storePresent base innerSize) :=
  lowers_makes fun _ => (lowers_u16 _).bind fun _ => lowers_emits <| lowers_makes fun _ => lowers_emits (lowers_emit _)

theorem lowers_lowerMakeSome (hR : R.IsLowers) (value : HirExprId) (type : TypeId) :
    Lowers (lowerMakeSome C R value type) := by
  rw [lowerMakeSome]
  split
  · refine (hR.operand _).bind fun _ => .ite .pure (.ite .pure (.ofOption fun _ => lowers_typeBytes fun _ => ?_))
    refine (lowers_allocateGuestBytes _).bind fun _ => .ite .pure (.ite ?_ ?_)
    · refine (lowers_aggregateAddress hR _).bind fun _ => .ite .pure ((lowers_copyBytes ..).bind fun _ => ?_)
      exact (lowers_storePresent ..).bind fun _ => .pure
    · exact lowers_emits ((lowers_storePresent ..).bind fun _ => .pure)
  · exact lowers_failed _

theorem lowers_functionIndexForSymbol (id : HirFunctionId) : Lowers (functionIndexForSymbol C id) :=
  .ite .pure (.ite .pure (lowers_failed _))

theorem lowers_dynData (hR : R.IsLowers) (value : HirExprId) (sourceType : TypeId) (valueIsPlace : Bool) :
    Lowers (dynData C R value sourceType valueIsPlace) := by
  refine .ite ((hR.operand _).bind fun _ => lowers_regCount fun _ => .ite .pure (lowers_typeBytes fun _ => ?_)) ?_
  · refine (lowers_allocateGuestBytes _).bind fun _ => .ite .pure (lowers_emits ?_)
    exact (lowers_storeField ..).bind fun _ => .pure
  · refine .ite (hR.operand _) (.ite (lowers_aggregateAddress hR _) ((hR.operand _).bind fun _ => .ite .pure ?_))
    refine lowers_typeBytes fun _ => (lowers_allocateGuestBytes _).bind fun _ => ?_
    exact (lowers_emitAll _).bind fun _ => .pure

theorem lowers_storeVTable (vtableData : UInt16) : ∀ (slots : List HirFunctionId) (slot : ℕ),
    Lowers (storeVTable C vtableData slots slot) := by
  intro slots
  induction slots with
  | nil => exact fun _ => .pure
  | cons id slots ih =>
    intro slot
    refine (lowers_functionIndexForSymbol _).bind fun _ => .ite .pure (lowers_makes fun _ => lowers_emits ?_)
    refine lowers_makes fun _ => (lowers_u16 _).bind fun _ => lowers_emits (lowers_isOk fun _ => .ite .pure ?_)
    exact lowers_emits (ih _)

theorem lowers_lowerMakeDyn (hR : R.IsLowers) (value : HirExprId) (sourceType dynType : TypeId) (vtableName : Text)
    (valueIsPlace : Bool) : Lowers (lowerMakeDyn C R value sourceType dynType vtableName valueIsPlace) := by
  refine .ite (lowers_failed _) ?_
  split
  · exact lowers_failed _
  · refine .ite (lowers_failed _) ((lowers_dynData hR ..).bind fun _ => .ite .pure (lowers_typeBytes fun _ => ?_))
    refine (lowers_allocateGuestBytes _).bind fun _ => (lowers_allocateGuestBytes _).bind fun _ => .ite .pure ?_
    refine (lowers_storeField ..).bind fun _ => (lowers_storeField ..).bind fun _ => ?_
    exact (lowers_storeVTable ..).bind fun _ => .ite .pure .pure

theorem lowers_storeOpaque (payloadData : UInt16) (opaqueType : TypeId) (typeId : UInt32) :
    Lowers (storeOpaque C payloadData opaqueType typeId) := by
  refine lowers_typeBytes fun _ => (lowers_allocateGuestBytes _).bind fun _ => .ite .pure ?_
  refine (lowers_storeField ..).bind fun _ => lowers_makes fun _ => lowers_emits ?_
  exact (lowers_emitI64Constant _).bind fun _ => .ite .pure (lowers_emits .pure)

theorem lowers_lowerMakeOpaque (hR : R.IsLowers) (value : HirExprId) (sourceType opaqueType : TypeId)
    (typeId : UInt32) : Lowers (lowerMakeOpaque C R value sourceType opaqueType typeId) := by
  refine .ite (lowers_failed _) ((hR.operand _).bind fun _ => .ite .pure (lowers_typeBytes fun _ => ?_))
  refine (lowers_allocateGuestBytes _).bind fun _ => .ite .pure (.ite ?_ (lowers_emits (lowers_storeOpaque ..)))
  refine (lowers_aggregateAddress hR _).bind fun _ => .ite (lowers_failed _) ?_
  exact (lowers_copyBytes ..).bind fun _ => lowers_storeOpaque ..

theorem lowers_lowerOpaqueCheck (hR : R.IsLowers) (value : HirExprId) (opaqueType : TypeId) (typeId : UInt32) :
    Lowers (lowerOpaqueCheck C R value opaqueType typeId) := by
  refine .ite (lowers_failed _) ((lowers_aggregateAddress hR _).bind fun _ => .ite .pure ?_)
  refine (lowers_loadField ..).bind fun _ => (lowers_emitI64Constant _).bind fun _ => .ite .pure ?_
  exact (lowers_newReg _).bind fun _ => lowers_emits .pure

theorem lowers_lowerOpaqueCast (hR : R.IsLowers) (value : HirExprId) (target opaqueType : TypeId)
    (safety : CompactSafetyMode) (returnsPtr : Bool) :
    Lowers (lowerOpaqueCast C R value target opaqueType safety returnsPtr) := by
  refine .ite (lowers_failed _) ((lowers_aggregateAddress hR _).bind fun _ => .ite .pure ?_)
  exact (lowers_loadField ..).bind fun _ => .ite .pure ((lowers_newReg _).bind fun _ => lowers_emits .pure)

/-! ### Assignment, pipes and cleanups -/

theorem lowers_lowerAssign (hR : R.IsLowers) (target value : HirExprId) : Lowers (lowerAssign C R target value) := by
  refine (lowers_lvalueAddress hR _).bind fun _ => .ite .pure (lowers_getExpr fun _ => .ite ?_ ?_)
  · refine (lowers_aggregateAddress hR _).bind fun _ => .ite .pure (lowers_typeBytes fun _ => ?_)
    exact (lowers_copyBytes ..).bind fun _ => .pure
  · exact (hR.operand _).bind fun _ => .ite .pure (lowers_emits .pure)

theorem lowers_lowerPipe (hR : R.IsLowers) (sourceSlot : HirSlotId) (sourceType : TypeId) (stage : HirExprId)
    (isEffect : Bool) : Lowers (lowerPipe C R sourceSlot sourceType stage isEffect) :=
  (hR.operand _).bind fun _ => .ite .pure <| lowers_isOk fun _ => .ite .pure (lowers_lowerSlotValue ..)

theorem lowers_lowerCleanup (hR : R.IsLowers) : ∀ exprs : List HirExprId, Lowers (lowerCleanup R exprs) := by
  intro exprs
  induction exprs with
  | nil => exact .pure
  | cons expr exprs ih => exact (hR.operand _).bind fun _ => lowers_isOk fun _ => .ite .pure ih

/-! ### The recursion -/

theorem lowers_lowerExpr (hR : R.IsLowers) (expr : HirExpr) : Lowers (lowerExpr C R expr) := by
  cases expr with
  | literal => exact lowers_lowerLiteral ..
  | enumValue => exact lowers_lowerEnumValue ..
  | var => exact lowers_lowerVar _
  | externalGlobalAddr => exact (lowers_fail _).bind fun _ => .pure
  | binary => exact lowers_lowerBinary hR ..
  | unary => exact lowers_lowerUnary hR ..
  | slotLoad => exact lowers_lowerSlotValue ..
  | slotAddr => exact lowers_lowerSlotAddr _
  | slotStore => exact lowers_lowerSlotStore hR ..
  | field => exact lowers_lowerField hR ..
  | unionCast => exact lowers_lowerUnionCast hR ..
  | unionCheck => exact lowers_lowerUnionCheck hR ..
  | makeDyn => exact lowers_lowerMakeDyn hR ..
  | dynCall => exact lowers_lowerDynCall hR ..
  | makeOpaque => exact lowers_lowerMakeOpaque hR ..
  | opaqueCast => exact lowers_lowerOpaqueCast hR ..
  | opaqueCheck => exact lowers_lowerOpaqueCheck hR ..
  | makeNone => exact lowers_lowerMakeNone _
  | makeSome => exact lowers_lowerMakeSome hR ..
  | structLiteral => exact lowers_lowerStructLiteral hR ..
  | assign => exact lowers_lowerAssign hR ..
  | cast => exact lowers_lowerCast hR _
  | index => exact lowers_lowerIndex hR ..
  | layoutIntrinsic => exact lowers_lowerLayoutIntrinsic hR ..
  | makeSlice => exact lowers_lowerMakeSlice hR ..
  | arrayLiteral => exact lowers_lowerArrayLiteral hR ..
  | call => exact lowers_lowerCall hR ..
  | pipe => exact lowers_lowerPipe hR ..
  | pipeCurrent => exact lowers_lowerSlotValue ..
  | cleanup => exact lowers_lowerCleanup hR _
  | «let» | ret | branch | jump | phi | slotAlloca | stateTailCall | canonicalType | globalConstLoad | runtimePanic =>
    exact (lowers_fail _).bind fun _ => .pure

theorem lowers_remember (id : HirExprId) (reg : UInt16) : Lowers (remember id reg) := by
  refine ⟨fun s a t h => ?_⟩
  cases h
  dsimp only
  split
  · exact .refl
  · exact .single (.remembered s _)

theorem lowers_lowerOperand (hR : R.IsLowers) (id : HirExprId) : Lowers (lowerOperand C R id) := by
  refine .get fun s => ?_
  split
  · exact .pure
  · refine .ite .pure (lowers_getExpr fun expr => (lowers_lowerExpr hR expr).bind fun _ => ?_)
    exact (lowers_remember ..).bind fun _ => .pure

theorem lowers_lowering : ∀ fuel : ℕ, (lowering C fuel).IsLowers := by
  intro fuel
  induction fuel with
  | zero => exact ⟨fun _ => ⟨fun _ _ _ h => nomatch h⟩, fun _ => ⟨fun _ _ _ h => nomatch h⟩⟩
  | succ fuel ih => exact ⟨lowers_lowerOperand ih, lowers_aggregateAddress ih⟩

/-! ### The code of a function -/

theorem lowers_allocateSlots : ∀ slots : List HirSlotId, Lowers (allocateSlots C slots) := by
  intro slots
  induction slots with
  | nil => exact .pure
  | cons slot slots ih =>
    refine .get fun s => lowers_slotType fun _ => lowers_slotIsBacked fun _ => .ite ih ?_
    refine lowers_slotRegister fun _ => .ite ((lowers_fail _).bind fun _ => .pure) (.ofOption fun layout => ?_)
    refine .ite ((lowers_fail _).bind fun _ => .pure) (lowers_makes fun _ => lowers_emits ?_)
    exact (lowers_emitI64Constant _).bind fun _ => lowers_emits ih

theorem lowers_lowerInsts (hR : R.IsLowers) : ∀ ids : List HirExprId, Lowers (lowerInsts C R ids) := by
  intro ids
  induction ids with
  | nil => exact .pure
  | cons id ids ih =>
    refine lowers_getExpr fun expr => ?_
    split
    · exact ih
    · exact (lowers_lowerSlotStore hR ..).bind fun _ => lowers_isOk fun _ => .ite .pure ih
    · exact (hR.operand _).bind fun _ => ih

theorem lowers_failReturn (message : String) : Lowers (failReturn C message) :=
  lowers_isOk fun _ => .ite ((lowers_fail _).bind fun _ => .pure) .pure

theorem lowers_lowerRet (hR : R.IsLowers) (value : HirExprId) : Lowers (lowerRet C R value) := by
  refine .get fun _ => .get fun _ => .ite (.ite ?_ (lowers_emits .pure)) (.ite (lowers_emits .pure) ?_)
  · refine (lowers_aggregateAddress hR _).bind fun _ => .ite (lowers_failReturn _) (lowers_typeBytes fun _ => ?_)
    exact (lowers_copyBytes ..).bind fun _ => lowers_emits .pure
  · exact (hR.operand _).bind fun _ => .ite (lowers_failReturn _) (lowers_emits .pure)

theorem lowers_lowerTerminator (hR : R.IsLowers) (id : HirExprId) : Lowers (lowerTerminator C R id) := by
  refine lowers_getExpr fun expr => ?_
  split
  · exact lowers_lowerRet hR _
  · exact .ite ((lowers_fail _).bind fun _ => .pure) (.get fun _ => lowers_emits .pure)
  · refine (hR.operand _).bind fun _ => lowers_isOk fun _ => .ite .pure (.ite ((lowers_fail _).bind fun _ => .pure) ?_)
    exact .get fun _ => lowers_emits .pure
  · exact (lowers_lowerCall hR ..).bind fun _ => lowers_isOk fun _ => .ite .pure .pure
  · exact .ite ((lowers_fail _).bind fun _ => .pure) (lowers_emits .pure)
  · exact .pure

theorem lowers_lowerBlocks (hR : R.IsLowers) : ∀ blocks : List HirBasicBlock, Lowers (lowerBlocks C R blocks) := by
  intro blocks
  induction blocks with
  | nil => exact .pure
  | cons block blocks ih =>
    refine .get fun _ => (lowers_lowerInsts hR _).bind fun _ => .ite .pure ?_
    refine (Moves.ite .pure (lowers_lowerTerminator hR _)).bind fun targets => ?_
    split
    · exact .pure
    · refine ih.bind fun rest => ?_
      split
      · exact .pure
      · exact .pure

theorem lowers_patchTargets (starts : List ℕ) : ∀ targets : List PendingTarget,
    Lowers (patchTargets starts targets) := by
  intro targets
  induction targets with
  | nil => exact .pure
  | cons target targets ih =>
    rw [patchTargets]
    split
    · exact (lowers_fail _).bind fun _ => .pure
    · refine .get fun _ => .ite ((lowers_fail _).bind fun _ => .pure) ((lowers_u16 _).bind fun _ => ?_)
      exact (Moves.modify fun s => .code s _).bind fun _ => ih

end

end Zith.Vm
