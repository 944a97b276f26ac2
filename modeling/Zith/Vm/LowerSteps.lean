import Zith.Lib.Moves
import Zith.Vm.LowerModule

/-! What the lowering of the expressions and the blocks of a function can do to its state, said once: every
    run of it is made of the eight steps of `LowerStep`. -/

namespace Zith.Vm
open Lib Hir Layout
open Cache (CompactSafetyMode)

/-- A step of the lowering. -/
inductive LowerStep : LowerState → LowerState → Prop
  | failed (s : LowerState) (message : List UInt8) : LowerStep s { s with result := ⟨false, message⟩ }
  | tables (s : LowerState) (out : Module) (h : out.functions = s.out.functions) : LowerStep s { s with out }
  | code (s : LowerState) (body : List Instr) : LowerStep s { s with fn := { s.fn with body } }
  | remembered (s : LowerState) (regs : List UInt16) : LowerStep s { s with regs }
  | made {s t : LowerState} {vt : ValueType} {reg : UInt16} (h : newTypedReg vt s = some (reg, t)) : LowerStep s t
  | padded {s t : LowerState} (h : padRegTypes s = some ((), t)) : LowerStep s t
  | variadic {s t : LowerState} {count : ℕ} (h : pushVariadicWindow count s = some ((), t)) : LowerStep s t
  | window {s t : LowerState} {types : List ValueType} (h : pushWindow types s = some ((), t)) : LowerStep s t

/-- A part of the lowering that is made of steps. -/
abbrev Lowers {α : Type} (m : LowerM α) : Prop := Moves LowerStep m

/-- The number of a register that is followed by another. -/
theorem toNat_succ_of_ne {reg : UInt16} (h : reg ≠ kUnassignedReg) : (reg + 1).toNat = reg.toNat + 1 := by
  have hne : reg.toNat ≠ 0xFFFF := fun heq => h (UInt16.toNat_inj.mp heq)
  have hlt := reg.toNat_lt
  rw [UInt16.toNat_add, UInt16.toNat_one, Nat.mod_eq_of_lt (by omega)]

/-! ### Failures and tables -/

theorem lowers_fail (message : List UInt8) : Lowers (fail message) := .modify fun s => .failed s message

theorem lowers_failed (message : String) : Lowers (failed message) := (lowers_fail _).bind fun _ => .pure

variable {α : Type}

theorem lowers_isOk {f : Bool → LowerM α} (h : ∀ b, Lowers (f b)) : Lowers (isOk >>= f) :=
  (Moves.get fun _ => .pure).bind h

theorem lowers_regCount {f : ℕ → LowerM α} (h : ∀ n, Lowers (f n)) : Lowers (regCount >>= f) :=
  (Moves.get fun _ => .pure).bind h

theorem lowers_u16 (value : ℕ) : Lowers (u16 value) := .ite ((lowers_fail _).bind fun _ => .pure) .pure

theorem lowers_tables (f : Module → Module) (h : ∀ out, (f out).functions = out.functions) :
    Lowers (modify fun s => { s with out := f s.out } : LowerM PUnit) :=
  .modify fun s => .tables s (f s.out) (h s.out)

theorem lowers_findOrAddString (s : List UInt8) : Lowers (findOrAddString s) := by
  refine .get fun st => ?_
  dsimp only
  split
  · exact lowers_u16 _
  · exact (lowers_tables (fun out => { out with strings := st.out.strings ++ [s] }) fun _ => rfl).bind fun _ => lowers_u16 _

theorem lowers_findOrAddExtern (name : List UInt8) : Lowers (findOrAddExtern name) := by
  refine .get fun st => ?_
  dsimp only
  split
  · exact lowers_u16 _
  · exact (lowers_tables (fun out => { out with externs := st.out.externs ++ [name] }) fun _ => rfl).bind fun _ => lowers_u16 _

theorem lowers_pushI64Constant (value : Int64) : Lowers (pushI64Constant value) :=
  lowers_tables (fun out => { out with i64Constants := out.i64Constants ++ [value] }) fun _ => rfl

theorem lowers_pushF64Constant (bits : Int64) : Lowers (pushF64Constant bits) :=
  lowers_tables (fun out => { out with f64Constants := out.f64Constants ++ [bits] }) fun _ => rfl

/-! ### Instructions and registers -/

theorem lowers_emitAll (instrs : List Instr) : Lowers (emitAll instrs) := .modify fun s => .code s _

theorem lowers_emit (instr : Instr) : Lowers (emit instr) := lowers_emitAll _

theorem lowers_newTypedReg (vt : ValueType) : Lowers (newTypedReg vt) := ⟨fun _ _ _ h => .single (.made h)⟩

theorem lowers_newTypedRegs : ∀ vts : List ValueType, Lowers (newTypedRegs vts)
  | [] => .pure
  | vt :: vts => (lowers_newTypedReg vt).bind fun _ => lowers_newTypedRegs vts

theorem lowers_padRegTypes : Lowers padRegTypes := ⟨fun _ _ _ h => .single (.padded h)⟩

theorem lowers_pushVariadicWindow (count : ℕ) : Lowers (pushVariadicWindow count) :=
  ⟨fun _ _ _ h => .single (.variadic h)⟩

theorem lowers_pushWindow (types : List ValueType) : Lowers (pushWindow types) := ⟨fun _ _ _ h => .single (.window h)⟩

/-- An instruction, and what comes behind it. -/
theorem lowers_emits {instr : Instr} {m : LowerM α} (h : Lowers m) : Lowers (do emit instr; m) :=
  (lowers_emit instr).bind fun _ => h

/-- A new register, and what is done with it. -/
theorem lowers_makes {vt : ValueType} {f : UInt16 → LowerM α} (h : ∀ reg, Lowers (f reg)) :
    Lowers (newTypedReg vt >>= f) := (lowers_newTypedReg vt).bind h

/-! ### Constants and storage -/

theorem lowers_emitI64Constant (value : Int64) : Lowers (emitI64Constant value) := by
  refine lowers_makes fun reg => .ite (lowers_emits .pure) (.get fun s => (lowers_u16 _).bind fun index => ?_)
  exact lowers_isOk fun ok => .ite .pure ((lowers_pushI64Constant value).bind fun _ => lowers_emits .pure)

theorem lowers_copyBytes (dst src : UInt16) (size : ℕ) : Lowers (copyBytes dst src size) :=
  lowers_makes fun _ => (lowers_u16 _).bind fun _ => lowers_emits (lowers_emit _)

theorem lowers_allocateGuestBytes (size : ℕ) : Lowers (allocateGuestBytes size) :=
  .ite (lowers_failed _) <| lowers_makes fun _ => lowers_makes fun _ => lowers_makes fun _ => (lowers_u16 _).bind fun _ =>
    lowers_emits (lowers_emits (lowers_emits .pure))

theorem lowers_makeSlicePair (pointer length : UInt16) : Lowers (makeSlicePair pointer length) :=
  lowers_makes fun _ => lowers_makes fun _ => lowers_emits .pure

/-- A slot is only read. -/
theorem lowers_slotRegister {slot : HirSlotId} {f : UInt16 → LowerM α} (h : ∀ reg, Lowers (f reg)) :
    Lowers (slotRegister slot >>= f) := (Moves.get fun _ => .pure).bind h

theorem lowers_slotIsBacked {slot : HirSlotId} {f : Bool → LowerM α} (h : ∀ b, Lowers (f b)) :
    Lowers (slotIsBacked slot >>= f) := (Moves.get fun _ => .pure).bind h

theorem lowers_slotType {slot : HirSlotId} {f : TypeId → LowerM α} (h : ∀ type, Lowers (f type)) :
    Lowers (slotType slot >>= f) := (Moves.get fun _ => .pure).bind h

section
variable {C : LowerContext}

theorem lowers_newReg (type : TypeId) : Lowers (newReg C type) := lowers_newTypedReg _

theorem lowers_typeBytes {α : Type} {type : TypeId} {f : ℕ → LowerM α} (h : ∀ n, Lowers (f n)) :
    Lowers (typeBytes C type >>= f) := .ofOption h

theorem lowers_getExpr {α : Type} {id : HirExprId} {f : HirExpr → LowerM α} (h : ∀ expr, Lowers (f expr)) :
    Lowers (getExpr C id >>= f) := .ofOption h

/-! ### Tags of unions -/

theorem lowers_unionTagByteAddress (address : UInt16) (type : TypeId) (byteIndex : ℕ) :
    Lowers (unionTagByteAddress C address type byteIndex) :=
  .ofOption fun _ => .ite (lowers_failed _) <| lowers_makes fun _ => lowers_emits .pure

theorem lowers_loadTagBytes (address : UInt16) (type : TypeId) :
    ∀ (left i : ℕ) (value : UInt16), Lowers (loadTagBytes C address type left i value) := by
  intro left
  induction left with
  | zero => exact fun _ _ => .pure
  | succ left ih =>
    intro i value
    refine (lowers_unionTagByteAddress ..).bind fun _ => .ite .pure <| lowers_makes fun _ => lowers_emits <|
      .ite (ih _ _) ?_
    refine (lowers_emitI64Constant _).bind fun _ => .ite .pure ?_
    exact lowers_makes fun _ => lowers_emits <| lowers_makes fun _ => lowers_emits <| ih _ _

theorem lowers_loadUnionTag (address : UInt16) (type : TypeId) : Lowers (loadUnionTag C address type) :=
  .ite (lowers_failed _) (lowers_loadTagBytes ..)

theorem lowers_storeTagBytes (address : UInt16) (type : TypeId) (value : UInt16) :
    ∀ left i : ℕ, Lowers (storeTagBytes C address type value left i) := by
  intro left
  induction left with
  | zero => exact fun _ => .pure
  | succ left ih =>
    intro i
    refine (lowers_unionTagByteAddress ..).bind fun _ => .ite .pure <| .ite (lowers_emits (ih _)) ?_
    refine (lowers_emitI64Constant _).bind fun _ => .ite .pure ?_
    exact lowers_makes fun _ => lowers_emits <| lowers_emits <| ih _

theorem lowers_storeUnionTag (address : UInt16) (type : TypeId) (memberIndex : UInt32) :
    Lowers (storeUnionTag C address type memberIndex) :=
  .ite ((lowers_fail _).bind fun _ => .pure) <| (lowers_emitI64Constant _).bind fun _ =>
    .ite .pure (lowers_storeTagBytes ..)

theorem lowers_emitCheckedUnionCast (address : UInt16) (type : TypeId) (memberIndex : UInt32) :
    Lowers (emitCheckedUnionCast C address type memberIndex) := by
  refine (lowers_loadUnionTag ..).bind fun _ => .ite .pure ?_
  refine (lowers_emitI64Constant _).bind fun _ => .ite .pure ?_
  refine lowers_makes fun _ => lowers_emits <| .get fun _ => .ite ?_ (lowers_emits (lowers_emits .pure))
  exact (lowers_fail _).bind fun _ => .pure

/-! ### Slots -/

theorem lowers_lowerSlotValue (slot : HirSlotId) (type : TypeId) : Lowers (lowerSlotValue C slot type) := by
  refine lowers_slotRegister fun base => .ite (lowers_failed _) <| lowers_slotIsBacked fun backed => .ite ?_ ?_
  · refine lowers_makes fun _ => lowers_makes fun _ => lowers_emits ?_
    exact lowers_makes fun _ => lowers_emits (lowers_emits .pure)
  · exact .ite .pure ((lowers_newReg _).bind fun _ => lowers_emits .pure)

end

/-! ### Calls -/

/-- Below an expression the lowering is made of steps. -/
structure Lowering.IsLowers (R : Lowering) : Prop where
  operand (id : HirExprId) : Lowers (R.operand id)
  address (id : HirExprId) : Lowers (R.address id)

section
variable {C : LowerContext} {R : Lowering}

theorem lowers_sliceLiteral {α : Type} {object : HirExprId} {isPointer : Bool}
    {f : Option (Text × TypeId) → LowerM α} (h : ∀ o, Lowers (f o)) : Lowers (sliceLiteral C object isPointer >>= f) := by
  refine Moves.bind (lowers_getExpr fun expr => ?_) h
  split
  · exact .ofOption fun _ => .pure
  · exact .pure

theorem lowers_lowerStringSlicePointer (hR : R.IsLowers) (object : HirExprId) (isPointer : Bool) :
    Lowers (lowerStringSlicePointer C R object isPointer) := by
  refine lowers_sliceLiteral fun literal => ?_
  split
  · exact (lowers_findOrAddString _).bind fun _ => (lowers_newReg _).bind fun _ => lowers_emits .pure
  · exact .ite (hR.operand _) .pure

theorem lowers_lowerStringSlicePointerAndLength (object : HirExprId) (isPointer : Bool) :
    Lowers (lowerStringSlicePointerAndLength C object isPointer) := by
  refine lowers_sliceLiteral fun literal => ?_
  split
  · refine (lowers_findOrAddString _).bind fun _ => (lowers_newReg _).bind fun _ => lowers_emits ?_
    exact lowers_makes fun _ => lowers_emits .pure
  · exact .pure

theorem lowers_slicePlaceholderCount {α : Type} {object : HirExprId} {f : ℕ → LowerM α} (h : ∀ n, Lowers (f n)) :
    Lowers (slicePlaceholderCount C object >>= f) := by
  refine Moves.bind (lowers_getExpr fun expr => ?_) h
  split
  · exact .ofOption fun _ => .pure
  · exact .pure

theorem lowers_unsupportedTarget (call : HirCall) (linkage : Text) : Lowers (unsupportedTarget call linkage) :=
  .ite ((lowers_fail _).bind fun _ => .pure) ((lowers_fail _).bind fun _ => .pure)

theorem lowers_lowerConsoleCall (hR : R.IsLowers) (hirFn : HirFunction) (call : HirCall) (isPrintln : Bool) :
    Lowers (lowerConsoleCall C R hirFn call isPrintln) := by
  refine .ite (lowers_newReg _) (.ite (lowers_newReg _) (lowers_getExpr fun expr => ?_))
  split
  · refine lowers_slicePlaceholderCount fun _ => .ite (lowers_failed _) ?_
    refine (lowers_lowerStringSlicePointer hR ..).bind fun _ => .ite (lowers_unsupportedTarget ..) ?_
    refine lowers_padRegTypes.bind fun _ => .ite ?_ ?_
    · exact (lowers_findOrAddExtern _).bind fun _ => (lowers_newReg _).bind fun _ => lowers_emits .pure
    · refine (lowers_lowerStringSlicePointerAndLength ..).bind fun _ => .ite (lowers_unsupportedTarget ..) ?_
      exact (lowers_findOrAddExtern _).bind fun _ => (lowers_newReg _).bind fun _ => lowers_emits .pure
  · exact lowers_unsupportedTarget ..

theorem lowers_moveArgs (hR : R.IsLowers) : ∀ (args : List HirExprId) (destination : UInt16),
    Lowers (moveArgs R args destination) := by
  intro args
  induction args with
  | nil => exact fun _ => .pure
  | cons arg args ih => exact fun _ => (hR.operand _).bind fun _ => .ite .pure (lowers_emits (ih _))

theorem lowers_lowerVariadicExtern (hR : R.IsLowers) (call : HirCall) (name : Text) :
    Lowers (lowerVariadicExtern C R call name) := by
  refine .ite (lowers_failed _) (.get fun _ => (lowers_u16 _).bind fun _ => (lowers_u16 _).bind fun _ => ?_)
  refine lowers_isOk fun _ => .ite .pure ((lowers_pushVariadicWindow _).bind fun _ => ?_)
  refine (lowers_moveArgs hR ..).bind fun _ => .ite .pure ?_
  exact (lowers_findOrAddExtern _).bind fun _ => (lowers_newReg _).bind fun _ => lowers_emits .pure

theorem lowers_externArg (hR : R.IsLowers) (call : HirCall) (i : ℕ) : Lowers (externArg R call i) := by
  rw [externArg]
  split
  · exact hR.operand _
  · exact .pure

theorem lowers_lowerExternCall (hR : R.IsLowers) (call : HirCall) (name : Text) :
    Lowers (lowerExternCall C R call name) := by
  refine .ite .pure <| (lowers_externArg hR ..).bind fun _ => (lowers_externArg hR ..).bind fun _ => ?_
  refine (lowers_externArg hR ..).bind fun _ => (lowers_externArg hR ..).bind fun _ => ?_
  refine lowers_padRegTypes.bind fun _ => (lowers_findOrAddExtern _).bind fun _ => ?_
  exact (lowers_newReg _).bind fun _ => lowers_emits .pure

theorem lowers_materializeBorrowedSlice (argument : HirExprId) (argumentType : TypeId) :
    Lowers (materializeBorrowedSlice C argument argumentType) := by
  refine .get fun _ => .ite .pure (lowers_getExpr fun expr => ?_)
  split
  · exact .pure
  · refine lowers_slotType fun type => .ite .pure ((lowers_lowerSlotValue ..).bind fun source => ?_)
    refine lowers_regCount fun _ => .ite ((lowers_failed _).bind fun _ => .pure) ?_
    refine lowers_makes fun _ => lowers_makes fun _ => lowers_makes fun _ => ?_
    refine lowers_emits <| lowers_emits <| lowers_emits <| lowers_emits ?_
    exact lowers_makes fun _ => lowers_emits (lowers_emits .pure)

theorem lowers_lowerCallArg (hR : R.IsLowers) (arg : CallArg) : Lowers (lowerCallArg C R arg) := by
  refine (lowers_materializeBorrowedSlice ..).bind fun descriptor => ?_
  split
  · exact .pure
  · exact hR.operand _

theorem lowers_moveCallArgs (hR : R.IsLowers) : ∀ (args : List CallArg) (destination : ℕ),
    Lowers (moveCallArgs C R args destination) := by
  intro args
  induction args with
  | nil => exact fun _ => .pure
  | cons arg args ih =>
    intro destination
    refine (lowers_lowerCallArg hR _).bind fun _ => .ite .pure ((lowers_u16 _).bind fun _ => lowers_emits ?_)
    refine lowers_regCount fun _ => .ite ((lowers_fail _).bind fun _ => .pure) ?_
    exact (lowers_emitAll _).bind fun _ => ih _

theorem lowers_lowerSret (hirFn : HirFunction) (sretSlot : UInt16) (tailTransfer : Bool) :
    Lowers (lowerSret C hirFn sretSlot tailTransfer) := by
  refine .ite .pure (.ite (.get fun _ => .ite ((lowers_fail _).bind fun _ => .pure) (lowers_emits .pure)) ?_)
  refine lowers_typeBytes fun _ => .ite ((lowers_fail _).bind fun _ => .pure) ?_
  exact lowers_makes fun _ => lowers_makes fun _ => lowers_emits (lowers_emits (lowers_emits .pure))

theorem lowers_lowerRangeCall (hR : R.IsLowers) (hirFn : HirFunction) (call : HirCall) (tailTransfer : Bool)
    (fnIndex : UInt16) : Lowers (lowerRangeCall C R hirFn call tailTransfer fnIndex) := by
  refine .ite (lowers_failed _) (.get fun _ => .ite (lowers_failed _) (.ite (lowers_failed _) (.get fun _ => ?_)))
  refine lowers_isOk fun _ => .ite .pure (lowers_regCount fun _ => .ite (lowers_failed _) ?_)
  refine (lowers_pushWindow _).bind fun _ => lowers_isOk fun _ => .ite .pure ?_
  refine (lowers_lowerSret ..).bind fun _ => .ite .pure ((lowers_moveCallArgs hR ..).bind fun _ => .ite .pure ?_)
  refine .ite ((lowers_u16 _).bind fun _ => lowers_emits .pure) (lowers_makes fun _ => ?_)
  exact (lowers_newTypedRegs _).bind fun _ => (lowers_u16 _).bind fun _ => lowers_emits .pure

theorem lowers_lowerCall (hR : R.IsLowers) (call : HirCall) (tailTransfer : Bool) :
    Lowers (lowerCall C R call tailTransfer) := by
  refine .ite (lowers_failed _) (.ite (lowers_failed _) ?_)
  split
  · exact lowers_unsupportedTarget ..
  · refine .ite (.ite (lowers_failed _) (lowers_lowerConsoleCall hR ..)) (.ite (.ite (lowers_failed _) ?_) ?_)
    · refine .ite (lowers_unsupportedTarget ..) ?_
      exact .ite (lowers_lowerVariadicExtern hR ..) (lowers_lowerExternCall hR ..)
    · split
      · exact .ite (lowers_unsupportedTarget ..) (lowers_lowerRangeCall hR ..)
      · exact lowers_unsupportedTarget ..

theorem lowers_lowerDynArgs (hR : R.IsLowers) : ∀ args : List (HirExprId × TypeId), Lowers (lowerDynArgs C R args) := by
  intro args
  induction args with
  | nil => exact .pure
  | cons arg args ih =>
    refine (hR.operand _).bind fun _ => .ite .pure (lowers_regCount fun _ => ?_)
    refine .ite ((lowers_fail _).bind fun _ => .pure) (ih.bind fun values => ?_)
    split
    · exact .pure
    · exact .pure

theorem lowers_moveDynArgs : ∀ (args : List (UInt16 × ℕ)) (destination : ℕ), Lowers (moveDynArgs args destination) := by
  intro args
  induction args with
  | nil => exact fun _ => .pure
  | cons arg args ih =>
    exact fun _ => (lowers_u16 _).bind fun _ => lowers_emits ((lowers_emitAll _).bind fun _ => ih _)

theorem lowers_loadField (type : ValueType) (address offset : UInt16) : Lowers (loadField type address offset) :=
  lowers_makes fun _ => lowers_emits (lowers_makes fun _ => lowers_emits .pure)

theorem lowers_lowerDynCall (hR : R.IsLowers) (receiver : HirExprId) (slotIndex : UInt32) (hasReceiver : Bool)
    (resultType : TypeId) (args : List HirExprId) (argTypes : List TypeId) :
    Lowers (lowerDynCall C R receiver slotIndex hasReceiver resultType args argTypes) := by
  refine .ite (lowers_failed _) (.ite (lowers_failed _) ((hR.operand _).bind fun _ => .ite .pure ?_))
  refine (lowers_loadField ..).bind fun _ => (lowers_loadField ..).bind fun _ => .ite (lowers_failed _) ?_
  refine (lowers_loadField ..).bind fun _ => (lowers_lowerDynArgs hR _).bind fun values => ?_
  split
  · exact .pure
  · refine lowers_regCount fun _ => .ite (lowers_failed _) (lowers_regCount fun _ => (lowers_u16 _).bind fun _ => ?_)
    refine lowers_isOk fun _ => .ite .pure ((lowers_newTypedRegs _).bind fun _ => ?_)
    refine (lowers_moveDynArgs ..).bind fun _ => (lowers_newReg _).bind fun _ => lowers_isOk fun _ => .ite .pure ?_
    exact (lowers_newTypedRegs _).bind fun _ => (lowers_u16 _).bind fun _ => lowers_emits .pure

end

end Zith.Vm
