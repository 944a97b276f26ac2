import Zith.Vm.Effects
import Zith.Vm.LowerSteps

/-! Straight-line code on the machine: instructions that go on to the next row and touch only registers.

        start ──instr──▶ … ──instr──▶ regs          StraightRun
        pc 0                          pc body.length -/

namespace Zith.Vm

section
variable {P : Program} {fn : Function} {env : Env} {start regs : List Int64} {body : List Instr}

/-- From these registers the instructions lead to those, whatever the row they stand in. -/
inductive StraightRun (P : Program) (fn : Function) (env : Env) (start : List Int64) :
    List Instr → List Int64 → Prop
  | nil : StraightRun P fn env start [] start
  | snoc {body : List Instr} {regs regs' : List Int64} {instr : Instr} (h : StraightRun P fn env start body regs)
      (hexec : ∀ pc, exec P fn fn pc regs env instr = .ok (.next regs' env)) :
      StraightRun P fn env start (body ++ [instr]) regs'

/-- The machine takes a step for each of them. -/
theorem StraightRun.steps (h : StraightRun P fn env start body regs) (mark : ℕ) (callers : List (UInt16 × Frame)) :
    ∀ {rest : List Instr}, fn.body = body ++ rest →
      (step P)^[body.length] (.running ⟨fn, fn, 0, start, mark⟩ callers env) =
        .running ⟨fn, fn, body.length, regs, mark⟩ callers env := by
  induction h with
  | nil => exact fun _ => rfl
  | @snoc body regs regs' instr h hexec ih =>
    intro rest hbody
    rw [List.append_assoc] at hbody
    have hinstr : fn.body[body.length]? = some instr := by
      rw [hbody, List.getElem?_append_right (le_refl _), Nat.sub_self]
      rfl
    rw [List.length_append, List.length_singleton, Function.iterate_succ_apply', ih hbody, step]
    dsimp only [Frame.instr]
    rw [hinstr]
    dsimp only
    rw [hexec]
    rfl

/-! ### Instructions on words -/

theorem setNext_of_lt {dst : UInt16} {value : Int64} (h : dst.toNat < regs.length) :
    setNext regs env dst value = .ok (.next (regs.set dst.toNat value) env) := by
  rw [setNext, setReg, if_neg (not_le.mpr h)]

theorem getReg_of_eq {reg : UInt16} {value : Int64} (h : regs[reg.toNat]? = some value) : getReg regs reg = value := by
  rw [getReg, h, Option.getD_some]

end

end Zith.Vm

/-! Trees of 64-bit integer literals, arithmetic and comparisons, and the registers that lowering one leaves
    its values in. A literal is loaded by an instruction with a 16-bit immediate, so the value in a register
    is that of the tree with each literal cut to its low 16 bits.

        lowerOperand   keeps `Sound`: running the code so far puts the value of each expression that has a
                       register into that register -/

namespace Zith.Vm
open Lib Hir Layout
open Types (TypeIntern)

/-! ### Trees -/

inductive TreeOp where
  | add | sub | mul | eq | lt | and | or | xor
  deriving DecidableEq

inductive TreeUnaryOp where
  | neg | bitNot
  deriving DecidableEq

/-- The place in `HirBinaryOp`. -/
def TreeOp.code : TreeOp → UInt8
  | .add => 0
  | .sub => 1
  | .mul => 2
  | .eq => 5
  | .lt => 7
  | .and => 11
  | .or => 12
  | .xor => 13

/-- The place in `HirUnaryOp`. -/
def TreeUnaryOp.code : TreeUnaryOp → UInt8
  | .neg => 0
  | .bitNot => 2

/-- In two's complement, with 1 for true. -/
def TreeOp.apply : TreeOp → Int64 → Int64 → Int64
  | .add, a, b => a + b
  | .sub, a, b => a - b
  | .mul, a, b => a * b
  | .eq, a, b => if a = b then 1 else 0
  | .lt, a, b => if a < b then 1 else 0
  | .and, a, b => a &&& b
  | .or, a, b => a ||| b
  | .xor, a, b => a ^^^ b

def TreeUnaryOp.apply : TreeUnaryOp → Int64 → Int64
  | .neg, a => -a
  | .bitNot, a => ~~~a

inductive Tree where
  | literal (value : Int64)
  | binary (op : TreeOp) (lhs rhs : Tree)
  | unary (op : TreeUnaryOp) (operand : Tree)
  deriving DecidableEq

def Tree.value : Tree → Int64
  | .literal value => value
  | .binary op lhs rhs => op.apply lhs.value rhs.value
  | .unary op operand => op.apply operand.value

/-- What an immediate of 16 bits holds of a value. -/
def lowBits (value : Int64) : Int64 := Int64.ofNat (value.toUInt64.toNat % 65536)

/-- The tree with its literals cut to 16 bits. -/
def Tree.lowLiterals : Tree → Tree
  | .literal value => .literal (lowBits value)
  | .binary op lhs rhs => .binary op lhs.lowLiterals rhs.lowLiterals
  | .unary op operand => .unary op operand.lowLiterals

/-- A 64-bit integer, or the result of a comparison. -/
def IsWord (types : TypeIntern) (type : TypeId) : Prop :=
  types.lookup type.toNat = some (.int .i64) ∨ types.lookup type.toNat = some .bool

/-- The expression is a tree. Subtrees may be shared. -/
inductive IsTree (exprs : List HirExpr) (types : TypeIntern) : HirExprId → Tree → Prop
  | literal {id : HirExprId} {type : TypeId} {value : Int64}
      (h : exprs[id.toNat]? = some (.literal (.i value) type))
      (htype : types.lookup type.toNat = some (.int .i64)) : IsTree exprs types id (.literal value)
  | binary {id lhs rhs : HirExprId} {type operandType : TypeId} {op : TreeOp} {l r : Tree}
      (h : exprs[id.toNat]? = some (.binary lhs rhs op.code type operandType)) (htype : IsWord types type)
      (hl : IsTree exprs types lhs l) (hr : IsTree exprs types rhs r) : IsTree exprs types id (.binary op l r)
  | unary {id operand : HirExprId} {type : TypeId} {op : TreeUnaryOp} {t : Tree}
      (h : exprs[id.toNat]? = some (.unary op.code operand type)) (htype : IsWord types type)
      (ht : IsTree exprs types operand t) : IsTree exprs types id (.unary op t)

theorem TreeOp.code_inj {op op' : TreeOp} (h : op.code = op'.code) : op = op' := by
  cases op <;> cases op' <;> first | rfl | cases h

theorem TreeUnaryOp.code_inj {op op' : TreeUnaryOp} (h : op.code = op'.code) : op = op' := by
  cases op <;> cases op' <;> first | rfl | cases h

theorem IsTree.unique {exprs : List HirExpr} {types : TypeIntern} {id : HirExprId} {t t' : Tree}
    (h : IsTree exprs types id t) (h' : IsTree exprs types id t') : t = t' := by
  induction h generalizing t' with
  | literal h htype =>
    cases h' with
    | literal h' => cases h.symm.trans h'; rfl
    | binary h' => cases h.symm.trans h'
    | unary h' => cases h.symm.trans h'
  | binary h htype hl hr ihl ihr =>
    cases h' with
    | literal h' => cases h.symm.trans h'
    | binary h' _ hl' hr' =>
      injection Option.some.inj (h.symm.trans h') with hlhs hrhs hcode
      subst hlhs hrhs
      rw [TreeOp.code_inj hcode, ihl hl', ihr hr']
    | unary h' => cases h.symm.trans h'
  | unary h htype ht ih =>
    cases h' with
    | literal h' => cases h.symm.trans h'
    | binary h' => cases h.symm.trans h'
    | unary h' _ ht' =>
      injection Option.some.inj (h.symm.trans h') with hcode hoperand
      subst hoperand
      rw [TreeUnaryOp.code_inj hcode, ih ht']

/-! ### The instructions of a tree -/

def TreeOp.op : TreeOp → Op
  | .add => .add
  | .sub => .sub
  | .mul => .mul
  | .eq => .eq
  | .lt => .lt
  | .and => .bitAnd
  | .or => .bitOr
  | .xor => .bitXor

def TreeUnaryOp.op : TreeUnaryOp → Op
  | .neg => .neg
  | .bitNot => .bitNot

theorem binaryOps_code (op : TreeOp) : binaryOps[op.code.toNat]? = some op.op := by
  cases op <;> rfl

theorem unaryOps_code (op : TreeUnaryOp) : unaryOps[op.code.toNat]? = some op.op := by
  cases op <;> rfl

section
variable {P : Program} {fn : Function} {env : Env} {pc : ℕ} {regs : List Int64} {dst lhs rhs : UInt16}

theorem exec_literal {value : Int64} : exec P fn fn pc regs env (.withImm .loadConstI32 dst value.toUInt64.toUInt16) =
      setNext regs env dst (lowBits value) := by
  change setNext regs env dst (Int64.ofNat value.toUInt64.toUInt16.toNat) = _
  rw [UInt64.toNat_toUInt16]
  rfl

theorem exec_binary {op : TreeOp} (hlhs : isF64Register fn lhs = false) :
    exec P fn fn pc regs env (.simple op.op dst lhs rhs) =
      setNext regs env dst (op.apply (getReg regs lhs) (getReg regs rhs)) := by
  cases op with
  | eq | lt =>
    simp only [TreeOp.op, TreeOp.apply, exec, Instr.simple, comparison, hlhs, intCompare, Bool.false_and,
      Bool.false_eq_true, if_false]
    exact congrArg _ (if_congr decide_eq_true_iff rfl rfl)
  | _ => simp [TreeOp.op, TreeOp.apply, exec, Instr.simple, arithmetic, hlhs, floatOp, intOp]

theorem exec_unary {op : TreeUnaryOp} (hlhs : isF64Register fn lhs = false) :
    exec P fn fn pc regs env (.simple op.op dst lhs) = setNext regs env dst (op.apply (getReg regs lhs)) := by
  cases op with
  | neg => simp [TreeUnaryOp.op, TreeUnaryOp.apply, exec, Instr.simple, unary, hlhs]
  | bitNot => simp [TreeUnaryOp.op, TreeUnaryOp.apply, exec, Instr.simple, unary]

end

/-! ### What the registers hold -/

/-- A new register of the function, and an instruction that writes it. -/
def LowerState.written (s : LowerState) (vt : ValueType) (instr : Instr) : LowerState :=
  { s with
    fn := { s.fn with
      regCount := s.fn.regCount + 1
      regTypes := s.fn.regTypes ++ [vt]
      body := s.fn.body ++ [instr] }
    events := s.events ++ [.made s.fn.regCount vt] }

/-- A new register that an expression has from now on. -/
def LowerState.assigned (s : LowerState) (vt : ValueType) (instr : Instr) (id : HirExprId) : LowerState :=
  { s.written vt instr with regs := s.regs.set id.toNat s.fn.regCount }

section
variable {C : LowerContext}

/-- No register so far is one of a double. -/
def WordRegisters (s : LowerState) (fn : Function) : Prop :=
  ∀ reg : UInt16, reg.toNat < s.fn.regCount.toNat → isF64Register fn reg = false

/-- Each expression with a register has its value there. -/
def Holds (C : LowerContext) (s : LowerState) (regs : List Int64) : Prop :=
  ∀ (id : HirExprId) (tree : Tree) (reg : UInt16), s.regs[id.toNat]? = some reg → reg ≠ kUnassignedReg →
    IsTree C.hir.exprs C.types id tree → regs[reg.toNat]? = some tree.lowLiterals.value

/-- The code so far puts the value of each expression that has a register into it. -/
structure Sound (C : LowerContext) (s : LowerState) : Prop where
  count : s.fn.regTypes.length = s.fn.regCount.toNat
  words : ∀ vt ∈ s.fn.regTypes, vt ≠ .f64
  known : ∀ (i : ℕ) (reg : UInt16), s.regs[i]? = some reg → reg ≠ kUnassignedReg → reg.toNat < s.fn.regCount.toNat
  shape : ∀ fn : Function, s.fn.regCount.toNat ≤ fn.regCount.toNat → ∀ instr ∈ s.fn.body, validInstr fn instr = true
  runs : ∀ P fn env n, s.fn.regCount.toNat ≤ n → WordRegisters s fn →
    ∃ regs, regs.length = n ∧ StraightRun P fn env (List.replicate n 0) s.fn.body regs ∧ Holds C s regs

variable {s t : LowerState} {id : HirExprId} {type : TypeId} {reg : UInt16}

/-- One more expression has a register. -/
theorem Sound.assigned {s : LowerState} {vt : ValueType} {instr : Instr} {tree : Tree}
    (h : Sound C s) (hreg : s.fn.regCount ≠ kUnassignedReg) (hvt : vt ≠ .f64)
    (htree : IsTree C.hir.exprs C.types id tree) (hexec : ∀ P fn env pc regs, WordRegisters s fn → Holds C s regs →
      exec P fn fn pc regs env instr = setNext regs env s.fn.regCount tree.lowLiterals.value)
    (hshape : ∀ fn : Function, s.fn.regCount.toNat < fn.regCount.toNat → validInstr fn instr = true) :
    Sound C (s.assigned vt instr id) := by
  have hsucc := toNat_succ_of_ne hreg
  have hset {i : ℕ} {reg : UInt16} (hi : (s.regs.set id.toNat s.fn.regCount)[i]? = some reg) :
      i = id.toNat ∧ reg = s.fn.regCount ∨ i ≠ id.toNat ∧ s.regs[i]? = some reg := by
    rcases eq_or_ne id.toNat i with rfl | hne
    · rw [List.getElem?_set_self'] at hi
      obtain ⟨_, -, rfl⟩ := Option.map_eq_some_iff.mp hi
      exact Or.inl ⟨rfl, rfl⟩
    · rw [List.getElem?_set_ne hne] at hi
      exact Or.inr ⟨hne.symm, hi⟩
  constructor
  · change (s.fn.regTypes ++ [vt]).length = (s.fn.regCount + 1).toNat
    rw [hsucc, List.length_append, List.length_singleton, h.count]
  · exact List.forall_mem_append.mpr ⟨h.words, List.forall_mem_singleton.mpr hvt⟩
  · intro i reg hi hassigned
    change reg.toNat < (s.fn.regCount + 1).toNat
    rw [hsucc]
    rcases hset hi with ⟨-, rfl⟩ | ⟨-, hold⟩
    · exact Nat.lt_succ_self _
    · exact Nat.lt_succ_of_lt (h.known i reg hold hassigned)
  · intro fn hle
    replace hle : (s.fn.regCount + 1).toNat ≤ fn.regCount.toNat := hle
    rw [hsucc] at hle
    exact List.forall_mem_append.mpr ⟨h.shape fn (Nat.le_of_succ_le hle), List.forall_mem_singleton.mpr (hshape fn hle)⟩
  · intro P fn env n hle hwords
    replace hle : (s.fn.regCount + 1).toNat ≤ n := hle
    rw [hsucc] at hle
    have hwords' : WordRegisters s fn := by
      intro reg hlt
      refine hwords reg ?_
      change reg.toNat < (s.fn.regCount + 1).toNat
      rw [hsucc]
      exact Nat.lt_succ_of_lt hlt
    obtain ⟨regs, rfl, hrun, hholds⟩ := h.runs P fn env n (Nat.le_of_succ_le hle) hwords'
    refine ⟨regs.set s.fn.regCount.toNat tree.lowLiterals.value, List.length_set, hrun.snoc fun pc => ?_, ?_⟩
    · rw [hexec P fn env pc regs hwords' hholds, setNext_of_lt hle]
    · intro id' tree' reg hi hassigned htree'
      rcases hset hi with ⟨heq, rfl⟩ | ⟨-, hold⟩
      · obtain rfl := UInt32.toNat_inj.mp heq
        rw [htree'.unique htree, List.getElem?_set_self hle]
      · rw [List.getElem?_set_ne (Nat.ne_of_gt (h.known _ reg hold hassigned))]
        exact hholds id' tree' reg hold hassigned htree'

/-- A later state: nothing has failed or been written, and expressions keep their registers. -/
structure Grown (s t : LowerState) : Prop where
  out : t.out = s.out
  result : t.result = s.result
  name : t.fn.name = s.fn.name
  returnsAggregate : t.fn.returnsAggregate = s.fn.returnsAggregate
  returnsSlice : t.fn.returnsSlice = s.fn.returnsSlice
  length : t.regs.length = s.regs.length
  known : ∀ (i : ℕ) (reg : UInt16), s.regs[i]? = some reg → reg ≠ kUnassignedReg → t.regs[i]? = some reg

theorem Grown.refl {s : LowerState} : Grown s s := ⟨rfl, rfl, rfl, rfl, rfl, rfl, fun _ _ h _ => h⟩

theorem Grown.trans {s t u : LowerState} (h : Grown s t) (h' : Grown t u) : Grown s u :=
  ⟨h'.out.trans h.out, h'.result.trans h.result, h'.name.trans h.name,
    h'.returnsAggregate.trans h.returnsAggregate, h'.returnsSlice.trans h.returnsSlice, h'.length.trans h.length,
    fun i reg hi hreg => h'.known i reg (h.known i reg hi hreg) hreg⟩

theorem Grown.assigned {vt : ValueType} {instr : Instr} (h : Grown s t)
    (hid : s.regs[id.toNat]? = some kUnassignedReg) : Grown s (t.assigned vt instr id) := by
  refine ⟨h.out, h.result, h.name, h.returnsAggregate, h.returnsSlice, List.length_set.trans h.length, ?_⟩
  intro i reg hi hreg
  have hne : id.toNat ≠ i := by
    rintro rfl
    exact hreg (Option.some.inj (hi.symm.trans hid))
  exact (List.getElem?_set_ne hne).trans (h.known i reg hi hreg)

/-- What lowering an expression to a register comes to. -/
structure OperandLowered (C : LowerContext) (id : HirExprId) (s : LowerState) (reg : UInt16) (t : LowerState) :
    Prop where
  sound : Sound C t
  grown : Grown s t
  known : t.regs[id.toNat]? = some reg

theorem OperandLowered.assigned {s t : LowerState} {vt : ValueType} {instr : Instr} {id : HirExprId}
    (hsound : Sound C (t.assigned vt instr id)) (hgrown : Grown s t) (hid : s.regs[id.toNat]? = some kUnassignedReg) :
    OperandLowered C id s t.fn.regCount (t.assigned vt instr id) :=
  ⟨hsound, hgrown.assigned hid, List.getElem?_set_self (hgrown.length ▸ (List.getElem?_eq_some_iff.mp hid).1)⟩

/-- An expression that has a register is not lowered again. -/
theorem lowerOperand_cases {R : Lowering} {expr : HirExpr} (hexpr : C.hir.exprs[id.toNat]? = some expr)
    (h : lowerOperand C R id s = some (reg, t)) (hreg : reg ≠ kUnassignedReg) : s.regs[id.toNat]? = some reg ∧ t = s ∨
      s.regs[id.toNat]? = some kUnassignedReg ∧
        ∃ u, lowerExpr C R expr s = some (reg, u) ∧ t = { u with regs := u.regs.set id.toNat reg } := by
  obtain ⟨_, s₁, hget, hrest⟩ := run_bind h
  obtain ⟨rfl, rfl⟩ := run_get hget
  cases hknown : s₁.regs[id.toNat]? with
  | none =>
    rw [hknown] at hrest
    obtain ⟨rfl, -⟩ := run_pure hrest
    exact absurd rfl hreg
  | some known =>
    rw [hknown] at hrest
    dsimp only at hrest
    split at hrest
    · obtain ⟨rfl, rfl⟩ := run_pure hrest
      exact Or.inl ⟨rfl, rfl⟩
    · rename_i hun
      obtain ⟨expr', s₂, hget', hrest⟩ := run_bind hrest
      obtain ⟨hexpr', rfl⟩ := run_ofOption hget'
      obtain rfl := Option.some.inj (hexpr.symm.trans hexpr')
      obtain ⟨reg', u, hlower, hrest⟩ := run_bind hrest
      obtain ⟨_, v, hremember, hrest⟩ := run_bind hrest
      obtain ⟨rfl, rfl⟩ := run_pure hrest
      have hv := run_modify hremember
      rw [if_neg hreg] at hv
      exact Or.inr ⟨congrArg some (not_not.mp hun), u, hlower, hv⟩

theorem valueTypeOf_of_isWord {types : TypeIntern} (h : IsWord types type) : valueTypeOf types type.toNat = .i64 := by
  rw [valueTypeOf]
  rcases h with h | h
  · rw [h]
  · rw [h]

/-- A register below the count is there. -/
theorem not_missingRegister {fn : Function} (h : reg.toNat < fn.regCount.toNat) :
    missingRegister fn reg false = false := by
  simp [missingRegister, h]

theorem lowerLiteral_run (htype : C.types.lookup type.toNat = some (.int .i64)) (value : Int64) (s : LowerState) :
    lowerLiteral C (.i value) type s = some (s.fn.regCount, s.written .i64
      (.withImm .loadConstI32 s.fn.regCount value.toUInt64.toUInt16)) := by
  rw [← valueTypeOf_of_isWord (Or.inl htype), lowerLiteral, run_bind_of_eq rfl, htype]
  rfl

theorem lowerBinary_cases {R : Lowering} {lhs rhs : HirExprId} {op : TreeOp}
    (h : lowerBinary C R lhs rhs op.code type s = some (reg, t)) (hreg : reg ≠ kUnassignedReg)
    (htype : IsWord C.types type) :
    ∃ l r s₁ s₂, R.operand lhs s = some (l, s₁) ∧ R.operand rhs s₁ = some (r, s₂) ∧ l ≠ kUnassignedReg ∧
      r ≠ kUnassignedReg ∧ reg = s₂.fn.regCount ∧ t = s₂.written .i64 (.simple op.op s₂.fn.regCount l r) := by
  obtain ⟨l, s₁, hlhs, h⟩ := run_bind h
  obtain ⟨r, s₂, hrhs, h⟩ := run_bind h
  by_cases hun : l = kUnassignedReg ∨ r = kUnassignedReg
  · rw [if_pos hun] at h
    obtain ⟨rfl, -⟩ := run_pure h
    exact absurd rfl hreg
  · rw [if_neg hun, binaryOps_code] at h
    obtain ⟨hl, hr⟩ := not_or.mp hun
    rw [← valueTypeOf_of_isWord htype]
    cases h
    exact ⟨l, r, s₁, s₂, hlhs, hrhs, hl, hr, rfl, rfl⟩

theorem lowerUnary_cases {R : Lowering} {operand : HirExprId} {op : TreeUnaryOp}
    (h : lowerUnary C R op.code operand type s = some (reg, t)) (hreg : reg ≠ kUnassignedReg)
    (htype : IsWord C.types type) :
    ∃ l s₁, R.operand operand s = some (l, s₁) ∧ l ≠ kUnassignedReg ∧ reg = s₁.fn.regCount ∧
      t = s₁.written .i64 (.simple op.op s₁.fn.regCount l) := by
  rw [lowerUnary, if_neg (by cases op <;> decide), if_neg (by cases op <;> decide)] at h
  obtain ⟨l, s₁, hoperand, h⟩ := run_bind h
  by_cases hun : l = kUnassignedReg
  · rw [if_pos hun] at h
    obtain ⟨rfl, -⟩ := run_pure h
    exact absurd rfl hreg
  · rw [if_neg hun, unaryOps_code] at h
    rw [← valueTypeOf_of_isWord htype]
    cases h
    exact ⟨l, s₁, hoperand, hun, rfl, rfl⟩

/-- Lowering a tree keeps what is known of the registers, and adds the register of the tree. -/
theorem operand_lowered {tree : Tree} (h : IsTree C.hir.exprs C.types id tree) :
    ∀ {fuel : ℕ} {s t : LowerState} {reg : UInt16}, (lowering C fuel).operand id s = some (reg, t) → Sound C s →
      reg ≠ kUnassignedReg → OperandLowered C id s reg t := by
  induction h with
  | @literal id type value h htype =>
    intro fuel s t reg hrun hs hreg
    cases fuel with
    | zero => cases hrun
    | succ fuel =>
      rcases lowerOperand_cases h hrun hreg with ⟨hknown, rfl⟩ | ⟨hid, u, hexpr, rfl⟩
      · exact ⟨hs, .refl, hknown⟩
      · cases hexpr.symm.trans (lowerLiteral_run htype value s)
        have hsound : Sound C (s.assigned .i64 (.withImm .loadConstI32 s.fn.regCount value.toUInt64.toUInt16) id) := by
          refine hs.assigned hreg (by decide) (.literal h htype) ?_ ?_
          · exact fun P fn env pc regs _ _ => exec_literal
          · intro fn hlt
            simp [validInstr, Instr.withImm, not_missingRegister hlt]
        exact .assigned hsound .refl hid
  | @binary id lhs rhs type operandType op l r h htype hl hr ihl ihr =>
    intro fuel s t reg hrun hs hreg
    cases fuel with
    | zero => cases hrun
    | succ fuel =>
      rcases lowerOperand_cases h hrun hreg with ⟨hknown, rfl⟩ | ⟨hid, u, hexpr, rfl⟩
      · exact ⟨hs, .refl, hknown⟩
      · obtain ⟨lreg, rreg, s₁, s₂, hlhs, hrhs, hlreg, hrreg, rfl, rfl⟩ := lowerBinary_cases hexpr hreg htype
        have hL := ihl hlhs hs hlreg
        have hR := ihr hrhs hL.sound hrreg
        have hlknown := hR.grown.known _ _ hL.known hlreg
        have hsound : Sound C (s₂.assigned .i64 (.simple op.op s₂.fn.regCount lreg rreg) id) := by
          refine hR.sound.assigned hreg (by decide) (.binary h htype hl hr) ?_ ?_
          · intro P fn env pc regs hwords hholds
            rw [exec_binary (hwords lreg (hR.sound.known _ _ hlknown hlreg)),
              getReg_of_eq (hholds lhs l lreg hlknown hlreg hl), getReg_of_eq (hholds rhs r rreg hR.known hrreg hr)]
            rfl
          · intro fn hlt
            have hl' := not_missingRegister (Nat.lt_trans (hR.sound.known _ _ hlknown hlreg) hlt)
            have hr' := not_missingRegister (Nat.lt_trans (hR.sound.known _ _ hR.known hrreg) hlt)
            cases op <;> simp [validInstr, Instr.simple, TreeOp.op, not_missingRegister hlt, hl', hr']
        exact .assigned hsound (hL.grown.trans hR.grown) hid
  | @unary id operand type op t h htype ht ih =>
    intro fuel s t' reg hrun hs hreg
    cases fuel with
    | zero => cases hrun
    | succ fuel =>
      rcases lowerOperand_cases h hrun hreg with ⟨hknown, rfl⟩ | ⟨hid, u, hexpr, rfl⟩
      · exact ⟨hs, .refl, hknown⟩
      · obtain ⟨lreg, s₁, hoperand, hlreg, rfl, rfl⟩ := lowerUnary_cases hexpr hreg htype
        have hT := ih hoperand hs hlreg
        have hbelow := hT.sound.known _ _ hT.known hlreg
        have hsound : Sound C (s₁.assigned .i64 (.simple op.op s₁.fn.regCount lreg) id) := by
          refine hT.sound.assigned hreg (by decide) (.unary h htype ht) ?_ ?_
          · intro P fn env pc regs hwords hholds
            rw [exec_unary (hwords lreg hbelow), getReg_of_eq (hholds operand t lreg hT.known hlreg ht)]
            rfl
          · intro fn hlt
            have hl' := not_missingRegister (Nat.lt_trans hbelow hlt)
            have hzero : missingRegister fn 0 false = false := not_missingRegister (Nat.zero_lt_of_lt hlt)
            cases op <;> simp [validInstr, Instr.simple, TreeUnaryOp.op, not_missingRegister hlt, hl', hzero]
        exact .assigned hsound hT.grown hid

end

end Zith.Vm
