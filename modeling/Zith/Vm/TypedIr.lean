import Mathlib.Data.List.Basic

/-! The typed v2 execution IR: instructions, functions, modules, and the static shape check every
    function passes before `runMain` executes anything. -/

namespace Zith.Vm

inductive ValueType where
  | i32 | i64 | f32 | f64 | ptr | slice | fnRef | externRef | void
  deriving DecidableEq, Repr

inductive Op where
  | loadConstI32 | loadConstI64 | loadConstI64FromPool | loadConstF32 | loadConstF64 | loadString
  | loadFnRef | loadExternRef | move | allocBytes | mallocBytes | storeBytes | storeI8 | storeI64
  | loadBytes | loadI8 | loadI64 | indexLoad | fieldPtr | makeSlice | slicePtr | sliceLen | memCopy
  | add | sub | mul | div | rem | bitAnd | bitOr | bitXor | shl | shr | neg | not | bitNot
  | eq | ne | lt | le | gt | ge
  | callFn | callRange | tailCallRange | callFnRef | callRangeFnRef
  | callExtern | callExternRange | callExternRef
  | ret | branch | branch2 | jump | nullDeref | trap | panic
  deriving DecidableEq, Repr

/-- One instruction row; the opcode says which fields are registers, table indices or targets. -/
structure Instr where
  op : Op := .trap
  a : UInt16 := 0
  b : UInt16 := 0
  c : UInt16 := 0
  imm : UInt16 := 0
  d : UInt16 := 0
  e : UInt16 := 0
  deriving DecidableEq, Repr

def Instr.callRange (dst argBase argCount fnIndex : UInt16) : Instr :=
  { op := .callRange, a := dst, b := argBase, c := argCount, imm := fnIndex }

def Instr.tailCallRange (argBase argCount fnIndex : UInt16) : Instr :=
  { op := .tailCallRange, b := argBase, c := argCount, imm := fnIndex }

structure Function where
  name : List UInt8 := []
  returnType : ValueType := .void
  paramCount : UInt16 := 0
  regCount : UInt16 := 0
  returnsAggregate : Bool := false
  returnsSlice : Bool := false
  regTypes : List ValueType := []
  body : List Instr := []
  deriving DecidableEq, Repr

/-- Doubles are their bit patterns: the VM only copies them into registers. -/
structure Module where
  functions : List Function := []
  strings : List (List UInt8) := []
  i64Constants : List Int64 := []
  f64Constants : List Int64 := []
  externs : List (List UInt8) := []

def isF64Register (fn : Function) (index : UInt16) : Bool := fn.regTypes[index.toNat]? == some .f64

def findFunction (m : Module) (name : List UInt8) : Option Function := m.functions.find? fun fn => fn.name == name

/-! ### Shape validation -/

def missingRegister (fn : Function) (index : UInt16) (pair : Bool) : Bool :=
  index.toNat ≥ fn.regCount.toNat || (pair && index.toNat + 1 ≥ fn.regCount.toNat)

def invalidJumpTarget (fn : Function) (instr : Instr) : Bool := instr.imm.toNat ≥ fn.body.length

/-- The argument window `first, …, first + count - 1` names registers that exist. -/
def missingWindow (fn : Function) (first count : UInt16) : Bool :=
  count > 0 &&
    (first.toNat + count.toNat - 1 > 65535 || missingRegister fn first false ||
      missingRegister fn (UInt16.ofNat (first.toNat + count.toNat - 1)) false)

/-- One round of the loop of `validateFunctionShape`. -/
def validInstr (fn : Function) (instr : Instr) : Bool :=
  let missing := fun index => missingRegister fn index false
  let dst := instr.a
  let lhs := instr.b
  let rhs := instr.c
  match instr.op with
  | .loadConstI32 | .loadConstI64 | .loadConstI64FromPool | .loadConstF32 | .loadConstF64
  | .loadString | .loadFnRef | .loadExternRef | .storeBytes | .ret => !missing dst
  | .move | .storeI64 | .storeI8 | .loadI64 | .loadI8 | .fieldPtr => !(missing dst || missing lhs)
  | .allocBytes | .mallocBytes | .loadBytes | .memCopy
  | .add | .sub | .mul | .div | .rem | .bitAnd | .bitOr | .bitXor | .shl | .shr
  | .neg | .not | .bitNot | .eq | .ne | .lt | .le | .gt | .ge | .callFn =>
    !(missing dst || missing lhs || missing rhs)
  | .indexLoad =>
    !(missing dst || missing lhs || missing rhs || instr.imm == 0 || instr.e > 7 ||
      (instr.e &&& 2 == 0 && instr.e &&& 1 == 0 && instr.d == 0) ||
      (instr.e &&& 1 != 0 && missing instr.d))
  | .makeSlice => !(missingRegister fn dst true || missing lhs || missing rhs)
  | .slicePtr | .sliceLen => !(missing dst || missingRegister fn lhs true)
  | .callExtern => !(missing dst || missing lhs || missing rhs || missing instr.d || missing instr.e)
  | .callRange | .callExternRange => !(missing dst || missingWindow fn instr.b instr.c)
  | .tailCallRange => !missingWindow fn instr.b instr.c
  | .callRangeFnRef => !(missing dst || missing lhs || missingWindow fn instr.c instr.d)
  | .callExternRef | .callFnRef => !(missing dst || missing lhs || missing rhs || missing instr.imm)
  | .branch => !(missing lhs || invalidJumpTarget fn instr)
  | .branch2 => !(missing lhs || invalidJumpTarget fn instr || instr.d.toNat ≥ fn.body.length)
  | .jump => !invalidJumpTarget fn instr
  | .nullDeref | .trap | .panic => true

def validateFunctionShape (fn : Function) : Bool := fn.body.all (validInstr fn)

end Zith.Vm
