import Zith.Lib.ByteCodec
import Zith.Vm.LinearMemory
import Zith.Vm.TypedIr

/-! The VM as a machine that executes one instruction a step. `runFunction` is a loop that calls itself;
    here its activations are an explicit stack.

        running top [(dst, caller), …] env      the callers wait for a value in their register dst
        done ret env                             the outermost call has returned
        outOfBounds                              a vector was accessed outside its size

    Every access the source makes without a check of its own goes through `index` or `writeArgs`, which
    stop at `outOfBounds`; `getReg` and `setReg` check. Arithmetic on doubles and the extern functions
    come from a `Host`. Signed overflow wraps. -/

namespace Zith.Vm
open Zith.Lib

/-- The bytes of a message. -/
def text (s : String) : List UInt8 := s.toUTF8.toList

/-- What instructions can see or change beside registers. -/
structure Env where
  memory : LinearMemory := {}
  output : List UInt8 := []
  message : List UInt8 := []
  deriving Inhabited

structure ExternCall where
  arg0 : Int64 := 0
  arg1 : Int64 := 0
  arg2 : Int64 := 0
  arg3 : Int64 := 0

/-- The platform: arithmetic on doubles, given as bit patterns, and the extern functions. -/
structure Host where
  fadd : Int64 → Int64 → Int64
  fsub : Int64 → Int64 → Int64
  fmul : Int64 → Int64 → Int64
  fdiv : Int64 → Int64 → Int64
  fmod : Int64 → Int64 → Int64
  fneg : Int64 → Int64
  fle : Int64 → Int64 → Bool
  flt : Int64 → Int64 → Bool
  /-- `std::to_string` of a double. -/
  f64Text : Int64 → List UInt8
  dispatchScalarExtern : List UInt8 → ExternCall → Env → Bool × Int64 × Env
  deriving Inhabited

/-- `RunState` without what changes during a run. -/
structure Program where
  module : Module
  stringAddresses : List ℕ
  host : Host

structure FunctionReturn where
  ok : Bool := false
  value : Int64 := 0
  hasAux : Bool := false
  aux : Int64 := 0
  deriving DecidableEq

/-- How an instruction ends the run: `return {false, 0}`, or an access outside a vector. -/
inductive Stop where
  | fail (env : Env)
  | outOfBounds

/-- What an instruction does to the activation it runs in. -/
inductive Effect where
  | next (regs : List Int64) (env : Env)
  | goto (pc : ℕ)
  | call (callee : Function) (regs : List Int64) (dst : UInt16)
  | tail (callee : Function) (regs : List Int64)
  | ret (result : FunctionReturn)

/-- `table[i]`. -/
def index {α : Type} (table : List α) (i : ℕ) : Except Stop α :=
  match table[i]? with
  | some a => .ok a
  | none => .error .outOfBounds

/-- `regs[i] = args[0]; regs[i + 1] = args[1]; …`. -/
def writeArgs (regs : List Int64) (i : ℕ) : List Int64 → Except Stop (List Int64)
  | [] => .ok regs
  | a :: args => if i < regs.length then writeArgs (regs.set i a) (i + 1) args else .error .outOfBounds

def getReg (regs : List Int64) (i : UInt16) : Int64 := regs[i.toNat]?.getD 0

def setReg (regs : List Int64) (i : UInt16) (value : Int64) : Option (List Int64) :=
  if i.toNat ≥ regs.length then none else some (regs.set i.toNat value)

/-- `static_cast<std::size_t>(value)`. -/
def toSize (value : Int64) : ℕ := value.toUInt64.toNat

/-- `if (!setReg(regs, dst, value)) return {false, 0}; pc++;`. -/
def setNext (regs : List Int64) (env : Env) (dst : UInt16) (value : Int64) : Except Stop Effect :=
  match setReg regs dst value with
  | some regs => .ok (.next regs env)
  | none => .error (.fail env)

/-! ### Constants, memory -/

def loadConst (P : Program) (regs : List Int64) (env : Env) (instr : Instr) : Except Stop Effect := do
  let imm := instr.imm.toNat
  match instr.op with
  | .loadConstI64FromPool =>
    if imm ≥ P.module.i64Constants.length then .error (.fail env)
    else setNext regs env instr.a (← index P.module.i64Constants imm)
  | .loadConstF32 | .loadConstF64 =>
    if imm ≥ P.module.f64Constants.length then .error (.fail env)
    else setNext regs env instr.a (← index P.module.f64Constants imm)
  | .loadString =>
    if imm ≥ P.stringAddresses.length then .error (.fail env)
    else setNext regs env instr.a (Int64.ofNat (← index P.stringAddresses imm))
  | .loadFnRef =>
    if imm ≥ P.module.functions.length then .error (.fail env)
    else setNext regs env instr.a (Int64.ofNat imm)
  | .loadExternRef =>
    if imm ≥ P.module.externs.length then .error (.fail env)
    else setNext regs env instr.a (Int64.ofNat imm)
  | _ => setNext regs env instr.a (Int64.ofNat imm)

/-- `AllocBytes` and `MallocBytes` with what the memory answered. -/
def allocated (regs : List Int64) (env : Env) (dst : UInt16) (answer : ℕ × LinearMemory) :
    Except Stop Effect :=
  let env := { env with memory := answer.2 }
  if answer.1 = sizeMax then .error (.fail env) else setNext regs env dst (Int64.ofNat answer.1)

/-- A write that fails the run when the memory refuses it. -/
def written (regs : List Int64) (env : Env) (answer : Bool × LinearMemory) : Except Stop Effect :=
  match answer with
  | (true, memory) => .ok (.next regs { env with memory })
  | (false, _) => .error (.fail env)

/-- A word read at `offset`, least significant byte first. -/
def loadWord (regs : List Int64) (env : Env) (dst : UInt16) (offset : ℕ) : Except Stop Effect :=
  let bytes := env.memory.read offset 8
  if bytes.length ≠ 8 then .error (.fail env)
  else setNext regs env dst (Int64.ofUInt64 (UInt64.ofNat (leNat bytes)))

def indexLoad (regs : List Int64) (env : Env) (instr : Instr) : Except Stop Effect :=
  let index := getReg regs instr.c
  let raw := instr.e &&& 2 ≠ 0
  let addressResult := instr.e &&& 4 ≠ 0
  let signedSize := if instr.e &&& 1 ≠ 0 then getReg regs instr.d else Int64.ofNat instr.d.toNat
  let base := getReg regs instr.b
  let element := instr.imm.toNat
  if index < 0 then .error (.fail env)
  else if ¬ raw ∧ (signedSize < 0 ∨ toSize index ≥ toSize signedSize) then .error (.fail env)
  else if base < 0 then .error (.fail env)
  else if toSize index > sizeMax / element then .error (.fail env)
  else
    let relative := toSize index * element
    if toSize base > sizeMax - relative then .error (.fail env)
    else
      let address := toSize base + relative
      if addressResult then setNext regs env instr.a (Int64.ofNat address)
      else loadWord regs env instr.a address

def memoryOp (P : Program) (regs : List Int64) (env : Env) (instr : Instr) : Except Stop Effect := do
  let size := fun i => toSize (getReg regs i)
  match instr.op with
  | .allocBytes => allocated regs env instr.a (env.memory.allocBytes (size instr.b) (size instr.c))
  | .mallocBytes => allocated regs env instr.a (env.memory.mallocBytes (size instr.b) (size instr.c))
  | .storeBytes =>
    if instr.imm.toNat ≥ P.module.strings.length then .error (.fail env)
    else written regs env (env.memory.write (size instr.a) (← index P.module.strings instr.imm.toNat))
  | .storeI64 =>
    written regs env (env.memory.write (size instr.a) (leBytes 8 (size instr.b)))
  | .storeI8 => written regs env (env.memory.write (size instr.a) (leBytes 1 (size instr.b)))
  | .loadBytes =>
    let bytes := env.memory.read (size instr.b) (size instr.c)
    if bytes.length ≠ size instr.c then .error (.fail env)
    else
      setNext regs env instr.a ((bytes.take 8).foldl (fun value b => (value <<< 8) ||| Int64.ofNat b.toNat) 0)
  | .loadI8 =>
    let bytes := env.memory.read (size instr.b) 1
    if bytes.length ≠ 1 then .error (.fail env)
    else setNext regs env instr.a (Int64.ofNat (← index bytes 0).toNat)
  | .loadI64 => loadWord regs env instr.a (size instr.b)
  | .indexLoad => indexLoad regs env instr
  | .fieldPtr => setNext regs env instr.a (Int64.ofNat (size instr.b + instr.imm.toNat))
  | .makeSlice =>
    match setReg regs instr.a (getReg regs instr.b) with
    | none => .error (.fail env)
    | some slice => setNext slice env (instr.a + 1) (getReg slice instr.c)
  | .slicePtr =>
    if instr.b.toNat + 1 ≥ regs.length then .error (.fail env)
    else setNext regs env instr.a (← index regs instr.b.toNat)
  | .sliceLen =>
    if instr.b.toNat + 1 ≥ regs.length then .error (.fail env)
    else setNext regs env instr.a (← index regs (instr.b.toNat + 1))
  | .memCopy => written regs env (env.memory.copy (size instr.a) (size instr.b) (size instr.c))
  | _ => setNext regs env instr.a (getReg regs instr.b)

/-! ### Arithmetic -/

/-- The operations that have a form on doubles. -/
def floatOp (host : Host) : Op → Option (Int64 → Int64 → Int64)
  | .add => some host.fadd
  | .sub => some host.fsub
  | .mul => some host.fmul
  | .div => some host.fdiv
  | .rem => some host.fmod
  | _ => none

def intOp (op : Op) (left right : Int64) : Int64 :=
  match op with
  | .add => left + right
  | .sub => left - right
  | .mul => left * right
  | .div => left / right
  | .rem => left % right
  | .bitAnd => left &&& right
  | .bitOr => left ||| right
  | .bitXor => left ^^^ right
  | .shl => left <<< (right &&& 63)
  | _ => left >>> (right &&& 63)

def arithmetic (P : Program) (fn : Function) (regs : List Int64) (env : Env) (instr : Instr) :
    Except Stop Effect :=
  let left := getReg regs instr.b
  let right := getReg regs instr.c
  match floatOp P.host instr.op, isF64Register fn instr.b with
  | some op, true => setNext regs env instr.a (op left right)
  | _, _ =>
    if (instr.op = .div ∨ instr.op = .rem) ∧ right = 0 then .error (.fail env)
    else setNext regs env instr.a (intOp instr.op left right)

def unary (P : Program) (fn : Function) (regs : List Int64) (env : Env) (instr : Instr) :
    Except Stop Effect :=
  let value := getReg regs instr.b
  match instr.op with
  | .neg => setNext regs env instr.a (if isF64Register fn instr.b then P.host.fneg value else -value)
  | .not => setNext regs env instr.a (if value = 0 then 1 else 0)
  | _ => setNext regs env instr.a (~~~value)

def floatCompare (host : Host) (op : Op) (left right : Int64) : Bool :=
  match op with
  | .eq => host.fle left right && host.fle right left
  | .ne => !(host.fle left right && host.fle right left)
  | .lt => host.flt left right
  | .le => host.fle left right
  | .gt => host.flt right left
  | _ => host.fle right left

def intCompare (op : Op) (left right : Int64) : Bool :=
  match op with
  | .eq => left = right
  | .ne => left ≠ right
  | .lt => left < right
  | .le => left ≤ right
  | .gt => right < left
  | _ => right ≤ left

def comparison (P : Program) (fn : Function) (regs : List Int64) (env : Env) (instr : Instr) :
    Except Stop Effect :=
  let left := getReg regs instr.b
  let right := getReg regs instr.c
  let result := if isF64Register fn instr.b && isF64Register fn instr.c
    then floatCompare P.host instr.op left right else intCompare instr.op left right
  setNext regs env instr.a (if result then 1 else 0)

/-! ### Externs -/

def dispatch (P : Program) (regs : List Int64) (env : Env) (instr : Instr) (name : List UInt8)
    (args : ExternCall) : Except Stop Effect :=
  match P.host.dispatchScalarExtern name args env with
  | (true, result, env) => setNext regs env instr.a result
  | (false, _, env) => .error (.fail env)

/-- `formatVariadic` on the arguments from `firstArgument` on. -/
def formatVariadic (host : Host) : List UInt8 → List Int64 → Option (List UInt8)
  | [], _ => some []
  | 37 :: [], _ => none
  | 37 :: 37 :: format, args => (37 :: ·) <$> formatVariadic host format args
  | 37 :: _ :: _, [] => none
  | 37 :: 117 :: format, value :: args =>
    (text (toString value.toUInt64) ++ ·) <$> formatVariadic host format args
  | 37 :: 100 :: format, value :: args =>
    (text (toString value) ++ ·) <$> formatVariadic host format args
  | 37 :: 103 :: format, value :: args =>
    (host.f64Text value ++ ·) <$> formatVariadic host format args
  | 37 :: _ :: _, _ => none
  | b :: format, args => (b :: ·) <$> formatVariadic host format args

/-- The `printf` and `snprintf` of `CallExternRange`, with the arguments in `args`. -/
def callVariadic (P : Program) (regs : List Int64) (env : Env) (instr : Instr) (name : List UInt8)
    (args : List Int64) : Except Stop Effect := do
  if name = text "printf" then
    let format := env.memory.cstring (toSize (← index args 0))
    match formatVariadic P.host format (args.drop 1) with
    | none => .error (.fail env)
    | some formatted =>
      setNext regs { env with output := env.output ++ formatted } instr.a (Int64.ofNat formatted.length)
  else
    let buffer ← index args 0
    let capacity ← index args 1
    let format := env.memory.cstring (toSize (← index args 2))
    match formatVariadic P.host format (args.drop 3) with
    | none => .error (.fail env)
    | some formatted =>
      if capacity ≤ 0 then .error (.fail env)
      else
        let formatted := if formatted.length ≥ toSize capacity
          then formatted.take (toSize capacity - 1) else formatted
        match env.memory.writeString (toSize buffer) formatted with
        | (false, _) => .error (.fail env)
        | (true, memory) => setNext regs { env with memory } instr.a (Int64.ofNat formatted.length)

def externOp (P : Program) (regs : List Int64) (env : Env) (instr : Instr) : Except Stop Effect := do
  match instr.op with
  | .callExtern =>
    if instr.imm.toNat ≥ P.module.externs.length then .error (.fail env)
    else
      dispatch P regs env instr (← index P.module.externs instr.imm.toNat)
        ⟨getReg regs instr.b, getReg regs instr.c, getReg regs instr.d, getReg regs instr.e⟩
  | .callExternRange =>
    let base := instr.b.toNat
    let count := instr.c.toNat
    if instr.imm.toNat ≥ P.module.externs.length then .error (.fail env)
    else if base > regs.length ∨ count > regs.length - base then .error (.fail env)
    else
      let name ← index P.module.externs instr.imm.toNat
      if name ≠ text "printf" ∧ name ≠ text "snprintf" then
        .error (.fail { env with
          message := text "unsupported extern '" ++ name ++ text "' in VM v2 variadic call" })
      else if (name = text "printf" ∧ count < 1) ∨ (name = text "snprintf" ∧ count < 3) then
        .error (.fail env)
      else callVariadic P regs env instr name ((regs.drop base).take count)
  | _ =>
    let ref := getReg regs instr.b
    if ref < 0 ∨ toSize ref ≥ P.module.externs.length then .error (.fail env)
    else
      dispatch P regs env instr (← index P.module.externs (toSize ref))
        ⟨getReg regs instr.c, getReg regs instr.imm, getReg regs instr.d, getReg regs instr.e⟩

/-! ### Calls -/

/-- `std::vector<int64_t> calleeRegs(callee->regCount, 0)`, then the arguments. -/
def calleeRegs (callee : Function) (args : List Int64) : Except Stop (List Int64) :=
  writeArgs (List.replicate callee.regCount.toNat 0) 0 args

/-- The arguments of a range call: registers `first, …, first + count - 1`. -/
def argWindow (regs : List Int64) (first : UInt16) (count : ℕ) : List Int64 :=
  (List.range count).map fun i => getReg regs (UInt16.ofNat (first.toNat + i))

def callOp (P : Program) (regs : List Int64) (env : Env) (instr : Instr) : Except Stop Effect := do
  let functions := P.module.functions
  let ref := getReg regs instr.b
  let badRef := ref < 0 ∨ toSize ref ≥ functions.length
  match instr.op with
  | .callFn =>
    if instr.imm.toNat ≥ functions.length then .error (.fail env)
    else
      let callee ← index functions instr.imm.toNat
      let args := [getReg regs instr.b, getReg regs instr.c].take callee.paramCount.toNat
      return .call callee (← calleeRegs callee args) instr.a
  | .callRange =>
    if instr.imm.toNat ≥ functions.length then .error (.fail env)
    else
      let callee ← index functions instr.imm.toNat
      let args := argWindow regs instr.b (min instr.c.toNat callee.paramCount.toNat)
      return .call callee (← calleeRegs callee args) instr.a
  | .tailCallRange =>
    if instr.imm.toNat ≥ functions.length then .error (.fail env)
    else
      let callee ← index functions instr.imm.toNat
      if instr.c ≠ callee.paramCount ∨ callee.paramCount > callee.regCount then .error (.fail env)
      else return .tail callee (← calleeRegs callee (argWindow regs instr.b instr.c.toNat))
  | .callFnRef =>
    if badRef then .error (.fail env)
    else
      let callee ← index functions (toSize ref)
      let args := [getReg regs instr.c, getReg regs instr.imm].take callee.paramCount.toNat
      return .call callee (← calleeRegs callee args) instr.a
  | _ =>
    if badRef then .error (.fail env)
    else
      let callee ← index functions (toSize ref)
      if instr.d ≠ callee.paramCount ∨ callee.paramCount > callee.regCount then .error (.fail env)
      else return .call callee (← calleeRegs callee (argWindow regs instr.c instr.d.toNat)) instr.a

/-- The `switch` of `runFunction`: `fn` is the function the loop was entered with, `current` the one
    whose body is running. -/
def exec (P : Program) (fn current : Function) (pc : ℕ) (regs : List Int64) (env : Env)
    (instr : Instr) : Except Stop Effect :=
  match instr.op with
  | .loadConstI32 | .loadConstI64 | .loadConstI64FromPool | .loadConstF32 | .loadConstF64
  | .loadString | .loadFnRef | .loadExternRef => loadConst P regs env instr
  | .move | .allocBytes | .mallocBytes | .storeBytes | .storeI8 | .storeI64 | .loadBytes | .loadI8
  | .loadI64 | .indexLoad | .fieldPtr | .makeSlice | .slicePtr | .sliceLen | .memCopy =>
    memoryOp P regs env instr
  | .add | .sub | .mul | .div | .rem | .bitAnd | .bitOr | .bitXor | .shl | .shr =>
    arithmetic P fn regs env instr
  | .neg | .not | .bitNot => unary P fn regs env instr
  | .eq | .ne | .lt | .le | .gt | .ge => comparison P fn regs env instr
  | .callExtern | .callExternRange | .callExternRef => externOp P regs env instr
  | .callFn | .callRange | .tailCallRange | .callFnRef | .callRangeFnRef => callOp P regs env instr
  | .ret =>
    let value := getReg regs instr.a
    if current.returnsSlice then .ok (.ret ⟨true, value, true, getReg regs (instr.a + 1)⟩)
    else .ok (.ret { ok := true, value })
  | .branch => .ok (.goto (if getReg regs instr.b ≠ 0 then instr.imm.toNat else pc + 1))
  | .branch2 => .ok (.goto (if getReg regs instr.b ≠ 0 then instr.imm.toNat else instr.d.toNat))
  | .jump => .ok (.goto instr.imm.toNat)
  | .nullDeref => .error (.fail { env with message := text "R10003: optional value is null" })
  | .panic => .error (.fail { env with message := text ("R" ++ toString instr.imm) })
  | .trap => .error (.fail env)

/-! ### Activations -/

/-- One activation of `runFunction`: the function it was entered with, the one it runs after tail
    transfers, and the watermark of its `Frame`. -/
structure Frame where
  entry : Function
  current : Function
  pc : ℕ
  regs : List Int64
  mark : ℕ

def Frame.instr (f : Frame) : Option Instr := f.current.body[f.pc]?

inductive Config where
  | running (top : Frame) (callers : List (UInt16 × Frame)) (env : Env)
  | done (result : FunctionReturn) (env : Env)
  | outOfBounds

/-- `if (regs.size() < regCount) regs.resize(regCount, 0)`. -/
def padRegs (regs : List Int64) (regCount : ℕ) : List Int64 := regs ++ List.replicate (regCount - regs.length) 0

/-- The head of the frame loop: take a watermark, resize the registers, start at the first row. -/
def enterFrame (entry current : Function) (regs : List Int64) (env : Env) : Frame :=
  { entry, current, pc := 0, regs := padRegs regs current.regCount.toNat
    mark := env.memory.arenaWatermark }

/-- `Frame::~Frame`. -/
def leaveFrame (f : Frame) (env : Env) : Env := { env with memory := env.memory.restoreArena f.mark }

/-- `return {false, 0}`: every caller in turn does the same. -/
def unwind (top : Frame) (callers : List (UInt16 × Frame)) (env : Env) : Config :=
  .done {} ((callers.map Prod.snd).foldl (fun env f => leaveFrame f env) (leaveFrame top env))

/-- The result of a call goes to register `dst` of the caller, a length to the one after it. -/
def deliver (result : FunctionReturn) (regs : List Int64) (dst : UInt16) : Option (List Int64) :=
  (setReg regs dst result.value).bind fun regs =>
    if result.hasAux then setReg regs (dst + 1) result.aux else some regs

/-- A finished call: the frame is left, then the caller goes on behind its call. -/
def returnTo (top : Frame) (callers : List (UInt16 × Frame)) (env : Env) (result : FunctionReturn) :
    Config :=
  match callers with
  | [] => .done result (leaveFrame top env)
  | (dst, caller) :: callers =>
    match deliver result caller.regs dst with
    | some regs => .running { caller with regs, pc := caller.pc + 1 } callers (leaveFrame top env)
    | none => unwind caller callers (leaveFrame top env)

/-- The state after an instruction that came to `e`. -/
def applyEffect (top : Frame) (callers : List (UInt16 × Frame)) (env : Env)
    (e : Except Stop Effect) : Config :=
  match e with
  | .error (.fail env) => unwind top callers env
  | .error .outOfBounds => .outOfBounds
  | .ok (.next regs env) => .running { top with regs, pc := top.pc + 1 } callers env
  | .ok (.goto pc) => .running { top with pc } callers env
  | .ok (.call callee regs dst) =>
    .running (enterFrame callee callee regs env) ((dst, top) :: callers) env
  | .ok (.tail callee regs) =>
    .running (enterFrame top.entry callee regs (leaveFrame top env)) callers (leaveFrame top env)
  | .ok (.ret result) => returnTo top callers env result

def step (P : Program) : Config → Config
  | .running top callers env =>
    match top.instr with
    | none => unwind top callers env
    | some instr =>
      applyEffect top callers env (exec P top.entry top.current top.pc top.regs env instr)
  | c => c

/-- `runFunction(state, fn, regs)`, before its first step. -/
def runFunction (fn : Function) (regs : List Int64) (env : Env) : Config :=
  .running (enterFrame fn fn regs env) [] env

/-! ### `Vm::runMain` -/

inductive RunStatus where
  | ok | missingMain | trap | unsupported | oom
  deriving DecidableEq, Repr

structure RunResult where
  status : RunStatus := .ok
  exitCode : Int64 := 0
  message : List UInt8 := []
  deriving DecidableEq

/-- The loop that writes the string constants, each with a zero byte behind it. -/
def materializeStrings (memory : LinearMemory) : List (List UInt8) →
    Except RunResult (List ℕ × LinearMemory)
  | [] => .ok ([], memory)
  | s :: strings =>
    match memory.allocBytes (s.length + 1) 1 with
    | (offset, memory) =>
      if offset = sizeMax then
        .error { status := .oom, message := text "cannot materialize string constants" }
      else
        match memory.writeString offset s with
        | (false, _) => .error { status := .trap, message := text "cannot write string constant" }
        | (true, memory) =>
          match materializeStrings memory strings with
          | .error result => .error result
          | .ok (addresses, memory) => .ok (offset :: addresses, memory)

/-- What `runMain` does before it calls `runFunction`. -/
def startMain (host : Host) (memory : LinearMemory) (m : Module) :
    Except RunResult (Program × Config) :=
  match findFunction m (text "main") with
  | none =>
    .error { status := .missingMain, message := text "the typed IR has no main function" }
  | some main =>
    if m.functions.all validateFunctionShape then
      match materializeStrings memory m.strings with
      | .error result => .error result
      | .ok (stringAddresses, memory) =>
        .ok ({ module := m, stringAddresses, host }, runFunction main (List.replicate main.regCount.toNat 0) { memory })
    else .error { status := .trap, message := text "invalid typed IR shape" }

end Zith.Vm
