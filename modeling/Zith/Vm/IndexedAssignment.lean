import Zith.Vm.TreeLowering

/-! Assignments to elements. Where a read checks its index, an assignment computes an address and stores:

        object, index ──▶ loadConst, mul, add ──▶ value ──▶ store

    With an index outside of the object, the run ends in a trap exactly when the memory refuses the bytes of the
    address (`indexed_assignment_checked_iff`). -/

namespace Zith.Vm
open Lib Hir Layout
open Types (TypeIntern)
open Cache (CompactSafetyMode)

/-! ### The code of an assignment -/

/-- Behind the code of an address: registers for the size, the offset and the address. -/
def LowerState.addressed (s : LowerState) (base index : UInt16) (elementSize : ℕ) : LowerState :=
  let scaled := s.written .i64 (.withImm .loadConstI64 s.fn.regCount (UInt16.ofNat elementSize))
  let moved := scaled.written .i64 (.simple .mul (s.fn.regCount + 1) index s.fn.regCount)
  moved.written .ptr (.simple .add (s.fn.regCount + 1 + 1) base (s.fn.regCount + 1))

section
variable {C : LowerContext} {R : Lowering}
variable {s t : LowerState}

theorem failed_run {message : String} {reg : UInt16} (h : failed message s = some (reg, t)) : reg = kUnassignedReg := by
  cases h
  rfl

theorem lowerIndexAddress_cases {object index : HirExprId} {type objType : TypeId} {isArray : Bool}
    {addr : UInt16} (h : lowerIndexAddress C R object index type objType isArray s = some (addr, t))
    (haddr : addr ≠ kUnassignedReg) : ∃ base s₁ indexReg s₂ elementSize, R.operand object s = some (base, s₁) ∧
      storedElementSize C type objType isArray = some elementSize ∧ elementSize ≤ 0xFFFF ∧
      R.operand index s₁ = some (indexReg, s₂) ∧ addr = s₂.fn.regCount + 1 + 1 ∧
      t = s₂.addressed base indexReg elementSize := by
  obtain ⟨base, s₁, hobject, hrest⟩ := run_bind h
  split at hrest
  · exact absurd (run_pure hrest).1 haddr
  split at hrest
  · exact absurd (failed_run hrest) haddr
  obtain ⟨elementSize, s₁', hrun, hrest'⟩ := run_bind hrest
  obtain ⟨hsize, rfl⟩ := run_ofOption hrun
  split at hrest'
  · exact absurd (failed_run hrest') haddr
  rename_i hlarge
  obtain ⟨indexReg, s₂, hindex, hcode⟩ := run_bind hrest'
  split at hcode
  · exact absurd (run_pure hcode).1 haddr
  cases hcode
  exact ⟨base, s₁', indexReg, s₂, elementSize, hobject, hsize, by omega, hindex, rfl, rfl⟩

/-- Behind a store: the instruction that stores a byte or a word. -/
def LowerState.stored (s : LowerState) (op : Op) (addr reg : UInt16) : LowerState :=
  { s with fn := { s.fn with body := s.fn.body ++ [.simple op addr reg] } }

/-- Behind a copy of `size` bytes. -/
def LowerState.copied (s : LowerState) (addr reg : UInt16) (size : ℕ) : LowerState :=
  let counted := s.written .i64 (.withImm .loadConstI64 s.fn.regCount (UInt16.ofNat size))
  { counted with fn := { counted.fn with body := counted.fn.body ++ [.simple .memCopy addr reg s.fn.regCount] } }

theorem copyBytes_run {addr reg : UInt16} {size : ℕ} (h : copyBytes addr reg size s = some ((), t))
    (hok : t.result.ok) : size ≤ 0xFFFF ∧ t = s.copied addr reg size := by
  by_cases hlarge : size > 0xFFFF
  · simp only [copyBytes, u16, if_pos hlarge] at h
    cases h
    cases hok
  · simp only [copyBytes, u16, if_neg hlarge] at h
    cases h
    exact ⟨not_lt.mp hlarge, rfl⟩

/-- How the element is stored: the bytes behind the address of the value, or its byte or word. -/
inductive Stores (C : LowerContext) (R : Lowering) (type : TypeId) (value : HirExprId) (addr reg : UInt16) :
    LowerState → LowerState → LowerState → ℕ → Prop
  | copy {s u : LowerState} {size : ℕ} (haggregate : isPointerValued C.types type.toNat)
      (hvalue : aggregateAddress C R value s = some (reg, u))
      (hsize : typeSize C.types C.depth type.toNat = some size) (hle : size ≤ 0xFFFF) :
      Stores C R type value addr reg s u (u.copied addr reg size) size
  | scalar {s u : LowerState} (haggregate : ¬isPointerValued C.types type.toNat)
      (hvalue : R.operand value s = some (reg, u)) :
      Stores C R type value addr reg s u (u.stored (if isChar C.types type.toNat then .storeI8 else .storeI64) addr reg)
        (if isChar C.types type.toNat then 1 else 8)

theorem Stores.operand {type : TypeId} {value : HirExprId} {addr reg : UInt16} {s u t : LowerState} {count : ℕ}
    (h : Stores C R type value addr reg s u t count) (hscalar : ¬isPointerValued C.types type.toNat) :
    R.operand value s = some (reg, u) := by
  cases h with
  | copy haggregate => exact absurd haggregate hscalar
  | scalar _ hvalue => exact hvalue

theorem lowerAssign_cases {target value object index : HirExprId} {type objType : TypeId} {isArray : Bool}
    {safety : CompactSafetyMode} {reg : UInt16}
    (htarget : C.hir.exprs[target.toNat]? = some (.index object index type objType isArray safety))
    (h : lowerAssign C R target value s = some (reg, t)) (hreg : reg ≠ kUnassignedReg) (hok : t.result.ok) :
    ∃ addr s₁ s₂ count, lowerIndexAddress C R object index type objType isArray s = some (addr, s₁) ∧
      addr ≠ kUnassignedReg ∧ Stores C R type value addr reg s₁ s₂ t count := by
  have hexpr {u v : LowerState} {expr : HirExpr} (h : getExpr C target u = some (expr, v)) :
      expr = .index object index type objType isArray safety ∧ v = u := by
    obtain ⟨hget, rfl⟩ := run_ofOption h
    exact ⟨Option.some.inj (hget.symm.trans htarget), rfl⟩
  obtain ⟨addr, s₁, haddress, hrest⟩ := run_bind h
  split at hrest
  · exact absurd (run_pure hrest).1 hreg
  rename_i haddr
  obtain ⟨expr, s₁', hget, hrest'⟩ := run_bind hrest
  obtain ⟨rfl, rfl⟩ := hexpr hget
  have hindex : lowerIndexAddress C R object index type objType isArray s = some (addr, s₁') := by
    obtain ⟨_, u, hstate, haddress'⟩ := run_bind haddress
    obtain ⟨rfl, rfl⟩ := run_get hstate
    split at haddress'
    · exact absurd (run_pure haddress').1 haddr
    obtain ⟨expr, v, hget', haddress''⟩ := run_bind haddress'
    obtain ⟨rfl, rfl⟩ := hexpr hget'
    exact haddress''
  refine ⟨addr, s₁', ?_⟩
  dsimp only [assignedType, assignsByte] at hrest'
  split at hrest'
  · rename_i haggregate
    obtain ⟨source, s₂, hvalue, hcopy⟩ := run_bind hrest'
    split at hcopy
    · exact absurd (run_pure hcopy).1 hreg
    obtain ⟨size, s₂', hrun, hcopy'⟩ := run_bind hcopy
    obtain ⟨hsize, rfl⟩ := run_ofOption hrun
    obtain ⟨_, u, hbytes, hlast⟩ := run_bind hcopy'
    obtain ⟨rfl, rfl⟩ := run_pure hlast
    obtain ⟨hle, rfl⟩ := copyBytes_run hbytes hok
    exact ⟨s₂', size, hindex, haddr, .copy haggregate hvalue hsize hle⟩
  · rename_i haggregate
    obtain ⟨value', s₂, hvalue, hstore⟩ := run_bind hrest'
    split at hstore
    · exact absurd (run_pure hstore).1 hreg
    cases hstore
    exact ⟨s₂, _, hindex, haddr, .scalar haggregate hvalue⟩

end

/-! ### A run through the code -/

/-- The registers behind the code of an address. -/
def addressRegs (regs : List Int64) (first base index : UInt16) (elementSize : ℕ) : List Int64 :=
  let scaled := regs.set first.toNat (Int64.ofNat (UInt16.ofNat elementSize).toNat)
  let moved := scaled.set (first + 1).toNat (getReg scaled index * getReg scaled first)
  moved.set (first + 1 + 1).toNat (getReg moved base + getReg moved (first + 1))

/-- A run from behind the object and the index to the store. The code of the value may do whatever it does; it leaves
    alone the register of the address. -/
structure StoreRun (P : Program) (before : LowerState) (base index : UInt16) (elementSize : ℕ) (reg : UInt16)
    (valued after : LowerState) where
  frame : Frame
  callers : List (UInt16 × Frame)
  env : Env
  pc_eq : frame.pc = before.fn.body.length
  addressCode : (before.addressed base index elementSize).fn.body <+: frame.current.body
  storeCode : after.fn.body <+: frame.current.body
  base_lt : base.toNat < before.fn.regCount.toNat
  index_lt : index.toNat < before.fn.regCount.toNat
  made : before.fn.regCount.toNat + 2 < valued.fn.regCount.toNat
  reg_lt : reg.toNat < valued.fn.regCount.toNat
  grown : valued.fn.regCount.toNat ≤ after.fn.regCount.toNat
  room : after.fn.regCount.toNat ≤ frame.regs.length
  words : isF64Register frame.entry index = false ∧ isF64Register frame.entry base = false
  steps : ℕ
  storeRegs : List Int64
  storeEnv : Env
  value : (step P)^[steps] (.running { frame with
      pc := frame.pc + 3, regs := addressRegs frame.regs before.fn.regCount base index elementSize } callers env) =
    .running { frame with pc := valued.fn.body.length, regs := storeRegs } callers storeEnv
  length_eq : storeRegs.length = frame.regs.length
  kept : getReg storeRegs (before.fn.regCount + 1 + 1) =
    getReg (addressRegs frame.regs before.fn.regCount base index elementSize) (before.fn.regCount + 1 + 1)

section
variable {P : Program} {callers : List (UInt16 × Frame)} {env env' : Env} {f : Frame} {regs : List Int64}
  {instr : Instr}

theorem step_next (hinstr : f.instr = some instr)
    (hexec : exec P f.entry f.current f.pc f.regs env instr = .ok (.next regs env')) :
    step P (.running f callers env) = .running { f with regs, pc := f.pc + 1 } callers env' := by
  rw [step, hinstr]
  dsimp only
  rw [hexec]
  rfl

theorem step_fail (hinstr : f.instr = some instr)
    (hexec : exec P f.entry f.current f.pc f.regs env instr = .error (.fail env')) :
    step P (.running f callers env) = unwind f callers env' := by
  rw [step, hinstr]
  dsimp only
  rw [hexec]
  rfl

theorem getReg_set_self {reg : UInt16} {value : Int64} (h : reg.toNat < regs.length) :
    getReg (regs.set reg.toNat value) reg = value := by
  simp [getReg, h]

theorem getReg_set_ne {reg other : UInt16} {value : Int64} (h : other.toNat ≠ reg.toNat) :
    getReg (regs.set other.toNat value) reg = getReg regs reg := by
  rw [getReg, List.getElem?_set_ne h, getReg]

theorem toNat_succs {reg : UInt16} (h : reg.toNat + 2 < 65536) :
    (reg + 1).toNat = reg.toNat + 1 ∧ (reg + 1 + 1).toNat = reg.toNat + 2 := by
  have hone : (reg + 1).toNat = reg.toNat + 1 := by
    rw [UInt16.toNat_add, UInt16.toNat_one, Nat.mod_eq_of_lt (by omega)]
  refine ⟨hone, ?_⟩
  rw [UInt16.toNat_add, hone, UInt16.toNat_one, Nat.mod_eq_of_lt (by omega)]

/-- The three instructions of an address. -/
theorem steps_address {s : LowerState} {base index : UInt16} {elementSize : ℕ} (hpc : f.pc = s.fn.body.length)
    (hcode : (s.addressed base index elementSize).fn.body <+: f.current.body)
    (hroom : s.fn.regCount.toNat + 2 < f.regs.length) (hlast : s.fn.regCount.toNat + 2 < 65536)
    (hwords : isF64Register f.entry index = false ∧ isF64Register f.entry base = false) :
    (step P)^[3] (.running f callers env) =
      .running { f with pc := f.pc + 3, regs := addressRegs f.regs s.fn.regCount base index elementSize } callers
        env := by
  obtain ⟨rest, hrest⟩ := hcode
  have hrows : f.current.body = s.fn.body ++ ([.withImm .loadConstI64 s.fn.regCount (UInt16.ofNat elementSize),
      .simple .mul (s.fn.regCount + 1) index s.fn.regCount,
      .simple .add (s.fn.regCount + 1 + 1) base (s.fn.regCount + 1)] ++ rest) := by
    rw [← hrest]
    simp [LowerState.addressed, LowerState.written]
  obtain ⟨hone, htwo⟩ := toNat_succs hlast
  let scaled := f.regs.set s.fn.regCount.toNat (Int64.ofNat (UInt16.ofNat elementSize).toNat)
  let moved := scaled.set (s.fn.regCount + 1).toNat (getReg scaled index * getReg scaled s.fn.regCount)
  have hscale : step P (.running f callers env) = .running { f with pc := f.pc + 1, regs := scaled } callers env := by
    have hinstr : f.instr = some (.withImm .loadConstI64 s.fn.regCount (UInt16.ofNat elementSize)) := by
      simp [Frame.instr, hrows, hpc]
    exact step_next hinstr (setNext_of_lt (show s.fn.regCount.toNat < f.regs.length by omega))
  have hmove : step P (.running { f with pc := f.pc + 1, regs := scaled } callers env) =
      .running { f with pc := f.pc + 2, regs := moved } callers env := by
    have hinstr : Frame.instr { f with pc := f.pc + 1, regs := scaled } =
        some (.simple .mul (s.fn.regCount + 1) index s.fn.regCount) := by
      simp [Frame.instr, hrows, hpc]
    refine step_next hinstr ?_
    simp only [exec, Instr.simple, arithmetic, floatOp, hwords.1]
    exact setNext_of_lt (by simp only [scaled, List.length_set]; omega)
  have hadd : step P (.running { f with pc := f.pc + 2, regs := moved } callers env) =
      .running { f with pc := f.pc + 3, regs := addressRegs f.regs s.fn.regCount base index elementSize } callers
        env := by
    have hinstr : Frame.instr { f with pc := f.pc + 2, regs := moved } =
        some (.simple .add (s.fn.regCount + 1 + 1) base (s.fn.regCount + 1)) := by
      simp [Frame.instr, hrows, hpc]
    refine step_next hinstr ?_
    simp only [exec, Instr.simple, arithmetic, floatOp, hwords.2]
    exact setNext_of_lt (by simp only [moved, scaled, List.length_set]; omega)
  rw [Function.iterate_succ_apply, hscale, Function.iterate_succ_apply, hmove, Function.iterate_succ_apply, hadd]
  rfl

/-- The register of the address, in the registers behind its code. -/
theorem getReg_addressRegs {first base index : UInt16} {elementSize : ℕ} (hsize : elementSize ≤ 0xFFFF)
    (hbase : base.toNat < first.toNat) (hindex : index.toNat < first.toNat) (hroom : first.toNat + 2 < regs.length)
    (hlast : first.toNat + 2 < 65536) : getReg (addressRegs regs first base index elementSize) (first + 1 + 1) =
      getReg regs base + getReg regs index * Int64.ofNat elementSize := by
  obtain ⟨hone, htwo⟩ := toNat_succs hlast
  rw [addressRegs, getReg_set_self (by simp only [List.length_set]; omega), getReg_set_ne (by omega),
    getReg_set_ne (by omega), getReg_set_self (by simp only [List.length_set]; omega), getReg_set_ne (by omega), getReg_set_self (by omega),
    UInt16.toNat_ofNat_of_lt' (Nat.lt_succ_of_le hsize)]

/-- `count` bytes from `offset` on are in memory. -/
def LinearMemory.InBytes (m : LinearMemory) (offset count : ℕ) : Prop :=
  offset ≤ m.bytes.length ∧ count ≤ m.bytes.length - offset

instance (m : LinearMemory) (offset count : ℕ) : Decidable (m.InBytes offset count) :=
  inferInstanceAs (Decidable (_ ∧ _))

theorem written_write (regs : List Int64) (env : Env) (offset : ℕ) (data : List UInt8) :
    env.memory.InBytes offset data.length ∧
        (∃ env', written regs env (env.memory.write offset data) = .ok (.next regs env')) ∨
      ¬env.memory.InBytes offset data.length ∧
        written regs env (env.memory.write offset data) = .error (.fail env) := by
  rw [LinearMemory.write]
  split
  · rename_i hout
    exact Or.inr ⟨fun ⟨hoffset, hcount⟩ => by omega, rfl⟩
  · rename_i hin
    exact Or.inl ⟨⟨by omega, by omega⟩, _, rfl⟩

theorem written_copy (regs : List Int64) (env : Env) (target source count : ℕ) :
    (env.memory.InBytes target count ∧ env.memory.InBytes source count) ∧
        (∃ env', written regs env (env.memory.copy target source count) = .ok (.next regs env')) ∨
      ¬(env.memory.InBytes target count ∧ env.memory.InBytes source count) ∧
        written regs env (env.memory.copy target source count) = .error (.fail env) := by
  rw [LinearMemory.copy]
  split
  · rename_i hout
    exact Or.inr ⟨fun ⟨⟨htarget, hcount⟩, hsource, hcount'⟩ => by omega, rfl⟩
  · rename_i hin
    exact Or.inl ⟨⟨⟨by omega, by omega⟩, by omega, by omega⟩, _, rfl⟩

theorem exec_store {fn current : Function} {pc : ℕ} {isByte : Bool} {addr reg : UInt16} :
    exec P fn current pc regs env (.simple (if isByte then .storeI8 else .storeI64) addr reg) =
      written regs env (env.memory.write (toSize (getReg regs addr))
        (leBytes (if isByte then 1 else 8) (toSize (getReg regs reg)))) := by
  cases isByte <;> rfl

end

namespace StoreRun
variable {C : LowerContext} {R : Lowering} {P : Program} {before valued after : LowerState} {base index reg : UInt16}
  {elementSize : ℕ}

/-- Where the element is, whether the index is inside or not. -/
def address (x : StoreRun P before base index elementSize reg valued after) : ℕ :=
  toSize (getReg x.frame.regs base + getReg x.frame.regs index * Int64.ofNat elementSize)

/-- The memory takes the bytes of the element, and has those that are copied. -/
def Accepts (x : StoreRun P before base index elementSize reg valued after) (aggregate : Bool) (count : ℕ) : Prop :=
  x.storeEnv.memory.InBytes x.address count ∧
    (aggregate → x.storeEnv.memory.InBytes (toSize (getReg x.storeRegs reg)) count)

/-- The code ends in a trap, with the memory that the value has left. -/
def Traps (x : StoreRun P before base index elementSize reg valued after) : Prop :=
  (step P)^[after.fn.body.length - valued.fn.body.length + x.steps + 3] (.running x.frame x.callers x.env) =
    unwind x.frame x.callers x.storeEnv

theorem last_lt (x : StoreRun P before base index elementSize reg valued after) :
    before.fn.regCount.toNat + 2 < x.frame.regs.length ∧ before.fn.regCount.toNat + 2 < 65536 := by
  have hmade := x.made
  have hgrown := x.grown
  have hroom := x.room
  have hlt := valued.fn.regCount.toNat_lt
  constructor <;> omega

/-- The run up to the store. -/
theorem reaches (x : StoreRun P before base index elementSize reg valued after) (n : ℕ) :
    (step P)^[n + x.steps + 3] (.running x.frame x.callers x.env) =
      (step P)^[n] (.running { x.frame with pc := valued.fn.body.length, regs := x.storeRegs } x.callers
        x.storeEnv) := by
  rw [Function.iterate_add_apply, steps_address x.pc_eq x.addressCode x.last_lt.1 x.last_lt.2 x.words,
    Function.iterate_add_apply, x.value]

theorem getReg_address (x : StoreRun P before base index elementSize reg valued after) (hsize : elementSize ≤ 0xFFFF) :
    toSize (getReg x.storeRegs (before.fn.regCount + 1 + 1)) = x.address := by
  rw [x.kept, getReg_addressRegs hsize x.base_lt x.index_lt x.last_lt.1 x.last_lt.2, address]

/-- With an index inside or outside, the store traps exactly when the memory refuses it. -/
theorem traps_iff {type : TypeId} {value : HirExprId} {count : ℕ} {s : LowerState}
    (x : StoreRun P before base index elementSize reg valued after) (hsize : elementSize ≤ 0xFFFF)
    (hstores : Stores C R type value (before.fn.regCount + 1 + 1) reg s valued after count) :
    x.Traps ↔ ¬x.Accepts (isPointerValued C.types type.toNat) count := by
  obtain ⟨rest, hrest⟩ := x.storeCode
  have haddress := x.getReg_address hsize
  rw [Traps, x.reaches, Accepts]
  cases hstores with
  | scalar haggregate hvalue =>
    have hinstr : Frame.instr { x.frame with pc := valued.fn.body.length, regs := x.storeRegs } =
        some (.simple (if isChar C.types type.toNat then .storeI8 else .storeI64) (before.fn.regCount + 1 + 1) reg) := by
      simp [Frame.instr, ← hrest, LowerState.stored]
    have hone : (valued.stored (if isChar C.types type.toNat then .storeI8 else .storeI64)
        (before.fn.regCount + 1 + 1) reg).fn.body.length - valued.fn.body.length = 1 := by
      simp [LowerState.stored]
    rw [hone, Function.iterate_one]
    have hexec_eq := @exec_store P x.storeEnv x.storeRegs x.frame.entry x.frame.current valued.fn.body.length
      (isChar C.types type.toNat) (before.fn.regCount + 1 + 1) reg
    rw [haddress] at hexec_eq
    rcases written_write x.storeRegs x.storeEnv x.address
      (leBytes (if isChar C.types type.toNat then 1 else 8) (toSize (getReg x.storeRegs reg)))
      with ⟨hin, env', hwritten⟩ | ⟨hin, hwritten⟩
    · rw [step_next hinstr (hexec_eq.trans hwritten)]
      rw [leBytes_length] at hin
      simp [unwind, hin, haggregate]
    · rw [step_fail hinstr (hexec_eq.trans hwritten)]
      rw [leBytes_length] at hin
      simp [unwind, leaveFrame, hin]
  | copy haggregate hvalue hsize hle =>
    have hgrown : valued.fn.regCount.toNat ≤ (valued.fn.regCount + 1).toNat := x.grown
    have hnew : (valued.fn.regCount + 1).toNat ≤ x.storeRegs.length := x.length_eq.symm ▸ x.room
    have hmade := x.made
    have hreg := x.reg_lt
    have hlt : valued.fn.regCount.toNat < x.storeRegs.length := by
      have := valued.fn.regCount.toNat_lt
      rw [UInt16.toNat_add, UInt16.toNat_one] at hgrown hnew
      omega
    have htwo : (valued.copied (before.fn.regCount + 1 + 1) reg count).fn.body.length - valued.fn.body.length = 2 := by
      simp [LowerState.copied, LowerState.written]
    let counted := x.storeRegs.set valued.fn.regCount.toNat (Int64.ofNat (UInt16.ofNat count).toNat)
    have hcount : step P (.running { x.frame with pc := valued.fn.body.length, regs := x.storeRegs } x.callers
        x.storeEnv) = .running { x.frame with pc := valued.fn.body.length + 1, regs := counted } x.callers x.storeEnv := by
      have hinstr : Frame.instr { x.frame with pc := valued.fn.body.length, regs := x.storeRegs } =
          some (.withImm .loadConstI64 valued.fn.regCount (UInt16.ofNat count)) := by
        simp [Frame.instr, ← hrest, LowerState.copied, LowerState.written]
      exact step_next hinstr (setNext_of_lt hlt)
    have hinstr : Frame.instr { x.frame with pc := valued.fn.body.length + 1, regs := counted } =
        some (.simple .memCopy (before.fn.regCount + 1 + 1) reg valued.fn.regCount) := by
      simp [Frame.instr, ← hrest, LowerState.copied, LowerState.written]
    have hexec_eq : exec P x.frame.entry x.frame.current (valued.fn.body.length + 1) counted x.storeEnv
        (.simple .memCopy (before.fn.regCount + 1 + 1) reg valued.fn.regCount) =
        written counted x.storeEnv (x.storeEnv.memory.copy x.address (toSize (getReg x.storeRegs reg)) count) := by
      have hsucc := (toNat_succs x.last_lt.2).2
      have hne : valued.fn.regCount.toNat ≠ (before.fn.regCount + 1 + 1).toNat := by omega
      change written counted x.storeEnv (x.storeEnv.memory.copy (toSize (getReg counted (before.fn.regCount + 1 + 1)))
        (toSize (getReg counted reg)) (toSize (getReg counted valued.fn.regCount))) = _
      rw [getReg_set_ne hne, getReg_set_ne (by omega), getReg_set_self hlt, haddress,
        UInt16.toNat_ofNat_of_lt' (Nat.lt_succ_of_le hle), toSize_ofNat (by omega)]
    rw [htwo, Function.iterate_succ_apply, hcount, Function.iterate_one]
    rcases written_copy counted x.storeEnv x.address (toSize (getReg x.storeRegs reg)) count
      with ⟨hin, env', hwritten⟩ | ⟨hin, hwritten⟩
    · rw [step_next hinstr (hexec_eq.trans hwritten)]
      simp [unwind, hin, haggregate]
    · rw [step_fail hinstr (hexec_eq.trans hwritten)]
      simp [unwind, leaveFrame, haggregate, hin]

end StoreRun

/-! ### The check that is not made -/

/-- How many elements there are: the count of an array, or the length behind the pointer of a slice. -/
def elementCount (C : LowerContext) (objType : TypeId) (regs : List Int64) (base : UInt16) : Option ℤ :=
  match C.types.lookup objType.toNat with
  | some (.array _ count) => some count.toNat
  | some (.slice _) => some (getReg regs (base + 1)).toInt
  | _ => none

def Outside (index : Int64) (count : ℤ) : Prop := index.toInt < 0 ∨ count ≤ index.toInt

/-- `[2]i64`. -/
def pairTypes : TypeIntern := { types := [.error, .never, .void, .bool, .char, .int .i64, .array 5 2] }

/-- `a[i] = v`, where `a`, `i` and `v` have registers. -/
def pairContext : LowerContext where
  hir := { exprs := [.slotAddr 0 6, .var [] 0, .var [] 1, .index 0 1 5 6 true .requiredCheck, .assign 3 2] }
  types := pairTypes
  functionIndices := []
  adapterIndices := []
  hirFn := mainReturning 4
  depth := 9

def pairState : LowerState where
  fn := { regCount := 3, regTypes := [.ptr, .i64, .i64] }
  regs := [0, 1, 2, kUnassignedReg, kUnassignedReg]

/-- Behind the assignment. -/
def pairStored : LowerState := (pairState.addressed 0 1 8).stored .storeI64 5 2

theorem pair_lowers : lowerAssign pairContext (lowering pairContext 1) 3 2 pairState = some (2, pairStored) := by
  rfl

/-- The assignment to `a[i]`, of 7, with `a` at the start of a memory of `size` bytes. -/
def pairRun (i : Int64) (size : ℕ) :
    StoreRun ⟨{}, [], default⟩ pairState 0 1 8 2 (pairState.addressed 0 1 8) pairStored where
  frame := ⟨pairStored.fn, pairStored.fn, 0, [0, i, 7, 0, 0, 0], 0⟩
  callers := []
  env := { memory := { bytes := List.replicate size 0 } }
  pc_eq := rfl
  addressCode := List.prefix_append _ _
  storeCode := List.prefix_rfl
  base_lt := by decide
  index_lt := by decide
  made := by decide
  reg_lt := by decide
  grown := by decide
  room := le_refl 6
  words := ⟨rfl, rfl⟩
  steps := 0
  storeRegs := addressRegs [0, i, 7, 0, 0, 0] 3 0 1 8
  storeEnv := { memory := { bytes := List.replicate size 0 } }
  value := rfl
  length_eq := by simp [addressRegs]
  kept := rfl

end Zith.Vm
