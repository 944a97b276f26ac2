import Zith.Vm.Machine

/-! What an instruction can do. The data instructions fail or go on to the next row with as many
    registers (`Sequential`), whatever the tables and the host hold; calls, returns and jumps are the
    only others (`exec_cases`). -/

namespace Zith.Vm
open Zith.Lib

/-- The instruction fails, or goes on to the next row with as many registers. -/
def Sequential (regs : List Int64) (e : Except Stop Effect) : Prop :=
  (∃ env, e = .error (.fail env)) ∨ ∃ regs' env, e = .ok (.next regs' env) ∧ regs'.length = regs.length

theorem sequential_fail (regs : List Int64) (env : Env) : Sequential regs (.error (.fail env)) := .inl ⟨env, rfl⟩

theorem sequential_next (regs : List Int64) (env : Env) : Sequential regs (.ok (.next regs env)) :=
  .inr ⟨regs, env, rfl, rfl⟩

variable {regs regs' : List Int64} {i : Instr} {α : Type}

theorem setReg_eq_some {i : UInt16} {value : Int64} (h : setReg regs i value = some regs') :
    i.toNat < regs.length ∧ regs' = regs.set i.toNat value := by
  unfold setReg at h
  split at h
  · simp at h
  · next hlt => exact ⟨not_le.mp hlt, (Option.some.inj h).symm⟩

theorem setReg_length {i : UInt16} {value : Int64} (h : setReg regs i value = some regs') :
    regs'.length = regs.length := by
  rw [(setReg_eq_some h).2, List.length_set]

theorem sequential_setNext (regs : List Int64) (env : Env) (dst : UInt16) (value : Int64) :
    Sequential regs (setNext regs env dst value) := by
  unfold setNext
  split
  · next h => exact .inr ⟨_, env, rfl, setReg_length h⟩
  · exact sequential_fail regs env

theorem Sequential.of_length {e : Except Stop Effect} (h : Sequential regs' e)
    (hlen : regs'.length = regs.length) : Sequential regs e := by
  rcases h with ⟨env, rfl⟩ | ⟨regs₂, env, rfl, h⟩
  · exact sequential_fail regs env
  · exact .inr ⟨regs₂, env, rfl, h.trans hlen⟩

theorem index_of_lt {table : List α} {i : ℕ} (h : i < table.length) : index table i = .ok table[i] := by
  rw [index, List.getElem?_eq_getElem h]

/-- A read behind its size check yields an entry. -/
theorem sequential_index {table : List α} {i : ℕ} {regs : List Int64} {k : α → Except Stop Effect}
    (h : ¬ i ≥ table.length) (hk : ∀ a, Sequential regs (k a)) : Sequential regs (index table i >>= k) := by
  rw [index_of_lt (not_le.mp h)]
  exact hk _

theorem toSize_ofNat {n : ℕ} (h : n < 2 ^ 64) : toSize (Int64.ofNat n) = n := by
  simp only [toSize, Int64.toUInt64_ofNat', UInt64.toNat_ofNat']
  exact Nat.mod_eq_of_lt h

/-! ### Tables and memory -/

theorem sequential_loadConst (P : Program) (regs : List Int64) (env : Env) (instr : Instr) :
    Sequential regs (loadConst P regs env instr) := by
  unfold loadConst
  dsimp only
  split
  case h_7 => exact sequential_setNext ..
  all_goals
    split
    · exact sequential_fail ..
    · first
      | exact sequential_index ‹_› fun a => sequential_setNext ..
      | exact sequential_setNext ..

theorem sequential_allocated (regs : List Int64) (env : Env) (dst : UInt16)
    (answer : ℕ × LinearMemory) : Sequential regs (allocated regs env dst answer) := by
  unfold allocated
  dsimp only
  split
  · exact sequential_fail ..
  · exact sequential_setNext ..

theorem sequential_written (regs : List Int64) (env : Env) (answer : Bool × LinearMemory) :
    Sequential regs (written regs env answer) := by
  unfold written
  split
  · exact sequential_next ..
  · exact sequential_fail ..

theorem sequential_loadWord (regs : List Int64) (env : Env) (dst : UInt16) (offset : ℕ) :
    Sequential regs (loadWord regs env dst offset) := by
  unfold loadWord
  dsimp only
  split
  · exact sequential_fail ..
  · exact sequential_setNext ..

theorem sequential_indexLoad (regs : List Int64) (env : Env) (instr : Instr) :
    Sequential regs (indexLoad regs env instr) := by
  unfold indexLoad
  dsimp only
  repeat' split
  all_goals first
    | exact sequential_fail ..
    | exact sequential_setNext ..
    | exact sequential_loadWord ..

theorem sequential_memoryOp (P : Program) (regs : List Int64) (env : Env) (instr : Instr) :
    Sequential regs (memoryOp P regs env instr) := by
  unfold memoryOp
  dsimp only
  split
  · exact sequential_allocated ..
  · exact sequential_allocated ..
  · split
    · exact sequential_fail ..
    · exact sequential_index ‹_› fun a => sequential_written ..
  · exact sequential_written ..
  · exact sequential_written ..
  · split
    · exact sequential_fail ..
    · exact sequential_setNext ..
  · split
    · exact sequential_fail ..
    · next hlen => exact sequential_index (by omega) fun a => sequential_setNext ..
  · exact sequential_loadWord ..
  · exact sequential_indexLoad ..
  · exact sequential_setNext ..
  · split
    · exact sequential_fail ..
    · next hslice => exact (sequential_setNext ..).of_length (setReg_length hslice)
  · split
    · exact sequential_fail ..
    · exact sequential_index (by omega) fun a => sequential_setNext ..
  · split
    · exact sequential_fail ..
    · exact sequential_index (by omega) fun a => sequential_setNext ..
  · exact sequential_written ..
  · exact sequential_setNext ..

theorem sequential_arithmetic (P : Program) (fn : Function) (regs : List Int64) (env : Env)
    (instr : Instr) : Sequential regs (arithmetic P fn regs env instr) := by
  unfold arithmetic
  dsimp only
  split
  · exact sequential_setNext ..
  · split
    · exact sequential_fail ..
    · exact sequential_setNext ..

theorem sequential_unary (P : Program) (fn : Function) (regs : List Int64) (env : Env)
    (instr : Instr) : Sequential regs (unary P fn regs env instr) := by
  unfold unary
  dsimp only
  split <;> exact sequential_setNext ..

/-! ### Externs -/

theorem sequential_dispatch (P : Program) (regs : List Int64) (env : Env) (instr : Instr)
    (name : List UInt8) (args : ExternCall) : Sequential regs (dispatch P regs env instr name args) := by
  unfold dispatch
  split
  · exact sequential_setNext ..
  · exact sequential_fail ..

/-- The argument counts asked for cover every argument read. -/
theorem sequential_callVariadic (P : Program) (regs : List Int64) (env : Env) (instr : Instr)
    {name : List UInt8} {args : List Int64} (hprintf : name = text "printf" → 1 ≤ args.length)
    (hsnprintf : name ≠ text "printf" → 3 ≤ args.length) :
    Sequential regs (callVariadic P regs env instr name args) := by
  unfold callVariadic
  split
  · next hname =>
    refine sequential_index (by have := hprintf hname; omega) fun a => ?_
    dsimp only
    split
    · exact sequential_fail ..
    · exact sequential_setNext ..
  · next hname =>
    have hlen := hsnprintf hname
    refine sequential_index (by omega) fun buffer => ?_
    refine sequential_index (by omega) fun capacity => ?_
    refine sequential_index (by omega) fun format => ?_
    dsimp only
    repeat' split
    all_goals first
      | exact sequential_fail ..
      | exact sequential_setNext ..

theorem sequential_externOp (P : Program) (regs : List Int64) (env : Env) (instr : Instr) :
    Sequential regs (externOp P regs env instr) := by
  unfold externOp
  split
  · split
    · exact sequential_fail ..
    · exact sequential_index ‹_› fun a => sequential_dispatch ..
  · dsimp only
    split
    · exact sequential_fail ..
    split
    · exact sequential_fail ..
    · next htable hwindow =>
      refine sequential_index htable fun name => ?_
      split
      · exact sequential_fail ..
      split
      · exact sequential_fail ..
      · next hname hcount =>
        have hlen : ((regs.drop instr.b.toNat).take instr.c.toNat).length = instr.c.toNat := by
          rw [List.length_take, List.length_drop]
          omega
        refine sequential_callVariadic P regs env instr (fun h => ?_) fun h => ?_ <;> rw [hlen]
        · by_contra hlt
          exact hcount (.inl ⟨h, by omega⟩)
        · by_contra hlt
          exact hcount (.inr ⟨not_not.mp fun hn => hname ⟨h, hn⟩, by omega⟩)
  · dsimp only
    split
    · exact sequential_fail ..
    · next href => exact sequential_index (fun h => href (.inr h)) fun a => sequential_dispatch ..

/-! ### Calls -/

theorem writeArgs_of_le : ∀ {args regs : List Int64} {i : ℕ}, i + args.length ≤ regs.length →
    ∃ regs', writeArgs regs i args = .ok regs'
  | [], regs, i, _ => ⟨regs, rfl⟩
  | a :: args, regs, i, h => by
    rw [List.length_cons] at h
    rw [writeArgs, if_pos (by omega)]
    exact writeArgs_of_le (by rw [List.length_set]; omega)

theorem writeArgs_of_lt : ∀ {args regs : List Int64} {i : ℕ}, i ≤ regs.length →
    regs.length < i + args.length → writeArgs regs i args = .error .outOfBounds
  | [], regs, i, hle, hlt => by
    rw [List.length_nil] at hlt
    omega
  | a :: args, regs, i, hle, hlt => by
    rw [List.length_cons] at hlt
    rw [writeArgs]
    split
    · exact writeArgs_of_lt (by rw [List.length_set]; omega) (by rw [List.length_set]; omega)
    · rfl

theorem calleeRegs_cases (callee : Function) (args : List Int64) :
    calleeRegs callee args = .error .outOfBounds ∨ ∃ regs, calleeRegs callee args = .ok regs := by
  have hlen := List.length_replicate (n := callee.regCount.toNat) (a := (0 : Int64))
  rcases Nat.lt_or_ge callee.regCount.toNat args.length with hlt | hle
  · exact .inl (writeArgs_of_lt (Nat.zero_le _) (by omega))
  · exact .inr (writeArgs_of_le (by omega))

theorem index_cases (table : List α) (i : ℕ) :
    index table i = .error .outOfBounds ∨ ∃ a, table[i]? = some a ∧ index table i = .ok a := by
  cases h : table[i]? with
  | none => exact .inl (by rw [index, h])
  | some a => exact .inr ⟨a, rfl, by rw [index, h]⟩

/-- The opcodes `callOp` handles. -/
def Op.isCall (op : Op) : Bool :=
  match op with
  | .callFn | .callRange | .tailCallRange | .callFnRef | .callRangeFnRef => true
  | _ => false

/-- What a call instruction comes to: it fails, leaves the bounds, calls, or transfers to the function
    it names. -/
inductive CallOutcome (P : Program) (env : Env) (i : Instr) : Except Stop Effect → Prop where
  | fail : CallOutcome P env i (.error (.fail env))
  | outOfBounds : CallOutcome P env i (.error .outOfBounds)
  | call (callee : Function) (regs : List Int64) :
      CallOutcome P env i (.ok (.call callee regs i.a))
  | tail (callee : Function) (regs : List Int64) (hop : i.op = .tailCallRange)
      (hcallee : P.module.functions[i.imm.toNat]? = some callee) :
      CallOutcome P env i (.ok (.tail callee regs))

theorem CallOutcome.of_index {P : Program} {env : Env} {table : List α} {n : ℕ} {k : α → Except Stop Effect}
    (h : ∀ a, table[n]? = some a → CallOutcome P env i (k a)) : CallOutcome P env i (index table n >>= k) := by
  rcases index_cases table n with hoob | ⟨a, ha, hok⟩
  · rw [hoob]
    exact .outOfBounds
  · rw [hok]
    exact h a ha

theorem CallOutcome.of_calleeRegs {P : Program} {env : Env} {callee : Function} {args : List Int64}
    {k : List Int64 → Effect} (h : ∀ regs, CallOutcome P env i (.ok (k regs))) :
    CallOutcome P env i (calleeRegs callee args >>= fun regs => .ok (k regs)) := by
  rcases calleeRegs_cases callee args with hoob | ⟨regs, hok⟩
  · rw [hoob]
    exact .outOfBounds
  · rw [hok]
    exact h regs

theorem callOp_outcome (P : Program) (regs : List Int64) (env : Env) (hcall : i.op.isCall = true) :
    CallOutcome P env i (callOp P regs env i) := by
  have hop : i.op = .callFn ∨ i.op = .callRange ∨ i.op = .tailCallRange ∨ i.op = .callFnRef ∨
      i.op = .callRangeFnRef := by
    revert hcall
    cases i.op <;> simp [Op.isCall]
  rcases hop with hop | hop | hop | hop | hop <;> simp only [callOp, hop]
  · split
    · exact .fail
    · exact .of_index fun callee _ => .of_calleeRegs fun regs' => .call callee regs'
  · split
    · exact .fail
    · exact .of_index fun callee _ => .of_calleeRegs fun regs' => .call callee regs'
  · split
    · exact .fail
    · refine .of_index fun callee hcallee => ?_
      split
      · exact .fail
      · exact .of_calleeRegs fun regs' => .tail callee regs' hop hcallee
  · split
    · exact .fail
    · exact .of_index fun callee _ => .of_calleeRegs fun regs' => .call callee regs'
  · split
    · exact .fail
    · refine .of_index fun callee _ => ?_
      split
      · exact .fail
      · exact .of_calleeRegs fun regs' => .call callee regs'

/-! ### The switch -/

/-- What `Ret` returns. -/
def retResult (current : Function) (regs : List Int64) (instr : Instr) : FunctionReturn :=
  let value := getReg regs instr.a
  if current.returnsSlice then ⟨true, value, true, getReg regs (instr.a + 1)⟩
  else { ok := true, value }

/-- The opcodes with jump targets. -/
def Op.isJump (op : Op) : Bool :=
  match op with
  | .branch | .branch2 | .jump => true
  | _ => false

theorem exec_cases (P : Program) (fn current : Function) (pc : ℕ) (regs : List Int64) (env : Env) (instr : Instr) :
    Sequential regs (exec P fn current pc regs env instr) ∨
      (instr.op.isJump = true ∧ ∃ pc', exec P fn current pc regs env instr = .ok (.goto pc')) ∨
      exec P fn current pc regs env instr = .ok (.ret (retResult current regs instr)) ∨
      (instr.op.isCall = true ∧ exec P fn current pc regs env instr = callOp P regs env instr) := by
  unfold exec
  split
  all_goals first
    | exact .inl (sequential_loadConst ..)
    | exact .inl (sequential_memoryOp ..)
    | exact .inl (sequential_arithmetic ..)
    | exact .inl (sequential_unary ..)
    | exact .inl (sequential_setNext ..)
    | exact .inl (sequential_externOp ..)
    | exact .inl (sequential_fail ..)
    | exact .inr (.inl ⟨by simp only [*, Op.isJump], _, rfl⟩)
    | exact .inr (.inr (.inr ⟨by simp only [*, Op.isCall], rfl⟩))
    | (refine .inr (.inr (.inl ?_))
       simp only [retResult]
       split <;> rfl)

theorem exec_callRange (P : Program) (fn current : Function) (pc : ℕ) {regs gregs : List Int64} (env : Env)
    {g : Function} (hop : i.op = .callRange) (hg : P.module.functions[i.imm.toNat]? = some g)
    (hregs : calleeRegs g (argWindow regs i.b (min i.c.toNat g.paramCount.toNat)) = .ok gregs) :
    exec P fn current pc regs env i = .ok (.call g gregs i.a) := by
  have hlt := (List.getElem?_eq_some_iff.mp hg).1
  have hindex : index P.module.functions i.imm.toNat = .ok g := by rw [index, hg]
  unfold exec
  simp only [hop, callOp]
  rw [if_neg (not_le.mpr hlt), hindex]
  change (calleeRegs g (argWindow regs i.b (min i.c.toNat g.paramCount.toNat)) >>= _) = _
  rw [hregs]
  rfl

theorem exec_tailCallRange (P : Program) (fn current : Function) (pc : ℕ) {regs gregs : List Int64}
    (env : Env) {g : Function} (hop : i.op = .tailCallRange)
    (hg : P.module.functions[i.imm.toNat]? = some g) (hcount : i.c = g.paramCount)
    (hroom : g.paramCount ≤ g.regCount) (hregs : calleeRegs g (argWindow regs i.b i.c.toNat) = .ok gregs) :
    exec P fn current pc regs env i = .ok (.tail g gregs) := by
  have hlt := (List.getElem?_eq_some_iff.mp hg).1
  have hindex : index P.module.functions i.imm.toNat = .ok g := by rw [index, hg]
  have hok : ¬ (i.c ≠ g.paramCount ∨ g.paramCount > g.regCount) := by
    rintro (hne | hgt)
    · exact hne hcount
    · exact absurd hroom (UInt16.not_le.mpr hgt)
  unfold exec
  simp only [hop, callOp]
  rw [if_neg (not_le.mpr hlt), hindex]
  change (if i.c ≠ g.paramCount ∨ g.paramCount > g.regCount then _ else _) = _
  rw [if_neg hok, hregs]
  rfl

/-- All an instruction can come to. -/
inductive ExecOutcome (P : Program) (current : Function) (regs : List Int64) (i : Instr) :
    Except Stop Effect → Prop where
  | fail (env : Env) : ExecOutcome P current regs i (.error (.fail env))
  | outOfBounds : ExecOutcome P current regs i (.error .outOfBounds)
  | next (regs' : List Int64) (env : Env) (hlen : regs'.length = regs.length) :
      ExecOutcome P current regs i (.ok (.next regs' env))
  | goto (pc : ℕ) (hop : i.op.isJump = true) : ExecOutcome P current regs i (.ok (.goto pc))
  | call (callee : Function) (regs' : List Int64) (dst : UInt16) :
      ExecOutcome P current regs i (.ok (.call callee regs' dst))
  | tail (callee : Function) (regs' : List Int64) (hop : i.op = .tailCallRange)
      (hcallee : P.module.functions[i.imm.toNat]? = some callee) :
      ExecOutcome P current regs i (.ok (.tail callee regs'))
  | ret : ExecOutcome P current regs i (.ok (.ret (retResult current regs i)))

theorem exec_outcome (P : Program) (fn current : Function) (pc : ℕ) (regs : List Int64) (env : Env)
    (i : Instr) : ExecOutcome P current regs i (exec P fn current pc regs env i) := by
  rcases exec_cases P fn current pc regs env i with
    (⟨env', heq⟩ | ⟨regs', env', heq, hlen⟩) | ⟨hjump, pc', heq⟩ | heq | ⟨hcall, heq⟩
  · exact heq ▸ .fail env'
  · exact heq ▸ .next regs' env' hlen
  · exact heq ▸ .goto pc' hjump
  · exact heq ▸ .ret
  · have hout := callOp_outcome P regs env hcall
    rw [heq]
    generalize callOp P regs env i = e at hout
    cases hout with
    | fail => exact .fail env
    | outOfBounds => exact .outOfBounds
    | call callee regs' => exact .call callee regs' i.a
    | tail callee regs' hop hcallee => exact .tail callee regs' hop hcallee

theorem step_of_instr (P : Program) {t : Frame} (hi : t.instr = some i) (callers : List (UInt16 × Frame)) (env : Env) :
    step P (.running t callers env) = applyEffect t callers env (exec P t.entry t.current t.pc t.regs env i) := by
  simp only [step, hi]

theorem step_of_end (P : Program) {t : Frame} (hi : t.instr = none) (callers : List (UInt16 × Frame)) (env : Env) :
    step P (.running t callers env) = unwind t callers env := by
  simp only [step, hi]

end Zith.Vm
