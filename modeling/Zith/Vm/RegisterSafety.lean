import Zith.Lib.Run
import Zith.Vm.Effects

/-! Which instructions can access a vector outside its size. All table reads are checked before they are
    made, and so are the argument windows of `TailCallRange` and `CallRangeFnRef`. `CallFn`, `CallRange`
    and `CallFnRef` write their arguments to the registers of the callee without comparing the counts:
    a step leaves the bounds exactly when such a callee has fewer registers than arguments
    (`exec_outOfBounds_iff`). The shape check looks at one function at a time and does not see it. -/

namespace Zith.Vm
open Zith.Lib

/-- The instruction accesses no vector outside its size. -/
structure InBounds (e : Except Stop Effect) : Prop where
  ne : e ≠ .error .outOfBounds

@[simp] theorem inBounds_ok (e : Effect) : InBounds (.ok e) := ⟨by simp⟩

@[simp] theorem inBounds_fail (env : Env) : InBounds (.error (.fail env)) := ⟨by simp⟩

theorem Sequential.inBounds {regs : List Int64} {e : Except Stop Effect} (h : Sequential regs e) : InBounds e := by
  rcases h with ⟨env, rfl⟩ | ⟨regs', env, rfl, _⟩
  · exact inBounds_fail env
  · exact inBounds_ok _

/-- A read behind its size check stays inside. -/
theorem inBounds_index {α : Type} {table : List α} {i : ℕ} {k : α → Except Stop Effect}
    (h : ¬ i ≥ table.length) (hk : ∀ a, InBounds (k a)) : InBounds (index table i >>= k) := by
  rw [index_of_lt (not_le.mp h)]
  exact hk _

/-! ### Calls -/

/-- A call leaves the bounds exactly when the callee has fewer registers than arguments. -/
theorem inBounds_call_iff {callee : Function} {args : List Int64} {k : List Int64 → Effect} :
    InBounds (calleeRegs callee args >>= fun regs => .ok (k regs)) ↔ args.length ≤ callee.regCount.toNat := by
  have hlen := List.length_replicate (n := callee.regCount.toNat) (a := (0 : Int64))
  rw [calleeRegs]
  constructor
  · intro h
    by_contra hlt
    rw [writeArgs_of_lt (Nat.zero_le _) (by omega)] at h
    exact h.ne rfl
  · intro hle
    obtain ⟨regs, hregs⟩ : ∃ regs,
        writeArgs (List.replicate callee.regCount.toNat 0) 0 args = .ok regs :=
      writeArgs_of_le (by omega)
    rw [hregs]
    exact inBounds_ok _

/-- A read behind its size check, in front of a call. -/
theorem inBounds_index_iff {α : Type} {table : List α} {i : ℕ} {k : α → Except Stop Effect}
    (h : i < table.length) : InBounds (index table i >>= k) ↔ ∀ a, table[i]? = some a → InBounds (k a) := by
  rw [index_of_lt h, List.getElem?_eq_getElem h]
  exact ⟨fun hk a ha => Option.some.inj ha ▸ hk, fun hk => hk _ rfl⟩

/-- The callee a call names has a register for each argument the call copies. -/
def ArgsFit (P : Program) (regs : List Int64) (instr : Instr) : Prop :=
  let ref := getReg regs instr.b
  match instr.op with
  | .callFn => ∀ callee, P.module.functions[instr.imm.toNat]? = some callee →
      min callee.paramCount.toNat 2 ≤ callee.regCount.toNat
  | .callRange => ∀ callee, P.module.functions[instr.imm.toNat]? = some callee →
      min instr.c.toNat callee.paramCount.toNat ≤ callee.regCount.toNat
  | .callFnRef => ¬ ref < 0 → ∀ callee, P.module.functions[toSize ref]? = some callee →
      min callee.paramCount.toNat 2 ≤ callee.regCount.toNat
  | _ => True

theorem length_argWindow (regs : List Int64) (first : UInt16) (count : ℕ) :
    (argWindow regs first count).length = count := by
  simp [argWindow]

theorem inBounds_callOp_iff (P : Program) (regs : List Int64) (env : Env) {instr : Instr}
    (hcall : instr.op.isCall = true) : InBounds (callOp P regs env instr) ↔ ArgsFit P regs instr := by
  have hnone : ∀ {i : ℕ}, i ≥ P.module.functions.length → ∀ {q : Function → Prop} callee,
      P.module.functions[i]? = some callee → q callee := by
    intro i hi q callee hcallee
    rw [List.getElem?_eq_none hi] at hcallee
    simp at hcallee
  have hop : instr.op = .callFn ∨ instr.op = .callRange ∨ instr.op = .tailCallRange ∨
      instr.op = .callFnRef ∨ instr.op = .callRangeFnRef := by
    revert hcall
    cases instr.op <;> simp [Op.isCall]
  rcases hop with hop | hop | hop | hop | hop <;> simp only [callOp, ArgsFit, hop]
  · split
    · next hi => exact ⟨fun _ => hnone hi, fun _ => inBounds_fail env⟩
    · next hi =>
      rw [inBounds_index_iff (not_le.mp hi)]
      refine forall₂_congr fun callee _ => inBounds_call_iff.trans ?_
      rw [List.length_take]
      rfl
  · split
    · next hi => exact ⟨fun _ => hnone hi, fun _ => inBounds_fail env⟩
    · next hi =>
      rw [inBounds_index_iff (not_le.mp hi)]
      refine forall₂_congr fun callee _ => inBounds_call_iff.trans ?_
      rw [length_argWindow]
  · refine iff_true_intro ?_
    split
    · exact inBounds_fail env
    · next hi =>
      refine inBounds_index hi fun callee => ?_
      split
      · exact inBounds_fail env
      · next hcount =>
        refine inBounds_call_iff.mpr ?_
        rw [length_argWindow, not_not.mp fun hne => hcount (.inl hne)]
        exact UInt16.le_iff_toNat_le.mp (UInt16.not_lt.mp fun hlt => hcount (.inr hlt))
  · split
    · next hi =>
      refine ⟨fun _ hneg => hnone (hi.resolve_left hneg), fun _ => inBounds_fail env⟩
    · next hi =>
      have hneg : ¬ getReg regs instr.b < 0 := fun hlt => hi (.inl hlt)
      rw [inBounds_index_iff (not_le.mp fun hge => hi (.inr hge)), forall_prop_of_true hneg]
      refine forall₂_congr fun callee _ => inBounds_call_iff.trans ?_
      rw [List.length_take]
      rfl
  · refine iff_true_intro ?_
    split
    · exact inBounds_fail env
    · next hi =>
      refine inBounds_index (fun hge => hi (.inr hge)) fun callee => ?_
      split
      · exact inBounds_fail env
      · next hcount =>
        refine inBounds_call_iff.mpr ?_
        rw [length_argWindow, not_not.mp fun hne => hcount (.inl hne)]
        exact UInt16.le_iff_toNat_le.mp (UInt16.not_lt.mp fun hlt => hcount (.inr hlt))

/-- An instruction leaves the bounds exactly when it is a call whose callee lacks registers for the
    arguments copied. -/
theorem inBounds_exec_iff (P : Program) (fn current : Function) (pc : ℕ) (regs : List Int64)
    (env : Env) (instr : Instr) : InBounds (exec P fn current pc regs env instr) ↔ ArgsFit P regs instr := by
  have htrue : instr.op.isCall = false → ArgsFit P regs instr := by
    intro hcall
    simp only [ArgsFit]
    split <;> simp_all [Op.isCall]
  cases hcall : instr.op.isCall with
  | true =>
    have hexec : exec P fn current pc regs env instr = callOp P regs env instr := by
      revert hcall
      unfold exec
      split <;> simp_all [Op.isCall]
    rw [hexec]
    exact inBounds_callOp_iff P regs env hcall
  | false =>
    refine iff_of_true ?_ (htrue hcall)
    rcases exec_cases P fn current pc regs env instr with hseq | ⟨_, pc', heq⟩ | heq | ⟨hop, _⟩
    · exact hseq.inBounds
    · exact heq ▸ inBounds_ok _
    · exact heq ▸ inBounds_ok _
    · simp [hcall] at hop

/-! ### Runs -/

/-- The condition on a state: if its next instruction is a call, the callee has registers for the
    arguments. -/
def CalleeFits (P : Program) : Config → Prop
  | .running top _ _ => ∀ instr, top.instr = some instr → ArgsFit P top.regs instr
  | _ => True

theorem unwind_ne_outOfBounds (top : Frame) (callers : List (UInt16 × Frame)) (env : Env) :
    unwind top callers env ≠ .outOfBounds := by
  simp [unwind]

theorem returnTo_ne_outOfBounds (top : Frame) (callers : List (UInt16 × Frame)) (env : Env)
    (result : FunctionReturn) : returnTo top callers env result ≠ .outOfBounds := by
  unfold returnTo
  split
  · simp
  · split
    · simp
    · exact unwind_ne_outOfBounds _ _ _

/-- One step leaves the bounds exactly when it does not meet the condition. -/
theorem step_running_ne_outOfBounds_iff (P : Program) (top : Frame) (callers : List (UInt16 × Frame)) (env : Env) :
    step P (.running top callers env) ≠ .outOfBounds ↔ CalleeFits P (.running top callers env) := by
  simp only [CalleeFits]
  cases htop : top.instr with
  | none =>
    rw [step_of_end P htop]
    exact iff_of_true (unwind_ne_outOfBounds _ _ _) (by simp)
  | some instr =>
    rw [step_of_instr P htop]
    simp only [Option.some.injEq, forall_eq']
    rw [← inBounds_exec_iff P top.entry top.current top.pc top.regs env instr]
    generalize exec P top.entry top.current top.pc top.regs env instr = effect
    rcases effect with (_ | _) | (_ | _ | _ | _ | _)
    · exact iff_of_true (unwind_ne_outOfBounds _ _ _) (inBounds_fail _)
    · exact iff_of_false (fun h => h rfl) fun h => h.ne rfl
    · exact iff_of_true (by simp [applyEffect]) (inBounds_ok _)
    · exact iff_of_true (by simp [applyEffect]) (inBounds_ok _)
    · exact iff_of_true (by simp [applyEffect]) (inBounds_ok _)
    · exact iff_of_true (by simp [applyEffect]) (inBounds_ok _)
    · exact iff_of_true (returnTo_ne_outOfBounds _ _ _ _) (inBounds_ok _)

/-- A run stays in bounds exactly when all its states meet the condition. -/
theorem run_ne_outOfBounds_iff (P : Program) (fn : Function) (regs : List Int64) (env : Env) :
    (∀ n, (step P)^[n] (runFunction fn regs env) ≠ .outOfBounds) ↔
      ∀ n, CalleeFits P ((step P)^[n] (runFunction fn regs env)) := by
  constructor
  · intro h n
    have hnext := h (n + 1)
    rw [Function.iterate_succ_apply'] at hnext
    generalize (step P)^[n] (runFunction fn regs env) = c at hnext ⊢
    cases c with
    | running top callers env => exact (step_running_ne_outOfBounds_iff P top callers env).mp hnext
    | done | outOfBounds => trivial
  · intro h n
    induction n with
    | zero => simp [runFunction]
    | succ n ih =>
      have hfits := h n
      rw [Function.iterate_succ_apply']
      generalize (step P)^[n] (runFunction fn regs env) = c at hfits ih ⊢
      cases c with
      | running top callers env =>
        exact (step_running_ne_outOfBounds_iff P top callers env).mpr hfits
      | done result env => exact ih
      | outOfBounds => exact absurd rfl ih

/-- A state of the run `runMain` makes of a module. -/
def ReachedByMain (host : Host) (memory : LinearMemory) (m : Module) (P : Program) (c : Config) :
    Prop :=
  ∃ start n, startMain host memory m = .ok (P, start) ∧ c = (step P)^[n] start

/-- What `startMain` accepts has valid shapes and starts in `main`. -/
theorem startMain_eq_ok {host : Host} {memory : LinearMemory} {m : Module} {P : Program}
    {start : Config} (h : startMain host memory m = .ok (P, start)) :
    P.module = m ∧ (∀ fn ∈ m.functions, validateFunctionShape fn = true) ∧
      ∃ fn regs env, start = runFunction fn regs env := by
  unfold startMain at h
  split at h
  · simp at h
  · split at h
    · next hvalid =>
      split at h
      · simp at h
      · simp only [Except.ok.injEq, Prod.mk.injEq] at h
        obtain ⟨rfl, rfl⟩ := h
        exact ⟨rfl, List.all_eq_true.mp hvalid, _, _, _, rfl⟩
    · simp at h

/-- `runMain` never accesses a register vector or a table outside its size exactly when every call it
    reaches has a callee with registers for the arguments copied. -/
theorem runMain_inBounds_iff (host : Host) (memory : LinearMemory) (m : Module) :
    (∀ P c, ReachedByMain host memory m P c → c ≠ .outOfBounds) ↔
      ∀ P c, ReachedByMain host memory m P c → CalleeFits P c := by
  constructor
  · rintro h P c ⟨start, n, hstart, rfl⟩
    obtain ⟨_, _, fn, regs, env, rfl⟩ := startMain_eq_ok hstart
    exact (run_ne_outOfBounds_iff P fn regs env).mp (fun n => h P _ ⟨_, n, hstart, rfl⟩) n
  · rintro h P c ⟨start, n, hstart, rfl⟩
    obtain ⟨_, _, fn, regs, env, rfl⟩ := startMain_eq_ok hstart
    exact (run_ne_outOfBounds_iff P fn regs env).mpr (fun n => h P _ ⟨_, n, hstart, rfl⟩) n

/-- A main that calls a function with one parameter and no register passes the shape check, and the
    call writes outside the callee's registers. -/
theorem runMain_outOfBounds : ∃ m : Module, (∀ fn ∈ m.functions, validateFunctionShape fn = true) ∧
      ∃ P, ReachedByMain default {} m P .outOfBounds := by
  let main : Function := { name := text "main", regCount := 1, body := [{ op := .callFn, imm := 1 }] }
  let callee : Function := { paramCount := 1 }
  refine ⟨{ functions := [main, callee] }, by decide, ⟨{ functions := [main, callee] }, [], default⟩,
    runFunction main [0] {}, 1, ?_, rfl⟩
  simp [startMain, findFunction, materializeStrings, main, callee, validateFunctionShape, validInstr, missingRegister]

end Zith.Vm
