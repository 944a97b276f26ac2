import Zith.Vm.LinearMemorySafety
import Zith.Vm.TailCall

/-! Replacing a `TailCallRange` of a function by a `CallRange` and a `Ret`. The row put in shifts all
    later rows by one, so jump targets behind it move too; up to the transfer the two runs take the same
    steps at shifted rows. At the transfer the results of the module `TailCall` apply: the callee runs
    as if entered itself (register classes), on the memory without the caller's frame, and with the
    caller waiting below. -/

namespace Zith.Vm
open Zith.Lib

/-! ### The replaced function -/

/-- Rows behind `p` move by one. -/
def shiftPc (p pc : ℕ) : ℕ := if p < pc then pc + 1 else pc

def shiftTarget (p : ℕ) (target : UInt16) : UInt16 := if p < target.toNat then target + 1 else target

def shiftJumps (p : ℕ) (i : Instr) : Instr :=
  match i.op with
  | .branch | .jump => { i with imm := shiftTarget p i.imm }
  | .branch2 => { i with imm := shiftTarget p i.imm, d := shiftTarget p i.d }
  | _ => i

/-- The rows in place of the transfer `i`. -/
def callThenRet (i : Instr) (dst : UInt16) : List Instr := [.callRange dst i.b i.c i.imm, { op := .ret, a := dst }]

/-- `f` with row `p`, the transfer `i`, replaced by a call into `dst` and a return of it. -/
def Function.withCall (f : Function) (p : ℕ) (i : Instr) (dst : UInt16) : Function :=
  { f with
    body := (f.body.take p).map (shiftJumps p) ++ (callThenRet i dst ++
      (f.body.drop (p + 1)).map (shiftJumps p)) }

/-- The jump targets of the instruction stay 16-bit values when shifted. -/
def TargetsFit (i : Instr) : Prop :=
  match i.op with
  | .branch | .jump => i.imm.toNat + 1 < 65536
  | .branch2 => i.imm.toNat + 1 < 65536 ∧ i.d.toNat + 1 < 65536
  | _ => True

theorem toNat_shiftTarget {p : ℕ} {target : UInt16} (h : target.toNat + 1 < 65536) :
    (shiftTarget p target).toNat = shiftPc p target.toNat := by
  unfold shiftTarget shiftPc
  split
  · rw [UInt16.toNat_add]
    exact Nat.mod_eq_of_lt h
  · rfl

variable {gregs : List Int64} {i : Instr} {B : Frame}

theorem withCall_body_at {f : Function} {p : ℕ} {dst : UInt16} (hp : p < f.body.length) :
    (f.withCall p i dst).body[p]? = some (.callRange dst i.b i.c i.imm) ∧
      (f.withCall p i dst).body[p + 1]? = some { op := .ret, a := dst } := by
  have hlen : ((f.body.take p).map (shiftJumps p)).length = p := by
    rw [List.length_map, List.length_take]
    omega
  constructor
  · rw [Function.withCall, List.getElem?_append_right (by omega), hlen, Nat.sub_self]
    rfl
  · rw [Function.withCall, List.getElem?_append_right (by omega), hlen, Nat.add_sub_cancel_left]
    rfl

/-- The other rows are those of `f`, with their targets shifted. -/
theorem withCall_body {f : Function} {p pc : ℕ} {dst : UInt16} (hp : p < f.body.length) (hne : pc ≠ p) :
    (f.withCall p i dst).body[shiftPc p pc]? = f.body[pc]?.map (shiftJumps p) := by
  have hlen : ((f.body.take p).map (shiftJumps p)).length = p := by
    rw [List.length_map, List.length_take]
    omega
  unfold shiftPc Function.withCall
  split
  · next hlt =>
    rw [List.getElem?_append_right (by omega), hlen,
      List.getElem?_append_right (by simp only [callThenRet, List.length_cons, List.length_nil]; omega),
      List.getElem?_map, List.getElem?_drop]
    congr 2
    simp only [callThenRet, List.length_cons, List.length_nil]
    omega
  · rw [List.getElem?_append_left (by omega), List.getElem?_map, List.getElem?_take_of_lt (by omega)]

/-! ### Steps at shifted rows -/

/-- Instructions that do not jump do the same in the replaced function, at whatever row. -/
theorem exec_withCall (P : Program) (f : Function) (p : ℕ) (t : Instr) (dst : UInt16) (pc pc' : ℕ)
    (regs : List Int64) (env : Env) (h : i.op.isJump = false) :
    exec P (f.withCall p t dst) (f.withCall p t dst) pc' regs env (shiftJumps p i) =
      exec P f f pc regs env i := by
  have hsame : shiftJumps p i = i := by
    unfold shiftJumps
    split <;> simp_all [Op.isJump]
  rw [hsame]
  unfold exec
  split <;> first | rfl | simp_all [Op.isJump]

/-- Jumps go to the shifted target. -/
theorem exec_jump_withCall (P : Program) {f g : Function} {p pc : ℕ} (regs : List Int64) (env : Env)
    (h : i.op.isJump = true) (hfit : TargetsFit i) (hne : pc ≠ p) :
    ∃ target, exec P f f pc regs env i = .ok (.goto target) ∧
      exec P g g (shiftPc p pc) regs env (shiftJumps p i) = .ok (.goto (shiftPc p target)) := by
  have hnext : shiftPc p pc + 1 = shiftPc p (pc + 1) := by
    unfold shiftPc
    split <;> split <;> omega
  obtain ⟨op, a, b, c, imm, d, e⟩ := i
  cases op <;> simp only [Op.isJump, Bool.false_eq_true] at h
  case branch =>
    refine ⟨_, rfl, ?_⟩
    simp only [shiftJumps, exec, toNat_shiftTarget hfit, hnext]
    split <;> rfl
  case branch2 =>
    refine ⟨_, rfl, ?_⟩
    simp only [shiftJumps, exec, toNat_shiftTarget hfit.1, toNat_shiftTarget hfit.2]
    split <;> rfl
  case jump =>
    refine ⟨_, rfl, ?_⟩
    simp only [shiftJumps, exec, toNat_shiftTarget hfit]

/-! ### The transfer -/

/-- Row `p` of `f` is a transfer `i` to `g` with as many arguments as `g` has parameters; `g` and what
    it transfers to agree with `f` on `returnsSlice`; `dst` can take the result of a call in `f`. -/
structure TailTransfer (P : Program) (f g : Function) (p : ℕ) (i : Instr) (dst : UInt16) : Prop where
  row : f.body[p]? = some i
  op : i.op = .tailCallRange
  callee : P.module.functions[i.imm.toNat]? = some g
  count : i.c = g.paramCount
  room : g.paramCount ≤ g.regCount
  slice : ∀ h, TransfersTo P g h → h.returnsSlice = f.returnsSlice
  dst_lt : dst.toNat < f.regCount.toNat
  aux_lt : f.returnsSlice = true → dst.toNat + 1 < f.regCount.toNat
  targets : ∀ j ∈ f.body, TargetsFit j

/-- A state of the run of `f` about to execute row `p` of `f` in the outermost activation. -/
def AtTransfer (P : Program) (f : Function) (regs : List Int64) (env : Env) (p : ℕ) (B : Frame)
    (env' : Env) : Prop :=
  B.entry = f ∧ B.current = f ∧ B.pc = p ∧
    ∃ n, (step P)^[n] (runFunction f regs env) = .running B [] env'

/-- The registers a transfer or a call passes to `g`. -/
def Passes (g : Function) (i : Instr) (B : Frame) (gregs : List Int64) : Prop :=
  calleeRegs g (argWindow B.regs i.b i.c.toNat) = .ok gregs

/-- The result of `g` does not depend on the arena memory of the caller's frame: it is the same with
    that memory still allocated and with it released. -/
def IgnoresFrame (P : Program) (g : Function) (B : Frame) (env : Env) (gregs : List Int64) : Prop :=
  SameAnswer P (runFunction g gregs (leaveFrame B env)) (runFunction g gregs env)

/-- The activation that goes on with `g` after the transfer, entered as `f`. -/
def transferred (f g : Function) (B : Frame) (env : Env) (gregs : List Int64) : Config :=
  .running (enterFrame f g gregs (leaveFrame B env)) [] (leaveFrame B env)

variable {P : Program} {f g : Function} {p : ℕ} {i : Instr} {dst : UInt16}

theorem TailTransfer.p_lt (T : TailTransfer P f g p i dst) : p < f.body.length :=
  (List.getElem?_eq_some_iff.mp T.row).1

theorem TailTransfer.exists_passes (T : TailTransfer P f g p i dst) (B : Frame) :
    ∃ gregs, Passes g i B gregs := by
  have hroom := UInt16.le_iff_toNat_le.mp T.room
  refine writeArgs_of_le ?_
  rw [argWindow, List.length_map, List.length_range, List.length_replicate, T.count]
  omega

/-- The step of the transfer. -/
theorem TailTransfer.step_tail (T : TailTransfer P f g p i dst) (hentry : B.entry = f)
    (hcur : B.current = f) (hpc : B.pc = p) (hpass : Passes g i B gregs) (env : Env) :
    step P (.running B [] env) = transferred f g B env gregs := by
  have hi : B.instr = some i := by rw [Frame.instr, hcur, hpc, T.row]
  have hexec := exec_tailCallRange P B.entry B.current B.pc env T.op T.callee T.count T.room hpass
  rw [step_of_instr P hi, hexec, ← hentry]
  rfl

/-- The step of the call put in its place. -/
theorem TailTransfer.step_call (T : TailTransfer P f g p i dst) {W : Frame}
    (hcur : W.current = f.withCall p i dst) (hpc : W.pc = p) (hpass : Passes g i W gregs) (env : Env) :
    step P (.running W [] env) =
      .running (enterFrame g g gregs env) [(dst, W)] env := by
  have hi : W.instr = some (.callRange dst i.b i.c i.imm) := by
    rw [Frame.instr, hcur, hpc, (withCall_body_at T.p_lt).1]
  have hargs : calleeRegs g (argWindow W.regs i.b (min i.c.toNat g.paramCount.toNat)) =
      .ok gregs := by
    rw [← T.count, min_self]
    exact hpass
  have hexec := exec_callRange P W.entry W.current W.pc env
    (i := .callRange dst i.b i.c i.imm) rfl T.callee hargs
  rw [step_of_instr P hi, hexec]
  rfl

/-- At the transfer both ways answer the same. -/
theorem TailTransfer.same_at (T : TailTransfer P f g p i dst) {env : Env} (hentry : B.entry = f)
    (hcur : B.current = f) (hpc : B.pc = p) (hregs : f.regCount.toNat ≤ B.regs.length)
    (hpass : Passes g i B gregs) (hframe : IgnoresFrame P g B env gregs)
    (hclass : ClassesAgree P f g (transferred f g B env gregs)) (entry : Function) :
    SameAnswer P (.running B [] env)
      (.running { B with entry := entry, current := f.withCall p i dst } [] env) := by
  refine .of_steps (halting_step P) ?_
  rw [T.step_tail hentry hcur hpc hpass,
    T.step_call (W := { B with entry := entry, current := f.withCall p i dst }) rfl hpc hpass]
  have hdst := T.dst_lt
  have haux := T.aux_lt
  have hlim := f.regCount.toNat_lt
  have hown : SameAnswer P (transferred f g B env gregs) (runFunction g gregs (leaveFrame B env)) :=
    same_of_classesAgree P (B := enterFrame f g gregs (leaveFrame B env)) hclass
  refine hown.trans (hframe.trans ?_)
  refine same_below P (B := enterFrame g g gregs env) (fun h hto => T.slice h hto) ?_
    (by dsimp only; omega) (fun hs => ?_) Relation.ReflTransGen.refl env
  · dsimp only
    rw [hpc]
    exact (withCall_body_at T.p_lt).2
  · have := haux hs
    dsimp only
    omega

/-! ### The whole run -/

/-- Activations of `f` and of the replaced function at corresponding rows. -/
def Corresponds (f : Function) (p : ℕ) (i : Instr) (dst : UInt16) (B₁ B₂ : Frame) : Prop :=
  B₁.entry = f ∧ B₁.current = f ∧ f.regCount.toNat ≤ B₁.regs.length ∧
    B₂ = { B₁ with entry := f.withCall p i dst, current := f.withCall p i dst,
                   pc := shiftPc p B₁.pc }

/-- Before the transfer rows correspond; after another transfer of `f` only the entries differ. -/
def Follows (f : Function) (p : ℕ) (i : Instr) (dst : UInt16) (B₁ B₂ : Frame) : Prop :=
  Corresponds f p i dst B₁ B₂ ∨ EntryPair f (f.withCall p i dst) B₁ B₂

theorem TailTransfer.bottomStep (T : TailTransfer P f g p i dst) {env : Env} (hentry : B.entry = f)
    (hcur : B.current = f) (hregs : f.regCount.toNat ≤ B.regs.length) (hne : B.pc ≠ p) :
    BottomStep P (Follows f p i dst) [] [] B
      { B with entry := f.withCall p i dst, current := f.withCall p i dst,
               pc := shiftPc p B.pc } env := by
  set W : Frame := { B with entry := f.withCall p i dst, current := f.withCall p i dst,
                            pc := shiftPc p B.pc } with hW
  have hinstr : W.instr = B.instr.map (shiftJumps p) := by
    rw [Frame.instr, Frame.instr, hcur]
    exact withCall_body T.p_lt hne
  have hnext : shiftPc p B.pc + 1 = shiftPc p (B.pc + 1) := by
    unfold shiftPc
    split <;> split <;> omega
  cases hi : B.instr with
  | none =>
    rw [hi] at hinstr
    refine .settled (sameAnswer_of_step_answer (r := {}) ?_ ?_)
    · rw [step_of_end P hi, answer_unwind]
    · rw [step_of_end P hinstr, answer_unwind]
  | some j =>
    rw [hi] at hinstr
    have h₁ := step_of_instr P hi [] env
    have h₂ := step_of_instr P hinstr [] env
    rw [hentry, hcur] at h₁
    cases hjump : j.op.isJump with
    | true =>
      have hj : j ∈ f.body := by
        rw [Frame.instr, hcur] at hi
        exact List.mem_of_getElem? hi
      obtain ⟨target, he₁, he₂⟩ := exec_jump_withCall P (f := f) (g := f.withCall p i dst) B.regs env
        hjump (T.targets j hj) hne
      rw [he₁] at h₁
      refine .goesOn { B with pc := target } { W with pc := shiftPc p target } env h₁
        (h₂.trans ?_) (.inl ⟨hentry, hcur, hregs, rfl⟩)
      change applyEffect W [] env (exec P (f.withCall p i dst) (f.withCall p i dst)
        (shiftPc p B.pc) B.regs env (shiftJumps p j)) = _
      rw [he₂]
      rfl
    | false =>
      have he := exec_withCall P f p i dst B.pc (shiftPc p B.pc) B.regs env hjump
      change _ = applyEffect W [] env (exec P (f.withCall p i dst) (f.withCall p i dst)
        (shiftPc p B.pc) B.regs env (shiftJumps p j)) at h₂
      rw [he] at h₂
      have hout := exec_outcome P f f B.pc B.regs env j
      generalize exec P f f B.pc B.regs env j = e at h₁ h₂ hout he
      cases hout with
      | fail env' => exact .settled (sameAnswer_of_step_answer (by rw [h₁]; rfl) (by rw [h₂]; rfl))
      | outOfBounds => exact .settled (sameAnswer_of_step_eq (h₁.trans h₂.symm))
      | next regs' env' hlen =>
        refine .goesOn { B with regs := regs', pc := B.pc + 1 }
          { W with regs := regs', pc := shiftPc p B.pc + 1 } env' h₁ h₂
          (.inl ⟨hentry, hcur, hlen ▸ hregs, ?_⟩)
        rw [hnext]
      | goto pc hop => simp [hjump] at hop
      | call callee regs' d =>
        refine .calls _ d env h₁ h₂ ⟨rfl, fun regs hlen => .inl ⟨hentry, hcur, hlen ▸ hregs, ?_⟩⟩
        rw [← hnext]
      | tail callee regs' _ _ =>
        refine .goesOn _ _ _ h₁ h₂ (.inr ⟨enterFrame f callee regs' (leaveFrame B env), ?_, rfl⟩)
        rw [hentry]
        rfl
      | ret => exact .settled (sameAnswer_of_step_answer (by rw [h₁]; rfl) (by rw [h₂]; rfl))

/-- Nothing depends on a frame that holds no arena memory. -/
theorem ignoresFrame_of_empty (P : Program) (g : Function) {env : Env} (hinv : env.memory.Inv)
    (hmark : B.mark = env.memory.bump) (gregs : List Int64) : IgnoresFrame P g B env gregs := by
  have hbytes : LinearMemory.resize env.memory.bytes (max env.memory.bump env.memory.heap) =
      env.memory.bytes := by
    rw [← hinv.size_eq, LinearMemory.resize, List.take_length, Nat.sub_self, List.replicate_zero,
      List.append_nil]
  have hleave : leaveFrame B env = env := by
    rw [leaveFrame, LinearMemory.restoreArena, hmark, if_neg (lt_irrefl _), hbytes]
  rw [IgnoresFrame, hleave]
  exact .refl _

theorem TransfersTo.eq_of_no_transfer {g h : Function} (hto : TransfersTo P g h)
    (hg : ∀ i ∈ g.body, i.op ≠ .tailCallRange) : h = g := by
  induction hto with
  | refl => rfl
  | tail _ hedge ih =>
    subst ih
    obtain ⟨i, hi, hop, _⟩ := hedge
    exact absurd hop (hg i hi)

/-- A run that has answered no longer runs. -/
theorem not_running_of_answer {start : Config} {k : ℕ} {r : FunctionReturn}
    (h : answer ((step P)^[k] start) = some r) (n : ℕ) (B : Frame)
    (callers : List (UInt16 × Frame)) (env : Env) :
    (step P)^[n + k] start ≠ .running B callers env := by
  intro hrun
  have hlater := answer_iterate (halting_step P) h n
  rw [← Function.iterate_add_apply, hrun] at hlater
  simp [answer] at hlater

end Zith.Vm
