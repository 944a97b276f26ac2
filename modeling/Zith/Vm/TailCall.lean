import Zith.Lib.Run
import Zith.Vm.Effects

/-! A tail transfer against a call followed by a return. The activation that transfers keeps the function
    it was entered with, and arithmetic, negation and comparison read the register classes of that
    function, not of the one running. So both ways agree when the two functions class the registers
    consulted alike.

        f: … TailCallRange g          the activation runs g with the classes of f
        f: … CallRange g; Ret         a new activation runs g with the classes of g

    The proof relates two runs whose stacks differ in the bottom activations only (`same_of_bottoms`)
    and uses it three times: up to the transfer, for the classes, and for the caller left below. -/

namespace Zith.Vm
open Zith.Lib

/-- What a finished run answers. -/
def answer : Config → Option FunctionReturn
  | .done result _ => some result
  | _ => none

theorem halting_step (P : Program) : Halting (step P) answer := by
  intro c r h
  cases c with
  | done result env => exact h
  | running | outOfBounds => simp [answer] at h

@[simp] theorem answer_unwind (top : Frame) (callers : List (UInt16 × Frame)) (env : Env) :
    answer (unwind top callers env) = some {} := rfl

/-- Both configurations answer the same, or neither answers. -/
abbrev SameAnswer (P : Program) : Config → Config → Prop := Same (step P) answer

theorem sameAnswer_of_step_answer {P : Program} {c₁ c₂ : Config} {r : FunctionReturn}
    (h₁ : answer (step P c₁) = some r) (h₂ : answer (step P c₂) = some r) : SameAnswer P c₁ c₂ :=
  .of_steps (halting_step P) (.of_answer (halting_step P) h₁ h₂)

theorem sameAnswer_of_step_eq {P : Program} {c₁ c₂ : Config} (h : step P c₁ = step P c₂) : SameAnswer P c₁ c₂ :=
  .of_steps (halting_step P) (h ▸ .refl _)

/-! ### Calls -/

/-- A static tail edge: the body of `h` has a transfer to `h'`. -/
def TailEdge (P : Program) (h h' : Function) : Prop :=
  ∃ i ∈ h.body, i.op = .tailCallRange ∧ P.module.functions[i.imm.toNat]? = some h'

/-- The functions an activation of `g` can come to run. -/
def TransfersTo (P : Program) : Function → Function → Prop := Relation.ReflTransGen (TailEdge P)

/-! ### Stacks with different bottoms -/

theorem deliver_length {result : FunctionReturn} {regs regs' : List Int64} {dst : UInt16}
    (h : deliver result regs dst = some regs') : regs'.length = regs.length := by
  unfold deliver at h
  obtain ⟨regs₁, h₁, h⟩ := Option.bind_eq_some_iff.mp h
  split at h
  · exact (setReg_length h).trans (setReg_length h₁)
  · exact Option.some.inj h ▸ setReg_length h₁

/-- What a step of the top activation does, whatever lies below the callers `cs`: go on above it, end
    the run, leave the bounds, or return to what lies below. -/
inductive AboveStep (P : Program) (t : Frame) (cs : List (UInt16 × Frame)) (env : Env) : Prop where
  | goesOn (t' : Frame) (cs' : List (UInt16 × Frame)) (env' : Env)
      (h : ∀ below, step P (.running t (cs ++ below) env) = .running t' (cs' ++ below) env')
  | fails (h : ∀ below, answer (step P (.running t (cs ++ below) env)) = some {})
  | outOfBounds (h : ∀ below, step P (.running t (cs ++ below) env) = .outOfBounds)
  | returns (hcs : cs = []) (result : FunctionReturn)
      (h : ∀ below, step P (.running t below env) = returnTo t below env result)

theorem aboveStep (P : Program) (t : Frame) (cs : List (UInt16 × Frame)) (env : Env) : AboveStep P t cs env := by
  cases hi : t.instr with
  | none => exact .fails fun below => by rw [step_of_end P hi, answer_unwind]
  | some i =>
    have hstep := fun below => step_of_instr P hi below env
    generalize exec P t.entry t.current t.pc t.regs env i = e at hstep
    rcases e with (env' | _) | (⟨regs, env'⟩ | pc | ⟨callee, regs, dst⟩ | ⟨callee, regs⟩ | result)
    · exact .fails fun below => by rw [hstep]; rfl
    · exact .outOfBounds fun below => hstep _
    · exact .goesOn _ cs env' fun below => hstep _
    · exact .goesOn _ cs env fun below => hstep _
    · exact .goesOn _ ((dst, t) :: cs) env fun below => hstep _
    · exact .goesOn _ cs _ fun below => hstep _
    · rcases cs with _ | ⟨⟨dst, caller⟩, cs⟩
      · exact .returns rfl result hstep
      · cases hd : deliver result caller.regs dst with
        | none =>
          refine .fails fun below => ?_
          simp only [hstep, applyEffect, List.cons_append, returnTo, hd, answer_unwind]
        | some regs =>
          refine .goesOn { caller with regs, pc := caller.pc + 1 } cs (leaveFrame t env) fun below => ?_
          simp only [hstep, applyEffect, List.cons_append, returnTo, hd]

section Bottoms
variable {P : Program} {bot : Frame → Frame → Prop}
  {rest₁ rest₂ : List (UInt16 × Frame)}

/-- Two activations that wait for the same call and are related once it has returned. -/
def Waits (bot : Frame → Frame → Prop) (B₁ B₂ : Frame) : Prop :=
  B₁.regs = B₂.regs ∧ ∀ regs, regs.length = B₁.regs.length →
    bot { B₁ with regs, pc := B₁.pc + 1 } { B₂ with regs, pc := B₂.pc + 1 }

/-- What a step of related bottom activations may come to. -/
inductive BottomStep (P : Program) (bot : Frame → Frame → Prop)
    (rest₁ rest₂ : List (UInt16 × Frame)) (B₁ B₂ : Frame) (env : Env) : Prop where
  | settled (h : SameAnswer P (.running B₁ rest₁ env) (.running B₂ rest₂ env))
  | goesOn (B₁' B₂' : Frame) (env' : Env)
      (h₁ : step P (.running B₁ rest₁ env) = .running B₁' rest₁ env')
      (h₂ : step P (.running B₂ rest₂ env) = .running B₂' rest₂ env') (h : bot B₁' B₂')
  | calls (t : Frame) (dst : UInt16) (env' : Env)
      (h₁ : step P (.running B₁ rest₁ env) = .running t ((dst, B₁) :: rest₁) env')
      (h₂ : step P (.running B₂ rest₂ env) = .running t ((dst, B₂) :: rest₂) env')
      (h : Waits bot B₁ B₂)

/-- Configurations that differ in their bottom activations only. -/
inductive Linked (bot : Frame → Frame → Prop) (rest₁ rest₂ : List (UInt16 × Frame)) :
    Config → Config → Prop where
  | bottom {B₁ B₂ : Frame} (env : Env) (h : bot B₁ B₂) :
      Linked bot rest₁ rest₂ (.running B₁ rest₁ env) (.running B₂ rest₂ env)
  | above (t : Frame) (cs : List (UInt16 × Frame)) (dst : UInt16) {B₁ B₂ : Frame} (env : Env)
      (h : Waits bot B₁ B₂) :
      Linked bot rest₁ rest₂ (.running t (cs ++ (dst, B₁) :: rest₁) env) (.running t (cs ++ (dst, B₂) :: rest₂) env)

/-- A step above waiting bottoms keeps the link or settles the pair. -/
theorem linked_above (t : Frame) (cs : List (UInt16 × Frame)) (dst : UInt16) {B₁ B₂ : Frame}
    (env : Env) (h : Waits bot B₁ B₂) : SameAnswer P (.running t (cs ++ (dst, B₁) :: rest₁) env)
        (.running t (cs ++ (dst, B₂) :: rest₂) env) ∨
      Linked bot rest₁ rest₂ (step P (.running t (cs ++ (dst, B₁) :: rest₁) env))
        (step P (.running t (cs ++ (dst, B₂) :: rest₂) env)) := by
  cases aboveStep P t cs env with
  | goesOn t' cs' env' hstep =>
    right
    rw [hstep, hstep]
    exact .above t' cs' dst env' h
  | fails hstep => exact .inl (sameAnswer_of_step_answer (hstep _) (hstep _))
  | outOfBounds hstep => exact .inl (sameAnswer_of_step_eq ((hstep _).trans (hstep _).symm))
  | returns hcs result hstep =>
    subst hcs
    rw [List.nil_append, List.nil_append, hstep, hstep]
    simp only [returnTo, ← h.1]
    cases hd : deliver result B₁.regs dst with
    | none =>
      refine .inl (sameAnswer_of_step_answer (r := {}) ?_ ?_) <;> simp only [hstep, returnTo, ← h.1, hd, answer_unwind]
    | some regs => exact .inr (.bottom _ (h.2 regs (deliver_length hd)))

/-- Bottoms whose steps keep a relation, or settle, answer the same. The left run may be restricted by
    an invariant `ok`. -/
theorem same_of_bottoms (bot : Frame → Frame → Prop) (ok : Config → Prop) (hok : ∀ c, ok c → ok (step P c))
    (hbot : ∀ B₁ B₂ env, ok (.running B₁ rest₁ env) → bot B₁ B₂ →
      BottomStep P bot rest₁ rest₂ B₁ B₂ env) {B₁ B₂ : Frame} {env : Env}
    (hok₀ : ok (.running B₁ rest₁ env)) (hbot₀ : bot B₁ B₂) :
    SameAnswer P (.running B₁ rest₁ env) (.running B₂ rest₂ env) := by
  refine same_of_lockstep (fun c₁ c₂ => ok c₁ ∧ Linked bot rest₁ rest₂ c₁ c₂) ?_ ⟨hok₀, .bottom env hbot₀⟩
  rintro c₁ c₂ ⟨hc, hlink⟩
  have hnext := hok _ hc
  cases hlink with
  | bottom env h =>
    cases hbot _ _ env hc h with
    | settled hsame => exact .inl hsame
    | goesOn B₁' B₂' env' h₁ h₂ h' =>
      refine .inr ⟨rfl, rfl, hnext, ?_⟩
      rw [h₁, h₂]
      exact .bottom env' h'
    | calls t dst env' h₁ h₂ h' =>
      refine .inr ⟨rfl, rfl, hnext, ?_⟩
      rw [h₁, h₂]
      exact .above t [] dst env' h'
  | above t cs dst env h =>
    rcases linked_above (P := P) t cs dst env h with hsame | hlink
    · exact .inl hsame
    · exact .inr ⟨rfl, rfl, hnext, hlink⟩

end Bottoms

/-! ### Activations that differ in the function entered -/

/-- Two functions class the registers alike whose class the instruction consults. -/
def F64Agree (f g : Function) (i : Instr) : Prop :=
  match i.op with
  | .add | .sub | .mul | .div | .rem | .neg => isF64Register f i.b = isF64Register g i.b
  | .eq | .ne | .lt | .le | .gt | .ge =>
    (isF64Register f i.b && isF64Register f i.c) = (isF64Register g i.b && isF64Register g i.c)
  | _ => True

variable {f g : Function}

theorem F64Agree.of_regTypes (h : f.regTypes = g.regTypes) (i : Instr) : F64Agree f g i := by
  unfold F64Agree
  split <;> simp only [isF64Register, h]

theorem exec_congr (P : Program) (current : Function) (pc : ℕ) (regs : List Int64) (env : Env) {i : Instr}
    (h : F64Agree f g i) : exec P f current pc regs env i = exec P g current pc regs env i := by
  unfold F64Agree at h
  unfold exec
  split <;> rename_i hop <;> simp only [hop] at h <;> try rfl
  all_goals simp only [arithmetic, unary, comparison, floatOp, hop, h]

/-- The activations run the same function from the same state, entered as `f` and as `g`. -/
def EntryPair (f g : Function) (B₁ B₂ : Frame) : Prop :=
  ∃ B : Frame, B₁ = { B with entry := f } ∧ B₂ = { B with entry := g }

theorem EntryPair.waits (B : Frame) : Waits (EntryPair f g) { B with entry := f } { B with entry := g } :=
  ⟨rfl, fun regs _ => ⟨{ B with regs, pc := B.pc + 1 }, rfl, rfl⟩⟩

/-- What a step comes to when both consult the same classes. -/
inductive EntryStep (P : Program) (f g : Function) (rest₁ rest₂ : List (UInt16 × Frame))
    (B : Frame) (env : Env) : Prop where
  | settled (h : SameAnswer P (.running { B with entry := f } rest₁ env)
      (.running { B with entry := g } rest₂ env))
  | goesOn (B' : Frame) (env' : Env)
      (h₁ : step P (.running { B with entry := f } rest₁ env) = .running { B' with entry := f } rest₁ env')
      (h₂ : step P (.running { B with entry := g } rest₂ env) = .running { B' with entry := g } rest₂ env')
      (h : B'.current = B.current ∨ TailEdge P B.current B'.current)
  | calls (t : Frame) (dst : UInt16) (env' : Env)
      (h₁ : step P (.running { B with entry := f } rest₁ env) = .running t ((dst, { B with entry := f }) :: rest₁) env')
      (h₂ : step P (.running { B with entry := g } rest₂ env) = .running t ((dst, { B with entry := g }) :: rest₂) env')
  | returns (i : Instr)
      (h₁ : step P (.running { B with entry := f } rest₁ env) =
        returnTo { B with entry := f } rest₁ env (retResult B.current B.regs i))
      (h₂ : step P (.running { B with entry := g } rest₂ env) =
        returnTo { B with entry := g } rest₂ env (retResult B.current B.regs i))

theorem entryStep (P : Program) (f g : Function) (rest₁ rest₂ : List (UInt16 × Frame)) (B : Frame)
    (env : Env) (h : ∀ i, B.instr = some i → F64Agree f g i) : EntryStep P f g rest₁ rest₂ B env := by
  have hinstr : ∀ e : Function, ({ B with entry := e } : Frame).instr = B.instr := fun _ => rfl
  cases hi : B.instr with
  | none =>
    refine .settled (sameAnswer_of_step_answer (r := {}) ?_ ?_)
    · rw [step_of_end P ((hinstr f).trans hi), answer_unwind]
    · rw [step_of_end P ((hinstr g).trans hi), answer_unwind]
  | some i =>
    have h₁ := step_of_instr P ((hinstr f).trans hi) rest₁ env
    have h₂ := step_of_instr P ((hinstr g).trans hi) rest₂ env
    rw [← exec_congr P _ _ _ _ (h i hi)] at h₂
    have hout := exec_outcome P f B.current B.pc B.regs env i
    generalize exec P f B.current B.pc B.regs env i = e at h₁ h₂ hout
    cases hout with
    | fail env' => exact .settled (sameAnswer_of_step_answer (by rw [h₁]; rfl) (by rw [h₂]; rfl))
    | outOfBounds => exact .settled (sameAnswer_of_step_eq (h₁.trans h₂.symm))
    | next regs' env' => exact .goesOn { B with regs := regs', pc := B.pc + 1 } env' h₁ h₂ (.inl rfl)
    | goto pc => exact .goesOn { B with pc } env h₁ h₂ (.inl rfl)
    | call callee regs' dst => exact .calls _ dst env h₁ h₂
    | tail callee regs' hop hcallee =>
      refine .goesOn (enterFrame f callee regs' (leaveFrame B env)) (leaveFrame B env) h₁ h₂ (.inr ?_)
      exact ⟨i, List.mem_of_getElem? hi, hop, hcallee⟩
    | ret => exact .returns i h₁ h₂

/-- The register classes agree along the run of an activation entered as `f` that runs for `g`: whenever
    it is the one running, its next instruction consults registers both class alike. -/
def ClassesAgree (P : Program) (f g : Function) (start : Config) : Prop :=
  ∀ n B env, (step P)^[n] start = .running B [] env → ∀ i, B.instr = some i → F64Agree f g i

/-- Then it does not matter as which of the two it was entered. -/
theorem same_of_classesAgree (P : Program) {B : Frame} {env : Env}
    (h : ClassesAgree P f g (.running { B with entry := f } [] env)) : 
    SameAnswer P (.running { B with entry := f } [] env) (.running { B with entry := g } [] env) := by
  refine same_of_bottoms (EntryPair f g)
    (fun c => ∃ n, (step P)^[n] (.running { B with entry := f } [] env) = c)
    (fun c hc => ?_) (fun B₁ B₂ env' hok hbot => ?_) ⟨0, rfl⟩ ⟨B, rfl, rfl⟩
  · obtain ⟨n, rfl⟩ := hc
    exact ⟨n + 1, Function.iterate_succ_apply' _ _ _⟩
  · obtain ⟨C, rfl, rfl⟩ := hbot
    obtain ⟨n, hn⟩ := hok
    cases entryStep P f g [] [] C env' (h n { C with entry := f } env' hn) with
    | settled hsame => exact .settled hsame
    | goesOn C' env'' h₁ h₂ _ => exact .goesOn _ _ env'' h₁ h₂ ⟨C', rfl, rfl⟩
    | calls t dst env'' h₁ h₂ => exact .calls t dst env'' h₁ h₂ (EntryPair.waits C)
    | returns i h₁ h₂ => exact .settled (sameAnswer_of_step_answer (by rw [h₁]; rfl) (by rw [h₂]; rfl))

/-! ### A call with nothing left to do but return -/

theorem setReg_of_lt {regs : List Int64} {i : UInt16} (h : i.toNat < regs.length) (value : Int64) :
    setReg regs i value = some (regs.set i.toNat value) := if_neg (not_le.mpr h)

theorem exec_ret (P : Program) (fn current : Function) (pc : ℕ) (regs : List Int64) (env : Env)
    (dst : UInt16) : exec P fn current pc regs env { op := .ret, a := dst } =
      .ok (.ret (retResult current regs { op := .ret, a := dst })) := by
  simp only [exec, retResult]
  split <;> rfl

/-- Storing a result and returning it gives it back, when both functions agree on slices. -/
theorem retResult_deliver {h f : Function} {wait : List Int64} (regs : List Int64) (i : Instr) {dst : UInt16}
    (hslice : h.returnsSlice = f.returnsSlice) (hdst : dst.toNat < wait.length)
    (haux : f.returnsSlice = true → dst.toNat + 1 < wait.length ∧ dst.toNat + 1 < 65536) :
    ∃ regs', deliver (retResult h regs i) wait dst = some regs' ∧
      retResult f regs' { op := .ret, a := dst } = retResult h regs i := by
  cases hs : f.returnsSlice with
  | false =>
    refine ⟨wait.set dst.toNat (getReg regs i.a), ?_, ?_⟩
    · simp [deliver, retResult, hslice, hs, setReg_of_lt hdst]
    · simp [retResult, hslice, hs, getReg, hdst]
  | true =>
    obtain ⟨hlt, hwrap⟩ := haux hs
    have hnext : (dst + 1).toNat = dst.toNat + 1 := by
      rw [UInt16.toNat_add]
      exact Nat.mod_eq_of_lt hwrap
    have hdst' : (dst + 1).toNat < (wait.set dst.toNat (getReg regs i.a)).length := by
      rw [List.length_set, hnext]
      exact hlt
    refine ⟨(wait.set dst.toNat (getReg regs i.a)).set (dst + 1).toNat (getReg regs (i.a + 1)), ?_, ?_⟩
    · simp only [deliver, retResult, hslice, hs, if_true, setReg_of_lt hdst, Option.bind_some,
        setReg_of_lt hdst']
    · simp [retResult, hslice, hs, getReg, hnext, hdst, hlt]

/-- A call of `g` whose caller only returns the result answers as `g` alone. -/
theorem same_below (P : Program) {g : Function} {W : Frame} {dst : UInt16}
    (hslice : ∀ h, TransfersTo P g h → h.returnsSlice = W.current.returnsSlice)
    (hret : W.current.body[W.pc + 1]? = some { op := .ret, a := dst })
    (hdst : dst.toNat < W.regs.length)
    (haux : W.current.returnsSlice = true → dst.toNat + 1 < W.regs.length ∧ dst.toNat + 1 < 65536)
    {B : Frame} (hB : TransfersTo P g B.current) (env : Env) :
    SameAnswer P (.running B [] env) (.running B [(dst, W)] env) := by
  refine same_of_bottoms (fun B₁ B₂ => B₁ = B₂ ∧ TransfersTo P g B₁.current)
    (fun _ => True) (fun _ _ => trivial) (fun B₁ B₂ env' _ hbot => ?_) trivial ⟨rfl, hB⟩
  obtain ⟨rfl, hto⟩ := hbot
  cases entryStep P B₁.entry B₁.entry [] [(dst, W)] B₁ env' fun i _ => .of_regTypes rfl i with
  | settled hsame => exact .settled hsame
  | goesOn B' env'' h₁ h₂ hedge =>
    refine .goesOn _ _ env'' h₁ h₂ ⟨rfl, ?_⟩
    rcases hedge with heq | hedge
    · exact heq ▸ hto
    · exact hto.tail hedge
  | calls t d env'' h₁ h₂ => exact .calls t d env'' h₁ h₂ ⟨rfl, fun regs _ => ⟨rfl, hto⟩⟩
  | returns i h₁ h₂ =>
    obtain ⟨regs', hdel, hres⟩ := retResult_deliver B₁.regs i (hslice _ hto) hdst haux
    simp only [returnTo, hdel] at h₁ h₂
    refine .settled (.of_steps (halting_step P) ?_)
    rw [h₁, h₂]
    refine .trans ?_ (Same.step_left (halting_step P) _)
    refine .of_answer (halting_step P) (r := retResult B₁.current B₁.regs i) rfl ?_
    have hnext : ({ W with regs := regs', pc := W.pc + 1 } : Frame).instr = some { op := .ret, a := dst } := hret
    rw [step_of_instr P hnext, exec_ret, hres]
    rfl

end Zith.Vm
