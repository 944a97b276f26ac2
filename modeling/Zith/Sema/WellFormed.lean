import Zith.Sema.Lower

/-! Well-formed control flow: what the blocks of a lowered function have to satisfy, and the invariant the
    builder keeps while it lowers. Blocks that an enclosing construct has made and will complete are
    `pending`: they may be jumped to, nothing is written to them, and they are not current.

        WF P s    every target ended, current, or in P
          setTerminator   targets known          ->  WF P, the current block ended
          startBlock x    x in P, current ended  ->  WF (P without x), x current and open
-/

namespace Zith.Sema

namespace Builder

/-- How often a terminator was set on a block. -/
def terminatorWrites (s : Builder) (b : Nat) : Nat :=
  s.writes.countP fun w => match w with
    | .terminator c => c == b
    | .inst _ _ _ => false

end Builder

/-- The blocks control can get to from the entry. -/
inductive Reachable (fn : Builder) : Nat → Prop
  | entry : Reachable fn 0
  | next {b x : Nat} {t : HirTerminator} :
      Reachable fn b → fn.term b = some t → x ∈ t.targets → Reachable fn x

structure WellFormed (fn : Builder) : Prop where
  terminated : ∀ b, Reachable fn b → (fn.term b).isSome ∧ fn.terminatorWrites b = 1
  no_inst_after_end : ∀ b c ended, Write.inst b c ended ∈ fn.writes → ended = false
  targets_exist : ∀ b t, fn.term b = some t → ∀ x ∈ t.targets, x < fn.blocks.length
  insts_in_current : ∀ b c ended, Write.inst b c ended ∈ fn.writes → b = c

/-! ### What the block operations do -/

namespace Builder

theorem term_modify_insts (s : Builder) (b : Nat) (f : List HirExpr → List HirExpr) (x : Nat) :
    term { s with blocks := s.blocks.modify b fun k => { k with insts := f k.insts } } x = s.term x := by
  simp only [term, block, List.getElem?_modify]
  by_cases hb : b = x
  · cases h : s.blocks[x]? <;> simp [hb]
  · simp [hb]

@[simp] theorem term_newBlock (s : Builder) (x : Nat) : s.newBlock.term x = s.term x := by
  simp only [term, block, newBlock]
  rcases Nat.lt_trichotomy x s.blocks.length with h | h | h
  · rw [List.getElem?_append_left h]
  · subst h
    simp [HirBlock.empty]
  · rw [List.getElem?_eq_none (by simp; omega), List.getElem?_eq_none (by omega)]

@[simp] theorem term_startBlock (s : Builder) (b x : Nat) : (s.startBlock b).term x = s.term x :=
  term_modify_insts s b (fun _ => []) x

@[simp] theorem term_push (s : Builder) (b : Nat) (e : HirExpr) (x : Nat) : (s.push b e).term x = s.term x :=
  term_modify_insts s b (· ++ [e]) x

theorem term_setTerminator (s : Builder) (t : HirTerminator) (x : Nat) : (s.setTerminator t).term x =
      if x = s.current ∧ x < s.blocks.length then some t else s.term x := by
  simp only [term, block, setTerminator, List.getElem?_modify]
  by_cases hx : s.current = x
  · subst hx
    by_cases h : s.current < s.blocks.length
    · simp [h]
    · simp [h]
  · simp [hx, Ne.symm hx]

@[simp] theorem length_newBlock (s : Builder) : s.newBlock.blocks.length = s.blocks.length + 1 := by
  simp [newBlock]

@[simp] theorem length_startBlock (s : Builder) (b : Nat) : (s.startBlock b).blocks.length = s.blocks.length := by
  simp [startBlock]

@[simp] theorem length_push (s : Builder) (b : Nat) (e : HirExpr) : (s.push b e).blocks.length = s.blocks.length := by
  simp [push]

@[simp] theorem length_setTerminator (s : Builder) (t : HirTerminator) :
    (s.setTerminator t).blocks.length = s.blocks.length := by
  simp [setTerminator]

end Builder

/-! ### The invariant -/

/-- A block that may be jumped to. -/
def Known (P : Nat → Prop) (s : Builder) (x : Nat) : Prop :=
  x < s.blocks.length ∧ ((s.term x).isSome ∨ x = s.current ∨ P x)

structure WF (P : Nat → Prop) (s : Builder) : Prop where
  current_lt : s.current < s.blocks.length
  writes_eq : ∀ b, s.terminatorWrites b = if (s.term b).isSome then 1 else 0
  insts : ∀ b c ended, Write.inst b c ended ∈ s.writes → b = c ∧ ended = false
  targets : ∀ b t, s.term b = some t → ∀ x ∈ t.targets, Known P s x
  pending : ∀ x, P x → x < s.blocks.length ∧ s.term x = none ∧ x ≠ s.current
  loops : ∀ l ∈ s.loopStack, Known P s l.continueBlock ∧ Known P s l.breakBlock
  frames : ∀ frame ∈ s.cleanupStack, frame = []
  sink : s.deferBodySink = none
  entry : Known P s 0

/-- What lowering keeps of the state it started from. -/
structure Keeps (s s' : Builder) : Prop where
  length_le : s.blocks.length ≤ s'.blocks.length
  term_eq : ∀ b t, s.term b = some t → s'.term b = some t
  loops_eq : s'.loopStack = s.loopStack
  frames_eq : s'.cleanupStack = s.cleanupStack

theorem Keeps.refl (s : Builder) : Keeps s s := ⟨Nat.le_refl _, fun _ _ h => h, rfl, rfl⟩

theorem Keeps.trans {s t u : Builder} (h₁ : Keeps s t) (h₂ : Keeps t u) : Keeps s u :=
  ⟨Nat.le_trans h₁.length_le h₂.length_le, fun b x h => h₂.term_eq b x (h₁.term_eq b x h),
    h₂.loops_eq.trans h₁.loops_eq, h₂.frames_eq.trans h₁.frames_eq⟩

/-- A change of the instructions of the current block and of counters. -/
structure Quiet (s s' : Builder) : Prop where
  length_eq : s'.blocks.length = s.blocks.length
  term_eq : ∀ b, s'.term b = s.term b
  current_eq : s'.current = s.current
  loops_eq : s'.loopStack = s.loopStack
  frames_eq : s'.cleanupStack = s.cleanupStack
  sink_eq : s'.deferBodySink = s.deferBodySink
  writes_eq : ∀ b, s'.terminatorWrites b = s.terminatorWrites b
  insts : ∀ b c ended, Write.inst b c ended ∈ s'.writes → Write.inst b c ended ∈ s.writes ∨ b = c ∧ ended = false

theorem Quiet.refl (s : Builder) : Quiet s s :=
  ⟨rfl, fun _ => rfl, rfl, rfl, rfl, rfl, fun _ => rfl, fun _ _ _ h => .inl h⟩

theorem Quiet.trans {s t u : Builder} (h₁ : Quiet s t) (h₂ : Quiet t u) : Quiet s u where
  length_eq := h₂.length_eq.trans h₁.length_eq
  term_eq b := (h₂.term_eq b).trans (h₁.term_eq b)
  current_eq := h₂.current_eq.trans h₁.current_eq
  loops_eq := h₂.loops_eq.trans h₁.loops_eq
  frames_eq := h₂.frames_eq.trans h₁.frames_eq
  sink_eq := h₂.sink_eq.trans h₁.sink_eq
  writes_eq b := (h₂.writes_eq b).trans (h₁.writes_eq b)
  insts b c e h := (h₂.insts b c e h).elim (h₁.insts b c e) .inr

variable {s s' : Builder}

theorem Quiet.ended_eq (h : Quiet s s') : s'.ended = s.ended := by
  simp only [Builder.ended, h.current_eq, h.term_eq]

theorem Quiet.keeps (h : Quiet s s') : Keeps s s' :=
  ⟨Nat.le_of_eq h.length_eq.symm, fun b _ ht => (h.term_eq b).trans ht, h.loops_eq, h.frames_eq⟩

theorem Quiet.known {P : Nat → Prop} (h : Quiet s s') {x : Nat} : Known P s' x ↔ Known P s x := by
  simp only [Known, h.length_eq, h.term_eq, h.current_eq]

theorem Quiet.wf {P : Nat → Prop} (h : Quiet s s') (hs : WF P s) : WF P s' where
  current_lt := by rw [h.current_eq, h.length_eq]; exact hs.current_lt
  writes_eq b := by rw [h.writes_eq, h.term_eq]; exact hs.writes_eq b
  insts b c e hm := (h.insts b c e hm).elim (hs.insts b c e) id
  targets b t ht x hx := h.known.mpr (hs.targets b t (by rwa [h.term_eq] at ht) x hx)
  pending x hx := by rw [h.length_eq, h.term_eq, h.current_eq]; exact hs.pending x hx
  loops l hl := by rw [h.loops_eq] at hl; exact (hs.loops l hl).imp h.known.mpr h.known.mpr
  frames f hf := by rw [h.frames_eq] at hf; exact hs.frames f hf
  sink := h.sink_eq.trans hs.sink
  entry := h.known.mpr hs.entry

theorem quiet_fresh (s : Builder) : Quiet s s.fresh :=
  ⟨rfl, fun _ => rfl, rfl, rfl, rfl, rfl, fun _ => rfl, fun _ _ _ h => .inl h⟩

theorem quiet_freshSlot (s : Builder) : Quiet s s.freshSlot :=
  ⟨rfl, fun _ => rfl, rfl, rfl, rfl, rfl, fun _ => rfl, fun _ _ _ h => .inl h⟩

theorem quiet_pushCurrent {s : Builder} (h : s.ended = false) (e : HirExpr) : Quiet s (s.pushCurrent e) where
  length_eq := s.length_push s.current e
  term_eq b := s.term_push s.current e b
  current_eq := rfl
  loops_eq := rfl
  frames_eq := rfl
  sink_eq := rfl
  writes_eq b := by simp [Builder.terminatorWrites, Builder.pushCurrent, Builder.push]
  insts b c e' hm := by
    rcases List.mem_cons.mp hm with heq | hm
    · cases heq
      exact .inr ⟨rfl, h⟩
    · exact .inl hm

section
variable {s s' : Builder} (hq : Quiet s s') (h : s.ended = false)
include hq h

theorem Quiet.pushCurrent (e : HirExpr) : Quiet s (s'.pushCurrent e) :=
  hq.trans (quiet_pushCurrent (hq.ended_eq.trans h) e)

theorem Quiet.pushAlloca (slot : Slot) : Quiet s (s'.pushAlloca slot) := (hq.trans (quiet_fresh s')).pushCurrent h _

theorem Quiet.pushStore (slot : Slot) (value : HirExpr) : Quiet s (s'.pushStore slot value) :=
  (hq.trans (quiet_fresh s')).pushCurrent h _

theorem Quiet.spill (value : HirExpr) : Quiet s (s'.spill value) :=
  ((hq.trans (quiet_freshSlot s')).pushAlloca h _).pushStore h _ _

end

theorem Quiet.fresh {s s' : Builder} (hq : Quiet s s') : Quiet s s'.fresh := hq.trans (quiet_fresh s')

/-! ### Moving from block to block -/

/-- `P` with one more block. -/
def Insert (x : Nat) (P : Nat → Prop) (y : Nat) : Prop := y = x ∨ P y

variable {s : Builder}

theorem Known.mono {P Q : Nat → Prop} {x : Nat} (h : Known P s x) (hpq : ∀ y, P y → Q y) : Known Q s x :=
  ⟨h.1, h.2.imp id (Or.imp id (hpq x))⟩

theorem Known.of_pending {P : Nat → Prop} {x : Nat} (hs : WF P s) (hx : P x) : Known P s x :=
  ⟨(hs.pending x hx).1, .inr (.inr hx)⟩

theorem WF.congr {P Q : Nat → Prop} (hs : WF P s) (h : ∀ x, P x ↔ Q x) : WF Q s := by
  obtain rfl : P = Q := funext fun x => propext (h x)
  exact hs

theorem WF.addPending {P : Nat → Prop} (hs : WF P s) {x : Nat} (hlt : x < s.blocks.length)
    (hopen : s.term x = none) (hne : x ≠ s.current) : WF (Insert x P) s :=
  ⟨hs.current_lt, hs.writes_eq, hs.insts, fun b t ht y hy => (hs.targets b t ht y hy).mono fun _ => .inr,
    by
      rintro y (rfl | hy)
      · exact ⟨hlt, hopen, hne⟩
      · exact hs.pending y hy,
    fun l hl => (hs.loops l hl).imp (·.mono fun _ => .inr) (·.mono fun _ => .inr), hs.frames, hs.sink,
    hs.entry.mono fun _ => .inr⟩

/-- A new block that nothing will jump to. -/
theorem WF.skipBlock {P : Nat → Prop} (hs : WF P s) : WF P s.newBlock := by
  have hlen : s.blocks.length < s.newBlock.blocks.length := by simp
  have hknown : ∀ x, Known P s x → Known P s.newBlock x := by
    rintro x ⟨hlt, h⟩
    refine ⟨Nat.lt_trans hlt hlen, ?_⟩
    rwa [Builder.term_newBlock]
  refine ⟨Nat.lt_trans hs.current_lt hlen, ?_, hs.insts, ?_, ?_, ?_, hs.frames, hs.sink, hknown 0 hs.entry⟩
  · intro b
    rw [Builder.term_newBlock]
    exact hs.writes_eq b
  · intro b t ht x hx
    rw [Builder.term_newBlock] at ht
    exact hknown x (hs.targets b t ht x hx)
  · intro x hx
    rw [Builder.term_newBlock]
    obtain ⟨hlt, hrest⟩ := hs.pending x hx
    exact ⟨Nat.lt_trans hlt hlen, hrest⟩
  · intro l hl
    exact (hs.loops l hl).imp (hknown _) (hknown _)

/-- A block just made is pending. -/
theorem WF.newBlock {P : Nat → Prop} {s : Builder} (hs : WF P s) : WF (Insert s.blocks.length P) s.newBlock := by
  refine hs.skipBlock.addPending (by simp) ?_ (Nat.ne_of_gt hs.current_lt)
  simp [Builder.term, Builder.block, Builder.newBlock, HirBlock.empty]

theorem keeps_newBlock (s : Builder) : Keeps s s.newBlock :=
  ⟨by simp, fun b t h => by rwa [Builder.term_newBlock], rfl, rfl⟩

/-- The current block ends; every target has to be known. -/
theorem WF.setTerminator {P : Nat → Prop} {s : Builder} (hs : WF P s) (hopen : s.ended = false)
    {t : HirTerminator} (ht : ∀ x ∈ t.targets, Known P s x) :
    WF P (s.setTerminator t) ∧ (s.setTerminator t).ended = true ∧ Keeps s (s.setTerminator t) := by
  have hterm : s.term s.current = none := by simpa [Builder.ended] using hopen
  have hcur : (s.setTerminator t).term s.current = some t := by
    rw [Builder.term_setTerminator, if_pos ⟨rfl, hs.current_lt⟩]
  have hother : ∀ b, b ≠ s.current → (s.setTerminator t).term b = s.term b := by
    intro b hb
    rw [Builder.term_setTerminator, if_neg fun h => hb h.1]
  have hsome : ∀ b, (s.term b).isSome → ((s.setTerminator t).term b).isSome := by
    intro b hb
    by_cases h : b = s.current
    · rw [h, hcur]; rfl
    · rwa [hother b h]
  have hknown : ∀ x, Known P s x → Known P (s.setTerminator t) x := by
    rintro x ⟨hlt, h⟩
    exact ⟨by simpa using hlt, h.imp (hsome x) (Or.imp id id)⟩
  refine ⟨⟨?_, ?_, ?_, ?_, ?_, ?_, hs.frames, hs.sink, hknown 0 hs.entry⟩, ?_, ⟨by simp, ?_, rfl, rfl⟩⟩
  · rw [Builder.length_setTerminator]
    exact hs.current_lt
  · intro b
    have hw : (s.setTerminator t).terminatorWrites b =
        s.terminatorWrites b + if s.current = b then 1 else 0 := by
      simp only [Builder.terminatorWrites, Builder.setTerminator, List.countP_cons, beq_iff_eq]
    by_cases h : b = s.current
    · rw [hw, h, hcur, hs.writes_eq, hterm]
      simp
    · rw [hw, hother b h, hs.writes_eq, if_neg (Ne.symm h)]
      rfl
  · intro b c e hm
    rcases List.mem_cons.mp hm with heq | hm
    · cases heq
    · exact hs.insts b c e hm
  · intro b u hu x hx
    by_cases h : b = s.current
    · rw [h, hcur] at hu
      cases hu
      exact hknown x (ht x hx)
    · rw [hother b h] at hu
      exact hknown x (hs.targets b u hu x hx)
  · intro x hx
    obtain ⟨hlt, hnone, hne⟩ := hs.pending x hx
    exact ⟨by simpa using hlt, by rw [hother x hne]; exact hnone, hne⟩
  · intro l hl
    exact (hs.loops l hl).imp (hknown _) (hknown _)
  · simp only [Builder.ended]
    exact Option.isSome_iff_exists.mpr ⟨t, hcur⟩
  · intro b u hu
    by_cases h : b = s.current
    · rw [h, hterm] at hu
      cases hu
    · rwa [hother b h]

/-- A pending block becomes current once the block before it has ended. -/
theorem WF.startBlock {P : Nat → Prop} {s : Builder} {x : Nat} (hs : WF (Insert x P) s) (hx : ¬ P x)
    (hended : s.ended = true) : WF P (s.startBlock x) ∧ (s.startBlock x).ended = false := by
  obtain ⟨hlt, hnone, hne⟩ := hs.pending x (.inl rfl)
  have hknown : ∀ y, Known (Insert x P) s y → Known P (s.startBlock x) y := by
    rintro y ⟨hy, h⟩
    refine ⟨by simpa using hy, ?_⟩
    rw [Builder.term_startBlock]
    rcases h with h | rfl | rfl | h
    · exact .inl h
    · exact .inl hended
    · exact .inr (.inl rfl)
    · exact .inr (.inr h)
  refine ⟨⟨by rw [Builder.length_startBlock]; exact hlt, ?_, hs.insts, ?_, ?_, ?_, hs.frames, hs.sink,
    hknown 0 hs.entry⟩, ?_⟩
  · intro b
    rw [Builder.term_startBlock]
    exact hs.writes_eq b
  · intro b t ht y hy
    rw [Builder.term_startBlock] at ht
    exact hknown y (hs.targets b t ht y hy)
  · intro y hy
    obtain ⟨h₁, h₂, -⟩ := hs.pending y (.inr hy)
    refine ⟨by simpa using h₁, by rw [Builder.term_startBlock]; exact h₂, ?_⟩
    rintro rfl
    exact hx hy
  · intro l hl
    exact (hs.loops l hl).imp (hknown _) (hknown _)
  · simp only [Builder.ended, Builder.term_startBlock]
    show (s.term x).isSome = false
    rw [hnone]
    rfl

theorem keeps_startBlock (s : Builder) (x : Nat) : Keeps s (s.startBlock x) :=
  ⟨by simp, fun b t h => by rwa [Builder.term_startBlock], rfl, rfl⟩

end Zith.Sema
