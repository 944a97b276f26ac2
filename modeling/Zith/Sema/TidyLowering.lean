import Zith.Sema.Tidy
import Zith.Sema.WellFormed

/-! Tidy trees lower to well-formed control flow. Each lowering function is sound when the lowerings of its
    parts are; the recursion over the tree then only puts these lemmas together. -/

namespace Zith.Sema

/-- A lowering that started in an open block under the invariant. -/
structure Lowered (P : Nat → Prop) (s s' : Builder) (ended moves : Bool) : Prop where
  wf : WF P s'
  keeps : Keeps s s'
  ended_eq : s'.ended = ended
  current_eq : moves = false → s'.current = s.current

def Sound (ended hasValue moves : Bool) (l : Lowering) : Prop :=
  ∀ P s v s', WF P s → s.ended = false → l s = .ok (v, s') → Lowered P s s' ended moves ∧ v.isSome = hasValue

/-- Lowered after the end of the block: nothing is written. -/
def Inert (hasValue : Bool) (l : Lowering) : Prop :=
  ∀ s v s', s.ended = true → l s = .ok (v, s') → Quiet s s' ∧ v.isSome = hasValue

theorem Lowered.of_quiet {P : Nat → Prop} {s s' : Builder} {moves : Bool} (hs : WF P s)
    (hopen : s.ended = false) (h : Quiet s s') : Lowered P s s' false moves :=
  ⟨h.wf hs, h.keeps, h.ended_eq.trans hopen, fun _ => h.current_eq⟩

theorem Lowered.trans_quiet {P : Nat → Prop} {s s₁ s' : Builder} {ended moves : Bool}
    (h : Lowered P s s₁ ended moves) (hq : Quiet s₁ s') : Lowered P s s' ended moves :=
  ⟨hq.wf h.wf, h.keeps.trans hq.keeps, hq.ended_eq.trans h.ended_eq, fun hm => hq.current_eq.trans (h.current_eq hm)⟩

theorem Lowered.trans {P : Nat → Prop} {s s₁ s' : Builder} {ended ended' moves moves' : Bool}
    (h : Lowered P s s₁ ended moves) (h' : Lowered P s₁ s' ended' moves') : Lowered P s s' ended' (moves || moves') :=
  ⟨h'.wf, h.keeps.trans h'.keeps, h'.ended_eq, fun hm => by
    rw [Bool.or_eq_false_iff] at hm
    exact (h'.current_eq hm.2).trans (h.current_eq hm.1)⟩

theorem usable_cases {e : Expr} (h : usable e = true) : closes e = false ∨ valued e = false := by
  unfold usable at h
  cases hc : closes e <;> cases hv : valued e <;> simp_all

/-! ### After the end of a block -/

theorem lowerStatements_ended {s : Builder} (h : s.ended = true) (last : Option HirExpr) :
    ∀ sts : List StmtLowering, lowerStatements [] last sts s = .ok ([], last, s)
  | [] => rfl
  | .plain exits lower :: rest => by
    cases exits <;> simp [lowerStatements, flushPendingDefers, h, bind, Except.bind]
  | .defer body :: rest => by simp [lowerStatements, h]

theorem lowerBlock_inert (sts : List StmtLowering) : Inert false (lowerBlock sts) := by
  intro s v s' h hl
  have hp : s.pushFrame.ended = true := h
  simp only [lowerBlock, lowerStatements_ended hp, bind, Except.bind, flushPendingDefers] at hl
  simp only [Builder.pushFrame, Builder.popFrame, List.headD_cons, List.tail_cons, List.isEmpty_nil,
    Bool.true_or, if_true, Except.ok.injEq, Prod.mk.injEq] at hl
  obtain ⟨rfl, rfl⟩ := hl
  exact ⟨Quiet.refl _, rfl⟩

mutual

theorem lowerExpr_inert : (e : Expr) → quiet e = true → Inert (valuedAfterEnd e) (lowerExpr e)
  | .operator op es, h => by
    intro s v s' hs hl
    rw [lowerExpr, lowerOperator] at hl
    obtain ⟨⟨vs, s₁⟩, hvs, hl⟩ := bind_eq_ok hl
    have hq : Quiet s s₁ ∧ vs.isSome = valuedAfterEndAll es := by
      cases op with
      | call f => exact lowerArguments_inert es h s vs s₁ hs hvs
      | _ => exact lowerAll_inert es h s vs s₁ hs hvs
    cases vs with
    | none =>
      cases hl
      exact ⟨hq.1, hq.2⟩
    | some vs =>
      cases hl
      exact ⟨hq.1.fresh, hq.2⟩
  | .block sts, _ => lowerBlock_inert (lowerStmts sts)

theorem lowerAll_inert : (es : List Expr) → quietAll es = true → ∀ s vs s', s.ended = true →
    lowerAll (lowerExprs es) s = .ok (vs, s') → Quiet s s' ∧ vs.isSome = valuedAfterEndAll es
  | [], _ => by
    intro s vs s' _ hl
    cases hl
    exact ⟨Quiet.refl _, rfl⟩
  | e :: es, h => by
    intro s vs s' hs hl
    simp only [quietAll, Bool.and_eq_true] at h
    obtain ⟨⟨v, s₁⟩, hv, hl⟩ := bind_eq_ok hl
    obtain ⟨⟨vs₁, s₂⟩, hvs, hl⟩ := bind_eq_ok hl
    obtain ⟨hq₁, hv₁⟩ := lowerExpr_inert e h.1 s v s₁ hs hv
    obtain ⟨hq₂, hv₂⟩ := lowerAll_inert es h.2 s₁ vs₁ s₂ (hq₁.ended_eq.trans hs) hvs
    cases v <;> cases vs₁ <;> cases hl <;>
      exact ⟨hq₁.trans hq₂, by simp [valuedAfterEndAll, ← hv₁, ← hv₂]⟩

theorem lowerArguments_inert : (es : List Expr) → quietAll es = true → ∀ s vs s', s.ended = true →
    lowerArguments (lowerExprs es) s = .ok (vs, s') → Quiet s s' ∧ vs.isSome = valuedAfterEndAll es
  | [], _ => by
    intro s vs s' _ hl
    cases hl
    exact ⟨Quiet.refl _, rfl⟩
  | e :: es, h => by
    intro s vs s' hs hl
    simp only [quietAll, Bool.and_eq_true] at h
    obtain ⟨⟨v, s₁⟩, hv, hl⟩ := bind_eq_ok hl
    obtain ⟨hq₁, hv₁⟩ := lowerExpr_inert e h.1 s v s₁ hs hv
    cases v with
    | none =>
      cases hl
      exact ⟨hq₁, by simp [valuedAfterEndAll, ← hv₁]⟩
    | some v =>
      obtain ⟨⟨vs₁, s₂⟩, hvs, hl⟩ := bind_eq_ok hl
      obtain ⟨hq₂, hv₂⟩ := lowerArguments_inert es h.2 s₁ vs₁ s₂ (hq₁.ended_eq.trans hs) hvs
      cases hl
      exact ⟨hq₁.trans hq₂, by simp [valuedAfterEndAll, ← hv₁, ← hv₂]⟩

end

/-! ### Operators -/

theorem Lowered.weaken {P : Nat → Prop} {s s' : Builder} {ended moves moves' : Bool}
    (h : Lowered P s s' ended moves) (hm : moves' = false → moves = false) : Lowered P s s' ended moves' :=
  ⟨h.wf, h.keeps, h.ended_eq, fun hm' => h.current_eq (hm hm')⟩

/-- Operands behind one that ends the block are lowered after its end. -/
theorem Lowered.then_inert {P : Nat → Prop} {s s₁ s' : Builder} {moves moves' : Bool}
    (h : Lowered P s s₁ true moves) (hq : Quiet s₁ s') : Lowered P s s' true (moves || moves') :=
  (h.trans_quiet hq).weaken fun hm => (Bool.or_eq_false_iff.mp hm).1

section
variable {es : List Expr}
  (ih : ∀ e ∈ es, tidy e = true → Sound (closes e) (valued e) (moves e) (lowerExpr e))
include ih

theorem lowerAll_sound (h : tidyOperands false es = true) {P : Nat → Prop} {s s' : Builder}
    {vs : Option (List HirExpr)} (hs : WF P s) (hopen : s.ended = false)
    (hl : lowerAll (lowerExprs es) s = .ok (vs, s')) :
    Lowered P s s' (closesAny es) (movesAny es) ∧ vs.isSome = valuedOperands es := by
  induction es generalizing s s' vs with
  | nil =>
    cases hl
    exact ⟨.of_quiet hs hopen (Quiet.refl _), rfl⟩
  | cons e es ihes =>
    simp only [tidyOperands, Bool.false_and, Bool.false_or, Bool.and_eq_true] at h
    obtain ⟨⟨v, s₁⟩, hv, hl⟩ := bind_eq_ok hl
    obtain ⟨⟨vs₁, s₂⟩, hvs, hl⟩ := bind_eq_ok hl
    obtain ⟨hlow, hsome⟩ := ih e (.head _) h.1 P s v s₁ hs hopen hv
    have hs' : s' = s₂ ∧ vs.isSome = (v.isSome && vs₁.isSome) := by
      cases v <;> cases vs₁ <;> cases hl <;> exact ⟨rfl, rfl⟩
    rw [hs'.1, hs'.2, hsome, closesAny, movesAny, valuedOperands]
    cases hc : closes e with
    | true =>
      rw [hc] at hlow
      obtain ⟨hq, hsome₁⟩ := lowerAll_inert es (by simpa [hc] using h.2) s₁ vs₁ s₂ hlow.ended_eq hvs
      exact ⟨hlow.then_inert hq, by simp [hsome₁]⟩
    | false =>
      rw [hc] at hlow
      obtain ⟨hlow₁, hsome₁⟩ := ihes (fun e he => ih e (.tail _ he)) (by simpa [hc] using h.2) hlow.wf hlow.ended_eq hvs
      exact ⟨hlow.trans hlow₁, by simp [hsome₁]⟩

theorem lowerArguments_sound (h : tidyOperands true es = true) {P : Nat → Prop} {s s' : Builder}
    {vs : Option (List HirExpr)} (hs : WF P s) (hopen : s.ended = false)
    (hl : lowerArguments (lowerExprs es) s = .ok (vs, s')) :
    Lowered P s s' (closesArguments es) (movesAny es) ∧ vs.isSome = valuedOperands es := by
  induction es generalizing s s' vs with
  | nil =>
    cases hl
    exact ⟨.of_quiet hs hopen (Quiet.refl _), rfl⟩
  | cons e es ihes =>
    simp only [tidyOperands, Bool.true_and, Bool.and_eq_true] at h
    obtain ⟨⟨v, s₁⟩, hv, hl⟩ := bind_eq_ok hl
    obtain ⟨hlow, hsome⟩ := ih e (.head _) h.1 P s v s₁ hs hopen hv
    rw [closesArguments, movesAny, valuedOperands]
    cases v with
    | none =>
      cases hl
      rw [← hsome]
      simp only [Option.isSome_none, Bool.false_and, Bool.or_false]
      exact ⟨hlow.weaken fun hm => (Bool.or_eq_false_iff.mp hm).1, trivial⟩
    | some v =>
      obtain ⟨⟨vs₁, s₂⟩, hvs, hl⟩ := bind_eq_ok hl
      obtain ⟨hs', hvs'⟩ : s' = s₂ ∧ vs.isSome = vs₁.isSome := by
        cases hl
        exact ⟨rfl, by simp⟩
      rw [hs', hvs', ← hsome]
      simp only [← hsome, Option.isSome_some, Bool.not_true, Bool.false_or] at h
      simp only [Option.isSome_some, Bool.true_and]
      cases hc : closes e with
      | true =>
        rw [hc] at hlow
        obtain ⟨hq, hsome₁⟩ := lowerArguments_inert es (by simpa [hc] using h.2) s₁ vs₁ s₂ hlow.ended_eq hvs
        exact ⟨hlow.then_inert hq, by simp [hsome₁]⟩
      | false =>
        rw [hc] at hlow
        obtain ⟨hlow₁, hsome₁⟩ := ihes (fun e he => ih e (.tail _ he)) (by simpa [hc] using h.2)
          hlow.wf hlow.ended_eq hvs
        exact ⟨hlow.trans hlow₁, by simp [hsome₁]⟩

theorem lowerOperator_sound (op : Operator) (h : tidy (.operator op es) = true) :
    Sound (closes (.operator op es)) (valued (.operator op es)) (moves (.operator op es))
      (lowerOperator op (lowerExprs es)) := by
  intro P s v s' hs hopen hl
  obtain ⟨⟨vs, s₁⟩, hvs, hl⟩ := bind_eq_ok hl
  have hlow : Lowered P s s₁ (closes (.operator op es)) (movesAny es) ∧
      vs.isSome = valuedOperands es := by
    cases op <;> simp only [tidy] at h <;> simp only [closes]
    case call => exact lowerArguments_sound ih h hs hopen hvs
    all_goals exact lowerAll_sound ih h hs hopen hvs
  cases vs with
  | none =>
    cases hl
    exact ⟨hlow.1, by rw [valued, ← hlow.2]; rfl⟩
  | some vs =>
    cases hl
    exact ⟨hlow.1.trans_quiet (quiet_fresh _), by rw [valued, ← hlow.2]; rfl⟩

end

/-- The value of an operand is used where it can be written to. -/
theorem closes_of_value {v : HirExpr} {e : Expr} (hv : (some v).isSome = valued e)
    (hu : usable e = true) : closes e = false :=
  (usable_cases hu).resolve_right (by simp [← hv])

theorem lowerSpilled_sound {e : Expr} (op : Operator) (hu : usable e = true)
    (he : Sound (closes e) (valued e) (moves e) (lowerExpr e)) :
    Sound (closes e) (valued e) (moves e) (lowerSpilled op (lowerExpr e)) := by
  intro P s v s' hs hopen hl
  obtain ⟨⟨v₁, s₁⟩, hv, hl⟩ := bind_eq_ok hl
  obtain ⟨hlow, hsome⟩ := he P s v₁ s₁ hs hopen hv
  cases v₁ with
  | none =>
    cases hl
    exact ⟨hlow, hsome⟩
  | some w =>
    cases hl
    have hopen₁ := hlow.ended_eq.trans (closes_of_value hsome hu)
    exact ⟨hlow.trans_quiet ((Quiet.refl s₁).spill hopen₁ w).fresh.fresh, hsome⟩

variable {P : Nat → Prop} {s : Builder}

/-! ### Frames -/
theorem WF.not_pending (hs : WF P s) {x : Nat} (hx : s.blocks.length ≤ x) : ¬ P x := fun h =>
  absurd (hs.pending x h).1 (Nat.not_lt.mpr hx)

theorem ended_newBlock : s.newBlock.ended = s.ended := by
  simp only [Builder.ended, Builder.term_newBlock]
  rfl

/-- A jump unless the block has ended: it has afterwards. -/
theorem WF.jumpIfOpen {P : Nat → Prop} {s : Builder} (hs : WF P s) {x : Nat} (hx : Known P s x) :
    WF P (s.jumpIfOpen x) ∧ (s.jumpIfOpen x).ended = true ∧ Keeps s (s.jumpIfOpen x) := by
  unfold Builder.jumpIfOpen
  cases hc : s.ended with
  | true => exact ⟨hs, hc, Keeps.refl s⟩
  | false => exact hs.setTerminator hc (by rintro y hy; rwa [List.mem_singleton.mp hy])

/-! ### Frames and arms -/

theorem WF.emitCleanupFrom {P : Nat → Prop} {s : Builder} (hs : WF P s) (first : Nat) :
    s.emitCleanupFrom first = s := by
  have hnil : (s.cleanupStack.take (s.cleanupStack.length - first)).flatMap List.reverse = [] := by
    rw [List.flatMap_eq_nil_iff]
    intro frame hframe
    rw [hs.frames frame (List.mem_of_mem_take hframe)]
    rfl
  simp [Builder.emitCleanupFrom, hnil]

theorem WF.pushFrame (hs : WF P s) : WF P s.pushFrame :=
  ⟨hs.current_lt, hs.writes_eq, hs.insts, hs.targets, hs.pending, hs.loops, by
    rintro frame (_ | ⟨_, h⟩)
    · rfl
    · exact hs.frames frame h, hs.sink, hs.entry⟩

theorem WF.popFrame (hs : WF P s) : WF P s.popFrame :=
  ⟨hs.current_lt, hs.writes_eq, hs.insts, hs.targets, hs.pending, hs.loops,
    fun frame h => hs.frames frame (List.mem_of_mem_tail h), hs.sink, hs.entry⟩

/-- What a body lowered in a frame of its own leaves once the frame is gone. -/
theorem Lowered.unframe {s s₁ : Builder} {ended moves : Bool} (h : Lowered P s.pushFrame s₁ ended moves) :
    Lowered P s s₁.popFrame ended moves where
  wf := h.wf.popFrame
  keeps := ⟨h.keeps.length_le, h.keeps.term_eq, h.keeps.loops_eq, by
    show s₁.cleanupStack.tail = _
    rw [h.keeps.frames_eq]
    rfl⟩
  ended_eq := h.ended_eq
  current_eq := h.current_eq

/-! ### Stages of a construct -/

/-- Where a construct stands that started in `s₀`. -/
structure Stage (P : Nat → Prop) (s₀ s : Builder) (ended : Bool) : Prop where
  wf : WF P s
  keeps : Keeps s₀ s
  ended_eq : s.ended = ended

theorem insert_comm {x y : Nat} (z : Nat) : Insert x (Insert y P) z ↔ Insert y (Insert x P) z := by
  simp only [Insert]
  exact or_left_comm

theorem not_insert {x y : Nat} (hne : x ≠ y) (h : ¬ P x) : ¬ Insert y P x := by
  rintro (heq | hx)
  · exact hne heq
  · exact h hx

theorem known_insert {x : Nat} (hs : WF (Insert x P) s) : Known (Insert x P) s x := .of_pending hs (.inl rfl)

namespace Stage
variable {P : Nat → Prop} {s₀ s s' : Builder} {ended : Bool}

theorem start (hs : WF P s) (h : s.ended = false) : Stage P s s false := ⟨hs, Keeps.refl s, h⟩

theorem lowered (h : Stage P s₀ s ended) : Lowered P s₀ s ended true :=
  ⟨h.wf, h.keeps, h.ended_eq, fun hm => absurd hm (by decide)⟩

theorem of_lowered {moves : Bool} (h : Stage P s₀ s false) (hl : Lowered P s s' ended moves) : Stage P s₀ s' ended :=
  ⟨hl.wf, h.keeps.trans hl.keeps, hl.ended_eq⟩

theorem quiet (h : Stage P s₀ s ended) (hq : Quiet s s') : Stage P s₀ s' ended :=
  ⟨hq.wf h.wf, h.keeps.trans hq.keeps, hq.ended_eq.trans h.ended_eq⟩

theorem fresh (h : Stage P s₀ s ended) : Stage P s₀ s.fresh ended := h.quiet (quiet_fresh s)

theorem freshSlot (h : Stage P s₀ s ended) : Stage P s₀ s.freshSlot ended := h.quiet (quiet_freshSlot s)

theorem pushCurrent (h : Stage P s₀ s false) (e : HirExpr) : Stage P s₀ (s.pushCurrent e) false :=
  h.quiet (quiet_pushCurrent h.ended_eq e)

theorem pushAlloca (h : Stage P s₀ s false) (slot : Slot) : Stage P s₀ (s.pushAlloca slot) false :=
  h.fresh.pushCurrent _

theorem pushStore (h : Stage P s₀ s false) (slot : Slot) (value : HirExpr) :
    Stage P s₀ (s.pushStore slot value) false :=
  h.fresh.pushCurrent _

theorem spill (h : Stage P s₀ s false) (value : HirExpr) : Stage P s₀ (s.spill value) false :=
  (h.freshSlot.pushAlloca _).pushStore _ _

theorem newBlock (h : Stage P s₀ s ended) : Stage (Insert s.blocks.length P) s₀ s.newBlock ended :=
  ⟨h.wf.newBlock, h.keeps.trans (keeps_newBlock s), ended_newBlock.trans h.ended_eq⟩

theorem skipBlock (h : Stage P s₀ s ended) : Stage P s₀ s.newBlock ended :=
  ⟨h.wf.skipBlock, h.keeps.trans (keeps_newBlock s), ended_newBlock.trans h.ended_eq⟩

theorem congr {Q : Nat → Prop} (h : Stage P s₀ s ended) (hpq : ∀ x, P x ↔ Q x) : Stage Q s₀ s ended :=
  ⟨h.wf.congr hpq, h.keeps, h.ended_eq⟩

theorem newBlocks₂ (h : Stage P s₀ s ended) :
    Stage (Insert s.blocks.length (Insert (s.blocks.length + 1) P)) s₀ s.newBlock.newBlock ended := by
  have h₂ := h.newBlock.newBlock
  rw [Builder.length_newBlock] at h₂
  refine h₂.congr fun x => ?_
  simp only [Insert]
  grind

theorem newBlocks₃ (h : Stage P s₀ s ended) :
    Stage (Insert s.blocks.length (Insert (s.blocks.length + 1) (Insert (s.blocks.length + 2) P))) s₀
      s.newBlock.newBlock.newBlock ended := by
  have h₃ := h.newBlocks₂.newBlock
  simp only [Builder.length_newBlock] at h₃
  refine h₃.congr fun x => ?_
  simp only [Insert]
  grind

theorem newBlocks₄ (h : Stage P s₀ s ended) :
    Stage (Insert s.blocks.length (Insert (s.blocks.length + 1) (Insert (s.blocks.length + 2)
      (Insert (s.blocks.length + 3) P)))) s₀ s.newBlock.newBlock.newBlock.newBlock ended := by
  have h₄ := h.newBlocks₃.newBlock
  simp only [Builder.length_newBlock] at h₄
  refine h₄.congr fun x => ?_
  simp only [Insert]
  grind

/-- A terminator without targets. -/
theorem exit (h : Stage P s₀ s false) {t : HirTerminator} (ht : t.targets = []) :
    Stage P s₀ (s.setTerminator t) true := by
  obtain ⟨hwf, hended, hkeeps⟩ := h.wf.setTerminator (t := t) h.ended_eq (by simp [ht])
  exact ⟨hwf, h.keeps.trans hkeeps, hended⟩

theorem setTerminator (h : Stage P s₀ s false) {t : HirTerminator}
    (ht : ∀ x ∈ t.targets, Known P s x) : Stage P s₀ (s.setTerminator t) true := by
  obtain ⟨hwf, hended, hkeeps⟩ := h.wf.setTerminator h.ended_eq ht
  exact ⟨hwf, h.keeps.trans hkeeps, hended⟩

theorem branch (h : Stage P s₀ s false) {x y : Nat} (hx : P x) (hy : P y) (cond : Option HirExpr) :
    Stage P s₀ (s.setTerminator (.branch cond x y)) true := by
  refine h.setTerminator fun z hz => ?_
  simp only [HirTerminator.targets, List.mem_cons, List.not_mem_nil, or_false] at hz
  rcases hz with rfl | rfl
  · exact .of_pending h.wf hx
  · exact .of_pending h.wf hy

theorem jump (h : Stage P s₀ s false) {x : Nat} (hx : Known P s x) : Stage P s₀ (s.emitJump x) true :=
  h.setTerminator (by rintro y hy; rwa [List.mem_singleton.mp hy])

theorem jumpIfOpen (h : Stage P s₀ s ended) {x : Nat} (hx : Known P s x) : Stage P s₀ (s.jumpIfOpen x) true := by
  unfold Builder.jumpIfOpen
  cases hc : s.ended with
  | true => exact ⟨h.wf, h.keeps, hc⟩
  | false => exact jump ⟨h.wf, h.keeps, hc⟩ hx

/-- A write guarded by the test that the block has not ended. -/
theorem ifOpen {f : Builder → Builder} (h : Stage P s₀ s ended) (hf : Stage P s₀ s false → Stage P s₀ (f s) false) :
    Stage P s₀ (if s.ended then s else f s) ended := by
  obtain rfl := h.ended_eq
  cases hc : s.ended with
  | true => simpa [hc] using h
  | false =>
    rw [hc] at h
    simpa using hf h

theorem resultSlot (h : Stage P s₀ s false) (hasValue : Bool) :
    Stage P s₀ (if hasValue then s.freshSlot.pushAlloca (.temp s.nextSlot) else s) false := by
  cases hasValue with
  | false => exact h
  | true => exact h.freshSlot.pushAlloca _

/-- The next pending block is taken up. -/
theorem startBlock {x : Nat} (h : Stage (Insert x P) s₀ s true) (hx : ¬ P x) : Stage P s₀ (s.startBlock x) false := by
  obtain ⟨hwf, hopen⟩ := h.wf.startBlock hx h.ended_eq
  exact ⟨hwf, h.keeps.trans (keeps_startBlock s x), hopen⟩

/-- One side of an `if`: the block the side ended in jumps to the merge block. -/
theorem arm (h : Stage P s₀ s false) {resultSlot : Option Slot} {mergeBlock : Nat} {body : Lowering} (hm : P mergeBlock)
    (hbody : ∀ v s₁, body s.pushFrame = .ok (v, s₁) → ∃ ended, Lowered P s.pushFrame s₁ ended true)
    (hl : lowerArm resultSlot mergeBlock body s = .ok s') : Stage P s₀ s' true := by
  obtain ⟨⟨v, s₁⟩, hv, hl⟩ := bind_eq_ok hl
  obtain ⟨ended, hlow⟩ := hbody v s₁ hv
  simp only [hlow.wf.emitCleanupFrom] at hl
  have h₂ := h.of_lowered hlow.unframe
  generalize s₁.popFrame = s₂ at hl h₂
  have h₃ : ∃ s₃, Stage P s₀ s₃ ended ∧ s' = s₃.jumpIfOpen mergeBlock := by
    cases hl
    split
    · rename_i slot value
      exact ⟨_, h₂.ifOpen (f := fun s => s.pushStore slot value) fun h => h.pushStore slot value, rfl⟩
    · exact ⟨_, h₂, rfl⟩
  obtain ⟨s₃, h₃, rfl⟩ := h₃
  exact h₃.jumpIfOpen (.of_pending h₃.wf hm)

end Stage

/-! ### Operators with blocks of their own -/

theorem Stage.boundsTest {P : Nat → Prop} {s₀ s : Builder} (h : Stage P s₀ s false)
    (objectSlot indexSlot resultSlot : Slot) : Stage P s₀ (boundsTest objectSlot indexSlot resultSlot s).2 false := by
  have hP : ∀ x, s.blocks.length ≤ x → ¬ P x := fun x => h.wf.not_pending
  have h₁ := fun c => h.fresh.fresh.fresh.newBlocks₃.branch (.inl rfl) (.inr (.inl rfl)) c
  have h₂ := fun c => (h₁ c).startBlock (not_insert (by simp) (not_insert (by simp) (hP _ (Nat.le_refl _))))
  have h₃ := fun c v => ((h₂ c).fresh.fresh.fresh.pushStore resultSlot v)
  have h₄ := fun c v => ((h₃ c v).jump (.of_pending (h₃ c v).wf (.inr (.inl rfl)))).startBlock
    (not_insert (by simp) (hP _ (Nat.le_succ _)))
  have h₅ := fun c v w => ((h₄ c v).fresh.pushStore resultSlot w)
  have h₆ := fun c v w => ((h₅ c v w).jump (known_insert (h₅ c v w).wf)).startBlock
    (hP _ (Nat.le_add_right s.blocks.length 2))
  exact (h₆ _ _ _).fresh

theorem Stage.payloadTest {P : Nat → Prop} {s₀ s : Builder} (h : Stage P s₀ s false) (slot : Slot)
    (noneEnd : Builder → Builder) (hend : ∀ Q s, Stage Q s₀ s false → Stage Q s₀ (noneEnd s) true) :
    Stage P s₀ (payloadTest slot noneEnd s) false := by
  have hP : ∀ x, s.blocks.length ≤ x → ¬ P x := fun x => h.wf.not_pending
  have h₁ := fun c => (h.fresh.fresh.newBlocks₂.branch (.inl rfl) (.inr (.inl rfl)) c).congr insert_comm
  have h₂ := fun c => (h₁ c).startBlock (not_insert (by simp) (hP _ (Nat.le_succ _)))
  exact (hend _ _ (h₂ _)).startBlock (hP _ (Nat.le_refl _))

section
variable {e : Expr} (hu : usable e = true)
  (he : Sound (closes e) (valued e) (moves e) (lowerExpr e))
include hu he

theorem lowerOptionalProp_sound : Sound (closes e) (valued e) true (lowerOptionalProp (lowerExpr e)) := by
  intro P s v s' hs hopen hl
  obtain ⟨⟨v₁, s₁⟩, hv, hl⟩ := bind_eq_ok hl
  obtain ⟨hlow, hsome⟩ := he P s v₁ s₁ hs hopen hv
  cases v₁ with
  | none =>
    cases hl
    exact ⟨hlow.weaken (fun h => absurd h (by decide)), hsome⟩
  | some w =>
    have hc := closes_of_value hsome hu
    rw [hc] at hlow ⊢
    have h₁ := (((Stage.start hs hopen).of_lowered hlow).spill w).freshSlot.pushAlloca (.temp (s₁.nextSlot + 1))
    have h₂ := h₁.payloadTest (.temp s₁.nextSlot) returnNone fun Q s h => h.fresh.exit rfl
    cases hl
    exact ⟨(h₂.fresh.fresh.pushStore _ _).fresh.lowered, hsome⟩

theorem lowerMust_sound : Sound (closes e) (valued e) true (lowerMust (lowerExpr e)) := by
  intro P s v s' hs hopen hl
  obtain ⟨⟨v₁, s₁⟩, hv, hl⟩ := bind_eq_ok hl
  obtain ⟨hlow, hsome⟩ := he P s v₁ s₁ hs hopen hv
  cases v₁ with
  | none =>
    cases hl
    exact ⟨hlow.weaken (fun h => absurd h (by decide)), hsome⟩
  | some w =>
    have hc := closes_of_value hsome hu
    rw [hc] at hlow ⊢
    have h₁ := (((Stage.start hs hopen).of_lowered hlow).spill w).payloadTest (.temp s₁.nextSlot)
      (·.setTerminator (.panic 10003)) fun Q s h => h.exit rfl
    cases hl
    exact ⟨h₁.fresh.fresh.lowered, hsome⟩

end

section
variable {l r : Expr} (htl : tidy l = true) (htr : (if closes l then quiet r else tidy r) = true)
  (ihl : tidy l = true → Sound (closes l) (valued l) (moves l) (lowerExpr l))
  (ihr : tidy r = true → Sound (closes r) (valued r) (moves r) (lowerExpr r))
include htl htr ihl ihr

/-- Two operands lowered one after the other. -/
theorem lowerPair_sound {P : Nat → Prop} {s s₁ s₂ : Builder} {v w : Option HirExpr} (hs : WF P s)
    (hopen : s.ended = false) (hv : lowerExpr l s = .ok (v, s₁)) (hw : lowerExpr r s₁ = .ok (w, s₂)) :
    Lowered P s s₂ (closes (.checkedIndex l r)) true ∧ (v.isSome && w.isSome) = valued (.checkedIndex l r) := by
  obtain ⟨hlow, hsome⟩ := ihl htl P s v s₁ hs hopen hv
  rw [closes, valued]
  cases hc : closes l with
  | true =>
    rw [hc] at hlow
    obtain ⟨hq, hsome₁⟩ := lowerExpr_inert r (by simpa [hc] using htr) s₁ w s₂ hlow.ended_eq hw
    exact ⟨(hlow.trans_quiet hq).weaken fun h => absurd h (by decide), by simp [hsome, hsome₁]⟩
  | false =>
    rw [hc] at hlow
    obtain ⟨hlow₁, hsome₁⟩ := ihr (by simpa [hc] using htr) P s₁ w s₂ hlow.wf hlow.ended_eq hw
    exact ⟨(hlow.trans hlow₁).weaken fun h => absurd h (by decide), by simp [hsome, hsome₁]⟩

theorem lowerCheckedIndex_sound (hu : usable (.checkedIndex l r) = true) :
    Sound (closes (.checkedIndex l r)) (valued (.checkedIndex l r)) true
      (lowerCheckedIndex (lowerExpr l) (lowerExpr r)) := by
  intro P s v s' hs hopen hl
  obtain ⟨⟨v₁, s₁⟩, hv, hl⟩ := bind_eq_ok hl
  obtain ⟨⟨v₂, s₂⟩, hw, hl⟩ := bind_eq_ok hl
  obtain ⟨hlow, hsome⟩ := lowerPair_sound htl htr ihl ihr hs hopen hv hw
  cases v₁ with
  | none =>
    cases hl
    exact ⟨hlow, by simpa using hsome⟩
  | some object =>
    cases v₂ with
    | none =>
      cases hl
      exact ⟨hlow, by simpa using hsome⟩
    | some index =>
      have hc := closes_of_value (v := object) (by simpa using hsome) hu
      rw [hc] at hlow ⊢
      have h₁ := ((Stage.start hs hopen).of_lowered hlow).freshSlot.freshSlot.freshSlot
      have h₂ := ((h₁.pushAlloca (.temp s₂.nextSlot)).pushStore (.temp s₂.nextSlot) object)
      have h₃ := (h₂.pushAlloca (.temp (s₂.nextSlot + 1))).pushStore (.temp (s₂.nextSlot + 1)) index
      have h₄ := (h₃.pushAlloca (.temp (s₂.nextSlot + 2))).boundsTest (.temp s₂.nextSlot)
        (.temp (s₂.nextSlot + 1)) (.temp (s₂.nextSlot + 2))
      cases hl
      exact ⟨h₄.lowered, by simpa using hsome⟩

end

/-! ### Conditionals -/

/-- The else side of four operands: behind a condition with a value the body is lowered after the end. -/
theorem lowerElseCondition_sound {c e : Expr} (htc : tidy c = true) (hu : usable c = true)
    (hte : (if valued c || closes c then quiet e else tidy e) = true)
    (ihc : tidy c = true → Sound (closes c) (valued c) (moves c) (lowerExpr c))
    (ihe : tidy e = true → Sound (closes e) (valued e) (moves e) (lowerExpr e)) {P : Nat → Prop}
    {s s' : Builder} {mergeBlock : Nat} {v : Option HirExpr} (hm : P mergeBlock) (hs : WF P s) (hopen : s.ended = false)
    (hl : lowerElseCondition mergeBlock (lowerExpr c) (lowerExpr e) s = .ok (v, s')) :
    ∃ ended, Lowered P s s' ended true := by
  obtain ⟨⟨w, s₁⟩, hw, hl⟩ := bind_eq_ok hl
  obtain ⟨hlow, hsome⟩ := ihc htc P s w s₁ hs hopen hw
  have h₁ := (Stage.start hs hopen).of_lowered hlow
  cases w with
  | none =>
    simp only [← hsome, Option.isSome_none, Bool.false_or] at hte
    cases hc : closes c with
    | true =>
      rw [hc] at h₁
      exact ⟨_, (h₁.quiet (lowerExpr_inert e (by simpa [hc] using hte) s₁ v s' h₁.ended_eq hl).1).lowered⟩
    | false =>
      rw [hc] at h₁
      have he := (ihe (by simpa [hc] using hte) P s₁ v s' h₁.wf h₁.ended_eq hl).1
      exact ⟨_, (h₁.of_lowered he).lowered⟩
  | some w =>
    rw [closes_of_value hsome hu] at h₁
    have h₂ := (h₁.pushCurrent w).branch hm hm (some w)
    simp only [← hsome, Option.isSome_some, Bool.true_or, if_true] at hte
    exact ⟨_, (h₂.quiet (lowerExpr_inert e hte _ v s' h₂.ended_eq hl).1).lowered⟩

section
variable {es : List Expr}
  (ih : ∀ e ∈ es, tidy e = true → Sound (closes e) (valued e) (moves e) (lowerExpr e))
include ih

/-- The else operands, from the end of the then side to the end of the else side. -/
theorem Stage.elseSide {P : Nat → Prop} {s₀ s s' : Builder} {resultSlot : Option Slot}
    {elseBlock mergeBlock : Nat} (htidy : tidyElse es = true) (hne : elseBlock ≠ mergeBlock) (hP : ¬ P elseBlock)
    (h : Stage (if es = [] then Insert mergeBlock P else Insert elseBlock (Insert mergeBlock P)) s₀ s true)
    (hl : lowerElse resultSlot elseBlock mergeBlock (lowerExprs es) s = .ok s') :
    Stage (Insert mergeBlock P) s₀ s' true := by
  match es, h, hl with
  | [], h, hl =>
    cases hl
    simpa using h
  | [e], h, hl =>
    simp only [reduceCtorEq, if_false] at h
    simp only [tidyElse, List.isEmpty_nil, if_true] at htidy
    have h₁ := h.startBlock (not_insert hne hP)
    refine h₁.arm (.inl rfl) (fun v s₁ hv => ⟨closes e, ?_⟩) hl
    exact (ih e (.head _) htidy _ _ v s₁ h₁.wf.pushFrame h₁.ended_eq hv).1.weaken fun h => absurd h (by decide)
  | c :: e :: rest, h, hl =>
    simp only [reduceCtorEq, if_false] at h
    simp only [tidyElse, List.isEmpty_cons, Bool.false_eq_true, if_false, tidyElseBody, Bool.and_eq_true] at htidy
    have h₁ := h.startBlock (not_insert hne hP)
    exact h₁.arm (.inl rfl) (fun v s₁ hv => lowerElseCondition_sound htidy.1.1 htidy.1.2 htidy.2
      (ih c (.head _)) (ih e (.tail _ (.head _))) (.inl rfl) h₁.wf.pushFrame h₁.ended_eq hv) hl

omit ih in
theorem lowerExprs_isEmpty : (lowerExprs es).isEmpty = es.isEmpty := by
  cases es <;> rfl

theorem lowerIf_sound (type : SemaType) (htidy : tidyIf es = true) :
    Sound (closesCondition es) (valuedCondition es && type.hasValue) true (lowerIf type (lowerExprs es)) := by
  intro P s v s' hs hopen hl
  match es, hl with
  | [], hl =>
    cases hl
    exact ⟨(Stage.start hs hopen).lowered, rfl⟩
  | [c], hl =>
    cases hl
    exact ⟨(Stage.start hs hopen).lowered, by simp [valuedCondition]⟩
  | c :: body :: rest, hl =>
    simp only [tidyIf, List.isEmpty_cons, Bool.false_or, Bool.and_eq_true] at htidy
    obtain ⟨⟨w, s₁⟩, hw, hl⟩ := bind_eq_ok hl
    obtain ⟨hlow, hsome⟩ := ih c (.head _) htidy.1.1 P s w s₁ hs hopen hw
    cases w with
    | none =>
      cases hl
      exact ⟨hlow.weaken (fun h => absurd h (by decide)), by simp [valuedCondition, ← hsome]⟩
    | some w =>
      rw [closesCondition, valuedCondition, List.isEmpty_cons, Bool.not_false, Bool.true_and]
      have hc := closes_of_value hsome htidy.1.2
      rw [hc] at hlow ⊢
      have h₁ := (Stage.start hs hopen).of_lowered hlow
      have h₂ := h₁.resultSlot (!(lowerExprs rest).isEmpty && type.hasValue)
      simp only [← hsome, Option.isSome_some, Bool.not_true, Bool.false_or, tidyArms, Bool.and_eq_true] at htidy
      obtain ⟨s₃, harm, hl⟩ := bind_eq_ok hl
      obtain ⟨s₄, helse, hl⟩ := bind_eq_ok hl
      simp only [lowerExprs_isEmpty] at h₂ harm helse hl
      generalize (if (!rest.isEmpty && type.hasValue) = true then
        s₁.freshSlot.pushAlloca (.temp s₁.nextSlot) else s₁) = s₂ at h₂ harm helse hl
      have hP : ∀ x, s₂.blocks.length ≤ x → ¬ P x := fun x => h₂.wf.not_pending
      -- the else block is pending only if there is an else side
      have h₃ : Stage (Insert s₂.blocks.length (if rest = [] then Insert (s₂.blocks.length + 2) P
          else Insert (s₂.blocks.length + 1) (Insert (s₂.blocks.length + 2) P))) s
          s₂.newBlock.newBlock.newBlock false := by
        split
        · have := h₂.newBlock.skipBlock.newBlock
          simp only [Builder.length_newBlock] at this
          exact this.congr insert_comm
        · exact h₂.newBlocks₃
      have h₄ := h₃.branch (.inl rfl) (y := if (!rest.isEmpty) = true then s₂.blocks.length + 1 else
        s₂.blocks.length + 2) (by cases rest <;> simp [Insert]) (some w)
      have h₅ := h₄.startBlock (by
        split
        · exact not_insert (by omega) (hP _ (Nat.le_refl _))
        · exact not_insert (by omega) (not_insert (by omega) (hP _ (Nat.le_refl _))))
      have h₆ := h₅.arm (by split <;> simp [Insert]) (fun v s₅ hv => ⟨closes body,
        (ih body (.tail _ (.head _)) htidy.2.1 _ _ v s₅ h₅.wf.pushFrame h₅.ended_eq hv).1.weaken
          fun h => absurd h (by decide)⟩) harm
      have h₇ := Stage.elseSide (fun e he => ih e (.tail _ (.tail _ he))) htidy.2.2 (by omega)
        (hP _ (Nat.le_succ _)) h₆ helse
      have h₈ := h₇.startBlock (hP _ (Nat.le_add_right _ 2))
      have hv : v.isSome = (!rest.isEmpty && type.hasValue) ∧
          (s' = s₄.startBlock (s₂.blocks.length + 2) ∨
            s' = (s₄.startBlock (s₂.blocks.length + 2)).fresh) := by
        cases hr : (!rest.isEmpty && type.hasValue) <;> simp only [hr, if_true] at hl <;>
          cases hl <;> simp
      refine ⟨?_, ?_⟩
      · rcases hv.2 with rfl | rfl
        · exact h₈.lowered
        · exact h₈.fresh.lowered
      · rw [hv.1, ← hsome]
        cases rest <;> simp

end

/-! ### Blocks -/

def SoundStmt (st : Stmt) : Prop :=
  match lowerStmt st with
  | .plain _ lower => ∀ last,
      Sound (closesStmt st) (valuedStmt last.isSome st) (movesStmt st) (lower last)
  | .defer _ => False

section
variable {sts : List Stmt} (ih : ∀ st ∈ sts, tidyStmt st = true → SoundStmt st)
include ih

/-- The statement loop; behind a statement that ends the block nothing is lowered. -/
theorem lowerStatements_sound (htidy : tidyStmts sts = true) {P : Nat → Prop} {s s' : Builder}
    {last last' : Option HirExpr} {pending : List (Builder → Except String Builder)} (hs : WF P s)
    (hopen : s.ended = false) (hl : lowerStatements [] last (lowerStmts sts) s = .ok (pending, last', s')) :
    pending = [] ∧ Lowered P s s' (closesStmts sts) (movesStmts sts) ∧ last'.isSome = valuedStmts last.isSome sts := by
  induction sts generalizing s last with
  | nil =>
    cases hl
    exact ⟨rfl, .of_quiet hs hopen (Quiet.refl _), rfl⟩
  | cons st sts ihsts =>
    simp only [tidyStmts, Bool.and_eq_true, Bool.or_eq_true] at htidy
    have hst := ih st (.head _) htidy.1
    unfold SoundStmt at hst
    rw [lowerStmts] at hl
    cases hlow : lowerStmt st with
    | defer body =>
      rw [hlow] at hst
      exact hst.elim
    | plain exits lower =>
      rw [hlow] at hst hl
      obtain ⟨s₁, hflush, hl⟩ := bind_eq_ok hl
      obtain rfl : s = s₁ := by
        cases exits <;> simpa [flushPendingDefers] using hflush
      simp only [hopen, Bool.false_eq_true, if_false] at hl
      obtain ⟨⟨last₁, s₁⟩, hv, hl⟩ := bind_eq_ok hl
      obtain ⟨hlow₁, hsome⟩ := hst last P s last₁ s₁ hs hopen hv
      rw [closesStmts, movesStmts, valuedStmts, ← hsome]
      cases hc : closesStmt st with
      | true =>
        rw [hc] at hlow₁
        have hl₁ := lowerStatements_ended hlow₁.ended_eq last₁ (lowerStmts sts)
        rw [hl₁] at hl
        cases hl
        exact ⟨rfl, hlow₁.weaken fun hm => (Bool.or_eq_false_iff.mp hm).1, rfl⟩
      | false =>
        rw [hc] at hlow₁
        obtain ⟨hp, hlow₂, hsome₂⟩ := ihsts (fun st hst => ih st (.tail _ hst))
          (htidy.2.resolve_left (by simp [hc])) hlow₁.wf hlow₁.ended_eq hl
        exact ⟨hp, hlow₁.trans hlow₂, hsome₂⟩

theorem lowerBlock_sound (htidy : tidyStmts sts = true) :
    Sound (closesStmts sts) (valuedStmts false sts) (movesStmts sts) (lowerBlock (lowerStmts sts)) := by
  intro P s v s' hs hopen hl
  obtain ⟨⟨pending, last, s₁⟩, hsts, hl⟩ := bind_eq_ok hl
  obtain ⟨rfl, hlow, hsome⟩ := lowerStatements_sound ih htidy hs.pushFrame hopen hsts
  obtain ⟨s₂, hflush, hl⟩ := bind_eq_ok hl
  cases hflush
  have hframe : s₁.cleanupStack.headD [] = [] := by
    rw [hlow.keeps.frames_eq]
    rfl
  simp only [hframe, List.isEmpty_nil, Bool.true_or, if_true, Except.ok.injEq, Prod.mk.injEq] at hl
  obtain ⟨rfl, rfl⟩ := hl
  exact ⟨hlow.unframe, hsome⟩

end

/-! ### Statements -/

theorem Lowered.of_emit {P : Nat → Prop} {s s₁ : Builder} {moves : Bool}
    (h : Lowered P s s₁ false moves) (e : HirExpr) : Lowered P s (s₁.emitInst e) false moves := by
  rw [Builder.emitInst, h.wf.sink]
  exact h.trans_quiet (quiet_pushCurrent h.ended_eq e)

section
variable {e : Expr} (hu : usable e = true) (he : Sound (closes e) (valued e) (moves e) (lowerExpr e))
include hu he

theorem lowerExpressionStatement_sound (type : SemaType) (hasSemicolon : Bool) :
    Sound (closes e) (!hasSemicolon && valued e) (moves e)
      (lowerExpressionStatement type (lowerExpr e) hasSemicolon) := by
  intro P s v s' hs hopen hl
  obtain ⟨⟨w, s₁⟩, hw, hl⟩ := bind_eq_ok hl
  obtain ⟨hlow, hsome⟩ := he P s w s₁ hs hopen hw
  rw [← hsome]
  cases w with
  | none =>
    dsimp only at hl
    split at hl
    · cases hl
    · cases hl
      exact ⟨hlow, by simp⟩
  | some w =>
    cases hl
    rw [closes_of_value hsome hu] at hlow ⊢
    exact ⟨hlow.of_emit w, by cases hasSemicolon <;> rfl⟩

theorem lowerDiscard_sound (type : SemaType) : Sound (closes e) false (moves e) (lowerDiscard type (lowerExpr e)) := by
  intro P s v s' hs hopen hl
  obtain ⟨⟨w, s₁⟩, hw, hl⟩ := bind_eq_ok hl
  obtain ⟨hlow, hsome⟩ := he P s w s₁ hs hopen hw
  cases w with
  | none =>
    dsimp only at hl
    split at hl
    · cases hl
    · cases hl
      exact ⟨hlow, rfl⟩
  | some w =>
    cases hl
    rw [closes_of_value hsome hu] at hlow ⊢
    exact ⟨hlow.of_emit w, rfl⟩

theorem lowerBinding_sound (id : Nat) : Sound (closes e) false (moves e) (lowerBinding id (some (lowerExpr e))) := by
  intro P s v s' hs hopen hl
  have h₀ : Lowered P s s.fresh false false := .of_quiet hs hopen (quiet_fresh s)
  have h₁ := h₀.of_emit (.slotAlloca s.nextExpr (.local id))
  obtain ⟨⟨w, s₁⟩, hw, hl⟩ := bind_eq_ok hl
  obtain ⟨hlow, hsome⟩ := he P _ w s₁ h₁.wf h₁.ended_eq hw
  have h₂ := h₁.trans hlow
  rw [Bool.false_or] at h₂
  cases w with
  | none =>
    cases hl
    exact ⟨h₂, rfl⟩
  | some w =>
    cases hl
    rw [closes_of_value hsome hu] at h₂ ⊢
    exact ⟨(h₂.trans_quiet (quiet_fresh s₁)).of_emit _, rfl⟩

end

theorem lowerBindingNone_sound (id : Nat) : Sound false false false (lowerBinding id none) := by
  intro P s v s' hs hopen hl
  have h₀ : Lowered P s s.fresh false false := .of_quiet hs hopen (quiet_fresh s)
  have h₁ := h₀.of_emit (.slotAlloca s.nextExpr (.local id))
  cases hl
  exact ⟨h₁, rfl⟩

/-- `return`, with the value lowered where the block is open. -/
theorem lowerReturn_sound {e : Expr} (hc : closes e = false)
    (he : Sound (closes e) (valued e) (moves e) (lowerExpr e)) (last : Option HirExpr) :
    Sound true last.isSome (moves e) (lowerReturn (some (lowerExpr e)) last) := by
  intro P s v s' hs hopen hl
  rw [lowerReturn, hs.emitCleanupFrom] at hl
  obtain ⟨⟨w, s₁⟩, hw, hl⟩ := bind_eq_ok hl
  obtain ⟨hlow, -⟩ := he P s w s₁ hs hopen hw
  rw [hc] at hlow
  have h₂ := ((Stage.start hs hopen).of_lowered hlow).exit (t := .ret w) rfl
  cases hl
  exact ⟨⟨h₂.wf, h₂.keeps, h₂.ended_eq, hlow.current_eq⟩, rfl⟩

theorem lowerReturnNone_sound (last : Option HirExpr) : Sound true last.isSome false (lowerReturn none last) := by
  intro P s v s' hs hopen hl
  rw [lowerReturn, hs.emitCleanupFrom] at hl
  have h₁ := (Stage.start hs hopen).exit (t := .ret none) rfl
  cases hl
  exact ⟨⟨h₁.wf, h₁.keeps, h₁.ended_eq, fun _ => rfl⟩, rfl⟩

theorem findLoop_mem {label : String} {loops : List LoopTarget} {l : LoopTarget}
    (h : findLoop label loops = some l) : l ∈ loops := by
  unfold findLoop at h
  split at h
  · exact List.mem_of_mem_head? h
  · exact List.mem_of_find?_eq_some h

theorem lowerLoopExit_sound (kind label : String) {block : LoopTarget → Nat}
    (hblock : ∀ P s l, WF P s → l ∈ s.loopStack → Known P s (block l)) (last : Option HirExpr) :
    Sound false last.isSome true (lowerLoopExit kind label block last) := by
  intro P s v s' hs hopen hl
  unfold lowerLoopExit at hl
  split at hl
  · cases hl
  · split at hl
    · cases hl
    · rename_i l hfind
      have h₁ := (Stage.start hs hopen).jump (hblock P s l hs (findLoop_mem hfind))
      simp only [hs.emitCleanupFrom] at hl
      have h₂ := h₁.newBlock.startBlock (h₁.wf.not_pending (Nat.le_refl _))
      cases hl
      exact ⟨h₂.lowered, rfl⟩

/-! ### Loops -/

theorem Stage.trans {P Q : Nat → Prop} {s₀ s₁ s : Builder} {ended ended' : Bool}
    (h : Stage Q s₀ s₁ ended) (h' : Stage P s₁ s ended') : Stage P s₀ s ended' :=
  ⟨h'.wf, h.keeps.trans h'.keeps, h'.ended_eq⟩

variable {P : Nat → Prop}

/-- The stage from here on. -/
theorem Stage.restart {s₀ s : Builder} {ended : Bool} (h : Stage P s₀ s ended) : Stage P s s ended :=
  ⟨h.wf, Keeps.refl s, h.ended_eq⟩

/-- What a block has jumped to stays known. -/
theorem Stage.known_of_jump {s₀ s₁ s : Builder} {ended : Bool} {b x : Nat} (h : Stage P s₀ s ended)
    (hk : Keeps s₁ s) (hjump : s₁.term b = some (.jump x)) : Known P s x :=
  h.wf.targets b _ (hk.term_eq b _ hjump) x (List.mem_singleton_self x)

theorem term_emitJump_current {s : Builder} (hs : WF P s) (x : Nat) :
    (s.emitJump x).term s.current = some (.jump x) := by
  rw [Builder.emitJump, Builder.term_setTerminator, if_pos ⟨rfl, hs.current_lt⟩]

/-- The body of a loop, between two known blocks, ends with a jump. -/
theorem Stage.loopBody {s₀ s s' : Builder} (h : Stage P s₀ s false)
    {continueBlock breakBlock : Nat} {label : String} {body : Lowering}
    (hc : Known P s continueBlock) (hb : Known P s breakBlock)
    (hbody : ∀ s v s₁, WF P s → s.ended = false → body s = .ok (v, s₁) → ∃ ended, Lowered P s s₁ ended true)
    (hl : lowerLoopBody continueBlock breakBlock label body s = .ok s') : Stage P s₀ s' true := by
  obtain ⟨⟨v, s₁⟩, hv, hl⟩ := bind_eq_ok hl
  have hloop : WF P (s.pushLoop ⟨continueBlock, breakBlock, label, s.cleanupStack.length⟩) :=
    ⟨h.wf.current_lt, h.wf.writes_eq, h.wf.insts, h.wf.targets, h.wf.pending, by
      rintro l (_ | ⟨_, hmem⟩)
      · exact ⟨hc, hb⟩
      · exact h.wf.loops l hmem, h.wf.frames, h.wf.sink, h.wf.entry⟩
  obtain ⟨ended, hlow⟩ := hbody _ v s₁ hloop.pushFrame h.ended_eq hv
  simp only [hlow.wf.emitCleanupFrom] at hl
  have hlow₁ := hlow.unframe
  generalize s₁.popFrame = s₂ at hl hlow₁
  have hc₂ : Known P s₂ continueBlock := (hlow₁.wf.loops _ (by rw [hlow₁.keeps.loops_eq]; exact .head _)).1
  obtain ⟨hwf, hended, hkeeps⟩ := hlow₁.wf.jumpIfOpen hc₂
  cases hl
  have hk := hlow₁.keeps.trans hkeeps
  refine ⟨⟨hwf.current_lt, hwf.writes_eq, hwf.insts, hwf.targets, hwf.pending, ?_, hwf.frames,
    hwf.sink, hwf.entry⟩, h.keeps.trans ⟨hk.length_le, hk.term_eq, ?_, hk.frames_eq⟩, hended⟩
  · exact fun l hmem => hwf.loops l (List.mem_of_mem_tail hmem)
  · show (s₂.jumpIfOpen continueBlock).loopStack.tail = _
    rw [hk.loops_eq]
    rfl

/-- A loop body with nothing asked of its value. -/
theorem Sound.anyEnd {e : Expr} (h : Sound (closes e) (valued e) (moves e) (lowerExpr e)) (P : Nat → Prop)
    (s : Builder) (v : Option HirExpr) (s₁ : Builder) (hs : WF P s) (hopen : s.ended = false)
    (hl : lowerExpr e s = .ok (v, s₁)) : ∃ ended, Lowered P s s₁ ended true :=
  ⟨_, (h P s v s₁ hs hopen hl).1.weaken fun h => absurd h (by decide)⟩

/-- The step of a loop stays in the step block. -/
theorem Stage.step {P : Nat → Prop} {s₀ s s' : Builder} {headerBlock stepBlock : Nat}
    {step : Option Lowering} (h : Stage P s₀ s false) (hcur : s.current = stepBlock)
    (hheader : ∀ s', Keeps s s' → WF P s' → Known P s' headerBlock)
    (hstep : ∀ l ∈ step, ∃ ended hasValue, (ended && hasValue) = false ∧ Sound ended hasValue false l)
    (hl : lowerStep headerBlock stepBlock step s = .ok s') : Stage P s₀ s' true := by
  subst hcur
  cases step with
  | none =>
    cases hl
    exact h.jumpIfOpen (hheader s (Keeps.refl s) h.wf)
  | some l =>
    obtain ⟨⟨v, s₁⟩, hv, hl⟩ := bind_eq_ok hl
    obtain ⟨ended, hasValue, hu, hsound⟩ := hstep l rfl
    obtain ⟨hlow, hsome⟩ := hsound P s v s₁ h.wf h.ended_eq hv
    have hcur := hlow.current_eq rfl
    have h₁ := h.of_lowered hlow
    simp only [← hcur] at hl
    cases v with
    | none =>
      cases hl
      exact h₁.jumpIfOpen (hheader _ hlow.keeps h₁.wf)
    | some w =>
      obtain rfl : hasValue = true := hsome.symm
      rw [Bool.and_true] at hu
      subst hu
      have h₂ := h₁.pushCurrent w
      cases hl
      exact h₂.jumpIfOpen (hheader _ (hlow.keeps.trans (quiet_pushCurrent h₁.ended_eq w).keeps) h₂.wf)

section
variable {cond body : Expr} (hcond : closes cond = false)
  (ihc : Sound (closes cond) (valued cond) (moves cond) (lowerExpr cond))
  (ihb : Sound (closes body) (valued body) (moves body) (lowerExpr body))

include hcond ihc ihb

theorem lowerWhile_sound (label : String) :
    Sound false false true (lowerWhile label (lowerExpr cond) (lowerExpr body)) := by
  intro P s v s' hs hopen hl
  obtain ⟨⟨w, s₂⟩, hw, hl⟩ := bind_eq_ok hl
  obtain ⟨s₃, hbody, hl⟩ := bind_eq_ok hl
  have hP : ∀ x, s.blocks.length ≤ x → ¬ P x := fun x => hs.not_pending
  have h₁ := (Stage.start hs hopen).newBlocks₃
  have hjump := term_emitJump_current h₁.wf s.blocks.length
  have h₂ := h₁.jump (known_insert h₁.wf)
  have h₃ := h₂.restart.startBlock (not_insert (by omega) (not_insert (by omega) (hP _ (Nat.le_refl _))))
  have hlow := (ihc _ _ w s₂ h₃.wf h₃.ended_eq hw).1
  rw [hcond] at hlow
  have h₄ := (h₃.of_lowered hlow).branch (.inl rfl) (.inr (.inl rfl)) w
  have h₅ := h₄.startBlock (not_insert (by omega) (hP _ (Nat.le_succ _)))
  have h₆ := h₅.loopBody (h₅.known_of_jump h₅.keeps hjump) (known_insert h₅.wf) (ihb.anyEnd _) hbody
  cases hl
  exact ⟨(h₂.trans (h₆.startBlock (hP _ (Nat.le_add_right _ 2)))).lowered, rfl⟩

theorem lowerFor_sound (label : String) {step : Option Lowering}
    (hstep : ∀ l ∈ step, ∃ ended hasValue, (ended && hasValue) = false ∧ Sound ended hasValue false l) :
    Sound false false true (lowerFor label (lowerExpr cond) (lowerExpr body) step) := by
  intro P s v s' hs hopen hl
  obtain ⟨⟨w, s₂⟩, hw, hl⟩ := bind_eq_ok hl
  obtain ⟨s₃, hbody, hl⟩ := bind_eq_ok hl
  obtain ⟨s₄, hst, hl⟩ := bind_eq_ok hl
  have hP : ∀ x, s.blocks.length ≤ x → ¬ P x := fun x => hs.not_pending
  have h₁ := (Stage.start hs hopen).newBlocks₄
  have hjump := term_emitJump_current h₁.wf s.blocks.length
  have h₂ := h₁.jump (known_insert h₁.wf)
  have h₃ := h₂.restart.startBlock (not_insert (by omega) (not_insert (by omega)
    (not_insert (by omega) (hP _ (Nat.le_refl _)))))
  have hlow := (ihc _ _ w s₂ h₃.wf h₃.ended_eq hw).1
  rw [hcond] at hlow
  have h₄ := (h₃.of_lowered hlow).branch (.inl rfl) (.inr (.inr (.inl rfl))) w
  have h₅ := h₄.startBlock (not_insert (by omega) (not_insert (by omega) (hP _ (Nat.le_succ _))))
  have h₆ := h₅.loopBody (known_insert h₅.wf) (.of_pending h₅.wf (.inr (.inl rfl))) (ihb.anyEnd _) hbody
  have h₇ := h₆.startBlock (not_insert (by omega) (hP _ (Nat.le_add_right _ 2)))
  have h₈ := h₇.step rfl (fun s' hk hwf =>
    (Stage.mk hwf (h₇.keeps.trans hk) rfl).known_of_jump (h₇.keeps.trans hk) hjump) hstep hst
  cases hl
  exact ⟨(h₂.trans (h₈.startBlock (hP _ (Nat.le_add_right _ 3)))).lowered, rfl⟩

end

/-! ### Loops over a range and an iterator -/

theorem Stage.addOne {P : Nat → Prop} {s₀ s : Builder} (h : Stage P s₀ s false) (counter : Slot) :
    Stage P s₀ (addOne counter s) false :=
  h.fresh.fresh.fresh.pushStore _ _

theorem Stage.rangeSetup {P : Nat → Prop} {s₀ s : Builder} (h : Stage P s₀ s false)
    (lo hi counter : Slot) (lower upper : HirExpr) (openAtLo : Bool) :
    Stage P s₀ (rangeSetup lo hi counter lower upper openAtLo s) false := by
  have h₁ := (((h.pushAlloca lo).pushStore lo lower).pushAlloca hi).pushStore hi upper
  have h₂ := fun v => (h₁.pushAlloca counter).fresh.pushStore counter v
  unfold Zith.Sema.rangeSetup
  cases openAtLo with
  | false => exact h₂ _
  | true => exact (h₂ _).addOne counter

theorem Stage.rangeHeader {P : Nat → Prop} {s₀ s : Builder} {bodyBlock exitBlock : Nat}
    (h : Stage (Insert bodyBlock P) s₀ s false) (hx : P exitBlock) (hb : ¬ P bodyBlock)
    (lo hi counter : Slot) (openAtLo openAtHi : Bool) (binding : Nat) :
    Stage P s₀ (rangeHeader lo hi counter openAtLo openAtHi binding bodyBlock exitBlock s) false := by
  have h₁ := fun c => h.fresh.fresh.fresh.fresh.fresh.fresh.branch (.inl rfl) (.inr hx) c
  have h₂ := fun c => ((h₁ c).startBlock hb).pushAlloca (.local binding)
  exact (h₂ _).fresh.pushStore _ _

theorem Stage.nextHeader {P : Nat → Prop} {s₀ s : Builder} {bodyBlock exitBlock : Nat}
    (h : Stage (Insert bodyBlock P) s₀ s false) (hx : P exitBlock) (hb : ¬ P bodyBlock)
    (address : HirExpr) (binding : Nat) : Stage P s₀ (nextHeader address binding bodyBlock exitBlock s) false := by
  have h₁ := fun v c => (h.fresh.spill v).fresh.fresh.branch (.inr hx) (.inl rfl) c
  have h₂ := fun v c => ((h₁ v c).startBlock hb).fresh.fresh.pushAlloca (.local binding)
  exact (h₂ _ _).pushStore _ _

theorem lowerForInRange_sound {l r body : Expr} (label : String) (binding : Nat)
    (openAtLo openAtHi : Bool) (htl : tidy l = true) (htr : (if closes l then quiet r else tidy r) = true)
    (hu : usable (.checkedIndex l r) = true) (ihl : tidy l = true → Sound (closes l) (valued l) (moves l) (lowerExpr l))
    (ihr : tidy r = true → Sound (closes r) (valued r) (moves r) (lowerExpr r))
    (ihb : valued (.checkedIndex l r) = true → Sound (closes body) (valued body) (moves body) (lowerExpr body)) :
    Sound (closes (.checkedIndex l r)) false true
      (lowerForInRange label binding (lowerExpr l) (lowerExpr r) openAtLo openAtHi (lowerExpr body)) := by
  intro P s v s' hs hopen hl
  obtain ⟨⟨v₁, s₁⟩, hv, hl⟩ := bind_eq_ok hl
  obtain ⟨⟨v₂, s₂⟩, hw, hl⟩ := bind_eq_ok hl
  obtain ⟨hlow, hsome⟩ := lowerPair_sound htl htr ihl ihr hs hopen hv hw
  cases v₁ with
  | none =>
    cases hl
    exact ⟨hlow, rfl⟩
  | some lower =>
    cases v₂ with
    | none =>
      cases hl
      exact ⟨hlow, rfl⟩
    | some upper =>
      obtain ⟨s₃, hbody, hl⟩ := bind_eq_ok hl
      have hc := closes_of_value (v := lower) (by simpa using hsome) hu
      rw [hc] at hlow ⊢
      have hP : ∀ x, s₂.blocks.length ≤ x → ¬ P x := fun x => hlow.wf.not_pending
      have h₁ := ((Stage.start hs hopen).of_lowered hlow).newBlocks₄.freshSlot.freshSlot.freshSlot
      have h₂ := h₁.rangeSetup (.temp s₂.nextSlot) (.temp (s₂.nextSlot + 1))
        (.temp (s₂.nextSlot + 2)) lower upper openAtLo
      have hjump := term_emitJump_current h₂.wf s₂.blocks.length
      have h₃ := h₂.jump (known_insert h₂.wf)
      have h₄ := h₃.restart.startBlock (not_insert (by omega) (not_insert (by omega)
        (not_insert (by omega) (hP _ (Nat.le_refl _)))))
      have h₅ := h₄.rangeHeader (.inr (.inl rfl))
        (not_insert (by omega) (not_insert (by omega) (hP _ (Nat.le_succ _))))
        (.temp s₂.nextSlot) (.temp (s₂.nextSlot + 1)) (.temp (s₂.nextSlot + 2)) openAtLo openAtHi
        binding
      have h₆ := h₅.loopBody (known_insert h₅.wf) (.of_pending h₅.wf (.inr (.inl rfl)))
        ((ihb (by simpa using hsome.symm)).anyEnd _) hbody
      have h₇ := (h₆.startBlock (not_insert (by omega) (hP _ (Nat.le_add_right _ 2)))).addOne (.temp (s₂.nextSlot + 2))
      have h₈ := h₇.jumpIfOpen (h₇.known_of_jump h₇.keeps hjump)
      cases hl
      exact ⟨(h₃.trans (h₈.startBlock (hP _ (Nat.le_add_right _ 3)))).lowered, rfl⟩

theorem lowerForInNext_sound {e body : Expr} (label : String) (binding : Nat) (hu : usable e = true)
    (he : Sound (closes e) (valued e) (moves e) (lowerExpr e))
    (ihb : valued e = true → Sound (closes body) (valued body) (moves body) (lowerExpr body)) :
    Sound (closes e) false true (lowerForInNext label binding (lowerExpr e) (lowerExpr body)) := by
  intro P s v s' hs hopen hl
  obtain ⟨⟨w, s₁⟩, hw, hl⟩ := bind_eq_ok hl
  obtain ⟨hlow, hsome⟩ := he P s w s₁ hs hopen hw
  cases w with
  | none =>
    cases hl
    exact ⟨hlow.weaken (fun h => absurd h (by decide)), rfl⟩
  | some w =>
    obtain ⟨s₂, hbody, hl⟩ := bind_eq_ok hl
    have hc := closes_of_value hsome hu
    rw [hc] at hlow ⊢
    have h₁ := (((Stage.start hs hopen).of_lowered hlow).spill w).fresh
    have hP : ∀ x, (s₁.spill w).blocks.length ≤ x → ¬ P x := fun x => h₁.wf.not_pending
    have h₂ := h₁.newBlocks₃
    have hjump := term_emitJump_current h₂.wf (s₁.spill w).blocks.length
    have h₃ := h₂.jump (known_insert h₂.wf)
    have h₄ := h₃.restart.startBlock (not_insert (by simp [Builder.fresh]) (not_insert (by simp [Builder.fresh])
      (hP _ (Nat.le_refl _))))
    have h₅ := h₄.nextHeader (.inl rfl) (not_insert (by simp [Builder.fresh]) (hP _ (Nat.le_succ _)))
      (.slotAddr (s₁.spill w).nextExpr (.temp s₁.nextSlot)) binding
    have h₆ := h₅.loopBody (h₅.known_of_jump h₅.keeps hjump) (known_insert h₅.wf) ((ihb hsome.symm).anyEnd _) hbody
    cases hl
    exact ⟨(h₃.trans (h₆.startBlock (hP _ (Nat.le_add_right _ 2)))).lowered, rfl⟩

end Zith.Sema
