import Zith.Sema.TidyLowering

/-! Tidy function bodies lower to well-formed control flow: the `when` statement, whose blocks form a chain
    as long as its cases, and the recursion over the tree that puts the lowering functions together. A
    three-clause loop with a step that makes blocks is the smallest body that is not tidy. -/

namespace Zith.Sema

/-! ### When -/

/-- A condition leaves its block open. -/
def SoundCond (l : Lowering) : Prop :=
  ∀ P s v s', WF P s → s.ended = false → l s = .ok (v, s') → Lowered P s s' false true

theorem Sound.cond {e : Expr} (hc : closes e = false)
    (h : Sound (closes e) (valued e) (moves e) (lowerExpr e)) : SoundCond (lowerExpr e) := by
  intro P s v s' hs hopen hl
  have hlow := (h P s v s' hs hopen hl).1
  rw [hc] at hlow
  exact hlow.weaken fun h => absurd h (by decide)

theorem lowerWhenEqual_sound {value : Lowering} (h : SoundCond value) (subject : Slot) :
    SoundCond (lowerWhenEqual value subject) := by
  intro P s v s' hs hopen hl
  obtain ⟨⟨w, s₁⟩, hw, hl⟩ := bind_eq_ok hl
  have h₁ := h P s w s₁ hs hopen hw
  cases w with
  | none =>
    cases hl
    exact h₁.trans_quiet (quiet_fresh s₁)
  | some w =>
    cases hl
    exact h₁.trans_quiet (quiet_fresh s₁).fresh

/-- Two conditions lowered one after the other. -/
theorem SoundCond.pair {l r : Lowering} (hl : SoundCond l) (hr : SoundCond r) {P : Nat → Prop}
    {s s₁ s₂ : Builder} {v w : Option HirExpr} (hs : WF P s) (hopen : s.ended = false)
    (hv : l s = .ok (v, s₁)) (hw : r s₁ = .ok (w, s₂)) : Lowered P s s₂ false true := by
  have h₁ := hl P s v s₁ hs hopen hv
  exact h₁.trans (hr P s₁ w s₂ h₁.wf h₁.ended_eq hw)

theorem lowerWhenRange_sound {lower upper : Lowering} (hlo : SoundCond lower) (hhi : SoundCond upper)
    (openAtLo openAtHi : Bool) (subject : Slot) : SoundCond (lowerWhenRange lower upper openAtLo openAtHi subject) := by
  intro P s v s' hs hopen hl
  obtain ⟨⟨w₁, s₁⟩, hw₁, hl⟩ := bind_eq_ok hl
  obtain ⟨⟨w₂, s₂⟩, hw₂, hl⟩ := bind_eq_ok hl
  have h := hlo.pair hhi hs hopen hw₁ hw₂
  have hq : Quiet s₂ s' := by
    cases w₁ <;> cases w₂ <;> cases hl
    case some.some => exact (quiet_fresh s₂).fresh.fresh.fresh
    all_goals exact quiet_fresh _
  exact h.trans_quiet hq

theorem lowerWhenJoin_sound (op : BinaryOp) {left right : Lowering} (h₁ : SoundCond left)
    (h₂ : SoundCond right) : SoundCond (lowerWhenJoin op left right) := by
  intro P s v s' hs hopen hl
  obtain ⟨⟨w₁, s₁⟩, hw₁, hl⟩ := bind_eq_ok hl
  obtain ⟨⟨w₂, s₂⟩, hw₂, hl⟩ := bind_eq_ok hl
  have h := h₁.pair h₂ hs hopen hw₁ hw₂
  have hq : Quiet s₂ s' := by
    cases w₁ <;> cases w₂ <;> cases hl
    case some.some => exact quiet_fresh s₂
    all_goals exact Quiet.refl _
  exact h.trans_quiet hq

/-- A case of which the parts are sound. -/
structure SoundCase (c : CaseLowering) : Prop where
  cond : ∀ l ∈ c.cond, ∀ slot, SoundCond (l slot)
  body : ∃ ended hasValue, Sound ended hasValue true c.body

/-- The block the next case is tested in is pending, if there is a next case. -/
def chainPending (isLast : Bool) (next : Nat) (P : Nat → Prop) : Nat → Prop :=
  if isLast then P else Insert next P

/-- The test of a case ends the block it started in; body and next test are pending. -/
theorem Stage.caseTest {P : Nat → Prop} {s₀ s s' : Builder} {subject : Slot}
    {mergeBlock chainBlock next : Nat} {isLast : Bool} {cond : Option (Slot → Lowering)}
    (h : Stage P s₀ s false) (hm : P mergeBlock) (hcond : ∀ l ∈ cond, ∀ slot, SoundCond (l slot))
    (hl : lowerCaseTest subject mergeBlock s.blocks.length chainBlock isLast cond s.newBlock = .ok (next, s')) :
    Stage (Insert s.blocks.length (chainPending isLast next P)) s₀ s' true ∧
      ¬ chainPending isLast next P s.blocks.length ∧ (isLast = false → ¬ P next) := by
  have hP : ∀ x, s.blocks.length ≤ x → ¬ P x := fun x => h.wf.not_pending
  have h₁ := h.newBlock
  unfold chainPending
  cases cond with
  | none =>
    have h₂ := h₁.jump (known_insert h₁.wf)
    cases isLast with
    | true =>
      cases hl
      exact ⟨h₂, hP _ (Nat.le_refl _), by simp⟩
    | false =>
      have h₃ := h₂.newBlock
      cases hl
      have hlen : (s.newBlock.emitJump s.blocks.length).blocks.length = s.blocks.length + 1 := by
        simp [Builder.emitJump]
      simp only [hlen] at h₃ ⊢
      exact ⟨h₃.congr insert_comm, not_insert (by omega) (hP _ (Nat.le_refl _)), fun _ => hP _ (Nat.le_succ _)⟩
  | some cond =>
    obtain ⟨⟨c, s₁⟩, hc, hl⟩ := bind_eq_ok hl
    cases isLast with
    | true =>
      have hlow := hcond cond rfl subject _ _ c s₁ h₁.wf h₁.ended_eq hc
      have h₂ := (h₁.of_lowered hlow).branch (.inl rfl) (.inr hm) c
      cases hl
      exact ⟨h₂, hP _ (Nat.le_refl _), by simp⟩
    | false =>
      have h₂ := h.newBlocks₂
      have hlow := hcond cond rfl subject _ _ c s₁ h₂.wf h₂.ended_eq hc
      have h₃ := (h₂.of_lowered hlow).branch (.inl rfl) (.inr (.inl rfl)) c
      cases hl
      simp only [Builder.length_newBlock, Bool.false_eq_true, if_false] at h₃ ⊢
      exact ⟨h₃, not_insert (by omega) (hP _ (Nat.le_refl _)), fun _ => hP _ (Nat.le_succ _)⟩

/-- Where the chain of cases stands: `first` says that the block of the next test is current. -/
def ChainStage (P : Nat → Prop) (s₀ s : Builder) : Bool → Nat → Prop
  | true, _ => Stage P s₀ s false
  | false, chainBlock => Stage (Insert chainBlock P) s₀ s true ∧ ¬ P chainBlock

theorem Stage.whenCases {P : Nat → Prop} {s₀ : Builder} {subject : Slot} {resultSlot : Option Slot}
    {mergeBlock : Nat} (hm : P mergeBlock) : ∀ {cs : List CaseLowering} {first : Bool}
    {chainBlock : Nat} {s s' : Builder}, cs ≠ [] → (∀ c ∈ cs, SoundCase c) → ChainStage P s₀ s first chainBlock →
    lowerWhenCases subject resultSlot mergeBlock first chainBlock cs s = .ok s' → Stage P s₀ s' true
  | [], _, _, _, _, hne, _, _, _ => absurd rfl hne
  | c :: rest, first, chainBlock, s, s', _, hcs, h, hl => by
    rw [lowerWhenCases] at hl
    have h₁ : Stage P s₀ (if first then s else s.startBlock chainBlock) false := by
      cases first with
      | true => exact h
      | false => exact h.1.startBlock h.2
    generalize (if first then s else s.startBlock chainBlock) = s₁ at hl h₁
    obtain ⟨⟨next, s₂⟩, htest, hl⟩ := bind_eq_ok hl
    obtain ⟨⟨v, s₃⟩, hbody, hl⟩ := bind_eq_ok hl
    obtain ⟨h₂, hbodyBlock, hnext⟩ := h₁.caseTest hm (hcs c (.head _)).cond htest
    have h₃ := h₂.startBlock hbodyBlock
    obtain ⟨ended, hasValue, hsound⟩ := (hcs c (.head _)).body
    have h₄ := h₃.of_lowered (hsound _ _ v s₃ h₃.wf h₃.ended_eq hbody).1
    -- the value of the body is stored or evaluated where the body has ended
    have h₅ : ∃ s₄, Stage (chainPending rest.isEmpty next P) s₀ s₄ ended ∧
        lowerWhenCases subject resultSlot mergeBlock false next rest (s₄.jumpIfOpen mergeBlock) =
          .ok s' := by
      cases v with
      | none =>
        cases resultSlot <;> exact ⟨_, h₄, hl⟩
      | some value =>
        cases resultSlot with
        | none =>
          refine ⟨_, ?_, hl⟩
          cases c.bodyIsBlock with
          | true => simpa using h₄
          | false =>
            simpa using h₄.ifOpen (f := fun s => s.pushCurrent value) fun h => h.pushCurrent value
        | some slot =>
          exact ⟨_, h₄.ifOpen (f := fun s => s.pushStore slot value) fun h => h.pushStore slot value, hl⟩
    obtain ⟨s₄, h₅, hl⟩ := h₅
    unfold chainPending at h₅
    match rest, hnext, h₅, hl with
    | [], _, h₅, hl =>
      have h₆ := h₅.jumpIfOpen (.of_pending h₅.wf hm)
      cases hl
      exact h₆
    | c' :: rest, hnext, h₅, hl =>
      have h₆ := h₅.jumpIfOpen (.of_pending h₅.wf (.inr hm))
      have h₇ : ChainStage P s₀ (s₄.jumpIfOpen mergeBlock) false next := ⟨h₆, hnext rfl⟩
      exact whenCases hm (by simp) (fun c hc => hcs c (.tail _ hc)) h₇ hl

theorem lowerWhen_sound {subject : Expr} (type : SemaType) {cs : List CaseLowering}
    (hu : cs ≠ [] → usable subject = true)
    (ihs : cs ≠ [] → Sound (closes subject) (valued subject) (moves subject) (lowerExpr subject))
    (ihcs : cs ≠ [] → valued subject = true → ∀ c ∈ cs, SoundCase c) :
    Sound (!cs.isEmpty && closes subject) (!cs.isEmpty && valued subject && type.hasValue) true
      (lowerWhen type (lowerExpr subject) cs) := by
  intro P s v s' hs hopen hl
  rw [lowerWhen] at hl
  cases hne : cs.isEmpty with
  | true =>
    simp only [hne, if_true] at hl
    cases hl
    exact ⟨(Stage.start hs hopen).lowered, rfl⟩
  | false =>
    have hne' : cs ≠ [] := by simpa using hne
    simp only [hne, Bool.false_eq_true, if_false] at hl
    obtain ⟨⟨w, s₁⟩, hw, hl⟩ := bind_eq_ok hl
    obtain ⟨hlow, hsome⟩ := ihs hne' P s w s₁ hs hopen hw
    simp only [Bool.not_false, Bool.true_and, ← hsome]
    cases w with
    | none =>
      cases hl
      exact ⟨hlow.weaken fun h => absurd h (by decide), rfl⟩
    | some w =>
      rw [closes_of_value hsome (hu hne')] at hlow ⊢
      obtain ⟨s₃, hcases, hl⟩ := bind_eq_ok hl
      have h₂ := (((Stage.start hs hopen).of_lowered hlow).spill w).resultSlot type.hasValue
      generalize (if type.hasValue = true then
        (s₁.spill w).freshSlot.pushAlloca (.temp (s₁.spill w).nextSlot) else s₁.spill w) = s₂
        at h₂ hcases hl
      have h₃ : ChainStage (Insert s₂.blocks.length P) s s₂.newBlock true s₂.newBlock.current := h₂.newBlock
      have h₄ := Stage.whenCases (.inl rfl) hne' (ihcs hne' hsome.symm) h₃ hcases
      have h₅ := h₄.startBlock (h₂.wf.not_pending (Nat.le_refl _))
      cases hv : type.hasValue with
      | true =>
        simp only [hv, if_true] at hl
        cases hl
        exact ⟨h₅.fresh.lowered, rfl⟩
      | false =>
        simp only [hv] at hl
        cases hl
        exact ⟨h₅.lowered, rfl⟩

/-! ### The recursion over the tree -/

theorem lowerCases_isEmpty (cs : List WhenCase) : (lowerCases cs).isEmpty = cs.isEmpty := by
  cases cs <;> rfl

mutual

theorem lowerExpr_sound : (e : Expr) → tidy e = true → Sound (closes e) (valued e) (moves e) (lowerExpr e)
  | .operator op es, h => by
    rw [lowerExpr]
    exact lowerOperator_sound (lowerExprs_sound es) op h
  | .spilled op e, h => by
    simp only [tidy, Bool.and_eq_true] at h
    rw [lowerExpr]
    exact lowerSpilled_sound op h.2 (lowerExpr_sound e h.1)
  | .checkedIndex object index, h => by
    simp only [tidy, Bool.and_eq_true] at h
    rw [lowerExpr]
    exact lowerCheckedIndex_sound h.1.1 h.1.2 (lowerExpr_sound object) (lowerExpr_sound index) h.2
  | .optionalProp e, h => by
    simp only [tidy, Bool.and_eq_true] at h
    rw [lowerExpr]
    exact lowerOptionalProp_sound h.2 (lowerExpr_sound e h.1)
  | .must e, h => by
    simp only [tidy, Bool.and_eq_true] at h
    rw [lowerExpr]
    exact lowerMust_sound h.2 (lowerExpr_sound e h.1)
  | .block sts, h => by
    rw [tidy] at h
    rw [lowerExpr]
    exact lowerBlock_sound (lowerStmts_sound sts) h
  | .ifE type es, h => by
    rw [tidy] at h
    rw [lowerExpr]
    exact lowerIf_sound (lowerExprs_sound es) type h
  | .whenE type subject cases, h => by
    simp only [tidy, Bool.or_eq_true, Bool.and_eq_true, Bool.not_eq_true'] at h
    rw [lowerExpr, closes, valued, ← lowerCases_isEmpty]
    have hne : lowerCases cases ≠ [] → _ := fun hne =>
      h.resolve_left (by simpa [← lowerCases_isEmpty] using hne)
    exact lowerWhen_sound type (fun hc => (hne hc).1.2)
      (fun hc => lowerExpr_sound subject (hne hc).1.1)
      fun hc hv => lowerCases_sound cases ((hne hc).2.resolve_left (by simp [hv]))
  | .whileE label cond body, h => by
    simp only [tidy, Bool.and_eq_true, Bool.not_eq_true'] at h
    rw [lowerExpr]
    exact lowerWhile_sound h.1.2 (lowerExpr_sound cond h.1.1) (lowerExpr_sound body h.2) label
  | .forE label cond body none, h => by
    simp only [tidy, Bool.and_eq_true, Bool.not_eq_true'] at h
    rw [lowerExpr]
    exact lowerFor_sound h.1.2 (lowerExpr_sound cond h.1.1) (lowerExpr_sound body h.2) label nofun
  | .forE label cond body (some step), h => by
    simp only [tidy, Bool.and_eq_true, Bool.not_eq_true'] at h
    obtain ⟨⟨⟨hcond, hc⟩, hbody⟩, ⟨hstep, hmoves⟩, hu⟩ := h
    rw [lowerExpr]
    refine lowerFor_sound hc (lowerExpr_sound cond hcond) (lowerExpr_sound body hbody) label ?_
    rintro l ⟨⟩
    refine ⟨closes step, valued step, Bool.not_eq_true'  _ ▸ hu, ?_⟩
    rw [← hmoves]
    exact lowerExpr_sound step hstep
  | .forInRange label binding lower upper openAtLo openAtHi body, h => by
    simp only [tidy, Bool.and_eq_true] at h
    obtain ⟨⟨⟨hlower, hupper⟩, hu⟩, hbody⟩ := h
    rw [lowerExpr]
    exact lowerForInRange_sound label binding openAtLo openAtHi hlower hupper hu
      (lowerExpr_sound lower) (lowerExpr_sound upper)
      fun hv => lowerExpr_sound body (by simpa [hv] using hbody)
  | .forInNext label binding iterable body, h => by
    simp only [tidy, Bool.and_eq_true] at h
    rw [lowerExpr]
    exact lowerForInNext_sound label binding h.1.2 (lowerExpr_sound iterable h.1.1)
      fun hv => lowerExpr_sound body (by simpa [hv] using h.2)

theorem lowerExprs_sound : (es : List Expr) → ∀ e ∈ es, tidy e = true →
    Sound (closes e) (valued e) (moves e) (lowerExpr e)
  | [], _, hmem, _ => nomatch hmem
  | e :: es, e', hmem, h => by
    rcases List.mem_cons.mp hmem with heq | hmem
    · rw [heq] at h ⊢
      exact lowerExpr_sound e h
    · exact lowerExprs_sound es e' hmem h

theorem lowerStmt_sound : (st : Stmt) → tidyStmt st = true → SoundStmt st
  | .expression type e hasSemicolon, h => by
    simp only [tidyStmt, Bool.and_eq_true] at h
    rw [SoundStmt, lowerStmt]
    exact fun _ => lowerExpressionStatement_sound h.2 (lowerExpr_sound e h.1) type hasSemicolon
  | .discard type e, h => by
    simp only [tidyStmt, Bool.and_eq_true] at h
    rw [SoundStmt, lowerStmt]
    exact fun _ => lowerDiscard_sound h.2 (lowerExpr_sound e h.1) type
  | .declaration, _ => by
    rw [SoundStmt, lowerStmt]
    rintro last P s v s' hs hopen hl
    cases hl
    exact ⟨.of_quiet hs hopen (Quiet.refl _), rfl⟩
  | .binding id none, _ => by
    rw [SoundStmt, lowerStmt]
    exact fun _ => lowerBindingNone_sound id
  | .binding id (some e), h => by
    simp only [tidyStmt, Bool.and_eq_true] at h
    rw [SoundStmt, lowerStmt]
    exact fun _ => lowerBinding_sound h.2 (lowerExpr_sound e h.1) id
  | .defer _, h => by simp [tidyStmt] at h
  | .ret none, _ => by
    rw [SoundStmt, lowerStmt]
    exact fun last => lowerReturnNone_sound last
  | .ret (some e), h => by
    simp only [tidyStmt, Bool.and_eq_true, Bool.not_eq_true'] at h
    rw [SoundStmt, lowerStmt]
    exact fun last => lowerReturn_sound h.2 (lowerExpr_sound e h.1) last
  | .brk label, _ => by
    rw [SoundStmt, lowerStmt]
    exact fun last => lowerLoopExit_sound "break" label (fun P s l hs hmem => (hs.loops l hmem).2) last
  | .cont label, _ => by
    rw [SoundStmt, lowerStmt]
    exact fun last =>
      lowerLoopExit_sound "continue" label (fun P s l hs hmem => (hs.loops l hmem).1) last

theorem lowerStmts_sound : (sts : List Stmt) → ∀ st ∈ sts, tidyStmt st = true → SoundStmt st
  | [], _, hmem, _ => nomatch hmem
  | st :: sts, st', hmem, h => by
    rcases List.mem_cons.mp hmem with heq | hmem
    · rw [heq] at h ⊢
      exact lowerStmt_sound st h
    · exact lowerStmts_sound sts st' hmem h

theorem lowerCases_sound : (cs : List WhenCase) → tidyCases cs = true → ∀ c ∈ lowerCases cs, SoundCase c
  | [], _, _, hmem => nomatch hmem
  | .case cond body :: cs, h, c, hmem => by
    simp only [tidyCases, tidyCase, Bool.and_eq_true] at h
    rcases List.mem_cons.mp hmem with rfl | hmem
    · refine ⟨?_, closes body, valued body, ?_⟩
      · rintro l ⟨⟩ slot
        exact lowerWhenCondition_sound cond h.1.1 slot
      · intro P s v s' hs hopen hl
        obtain ⟨hlow, hsome⟩ := lowerExpr_sound body h.1.2 P s v s' hs hopen hl
        exact ⟨hlow.weaken fun h => absurd h (by decide), hsome⟩
    · exact lowerCases_sound cs h.2 c hmem
  | .default body :: cs, h, c, hmem => by
    simp only [tidyCases, tidyCase, Bool.and_eq_true] at h
    rcases List.mem_cons.mp hmem with rfl | hmem
    · refine ⟨nofun, closes body, valued body, ?_⟩
      intro P s v s' hs hopen hl
      obtain ⟨hlow, hsome⟩ := lowerExpr_sound body h.1 P s v s' hs hopen hl
      exact ⟨hlow.weaken fun h => absurd h (by decide), hsome⟩
    · exact lowerCases_sound cs h.2 c hmem

theorem lowerWhenCondition_sound : (c : WhenCond) → tidyWhenCond c = true → ∀ slot,
    SoundCond (lowerWhenCondition c slot)
  | .test e, h, slot => by
    simp only [tidyWhenCond, Bool.and_eq_true, Bool.not_eq_true'] at h
    rw [lowerWhenCondition]
    exact (lowerExpr_sound e h.1).cond h.2
  | .equal e, h, slot => by
    simp only [tidyWhenCond, Bool.and_eq_true, Bool.not_eq_true'] at h
    rw [lowerWhenCondition]
    exact lowerWhenEqual_sound ((lowerExpr_sound e h.1).cond h.2) slot
  | .range lower upper openAtLo openAtHi, h, slot => by
    simp only [tidyWhenCond, Bool.and_eq_true, Bool.not_eq_true'] at h
    obtain ⟨⟨⟨hlo, hloc⟩, hhi⟩, hhic⟩ := h
    rw [lowerWhenCondition]
    exact lowerWhenRange_sound ((lowerExpr_sound lower hlo).cond hloc)
      ((lowerExpr_sound upper hhi).cond hhic) openAtLo openAtHi slot
  | .join op left right, h, slot => by
    simp only [tidyWhenCond, Bool.and_eq_true] at h
    rw [lowerWhenCondition]
    exact lowerWhenJoin_sound op (lowerWhenCondition_sound left h.1 slot) (lowerWhenCondition_sound right h.2 slot)

end

/-! ### Function bodies -/

theorem wf_init : WF (fun _ => False) .init where
  current_lt := by decide
  writes_eq b := by
    cases b <;> rfl
  insts _ _ _ h := nomatch h
  targets b t h := by
    cases b <;> cases h
  pending _ h := h.elim
  loops _ h := nomatch h
  frames _ h := nomatch h
  sink := rfl
  entry := ⟨by decide, .inr (.inl rfl)⟩

/-- The parameters are stored in the entry block. -/
theorem lowerParameters_quiet : ∀ (parameters : List Nat) {s : Builder}, s.ended = false →
    Quiet s (parameters.foldl lowerParameter s)
  | [], s, _ => Quiet.refl s
  | id :: parameters, s, h => by
    have hq : Quiet s (lowerParameter s id) := ((Quiet.refl s).pushAlloca h (.local id)).fresh.pushStore h _ _
    exact hq.trans (lowerParameters_quiet parameters (hq.ended_eq.trans h))

/-- Under the invariant, with nothing pending and the current block ended, every block control can get to
    has its terminator. -/
theorem WF.wellFormed {s : Builder} (hs : WF (fun _ => False) s) (hended : s.ended = true) : WellFormed s where
  terminated b hb := by
    have hknown : Known (fun _ => False) s b := by
      cases hb with
      | entry => exact hs.entry
      | next _ ht hx => exact hs.targets _ _ ht b hx
    have hsome : (s.term b).isSome := by
      rcases hknown.2 with h | rfl | h
      · exact h
      · exact hended
      · exact h.elim
    exact ⟨hsome, by rw [hs.writes_eq, if_pos hsome]⟩
  no_inst_after_end b c ended h := (hs.insts b c ended h).2
  targets_exist b t ht x hx := (hs.targets b t ht x hx).1
  insts_in_current b c ended h := (hs.insts b c ended h).1

/-- `while (x) { if (x) { break; } f(); } return x;` -/
def searchLoop : Expr :=
  .block [
    .expression .void
      (.whileE "" (.operator (.name 0) [])
        (.block [
          .expression .void (.ifE .void [.operator (.name 0) [], .block [.brk ""]]) true,
          .expression .void (.operator (.call 0) []) true])) true,
    .ret (some (.operator (.name 0) []))]

/-- `for (; x; if (x) { f(); }) { }` -/
def branchingStep : Expr :=
  .block [.expression .void
    (.forE "" (.operator (.name 0) []) (.block [])
      (some (.ifE .void [.operator (.name 0) [], .block [ .expression .void (.operator (.call 0) []) true]]))) true]

def branchingStepLowered : Builder := (lowerFunctionBody [0] false branchingStep).toOption.getD .init

end Zith.Sema
