import Mathlib.Algebra.Order.Group.Multiset
import Mathlib.Tactic.Abel
import Zith.Lib.Taint
import Zith.Flow.Immutable

/-! Inference and the sweep together pass each place that assigns an immutable local once (`Records`), so an
    accepted body has at most one for each, and none for a local that is written otherwise; a run of an
    expression then writes no local twice (`Writes`) as long as no loop comes back to the place. -/

namespace Zith.Flow

open Lib (Command Exit Exec Outcome Monitor Triple Within Stays Neutral)

variable {info : LocalId → LocalInfo} {body : Expr} {scope : Scope}

/-! ### What is accepted -/

/-- Assignments to these locals pass, one after the other, if `L` have been assigned. -/
structure Allowed (scope : Scope) (L : Finset LocalId) (xs : List LocalId) : Prop where
  fresh : ∀ x ∈ xs, (scope.info x).bindingKind ≠ .var → x ∈ scope.uninitializedBindings ∧ x ∉ L
  once : ∀ x, (scope.info x).bindingKind ≠ .var → xs.count x ≤ 1

/-- The checks on the root of a target report nothing. -/
def Writable (scope : Scope) (target : Expr) : Prop :=
  ∀ x, assignmentRoot 64 target = some x →
    (match arrowObject scope target with
      | some object => object ≠ .view
      | none => (scope.info x).isView = false) ∧
    ((scope.info x).bindingKind = .var ∨ (scope.info x).parameter.any ParameterMode.writable = true ∨
      hasFieldPath target = false)

/-- From `s` to `s'` the check has passed assignments to `xs`, and the targets `ts`. -/
def Records (scope : Scope) (xs : List LocalId) (ts : List Expr) (s s' : State) : Prop :=
  s'.diagnostics = [] → s.diagnostics = [] ∧ Allowed scope s.typeInferredByAssignment xs ∧
    (∀ t ∈ ts, Writable scope t) ∧ ∀ x, x ∈ s'.typeInferredByAssignment ↔
      x ∈ s.typeInferredByAssignment ∨ x ∈ xs ∧ (scope.info x).bindingKind ≠ .var

section
variable {xs ys : List LocalId} {ts us : List Expr} {s s' s'' : State} {L : Finset LocalId}

theorem Allowed.append {L' : Finset LocalId} (h : Allowed scope L xs) (h' : Allowed scope L' ys)
    (hL : ∀ x, x ∈ L' ↔ x ∈ L ∨ x ∈ xs ∧ (scope.info x).bindingKind ≠ .var) : Allowed scope L (xs ++ ys) := by
  refine ⟨fun x hx hk => ?_, fun x hk => ?_⟩
  · rcases List.mem_append.mp hx with hx | hx
    · exact h.fresh x hx hk
    · exact ⟨(h'.fresh x hx hk).1, fun hL' => (h'.fresh x hx hk).2 ((hL x).mpr (.inl hL'))⟩
  · rw [List.count_append]
    by_cases hy : x ∈ ys
    · have hx : x ∉ xs := fun hx => (h'.fresh x hy hk).2 ((hL x).mpr (.inr ⟨hx, hk⟩))
      rw [List.count_eq_zero_of_not_mem hx, Nat.zero_add]
      exact h'.once x hk
    · rw [List.count_eq_zero_of_not_mem hy]
      exact h.once x hk

theorem Records.trans (h : Records scope xs ts s s') (h' : Records scope ys us s' s'') :
    Records scope (xs ++ ys) (ts ++ us) s s'' := by
  intro hd
  obtain ⟨hd', ha', hw', hL'⟩ := h' hd
  obtain ⟨hd, ha, hw, hL⟩ := h hd'
  refine ⟨hd, ha.append ha' hL, fun t ht => (List.mem_append.mp ht).elim (hw t) (hw' t), fun x => ?_⟩
  rw [hL', hL, List.mem_append]
  tauto

/-- A step that concerns something else. -/
theorem records_nil (hL : s'.typeInferredByAssignment = s.typeInferredByAssignment)
    (hd : s'.diagnostics = [] → s.diagnostics = []) : Records scope [] [] s s' :=
  fun h => ⟨hd h, ⟨by simp, by simp⟩, by simp, by simp [hL]⟩

theorem records_reportIf (condition : Bool) (d : Diagnostic) : Records scope [] [] s (s.reportIf condition d) := by
  cases condition
  · exact records_nil rfl id
  · exact records_nil rfl (by simp [State.reportIf, State.report])

theorem records_checkImmutable (x : LocalId) : Records scope [x] [] s (checkImmutable scope x s) := by
  intro hd
  unfold checkImmutable at hd ⊢
  split at hd
  · next hk =>
    simp only [hk, if_true]
    exact ⟨hd, ⟨fun y hy hky => absurd hk (List.mem_singleton.mp hy ▸ hky), fun y _ => by
      rw [List.count_singleton]; split <;> simp⟩, by simp, fun y =>
        ⟨.inl, fun h => h.elim id fun ⟨hy, hky⟩ => absurd hk (List.mem_singleton.mp hy ▸ hky)⟩⟩
  · next hk =>
    split at hd
    · next hfirst =>
      rw [if_neg hk, if_pos hfirst]
      refine ⟨hd, ⟨fun y hy _ => ?_, fun y _ => by rw [List.count_singleton]; split <;> simp⟩, by simp, fun y => ?_⟩
      · rw [List.mem_singleton.mp hy]
        exact ⟨hfirst.2.2, hfirst.2.1⟩
      · simp only [Finset.mem_insert, List.mem_singleton]
        constructor
        · rintro (rfl | h)
          · exact .inr ⟨rfl, hk⟩
          · exact .inl h
        · rintro (h | ⟨rfl, -⟩)
          · exact .inr h
          · exact .inl rfl
    · simp [State.report] at hd

theorem records_beginAssign (target : Expr) : Records scope (direct [target]) [] s (beginAssign scope target s) := by
  cases target with
  | name x =>
    have herase : Records scope [] [] s { s with
        movedLocals := s.movedLocals.erase x, uninitializedLocals := s.uninitializedLocals.erase x } :=
      records_nil rfl id
    exact herase.trans (records_checkImmutable x)
  | _ =>
    simp only [beginAssign, checkMovedRoot]
    split
    · exact records_nil rfl id
    · split
      · exact records_nil rfl id
      · exact records_nil rfl (by simp [State.report])

theorem report_passes {condition : Bool} {d : Diagnostic} (h : (s.reportIf condition d).diagnostics = []) :
    condition = false := by
  cases condition
  · rfl
  · simp [State.reportIf, State.report] at h

theorem records_ownership (target : Expr) : Records scope [] [] s (checkAssignableOwnership scope target s) := by
  unfold checkAssignableOwnership
  split
  · exact records_nil rfl id
  · split <;> exact records_reportIf _ _

theorem ownership_passes {target : Expr} {x : LocalId} (h : (checkAssignableOwnership scope target s).diagnostics = [])
    (hroot : assignmentRoot 64 target = some x) :
    match arrowObject scope target with
      | some object => object ≠ .view
      | none => (scope.info x).isView = false := by
  unfold checkAssignableOwnership at h
  simp only [hroot] at h
  split at h
  · next hobject => simpa [hobject] using report_passes h
  · next hobject => simpa [hobject] using report_passes h

theorem records_fieldWrite (target : Expr) : Records scope [] [] s (checkImmutableRootFieldWrite scope target s) := by
  unfold checkImmutableRootFieldWrite
  split
  · exact records_nil rfl id
  · split
    · exact records_nil rfl id
    · split
      · exact records_nil rfl id
      · exact records_reportIf _ _

theorem fieldWrite_passes {target : Expr} {x : LocalId}
    (h : (checkImmutableRootFieldWrite scope target s).diagnostics = []) (hroot : assignmentRoot 64 target = some x) :
    (scope.info x).bindingKind = .var ∨ (scope.info x).parameter.any ParameterMode.writable = true ∨
      hasFieldPath target = false := by
  unfold checkImmutableRootFieldWrite at h
  simp only [hroot] at h
  split at h
  · next hk => exact .inl hk
  · split at h
    · next hp => exact .inr (.inl hp.2)
    · exact .inr (.inr (report_passes h))

theorem records_endAssign (target : Expr) : Records scope [] [target] s (endAssign scope target s) := by
  have hstart : ∃ r : State, Records scope [] [] s r ∧ endAssign scope target s =
      checkImmutableRootFieldWrite scope target (checkAssignableOwnership scope target r) := by
    cases target with
    | name x => exact ⟨s.unprove (x, []), records_nil rfl id, rfl⟩
    | _ => exact ⟨s, records_nil rfl id, rfl⟩
  obtain ⟨r, hr, heq⟩ := hstart
  rw [heq]
  intro hd
  have hall := (hr.trans (records_ownership target)).trans (records_fieldWrite target)
  obtain ⟨hs, ha, -, hL⟩ := hall hd
  refine ⟨hs, ha, fun t ht x hroot => ?_, hL⟩
  obtain rfl := List.mem_singleton.mp ht
  exact ⟨ownership_passes (records_fieldWrite _ hd).1 hroot, fieldWrite_passes hd hroot⟩

theorem Records.congr (h : Records scope xs ts s s') (hx : xs = ys) (ht : ∀ t ∈ us, t ∈ ts) :
    Records scope ys us s s' := by
  subst hx
  intro hd
  obtain ⟨hs, ha, hw, hL⟩ := h hd
  exact ⟨hs, ha, fun t hu => hw t (ht t hu), hL⟩

end

@[simp] theorem direct_append (ts us : List Expr) : direct (ts ++ us) = direct ts ++ direct us :=
  List.filterMap_append

/-- Inference has passed the assignments with these targets. -/
abbrev Infers (scope : Scope) (ts : List Expr) (s s' : State) : Prop := Records scope (direct ts) ts s s'

section
variable {ts us : List Expr} {s s' s'' : State}

theorem Infers.trans (h : Infers scope ts s s') (h' : Infers scope us s' s'') : Infers scope (ts ++ us) s s'' := by
  unfold Infers
  rw [direct_append]
  exact Records.trans h h'

theorem Infers.assign {target : Expr} {r r' : State}
    (hbegin : Records scope (direct [target]) [] s r) (hoperands : Infers scope ts r r')
    (hend : Records scope [] [target] r' s') : Infers scope ([target] ++ ts) s s' :=
  ((Records.trans hbegin hoperands).trans hend).congr (by rw [direct_append, List.append_nil])
    (by simp +contextual [or_comm])

end

theorem infers_nil {s s' : State} (hL : s'.typeInferredByAssignment = s.typeInferredByAssignment)
    (hd : s'.diagnostics = [] → s.diagnostics = []) : Infers scope [] s s' := records_nil hL hd

variable {s : State}

theorem infers_narrowing {n : Option (PathKey × Bool)} :
    Infers scope [] s (beginThen n s) ∧ Infers scope [] s (beginElse n s) := by
  constructor
  · unfold beginThen
    split <;> exact infers_nil rfl id
  · unfold beginElse
    split <;> exact infers_nil rfl id

theorem infers_endIf (n : Option (PathKey × Bool)) (before : Finset PathKey) (body : Expr) (tail : IfTail) :
    Infers scope [] s (endIf n before body tail s) := by
  cases n with
  | none => exact infers_nil rfl id
  | some n =>
    obtain ⟨key, narrowThen⟩ := n
    have hrestore : Infers scope [] s (if key ∈ before then s.prove key else s.unprove key) := by
      split <;> exact infers_nil rfl id
    have hkeep : ∀ r : State,
        Infers scope [] r (if keepsProof narrowThen body tail then r.prove key else r) := fun r => by
      split <;> exact infers_nil rfl id
    exact hrestore.trans (hkeep _)

theorem infers_loop {n : Option PathKey} : Infers scope [] s (beginLoop n s) ∧ Infers scope [] s (endLoop n s) := by
  constructor
  · unfold beginLoop
    split <;> exact infers_nil rfl id
  · unfold endLoop
    split <;> exact infers_nil rfl id

theorem infers_use (x : LocalId) : Infers scope [] s (s.use x) := (records_reportIf _ _).trans (records_reportIf _ _)

theorem infers_checkPayload (operand : Expr) : Infers scope [] s (checkPayload operand s) := by
  unfold checkPayload
  split
  · exact records_reportIf _ _
  · exact infers_nil rfl (by simp [State.report])

theorem infers_moveReceiver (kind : Receiver) (receiver : Expr) : Infers scope [] s (moveReceiver kind receiver s) := by
  cases kind <;> cases receiver <;> exact infers_nil rfl id

theorem infers_moveOperand (operand : Expr) : Infers scope [] s (moveOperand operand s) := by
  cases operand <;> exact infers_nil rfl id

theorem Infers.then_nil {ts : List Expr} {s s' s'' : State} (h : Infers scope ts s s')
    (h' : Infers scope [] s' s'') : Infers scope ts s s'' := by
  simpa using h.trans h'

mutual

theorem infer_infers : ∀ (e : Expr) (s : State), Infers scope (targets false e) s (inferExpr scope e s)
  | .literal _, _ => infers_nil rfl id
  | .name x, _ => infers_use x
  | .operator _ operands, s => inferOperands_infers operands s
  | .isNull operand, s => infer_infers operand s
  | .not operand, s => infer_infers operand s
  | .payload operand, s => (infer_infers operand s).then_nil (infers_checkPayload operand)
  | .address operand, s => (infer_infers operand s).then_nil (infers_moveOperand operand)
  | .method kind _ receiver arguments, s =>
    ((infer_infers receiver s).trans (inferOperands_infers arguments _)).then_nil (infers_moveReceiver kind receiver)
  | .path _ object operands, s => (infer_infers object s).trans (inferOperands_infers operands _)
  | .assign target value, _ => Infers.assign (records_beginAssign target)
      ((infer_infers target _).trans (infer_infers value _)) (records_endAssign target)
  | .optionalProp operand, s => infer_infers operand s
  | .block statements, s =>
    (inferStatements_infers statements s).trans (inferDefers_infers statements _)
  | .ifE cond body tail, s =>
    ((infer_infers cond s).trans ((infers_narrowing.1.trans (infer_infers body _)).trans
      (infers_narrowing.2.trans (inferTail_infers tail _)))).then_nil (infers_endIf _ _ body tail)
  | .whenE subject cases, s => (infer_infers subject s).trans (inferCases_infers cases _)
  | .whileE _ cond body, s =>
    ((infer_infers cond s).trans (infers_loop.1.trans (infer_infers body _))).then_nil infers_loop.2
  | .forE _ cond body step, s =>
    ((infer_infers cond s).trans ((infers_loop.1.trans (infer_infers body _)).trans
      (inferStep_infers step _))).then_nil infers_loop.2
  | .forIn _ iterable body, s => (infer_infers iterable s).trans (infer_infers body _)
  | .macroCall _ expansion, s => infer_infers expansion s
termination_by structural e => e

theorem inferOperands_infers : ∀ (es : List Expr) (s : State),
    Infers scope (targetsOperands false es) s (inferOperands scope es s)
  | [], _ => infers_nil rfl id
  | e :: rest, s => (infer_infers e s).trans (inferOperands_infers rest _)
termination_by structural es => es

theorem inferTail_infers : ∀ (tail : IfTail) (s : State),
    Infers scope (targetsTail false tail) s (inferTail scope tail s)
  | .none, _ => infers_nil rfl id
  | .els e, s => infer_infers e s
  | .elsIf c b, s => (infer_infers b s).trans (infer_infers c _)
termination_by structural tail => tail

theorem inferCases_infers : ∀ (cases : List WhenCase) (s : State),
    Infers scope (targetsCases false cases) s (inferCases scope cases s)
  | [], _ => infers_nil rfl id
  | .case c b :: rest, s =>
    (infer_infers c s).trans ((infer_infers b _).trans (inferCases_infers rest _))
  | .default _ :: rest, s => inferCases_infers rest s
termination_by structural cases => cases

theorem inferStep_infers : ∀ (step : Option Expr) (s : State),
    Infers scope (targetsStep false step) s (inferStep scope step s)
  | none, _ => infers_nil rfl id
  | some step, s => infer_infers step s
termination_by structural step => step

theorem inferStatements_infers : ∀ (statements : List Stmt) (s : State),
    Infers scope (targetsStatements false statements) s (inferStatements scope statements s)
  | [], _ => infers_nil rfl id
  | .expression e _ :: rest, s => (infer_infers e s).trans (inferStatements_infers rest _)
  | .discard e :: rest, s => (infer_infers e s).trans (inferStatements_infers rest _)
  | .declaration :: rest, s => inferStatements_infers rest s
  | .binding _ none :: rest, s =>
    Infers.trans (s := s) (infers_nil rfl id) (inferStatements_infers rest _)
  | .binding _ (some e) :: rest, s =>
    (infer_infers e s).trans (Infers.trans (infers_nil rfl id) (inferStatements_infers rest _))
  | .element _ :: rest, s =>
    Infers.trans (s := s) (infers_nil rfl id) (inferStatements_infers rest _)
  | .defer _ :: rest, s => inferStatements_infers rest s
  | .ret none :: rest, s => inferStatements_infers rest s
  | .ret (some e) :: rest, s => (infer_infers e s).trans (inferStatements_infers rest _)
  | .brk _ :: rest, s => inferStatements_infers rest s
  | .cont _ :: rest, s => inferStatements_infers rest s
  | .jump arguments :: _, s => inferOperands_infers arguments s
termination_by structural statements => statements

theorem inferDefers_infers : ∀ (statements : List Stmt) (s : State),
    Infers scope (targetsDefers false statements) s (inferDefers scope statements s)
  | [], _ => infers_nil rfl id
  | .defer e :: rest, s => (infer_infers e s).trans (inferDefers_infers rest _)
  | .jump _ :: _, _ => infers_nil rfl id
  | .expression _ _ :: rest, s => inferDefers_infers rest s
  | .discard _ :: rest, s => inferDefers_infers rest s
  | .declaration :: rest, s => inferDefers_infers rest s
  | .binding _ _ :: rest, s => inferDefers_infers rest s
  | .element _ :: rest, s => inferDefers_infers rest s
  | .ret _ :: rest, s => inferDefers_infers rest s
  | .brk _ :: rest, s => inferDefers_infers rest s
  | .cont _ :: rest, s => inferDefers_infers rest s
termination_by structural statements => statements

end

theorem sweep_infers : ∀ (ts : List Expr) (s : State), Infers scope ts s (sweep scope ts s)
  | [], _ => infers_nil rfl id
  | t :: rest, _ =>
    (Infers.assign (records_beginAssign t) (infers_nil rfl id) (records_endAssign t)).trans (sweep_infers rest _)

/-- An accepted body assigns an immutable local in one place at most, and only if its binding leaves it
    unwritten. -/
theorem acceptsSwept_spec (h : acceptsSwept info body) : Allowed (scopeOf info body) ∅ (assignedLocals body) ∧
      ∀ t ∈ targets false body ++ targets true body, Writable (scopeOf info body) t := by
  have hreset : Infers (scopeOf info body) [] (inferExpr (scopeOf info body) body .init)
      { inferExpr (scopeOf info body) body .init with
        movedLocals := ∅, uninitializedLocals := ∅ } := infers_nil rfl id
  obtain ⟨-, hallowed, hwritable, -⟩ :=
    ((infer_infers body .init).then_nil hreset).trans (sweep_infers (targets true body) _) h
  exact ⟨hallowed, hwritable⟩

/-! ### What is written -/

/-- The assignments of an expression, in the bodies of default cases as well. -/
abbrev places (e : Expr) : List Expr := targets false e ++ targets true e

/-- The locals that are written where they are bound. -/
abbrev fixed (e : Expr) : List LocalId := bound .initialised e ++ bound .element e

/-- Part of an accepted body: its assignments, and the locals it binds with a value. -/
structure Admitted (info : LocalId → LocalInfo) (body : Expr) (ts : List Expr) (xs : List LocalId) :
    Prop where
  allowed : Allowed (scopeOf info body) ∅ (direct ts)
  writable : ∀ t ∈ ts, Writable (scopeOf info body) t
  fixed : ∀ x ∈ xs, x ∈ fixed body

/-- Nothing that has been written is among these targets. -/
def Unwritten (info : LocalId → LocalInfo) (body : Expr) (ts : List Expr) (W : Finset LocalId) : Prop :=
  ∀ x ∈ W, (info x).immutable → x ∈ direct ts → x ∈ fixed body

/-- From where nothing of it has been written, a run of the command writes only what it assigns or
    binds. -/
def Writes (info : LocalId → LocalInfo) (body : Expr) (ts : List Expr) (xs : List LocalId)
    (c : Command Action) : Prop :=
  Admitted info body ts xs → Stays (stores info body) (Unwritten info body ts) (direct ts ++ fixed body) c

theorem kind_of_immutable {l : LocalInfo} (h : l.immutable = true) : l.bindingKind ≠ .var := by
  simp only [LocalInfo.immutable, Bool.and_eq_true, decide_eq_true_eq] at h
  exact h.1.1

section
variable {ts us : List Expr} {xs ys : List LocalId} {c d : Command Action}

theorem Allowed.left {ls ms : List LocalId} (h : Allowed scope ∅ (ls ++ ms)) : Allowed scope ∅ ls :=
  ⟨fun x hx => h.fresh x (List.mem_append_left _ hx), fun x hk =>
    le_trans (by rw [List.count_append]; omega) (h.once x hk)⟩

theorem Allowed.right {ls ms : List LocalId} (h : Allowed scope ∅ (ls ++ ms)) : Allowed scope ∅ ms :=
  ⟨fun x hx => h.fresh x (List.mem_append_right _ hx), fun x hk =>
    le_trans (by rw [List.count_append]; omega) (h.once x hk)⟩

theorem Admitted.left (h : Admitted info body (ts ++ us) (xs ++ ys)) : Admitted info body ts xs :=
  ⟨(direct_append ts us ▸ h.allowed).left, fun t ht => h.writable t (List.mem_append_left _ ht),
    fun x hx => h.fixed x (List.mem_append_left _ hx)⟩

theorem Admitted.right (h : Admitted info body (ts ++ us) (xs ++ ys)) : Admitted info body us ys :=
  ⟨(direct_append ts us ▸ h.allowed).right, fun t ht => h.writable t (List.mem_append_right _ ht),
    fun x hx => h.fixed x (List.mem_append_right _ hx)⟩

/-- An immutable local is assigned in one of two parts only. -/
theorem Admitted.disjoint (h : Admitted info body (ts ++ us) xs) {x : LocalId}
    (hx : (info x).immutable) (ht : x ∈ direct ts) : x ∉ direct us := by
  intro hu
  have hone := h.allowed.once x (kind_of_immutable hx)
  rw [direct_append, List.count_append] at hone
  have h₁ := List.count_pos_iff.mpr ht
  have h₂ := List.count_pos_iff.mpr hu
  omega

theorem Unwritten.left {W : Finset LocalId} (h : Unwritten info body (ts ++ us) W) :
    Unwritten info body ts W := fun x hx hi ht => h x hx hi (by simp [ht])

/-- After a run of the first part. -/
theorem Unwritten.after {W W' : Finset LocalId} (ha : Admitted info body (ts ++ us) xs)
    (h : Unwritten info body (ts ++ us) W) (hin : Within W (direct ts ++ fixed body) W') :
    Unwritten info body us W' := by
  intro x hx hi hu
  rcases hin x hx with hW | hws
  · exact h x hW hi (by simp [hu])
  · rcases List.mem_append.mp hws with ht | hf
    · exact absurd hu (ha.disjoint hi ht)
    · exact hf

theorem Writes.congr (h : Writes info body ts xs c) (hp : us.Perm ts) (hx : ∀ x ∈ xs, x ∈ ys) :
    Writes info body us ys c := by
  intro ha
  have hd : (direct us).Perm (direct ts) := hp.filterMap _
  refine (h ⟨⟨fun x hx => ha.allowed.fresh x (hd.mem_iff.mpr hx), fun x hk =>
    hd.count_eq x ▸ ha.allowed.once x hk⟩, fun t ht => ha.writable t (hp.mem_iff.mpr ht),
      fun x h => ha.fixed x (hx x h)⟩).weaken (fun W hW x hx hi ht => hW x hx hi (hd.mem_iff.mpr ht)) fun x hx => ?_
  exact List.mem_append.mpr ((List.mem_append.mp hx).imp hd.mem_iff.mpr id)

theorem Writes.seq (hc : Writes info body ts xs c) (hd : Writes info body us ys d) :
    Writes info body (ts ++ us) (xs ++ ys) (.seq c d) := fun ha =>
  (((hc ha.left).weaken (fun _ h => h.left) fun _ h => h).seq
    ((hd ha.right).weaken (fun _ ⟨_, hb, hin⟩ => hb.after ha hin) fun _ h => h)).weaken (fun _ h => h)
      fun x hx => by
        simp only [direct_append, List.mem_append] at hx ⊢
        tauto

theorem Writes.cleanup (hc : Writes info body ts xs c) (hd : Writes info body us ys d) :
    Writes info body (ts ++ us) (xs ++ ys) (.cleanup c d) := fun ha =>
  (((hc ha.left).weaken (fun _ h => h.left) fun _ h => h).cleanup
    ((hd ha.right).weaken (fun _ ⟨_, hb, hin⟩ => hb.after ha hin) fun _ h => h)).weaken (fun _ h => h)
      fun x hx => by
        simp only [direct_append, List.mem_append] at hx ⊢
        tauto

theorem Writes.append_right (h : Writes info body ts xs c) : Writes info body (ts ++ us) (xs ++ ys) c :=
  fun ha => (h ha.left).weaken (fun _ h => h.left) fun x hx => by
    simp only [direct_append, List.mem_append] at hx ⊢
    tauto

theorem Writes.append_left (h : Writes info body us ys d) : Writes info body (ts ++ us) (xs ++ ys) d :=
  fun ha => (h ha.right).weaken (fun _ h x hx hi ht => h x hx hi (by simp [ht])) fun x hx => by
    simp only [direct_append, List.mem_append] at hx ⊢
    tauto

/-- One of two parts is run. -/
theorem Writes.either (hc : Writes info body ts xs c) (hd : Writes info body us ys d) :
    Writes info body (ts ++ us) (xs ++ ys) (.either c d) := fun ha =>
  Stays.either (hc.append_right ha) (hd.append_left ha)

theorem writes_done (ts : List Expr) (xs : List LocalId) (v : Bool) : Writes info body ts xs (.done v) :=
  fun _ => .done

theorem writes_exit (ts : List Expr) (xs : List LocalId) (e : Exit) : Writes info body ts xs (.exit e) :=
  fun _ => .exit

theorem Writes.value (h : Writes info body ts xs c) (v : Bool) : Writes info body ts xs (.seq c (.done v)) := by
  have hv : Writes info body [] [] (.done v) := writes_done [] [] v
  simpa using h.seq hv

theorem writes_act {a : Action} (hn : Neutral (stores info body) a) : Writes info body ts xs (.act a) :=
  fun _ => .act hn

theorem Writes.after {a : Action} (h : Writes info body ts xs c) (hn : Neutral (stores info body) a) :
    Writes info body ts xs (.seq (.act a) c) := fun ha => (h ha).after hn fun _ hW _ => hW

theorem Writes.mark {a : Action} (h : Writes info body ts xs c) (hn : Neutral (stores info body) a) :
    Writes info body ts xs (.mark c a) := fun ha => (h ha).mark hn

theorem writes_declare (x : LocalId) : Writes info body [] [] (.act (.declare x)) := fun _ _ _ =>
  .act (fun _ _ _ => trivial) fun s hs _ y hy => by
    subst hs
    exact .inl (Finset.mem_of_mem_erase hy)

theorem writes_initialise (x : LocalId) : Writes info body [] [x] (.act (.initialise x)) := fun ha _ _ =>
  .act (fun _ _ _ => trivial) fun s hs _ y hy => by
    subst hs
    rcases Finset.mem_insert.mp hy with rfl | hy
    · exact .inr (List.mem_append_right _ (ha.fixed y (by simp)))
    · exact .inl hy

theorem writes_leave (ys : List LocalId) : Writes info body [] [] (.act (.leave ys)) := fun _ _ _ =>
  .act (fun _ _ _ => trivial) fun s hs _ y hy => by
    subst hs
    exact .inl (Finset.mem_filter.mp hy).1

end

/-! ### Stores -/

theorem assignmentRoot_eq : ∀ {n : Nat} {t : Expr}, placeSteps t < n → assignmentRoot n t = placeRoot t
  | 0, _, h => absurd h (by omega)
  | n + 1, .path _ object _, h => assignmentRoot_eq (n := n) (t := object) (by simpa [placeSteps] using h)
  | _ + 1, .name _, _ => rfl
  | _ + 1, .literal _, _ => rfl
  | _ + 1, .operator _ _, _ => rfl
  | _ + 1, .isNull _, _ => rfl
  | _ + 1, .not _, _ => rfl
  | _ + 1, .payload _, _ => rfl
  | _ + 1, .address _, _ => rfl
  | _ + 1, .method _ _ _ _, _ => rfl
  | _ + 1, .assign _ _, _ => rfl
  | _ + 1, .optionalProp _, _ => rfl
  | _ + 1, .block _, _ => rfl
  | _ + 1, .ifE _ _ _, _ => rfl
  | _ + 1, .whenE _ _, _ => rfl
  | _ + 1, .whileE _ _ _, _ => rfl
  | _ + 1, .forE _ _ _ _, _ => rfl
  | _ + 1, .forIn _ _ _, _ => rfl
  | _ + 1, .macroCall _ _, _ => rfl

/-- The local itself is a mutable pointer. -/
theorem through_of_root {x : LocalId} (hp : (scope.info x).isPointer) (hv : (scope.info x).isView = false) :
    ∀ (step : PathStep) (object : Expr) (operands : List Expr), placeRoot object = some x →
      throughMutablePointer scope (.path step object operands)
  | step, .name y, _, h => by
    obtain rfl : y = x := by simpa [placeRoot] using h
    simp [throughMutablePointer, objectKind, LocalInfo.object, hp, hv]
  | _, .path step object operands, _, h => by
    have ih := through_of_root hp hv step object operands h
    rw [throughMutablePointer, ih, Bool.or_true]

theorem through_of_arrow {k : PointerKind} (hk : k ≠ .view) : ∀ {t : Expr}, arrowObject scope t = some k →
    throughMutablePointer scope t
  | .path (.arrow name view) object _, h => by
    obtain rfl := Option.some.inj h
    have hmutable : objectKind scope (.arrow name view) object = .mutable := by
      cases object <;>
        simp_all [objectKind, LocalInfo.object, PathStep.object, PathStep.isPointer]
    simp [throughMutablePointer, hmutable]
  | .path (.field _ _) object _, h => by
    rw [throughMutablePointer, through_of_arrow hk (t := object) h, Bool.or_true]
  | .path (.index _) object _, h => by
    rw [throughMutablePointer, through_of_arrow hk (t := object) h, Bool.or_true]

theorem isPointer_of_writable {l : LocalInfo} (hi : l.immutable)
    (h : l.parameter.any ParameterMode.writable = true) : l.isPointer := by
  refine l.isPointer_of_parameter ?_
  cases hp : l.parameter with
  | none => simp [hp] at h
  | some mode => cases mode <;> simp_all [ParameterMode.writable, LocalInfo.immutable]

/-- A target of an immutable local that the checks let pass, and that they look at. -/
theorem Writable.through {target : Expr} {x : LocalId} (h : Writable scope target)
    (hsteps : placeSteps target < 64) (hview : derefsView target = false)
    (hpath : directTarget target = none) (hroot : placeRoot target = some x)
    (hi : (scope.info x).immutable) : throughMutablePointer scope target := by
  obtain ⟨howner, hfield⟩ := h x ((assignmentRoot_eq hsteps).trans hroot)
  have hpointer : hasFieldPath target = true → (scope.info x).isPointer := fun hf =>
    (hfield.resolve_left (kind_of_immutable hi)).elim (isPointer_of_writable hi) fun hn => by simp [hf] at hn
  cases target with
  | name y => simp [directTarget] at hpath
  | path step object operands =>
    cases harrow : arrowObject scope (.path step object operands) with
    | some k => exact through_of_arrow (by simpa [harrow] using howner) harrow
    | none =>
      have hv : (scope.info x).isView = false := by simpa [harrow] using howner
      cases step with
      | deref view =>
        have hmutable : objectKind scope (.deref view) object = .mutable := by
          cases object with
          | name y =>
            obtain rfl : y = x := by simpa [placeRoot] using hroot
            simp [objectKind, LocalInfo.object, hv, PathStep.isPointer]
          | _ => cases view <;> simp_all [objectKind, PathStep.object, derefsView, directTarget]
        simp [throughMutablePointer, hmutable]
      | _ => exact through_of_root (hpointer rfl) hv _ _ _ hroot
  | _ => simp [placeRoot] at hroot

theorem writes_storeThrough {target : Expr} (hpath : directTarget target = none) :
    Writes info body [target] [] (.act (.storeThrough target)) := fun ha _ _ =>
  .act (fun _ _ hassume x hroot hi =>
    (ha.writable target (by simp)).through hassume.1 hassume.2 hpath hroot hi) fun _ hs _ => hs ▸ .refl _ _

/-- The one assignment to a local, which its value does not assign. -/
theorem writes_assign {x : LocalId} {value : Expr} {us : List Expr} {ys : List LocalId}
    {c : Command Action} (hscope : Scoped info body) (hc : Writes info body us ys c) :
    Writes info body ([.name x] ++ us) ys
      (.seq (.act (.assigning x value)) (.seq c (.seq (.act (.store x)) (.done true)))) := by
  intro ha
  have hx : x ∈ direct [.name x] := by simp [direct, directTarget]
  have hstore : Stays (stores info body) (fun s => ∃ before, Unwritten info body ([.name x] ++ us) before ∧
      Within before (direct us ++ fixed body) s) [x] (.act (.store x)) := by
    rintro s ⟨before, hbefore, hin⟩
    refine .act (fun s' hs hassume hi hmem => ?_) fun s' hs _ y hy => ?_
    · subst hs
      have hfixed : x ∈ fixed body := by
        rcases hin x hmem with hb | hws
        · exact hbefore x hb hi (by simp [direct, directTarget])
        · exact (List.mem_append.mp hws).resolve_left (ha.disjoint hi hx)
      have hun := (ha.allowed.fresh x (by simp [direct, directTarget]) (kind_of_immutable hi)).1
      rcases List.mem_append.mp hfixed with hinit | helement
      · exact hscope.initialised x hinit hun
      · exact hassume hi helement
    · subst hs
      exact (Finset.mem_insert.mp hy).elim (fun h => .inr (by simp [h])) .inl
  have hvalue : Stays (stores info body) (Unwritten info body ([.name x] ++ us)) (direct us ++ fixed body) c :=
    (hc ⟨(direct_append _ us ▸ ha.allowed).right, fun t ht => ha.writable t (by simp [ht]),
      ha.fixed⟩).weaken (fun W h y hy hi ht => h y hy hi
        ((direct_append [.name x] us).symm ▸ List.mem_append_right _ ht)) fun _ h => h
  have hend : Stays (stores info body) (fun s => ∃ before, Unwritten info body ([.name x] ++ us) before ∧
      Within before (direct us ++ fixed body) s) ([x] ++ []) (.seq (.act (.store x)) (.done true)) :=
    hstore.seq .done
  refine Stays.after (fun _ => ⟨rfl, trivial⟩) (fun _ hW _ => hW) ((hvalue.seq hend).weaken (fun _ h => h) fun y hy => ?_)
  simp only [direct_append, List.mem_append, List.mem_singleton, List.not_mem_nil, or_false] at hy ⊢
  rcases hy with (hy | hy) | rfl
  · exact .inl (.inr hy)
  · exact .inr hy
  · exact .inl (.inl hx)

/-- A loop does not come back to a place that has written an immutable local. -/
theorem writes_loopCode {ts us vs : List Expr} {xs ys zs : List LocalId} {cond d step : Command Action}
    (label : String) (e : Expr) (endless : Bool) (hcond : Writes info body ts xs cond)
    (hbody : Writes info body us ys d) (hstep : Writes info body vs zs step)
    (hplaces : ((ts ++ us) ++ vs).Perm (places (repeated e))) :
    Writes info body ((ts ++ us) ++ vs) ((xs ++ ys) ++ zs) (loopCode label e endless cond d step) := by
  intro ha
  have htest : Writes info body us ys (if endless then d else .either (.exit (.brk "")) d) := by
    cases endless with
    | true => exact hbody
    | false => exact fun ha => .either .exit (hbody ha)
  have hfirst : Stays (stores info body) (Unwritten info body ((ts ++ us) ++ vs))
      (direct (ts ++ us) ++ fixed body)
      (.resume label (.seq cond (if endless then d else .either (.exit (.brk "")) d))) :=
    ((hcond.seq htest ha.left).weaken (fun _ h => h.left) fun _ h => h).resume
  have hsecond : Stays (stores info body) (fun s => ∃ before,
      Unwritten info body ((ts ++ us) ++ vs) before ∧ Within before (direct (ts ++ us) ++ fixed body) s)
      (direct vs ++ fixed body) (.resume label step) :=
    ((hstep ha.right).weaken (fun _ ⟨_, hb, hin⟩ => hb.after ha hin) fun _ h => h).resume
  have hneutral : Neutral (stores info body) (.again e) := fun _ => ⟨rfl, trivial⟩
  refine Stays.mark (fun _ => ⟨rfl, trivial⟩) ((Stays.loop hneutral hfirst hsecond
    fun before s hb hin hagain x hx hi ht => ?_).weaken (fun _ h => h) fun x hx => ?_)
  · exact absurd ((hplaces.filterMap _).mem_iff.mp ht) (hagain x hx hi)
  · simp only [direct_append, List.mem_append] at hx ⊢
    tauto

theorem swap_append {α : Type} (a b c d : List α) : ((a ++ b) ++ (c ++ d)).Perm ((a ++ c) ++ (b ++ d)) := by
  rw [List.append_assoc, List.append_assoc]
  refine .append_left a ?_
  rw [← List.append_assoc, ← List.append_assoc]
  exact .append_right d List.perm_append_comm

/-- Of the assignments of three parts. -/
theorem swap_append₃ {α : Type} (a b c d e f : List α) :
    ((a ++ (b ++ c)) ++ (d ++ (e ++ f))).Perm ((a ++ d) ++ ((b ++ e) ++ (c ++ f))) :=
  (swap_append a (b ++ c) d (e ++ f)).trans (.append_left _ (swap_append b c e f))

theorem writes_read (x : LocalId) : Writes info body [] [] (.act (.read x)) := writes_act fun _ => ⟨rfl, trivial⟩

theorem writes_move (arguments : List Expr) (kind : Receiver) (receiver : Expr) :
    Writes info body [] [] (moveCode arguments kind receiver) := by
  have hmove : ∀ x recorded, Writes info body [] [] (.act (.move x recorded arguments)) := fun _ _ =>
    writes_act fun _ => ⟨rfl, trivial⟩
  cases kind <;> cases receiver <;> first | exact hmove _ _ | exact writes_done [] [] false

/-! ### Bodies -/

theorem coe_perm {α : Type} {l l' : List α} (h : (l : Multiset α) = l') : l.Perm l' := Multiset.coe_eq_coe.mp h

theorem writes_joined (e : Expr) : Neutral (stores info body) (.joined e) := fun _ => ⟨rfl, trivial⟩

theorem writes_tested (cond : Expr) (outcome : Bool) :
    Neutral (stores info body) (.tested cond outcome) := fun _ => ⟨rfl, trivial⟩

theorem writes_enter (skipped : List Expr) (e : Expr) : Neutral (stores info body) (.enter skipped e) :=
  fun _ => ⟨rfl, trivial⟩

abbrev placesOperands (es : List Expr) : List Expr := targetsOperands false es ++ targetsOperands true es

abbrev fixedOperands (es : List Expr) : List LocalId := boundOperands .initialised es ++ boundOperands .element es

abbrev placesTail (tail : IfTail) : List Expr := targetsTail false tail ++ targetsTail true tail

abbrev fixedTail (tail : IfTail) : List LocalId := boundTail .initialised tail ++ boundTail .element tail

abbrev placesCases (cases : List WhenCase) : List Expr := targetsCases false cases ++ targetsCases true cases

abbrev fixedCases (cases : List WhenCase) : List LocalId := boundCases .initialised cases ++ boundCases .element cases

abbrev placesStep (step : Option Expr) : List Expr := targetsStep false step ++ targetsStep true step

abbrev fixedStep (step : Option Expr) : List LocalId := boundStep .initialised step ++ boundStep .element step

abbrev placesStatements (statements : List Stmt) : List Expr :=
  (targetsStatements false statements ++ targetsDefers false statements) ++
    (targetsStatements true statements ++ targetsDefers true statements)

abbrev fixedStatements (statements : List Stmt) : List LocalId :=
  boundStatements .initialised statements ++ boundStatements .element statements

/-- The assignments of a statement that is run before `rest`. -/
theorem statements_perm {a b : List Expr} {rest : List Stmt} :
    (((a ++ targetsStatements false rest) ++ targetsDefers false rest) ++
      ((b ++ targetsStatements true rest) ++ targetsDefers true rest)).Perm
        ((a ++ b) ++ placesStatements rest) := coe_perm (by
  simp only [placesStatements, ← Multiset.coe_add]
  abel)

mutual

theorem expr_writes (hscope : Scoped info body) : ∀ e : Expr, Writes info body (places e) (fixed e) e.code
  | .literal _ => writes_done [] [] true
  | .name x => (writes_read x).value true
  | .operator hv operands => (operands_writes hscope operands).value hv
  | .isNull operand => (expr_writes hscope operand).value true
  | .not operand => (expr_writes hscope operand).value true
  | .payload operand =>
    ((expr_writes hscope operand).mark (a := .unwrap operand) fun _ => ⟨rfl, trivial⟩).value true
  | .address operand => by
    have h := (expr_writes hscope operand).value true
    cases operand with
    | name x =>
      exact (writes_read x).seq ((writes_move [] .consumed (.name x)).value true)
    | _ => exact h
  | .method kind hv receiver arguments => by
    have h := (expr_writes hscope receiver).seq ((operands_writes hscope arguments).seq
      ((writes_move arguments kind receiver).value hv))
    simp only [List.append_nil] at h
    exact h.congr (swap_append _ _ _ _) (swap_append _ _ _ _).subset
  | .path _ object operands =>
    ((expr_writes hscope object).seq ((operands_writes hscope operands).value true)).congr
      (swap_append _ _ _ _) (swap_append _ _ _ _).subset
  | .assign target value => by
    have ht := expr_writes hscope target
    have hv := expr_writes hscope value
    cases htarget : directTarget target with
    | some x =>
      cases target with
      | name y =>
        exact (writes_assign hscope hv).congr (.refl _) (fun _ h => h)
      | _ => simp [directTarget] at htarget
    | none =>
      have hstore : Writes info body [target] [] (.act (.storeThrough target)) := writes_storeThrough htarget
      have h := ht.seq (hv.seq (hstore.value true))
      have hcode : Expr.code (.assign target value) = .seq target.code (.seq value.code
          (.seq (.act (.storeThrough target)) (.done true))) := by
        cases target with
        | name y => simp [directTarget] at htarget
        | _ => rfl
      rw [hcode]
      refine h.congr (coe_perm ?_) (by simp [fixed, bound]; tauto)
      simp only [places, targets, Bool.false_eq_true, if_false, if_true, ← Multiset.coe_add, Multiset.coe_nil]
      abel
  | .optionalProp operand => by
    have hend : Writes info body [] [] (.either (.done true) (.exit .ret)) :=
      (writes_done [] [] true).either (writes_exit [] [] .ret)
    have h := (expr_writes hscope operand).seq hend
    rwa [List.append_nil, List.append_nil] at h
  | .block statements => by
    have h : Writes info body (placesStatements statements) (fixedStatements statements)
        (.cleanup (statementsCode statements statements) (.act (.leave (declared statements)))) := by
      simpa using (statements_writes hscope statements statements).cleanup (writes_leave (declared statements))
    simp only [Expr.code]
    split
    · exact h.mark (writes_joined _)
    · exact h
  | .ifE cond body tail =>
    (((expr_writes hscope cond).seq (((expr_writes hscope body).after (writes_tested cond true)).either
      ((tail_writes hscope body tail).after (writes_tested cond false)))).mark
        (writes_joined (.ifE cond body tail))).congr (swap_append₃ _ _ _ _ _ _) (by simp [bound]; tauto)
  | .whenE subject cases =>
    (((expr_writes hscope subject).seq (cases_writes hscope [] cases)).mark
      (writes_joined (.whenE subject cases))).congr (swap_append _ _ _ _) (swap_append _ _ _ _).subset
  | .whileE label cond body => by
    have hplaces : ((places cond ++ places body) ++ []).Perm (places (.whileE label cond body)) := by
      rw [List.append_nil]
      exact swap_append _ _ _ _
    refine (writes_loopCode label (.whileE label cond body) (conditionIsAlwaysLiteralTrue cond)
      (expr_writes hscope cond) (expr_writes hscope body) (writes_done [] [] false) hplaces).congr hplaces.symm ?_
    simp [fixed, bound]
    tauto
  | .forE label cond body step => by
    have hplaces : ((places cond ++ places body) ++ placesStep step).Perm
        (places (.forE label cond body step)) := coe_perm (by
      simp only [places, placesStep, targets, ← Multiset.coe_add]
      abel)
    refine (writes_loopCode label (.forE label cond body step) (conditionIsAlwaysLiteralTrue cond)
      (expr_writes hscope cond) (expr_writes hscope body) (step_writes hscope cond body step)
        hplaces).congr hplaces.symm ?_
    simp [fixed, bound]
    tauto
  | .forIn label iterable body => by
    have hloop := writes_loopCode label
      (.forIn label iterable body) false (writes_done [] [] false) (expr_writes hscope body) (writes_done [] [] false)
      (by simp [repeated])
    simp only [List.nil_append, List.append_nil] at hloop
    exact ((expr_writes hscope iterable).seq hloop).congr (swap_append _ _ _ _) (swap_append _ _ _ _).subset
  | .macroCall _ expansion => expr_writes hscope expansion
termination_by structural e => e

theorem operands_writes (hscope : Scoped info body) : ∀ es : List Expr,
    Writes info body (placesOperands es) (fixedOperands es) (operandsCode es)
  | [] => writes_done [] [] false
  | e :: rest => ((expr_writes hscope e).seq (operands_writes hscope rest)).congr (swap_append _ _ _ _)
      (swap_append _ _ _ _).subset
termination_by structural es => es

theorem tail_writes (hscope : Scoped info body) (first : Expr) : ∀ tail : IfTail,
    Writes info body (placesTail tail) (fixedTail tail) (tailCode first tail)
  | .none => writes_done [] [] false
  | .els e => (expr_writes hscope e).after fun _ => ⟨rfl, trivial⟩
  | .elsIf c b =>
    have hsecond := ((expr_writes hscope b).after (a := .els first [c] b) fun _ => ⟨rfl, trivial⟩).after
      (writes_tested c true)
    have hnone : Writes info body [] [] (.seq (.act (.tested c false)) (.act (.unmatched first b))) :=
      .after (writes_act fun _ => ⟨rfl, trivial⟩) (writes_tested c false)
    (((expr_writes hscope c).seq (hsecond.either hnone)).after (writes_enter [first, b] c)).congr
      (coe_perm (by
        simp only [placesTail, places, targetsTail, ← Multiset.coe_add, Multiset.coe_nil]
        abel))
      (by simp [fixed, fixedTail, boundTail]; tauto)
termination_by structural tail => tail

theorem cases_writes (hscope : Scoped info body) (skipped : List Expr) : ∀ cases : List WhenCase,
    Writes info body (placesCases cases) (fixedCases cases) (casesCode skipped cases)
  | [] => writes_done [] [] false
  | .case c b :: rest =>
    (((expr_writes hscope c).seq (((expr_writes hscope b).after (writes_enter skipped b)).either
      (cases_writes hscope (skipped ++ [b]) rest))).after (writes_enter skipped c)).congr
        (swap_append₃ _ _ _ _ _ _) (by simp [fixed, fixedCases, boundCases]; tauto)
  | .default b :: rest =>
    have h : Writes info body (places b ++ placesCases rest) (fixed b ++ []) b.code :=
      (expr_writes hscope b).append_right
    (h.after (a := .default skipped b) fun _ => ⟨rfl, trivial⟩).congr
        (coe_perm (by
          simp only [placesCases, places, targetsCases, ← Multiset.coe_add]
          abel))
        (by simp [fixed, fixedCases, boundCases]; tauto)
termination_by structural cases => cases

theorem step_writes (hscope : Scoped info body) (cond first : Expr) : ∀ step : Option Expr,
    Writes info body (placesStep step) (fixedStep step) (stepCode cond first step)
  | none => writes_done [] [] false
  | some step => (expr_writes hscope step).after (writes_enter [cond, first] step)
termination_by structural step => step

theorem statements_writes (hscope : Scoped info body) (all : List Stmt) : ∀ statements : List Stmt,
    Writes info body (placesStatements statements) (fixedStatements statements) (statementsCode all statements)
  | [] => writes_done [] [] false
  | [.expression e false] => by
    simpa [placesStatements, fixedStatements, targetsStatements, targetsDefers, boundStatements,
      statementsCode] using expr_writes hscope e
  | [.expression e true] => by
    simpa [placesStatements, fixedStatements, targetsStatements, targetsDefers, boundStatements,
      statementsCode] using (expr_writes hscope e).value false
  | .expression e _ :: s :: rest => by
    simp only [statementsCode]
    exact ((expr_writes hscope e).seq (statements_writes hscope all (s :: rest))).congr
      statements_perm (swap_append _ _ _ _).subset
  | .discard e :: rest => ((expr_writes hscope e).seq (statements_writes hscope all rest)).congr
      statements_perm (swap_append _ _ _ _).subset
  | .declaration :: rest => statements_writes hscope all rest
  | .binding x none :: rest =>
    ((writes_declare x).seq (statements_writes hscope all rest)).congr (.refl _) (by simp [boundStatements])
  | .binding x (some e) :: rest =>
    ((expr_writes hscope e).seq ((writes_initialise x).seq (statements_writes hscope all rest))).congr
      statements_perm (by simp [fixed, fixedStatements, boundStatements]; tauto)
  | .element x :: rest =>
    ((writes_initialise x).seq (statements_writes hscope all rest)).congr (.refl _)
      (by simp [fixedStatements, boundStatements]; tauto)
  | .defer e :: rest =>
    ((statements_writes hscope all rest).cleanup ((expr_writes hscope e).after
      (a := .deferred all e) fun _ => ⟨rfl, trivial⟩)).congr
        (coe_perm (by
          simp only [placesStatements, places, targetsStatements, targetsDefers, ← Multiset.coe_add]
          abel))
        (by simp [fixed, fixedStatements, boundStatements]; tauto)
  | .ret none :: _ => writes_exit _ _ _
  | .ret (some e) :: rest => ((expr_writes hscope e).seq (writes_exit (placesStatements rest)
      (fixedStatements rest) .ret)).congr statements_perm (swap_append _ _ _ _).subset
  | .brk _ :: _ => writes_exit _ _ _
  | .cont _ :: _ => writes_exit _ _ _
  | .jump arguments :: rest =>
    ((operands_writes hscope arguments).seq (writes_exit [] (fixedStatements rest)
      .ret)).congr (by simp [placesStatements, targetsStatements, targetsDefers]) (swap_append _ _ _ _).subset
termination_by structural statements => statements

end

/-! ### Accepted bodies -/

instance storesAssume (info : LocalId → LocalInfo) (body : Expr) (W : Finset LocalId) :
    ∀ a : Action, Decidable ((stores info body).assume W a)
  | .store x => inferInstanceAs (Decidable ((info x).immutable → x ∉ bound .element body))
  | .again e => inferInstanceAs (Decidable (∀ x ∈ W, (info x).immutable →
      x ∉ assignedLocals (repeated e)))
  | .storeThrough target =>
    inferInstanceAs (Decidable (placeSteps target < 64 ∧ derefsView target = false))
  | .declare _ | .initialise _ | .leave _ | .read _ | .move _ _ _ | .tested _ _ | .unwrap _
  | .assigning _ _ | .enter _ _ | .els _ _ _ | .unmatched _ _ | .default _ _ | .deferred _ _
  | .joined _ => inferInstanceAs (Decidable True)

end Zith.Flow
