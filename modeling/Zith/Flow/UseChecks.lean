import Zith.Flow.FaultSafety

/-! Inference reports nothing only if the pass finds nothing: reads before the first write, and uses after
    a move. -/

namespace Zith.Flow

open Lib (Exec Outcome Effect Passes Watches after)

def Fault.set : Fault → State → Finset LocalId
  | .uninitialised, s => s.uninitializedLocals
  | .moved, s => s.movedLocals

/-- From `s` to `s'` inference has done this to the set, and if it has reported nothing then the pass finds
    nothing. -/
structure Follows (f : Fault) (es : List (Effect LocalId)) (s s' : State) : Prop where
  set : f.set s' = after (f.set s) es
  passes : s'.diagnostics = [] → s.diagnostics = [] ∧ Passes (f.set s) es

variable {f : Fault} {scope : Scope}

section
variable {es es' : List (Effect LocalId)} {s s' s'' : State}

theorem Follows.trans (h : Follows f es s s') (h' : Follows f es' s' s'') : Follows f (es ++ es') s s'' := by
  refine ⟨by rw [h'.set, h.set, Lib.after_append], fun hd => ?_⟩
  obtain ⟨hd', hp'⟩ := h'.passes hd
  obtain ⟨hd, hp⟩ := h.passes hd'
  exact ⟨hd, (Lib.passes_append _ _ _).mpr ⟨hp, h.set ▸ hp'⟩⟩

/-- A step that concerns something else. -/
theorem follows_nil (hm : s'.movedLocals = s.movedLocals) (hu : s'.uninitializedLocals = s.uninitializedLocals)
    (hd : s'.diagnostics = [] → s.diagnostics = []) : Follows f [] s s' :=
  ⟨by cases f <;> assumption, fun h => ⟨hd h, trivial⟩⟩

theorem Follows.then_nil (h : Follows f es s s') (h' : Follows f [] s' s'') : Follows f es s s'' := by
  simpa using h.trans h'

theorem follows_reportIf (condition : Bool) (d : Diagnostic) : Follows f [] s (s.reportIf condition d) := by
  cases condition
  · exact follows_nil rfl rfl id
  · exact follows_nil rfl rfl (by simp [State.reportIf, State.report])

theorem follows_use (x : LocalId) : Follows f [.use x] s (s.use x) := by
  refine ⟨?_, fun h => ?_⟩
  · unfold State.use State.reportIf
    cases f <;> split <;> split <;> rfl
  · unfold State.use State.reportIf at h
    split at h <;> split at h <;> simp_all [State.report]
    cases f <;> simp_all [Fault.set, Passes]

theorem follows_moveOperand (operand : Expr) : Follows f (f.moves operand) s (moveOperand operand s) := by
  cases operand <;> cases f <;>
    exact ⟨rfl, fun h => ⟨h, by simp [Fault.moves, Passes]⟩⟩

theorem follows_moveReceiver (kind : Receiver) (receiver : Expr) :
    Follows f (f.receives kind receiver) s (moveReceiver kind receiver s) := by
  cases kind with
  | consumed => exact follows_moveOperand receiver
  | _ => cases f <;> exact follows_nil rfl rfl id

theorem follows_declare (x : LocalId) : Follows f (f.declares x) s
    { s with uninitializedLocals := insert x s.uninitializedLocals } := by
  cases f <;> exact ⟨rfl, fun h => ⟨h, by simp [Fault.declares, Passes]⟩⟩

theorem follows_initialise (x : LocalId) : Follows f (f.initialises x) s
    { s with uninitializedLocals := s.uninitializedLocals.erase x } := by
  cases f <;> exact ⟨rfl, fun h => ⟨h, by simp [Fault.initialises, Passes]⟩⟩

theorem follows_checkImmutable (x : LocalId) : Follows f [] s (checkImmutable scope x s) := by
  unfold checkImmutable
  split
  · exact follows_nil rfl rfl id
  · split
    · exact follows_nil rfl rfl id
    · exact follows_nil rfl rfl (by simp [State.report])

theorem follows_beginAssign (target : Expr) : Follows f (assigned target) s (beginAssign scope target s) := by
  have hother : Follows f [] s (checkMovedRoot scope target s) ∨ ∃ x, target = .name x := by
    unfold checkMovedRoot
    split
    · exact .inr ⟨_, rfl⟩
    refine .inl ?_
    split
    · exact follows_nil rfl rfl id
    · split
      · exact follows_nil rfl rfl id
      · exact follows_nil rfl rfl (by simp [State.report])
  cases target with
  | name x =>
    have hclear : Follows f [.clear x] s { s with
        movedLocals := s.movedLocals.erase x, uninitializedLocals := s.uninitializedLocals.erase x } := by
      cases f <;> exact ⟨rfl, fun h => ⟨h, by simp [Passes]⟩⟩
    exact hclear.then_nil (follows_checkImmutable x)
  | _ => exact hother.resolve_right (by simp)

theorem follows_endAssign (target : Expr) : Follows f [] s (endAssign scope target s) := by
  have hwrite : ∀ s : State, Follows f [] s (checkImmutableRootFieldWrite scope target s) := by
    intro s
    unfold checkImmutableRootFieldWrite
    split
    · exact follows_nil rfl rfl id
    · split
      · exact follows_nil rfl rfl id
      · split
        · exact follows_nil rfl rfl id
        · exact follows_reportIf _ _
  have hview : ∀ s : State, Follows f [] s (checkAssignableOwnership scope target s) := by
    intro s
    unfold checkAssignableOwnership
    split
    · exact follows_nil rfl rfl id
    · split <;> exact follows_reportIf _ _
  unfold endAssign
  refine Follows.then_nil ?_ ((hview _).then_nil (hwrite _))
  split <;> exact follows_nil rfl rfl id

theorem follows_beginThen (n : Option (PathKey × Bool)) : Follows f [] s (beginThen n s) := by
  unfold beginThen
  split <;> exact follows_nil rfl rfl id

theorem follows_beginElse (n : Option (PathKey × Bool)) : Follows f [] s (beginElse n s) := by
  unfold beginElse
  split <;> exact follows_nil rfl rfl id

theorem follows_endIf (n : Option (PathKey × Bool)) (before : Finset PathKey) (body : Expr)
    (tail : IfTail) : Follows f [] s (endIf n before body tail s) := by
  cases n with
  | none => exact follows_nil rfl rfl id
  | some n =>
    obtain ⟨key, narrowThen⟩ := n
    have hrestore : Follows f [] s (if key ∈ before then s.prove key else s.unprove key) := by
      split <;> exact follows_nil rfl rfl id
    have hkeep : ∀ r : State,
        Follows f [] r (if keepsProof narrowThen body tail then r.prove key else r) := fun r => by
      split <;> exact follows_nil rfl rfl id
    exact hrestore.then_nil (hkeep _)

theorem follows_beginLoop (n : Option PathKey) : Follows f [] s (beginLoop n s) := by
  unfold beginLoop
  split <;> exact follows_nil rfl rfl id

theorem follows_endLoop (n : Option PathKey) : Follows f [] s (endLoop n s) := by
  unfold endLoop
  split <;> exact follows_nil rfl rfl id

theorem follows_checkPayload (operand : Expr) : Follows f [] s (checkPayload operand s) := by
  unfold checkPayload
  split
  · exact follows_reportIf _ _
  · exact follows_nil rfl rfl (by simp [State.report])

end

mutual

theorem infer_follows : ∀ (e : Expr) (s : State), Follows f (visits f e) s (inferExpr scope e s)
  | .literal _, _ => follows_nil rfl rfl id
  | .name x, _ => follows_use x
  | .operator _ operands, s => inferOperands_follows operands s
  | .isNull operand, s => infer_follows operand s
  | .not operand, s => infer_follows operand s
  | .payload operand, s => (infer_follows operand s).then_nil (follows_checkPayload operand)
  | .address operand, s => (infer_follows operand s).trans (follows_moveOperand operand)
  | .method kind _ receiver arguments, s =>
    (infer_follows receiver s).trans ((inferOperands_follows arguments _).trans (follows_moveReceiver kind receiver))
  | .path _ object operands, s => (infer_follows object s).trans (inferOperands_follows operands _)
  | .assign target value, _ =>
    ((follows_beginAssign target).trans ((infer_follows target _).trans
      (infer_follows value _))).then_nil (follows_endAssign target)
  | .optionalProp operand, s => infer_follows operand s
  | .block statements, s =>
    (inferStatements_follows statements s).trans (inferDefers_follows statements _)
  | .ifE cond body tail, s =>
    ((infer_follows cond s).trans
      (((follows_beginThen _).trans (infer_follows body _)).trans
        ((follows_beginElse _).trans (inferTail_follows tail _)))).then_nil (follows_endIf _ _ body tail)
  | .whenE subject cases, s => (infer_follows subject s).trans (inferCases_follows cases _)
  | .whileE _ cond body, s =>
    ((infer_follows cond s).trans ((follows_beginLoop _).trans (infer_follows body _))).then_nil (follows_endLoop _)
  | .forE _ cond body step, s =>
    ((infer_follows cond s).trans (((follows_beginLoop _).trans (infer_follows body _)).trans
      (inferStep_follows step _))).then_nil (follows_endLoop _)
  | .forIn _ iterable body, s => (infer_follows iterable s).trans (infer_follows body _)
  | .macroCall _ expansion, s => infer_follows expansion s
termination_by structural e => e

theorem inferOperands_follows : ∀ (es : List Expr) (s : State),
    Follows f (visitsOperands f es) s (inferOperands scope es s)
  | [], _ => follows_nil rfl rfl id
  | e :: rest, s => (infer_follows e s).trans (inferOperands_follows rest _)
termination_by structural es => es

theorem inferTail_follows : ∀ (tail : IfTail) (s : State), Follows f (visitsTail f tail) s (inferTail scope tail s)
  | .none, _ => follows_nil rfl rfl id
  | .els e, s => infer_follows e s
  | .elsIf c b, s => (infer_follows b s).trans (infer_follows c _)
termination_by structural tail => tail

theorem inferCases_follows : ∀ (cases : List WhenCase) (s : State),
    Follows f (visitsCases f cases) s (inferCases scope cases s)
  | [], _ => follows_nil rfl rfl id
  | .case c b :: rest, s =>
    (infer_follows c s).trans ((infer_follows b _).trans (inferCases_follows rest _))
  | .default _ :: rest, s => inferCases_follows rest s
termination_by structural cases => cases

theorem inferStep_follows : ∀ (step : Option Expr) (s : State), Follows f (visitsStep f step) s (inferStep scope step s)
  | none, _ => follows_nil rfl rfl id
  | some step, s => infer_follows step s
termination_by structural step => step

theorem inferStatements_follows : ∀ (statements : List Stmt) (s : State),
    Follows f (visitsStatements f statements) s (inferStatements scope statements s)
  | [], _ => follows_nil rfl rfl id
  | .expression e _ :: rest, s => (infer_follows e s).trans (inferStatements_follows rest _)
  | .discard e :: rest, s => (infer_follows e s).trans (inferStatements_follows rest _)
  | .declaration :: rest, s => inferStatements_follows rest s
  | .binding x none :: rest, _ => (follows_declare x).trans (inferStatements_follows rest _)
  | .binding x (some e) :: rest, s =>
    (infer_follows e s).trans ((follows_initialise x).trans (inferStatements_follows rest _))
  | .element x :: rest, _ => (follows_initialise x).trans (inferStatements_follows rest _)
  | .defer _ :: rest, s => inferStatements_follows rest s
  | .ret none :: rest, s => inferStatements_follows rest s
  | .ret (some e) :: rest, s => (infer_follows e s).trans (inferStatements_follows rest _)
  | .brk _ :: rest, s => inferStatements_follows rest s
  | .cont _ :: rest, s => inferStatements_follows rest s
  | .jump arguments :: _, s => inferOperands_follows arguments s
termination_by structural statements => statements

theorem inferDefers_follows : ∀ (statements : List Stmt) (s : State),
    Follows f (visitsDefers f statements) s (inferDefers scope statements s)
  | [], _ => follows_nil rfl rfl id
  | .defer e :: rest, s => (infer_follows e s).trans (inferDefers_follows rest _)
  | .jump _ :: _, _ => follows_nil rfl rfl id
  | .expression _ _ :: rest, s => inferDefers_follows rest s
  | .discard _ :: rest, s => inferDefers_follows rest s
  | .declaration :: rest, s => inferDefers_follows rest s
  | .binding _ _ :: rest, s => inferDefers_follows rest s
  | .element _ :: rest, s => inferDefers_follows rest s
  | .ret _ :: rest, s => inferDefers_follows rest s
  | .brk _ :: rest, s => inferDefers_follows rest s
  | .cont _ :: rest, s => inferDefers_follows rest s
termination_by structural statements => statements

end

/-! ### Accepted bodies -/

/-- Inference of the body reports nothing. -/
def accepts (scope : Scope) (body : Expr) : Prop := (inferExpr scope body State.init).diagnostics = []

instance (scope : Scope) (body : Expr) : Decidable (accepts scope body) := inferInstanceAs (Decidable (_ = []))

theorem accepts_passes {body : Expr} (h : accepts scope body) : Passes ∅ (visits f body) := by
  have hp := ((infer_follows (f := f) body State.init).passes h).2
  cases f <;> exact hp

/-- A run of an accepted body of which every step is foreseen uses no local that it has not written, or that
    it has moved. -/
theorem accepted_asserts {body : Expr} {t : List Action} {o : Outcome} (h : accepts scope body)
    (hrun : Exec body.code t o) (hassume : (faults f).Assumes ∅ t) : (faults f).Asserts ∅ t :=
  (expr_tracked f body ∅ (accepts_passes h) ∅ trivial (fun _ hx => by simp at hx) ∅ t o rfl hrun hassume).1

end Zith.Flow
