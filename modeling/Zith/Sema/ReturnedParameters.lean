import Zith.Sema.ReturnOrigins

/-! What the facts about returned parameters say of the executions of a function. A `return` is a statement, so that no
    other expression than the last one of a body is seen to return; a fact is true of the executions that return the
    parameter wherever they return, and leave it as it was. -/

namespace Zith.Sema
open Zith.Frontend

/-! ### Executions -/

inductive Item
  | expr (id : ExprId)
  | stmt (id : StmtId)
  deriving DecidableEq

/-- What an execution does to the locals, and from which expression it returns; 0 where it leaves with a value that no
    `return` gives. -/
inductive ReturnStep
  | write (x : LocalId)
  | ret (value : ExprId)
  deriving DecidableEq

/-- How an execution ends, and the locals it leaves behind. -/
inductive Ending (V : Type)
  | value (v : V) (locals : LocalId → V)
  | returned (v : V) (locals : LocalId → V)
  | left (locals : LocalId → V)

namespace Ending

variable {V : Type}

def locals : Ending V → LocalId → V
  | .value _ locals => locals
  | .returned _ locals => locals
  | .left locals => locals

/-- The same end, after what is deferred. -/
def after (o : Ending V) (locals : LocalId → V) : Ending V :=
  match o with
  | .value v _ => .value v locals
  | .returned v _ => .returned v locals
  | .left _ => .left locals

def isValue : Ending V → Bool
  | .value _ _ => true
  | _ => false

def isReturned : Ending V → Bool
  | .returned _ _ => true
  | _ => false

@[simp] theorem locals_after (o : Ending V) (locals : LocalId → V) : (o.after locals).locals = locals := by
  cases o <;> rfl

end Ending

namespace SraModule

/-- The parts of an expression or a statement. -/
def parts (M : SraModule) : Item → List Item
  | .expr id =>
    match M.expr id with
    | some e =>
      e.operands.map .expr ++ e.conditions.map .expr ++ e.statements.map .stmt ++ [.expr e.expansion]
    | none => []
  | .stmt id =>
    match M.statement id with
    | some s => [.expr s.expression, .expr s.binding.initializer] ++ s.arguments.map .expr
    | none => []

/-- What is deferred in a block. -/
def deferred (M : SraModule) (block : Expression) : List Item :=
  (block.statements.filterMap M.statement).filterMap fun s =>
    if s.kind = .defer then some (.expr s.expression) else none

/-- An expression or a statement that can end the function. -/
def leaves (M : SraModule) : Item → Prop
  | .expr id => ∃ e, M.expr id = some e ∧ e.kind = .optionalProp
  | .stmt id => ∃ s, M.statement id = some s ∧ s.kind = .jump

/-- An expression whose value is not that of a local or of a block. -/
def computes (M : SraModule) : Item → Prop
  | .expr id => ∃ e, M.expr id = some e ∧ e.kind ≠ .block ∧ M.localOfName id = 0
  | .stmt id => ∃ s, M.statement id = some s ∧ s.kind ≠ .expression ∧ s.kind ≠ .return

/-- The executions of items in a row. Of what an expression computes only this is fixed: a name has the value of its
    local, and a block that of its last statement. Any other expression executes some of its parts, in any order and any
    number of times, may write to locals, and has any value. -/
inductive Runs (M : SraModule) {V : Type} : List Item → (LocalId → V) → List ReturnStep → Ending V → Prop
  | nil {σ : LocalId → V} (v : V) : Runs M [] σ [] (.value v σ)
  | next {i j : Item} {rest : List Item} {σ σ' : LocalId → V} {t t' : List ReturnStep} {v : V} {o : Ending V} :
      Runs M [i] σ t (.value v σ') → Runs M (j :: rest) σ' t' o → Runs M (i :: j :: rest) σ (t ++ t') o
  | stop {i j : Item} {rest : List Item} {σ : LocalId → V} {t : List ReturnStep} {o : Ending V} :
      Runs M [i] σ t o → o.isValue = false → Runs M (i :: j :: rest) σ t o
  | name {id : ExprId} {σ : LocalId → V} : M.localOfName id ≠ 0 →
      Runs M [.expr id] σ [] (.value (σ (M.localOfName id)) σ)
  | block {id : ExprId} {e : Expression} {σ σ' : LocalId → V} {t t' : List ReturnStep} {items : List Item} {v : V}
      {o : Ending V} : M.expr id = some e → e.kind = .block → Runs M (e.statements.map .stmt) σ t o →
      (∀ i ∈ items, i ∈ M.deferred e) → Runs M items o.locals t' (.value v σ') →
      Runs M [.expr id] σ (t ++ t') (o.after σ')
  | expression {id : StmtId} {s : Statement} {σ : LocalId → V} {t : List ReturnStep} {o : Ending V} :
      M.statement id = some s → s.kind = .expression → Runs M [.expr s.expression] σ t o → Runs M [.stmt id] σ t o
  | ret {id : StmtId} {s : Statement} {σ σ' : LocalId → V} {t : List ReturnStep} {v : V} :
      M.statement id = some s → s.kind = .return → Runs M [.expr s.expression] σ t (.value v σ') →
      Runs M [.stmt id] σ (t ++ [.ret s.expression]) (.returned v σ')
  | retNothing {id : StmtId} {s : Statement} {σ : LocalId → V} (v : V) :
      M.statement id = some s → s.kind = .return → s.expression = 0 → Runs M [.stmt id] σ [.ret 0] (.returned v σ)
  | compute {i : Item} {items : List Item} {σ σ' : LocalId → V} {t : List ReturnStep} {o : Ending V}
      (xs : List LocalId) (v : V) : M.computes i → (∀ j ∈ items, j ∈ M.parts i) → Runs M items σ t o →
      o.isReturned = false → (∀ x ∉ xs, σ' x = o.locals x) → Runs M [i] σ (t ++ xs.map .write) (.value v σ')
  | leave {i : Item} {items : List Item} {σ : LocalId → V} {t : List ReturnStep} {o : Ending V} (v : V) :
      M.leaves i → (∀ j ∈ items, j ∈ M.parts i) → Runs M items σ t o →
      Runs M [i] σ (t ++ [.ret 0]) (.returned v o.locals)
  | exit {i : Item} {items : List Item} {σ : LocalId → V} {t : List ReturnStep} {o : Ending V} :
      (∀ j ∈ items, j ∈ M.parts i) → Runs M items σ t o → o.isValue = false → Runs M [i] σ t o
  | break {id : StmtId} {s : Statement} {σ : LocalId → V} :
      M.statement id = some s → s.kind = .break ∨ s.kind = .continue → Runs M [.stmt id] σ [] (.left σ)

/-- An execution of a function that returns `v`. -/
def Returns (M : SraModule) {V : Type} (f : SraFunction) (σ : LocalId → V) (t : List ReturnStep) (v : V) : Prop :=
  ∃ σ', M.Runs [.expr f.body] σ t (.value v σ') ∨ M.Runs [.expr f.body] σ t (.returned v σ')

/-- An execution that does not write to a local, and returns that local wherever a `return` ends it. -/
def Forwards (M : SraModule) (x : LocalId) (t : List ReturnStep) : Prop :=
  .write x ∉ t ∧ ∀ value, .ret value ∈ t → M.localOfName value = x

section
variable {M : SraModule} {V : Type} {x : LocalId}

theorem Forwards.of_append {t t' : List ReturnStep} (h : M.Forwards x (t ++ t')) : M.Forwards x t ∧ M.Forwards x t' :=
  ⟨⟨fun hx => h.1 (List.mem_append_left _ hx), fun e he => h.2 e (List.mem_append_left _ he)⟩,
    fun hx => h.1 (List.mem_append_right _ hx), fun e he => h.2 e (List.mem_append_right _ he)⟩

variable {t : List ReturnStep} {σ σ' : LocalId → V} {id : ExprId}

theorem expr_name (h : M.localOfName id ≠ 0) : ∃ e, M.expr id = some e ∧ e.kind = .name := by
  obtain ⟨e, hmem, rfl, hkind⟩ := M.localOfName_name id h
  obtain ⟨i, hi⟩ := List.mem_iff_getElem?.mp hmem
  refine ⟨e, ?_, hkind⟩
  rw [expr, M.expression_id i e hi, if_neg (Nat.succ_ne_zero i)]
  exact hi

/-- The value of a name is that of its local. -/
theorem Runs.name_value {v : V} (h : M.Runs [.expr id] σ t (.value v σ')) (hlocal : M.localOfName id ≠ 0) :
    v = σ (M.localOfName id) := by
  obtain ⟨e, he, hkind⟩ := expr_name hlocal
  generalize ho : Ending.value v σ' = o at h
  cases h with
  | name _ =>
    obtain ⟨rfl, -⟩ := Ending.value.inj ho
    rfl
  | block he' hblock _ _ _ =>
    obtain rfl := Option.some.inj (he.symm.trans he')
    exact absurd (hkind.symm.trans hblock) (by decide)
  | compute _ _ hcomputes _ _ _ _ =>
    obtain ⟨-, -, -, hzero⟩ := hcomputes
    exact absurd hzero hlocal
  | leave _ _ _ _ => cases ho
  | exit _ _ hvalue => exact absurd (ho ▸ hvalue) (by simp [Ending.isValue])

/-- A block in which nothing is deferred. -/
theorem runs_block {e : Expression} {v : V} (he : M.expr id = some e) (hkind : e.kind = .block)
    (h : M.Runs (e.statements.map .stmt) σ t (.returned v σ')) : M.Runs [.expr id] σ t (.returned v σ') := by
  have hblock := Runs.block he hkind h (fun _ hi => absurd hi List.not_mem_nil) (.nil v)
  rwa [List.append_nil] at hblock

/-- A local that is not written to is left as it was. -/
theorem Runs.locals_eq {items : List Item} {σ : LocalId → V} {o : Ending V} (h : M.Runs items σ t o)
    (hwrite : .write x ∉ t) : o.locals x = σ x := by
  induction h with
  | nil v => rfl
  | next _ _ ih ih' =>
    rw [List.mem_append, not_or] at hwrite
    exact (ih' hwrite.2).trans (ih hwrite.1)
  | stop _ _ ih => exact ih hwrite
  | name _ => rfl
  | block _ _ _ _ _ ih ih' =>
    rw [List.mem_append, not_or] at hwrite
    rw [Ending.locals_after]
    exact (ih' hwrite.2).trans (ih hwrite.1)
  | expression _ _ _ ih => exact ih hwrite
  | ret _ _ _ ih =>
    rw [List.mem_append, not_or] at hwrite
    exact ih hwrite.1
  | retNothing v _ _ _ => rfl
  | compute xs v _ _ _ _ hkeep ih =>
    rw [List.mem_append, not_or] at hwrite
    have hx : x ∉ xs := fun hx => hwrite.2 (List.mem_map_of_mem hx)
    exact (hkeep x hx).trans (ih hwrite.1)
  | leave v _ _ _ ih =>
    rw [List.mem_append, not_or] at hwrite
    exact ih hwrite.1
  | exit _ _ _ ih => exact ih hwrite
  | «break» _ _ => rfl

theorem not_forwards_ret_zero (hx : x ≠ 0) : ¬M.Forwards x [.ret 0] := by
  intro h
  have hzero := h.2 0 List.mem_cons_self
  obtain ⟨e, he, -⟩ := expr_name (hzero ▸ hx : M.localOfName 0 ≠ 0)
  simp [expr] at he

/-- What a `return` returns is the parameter as it was. -/
theorem Runs.returned_eq (hx : x ≠ 0) {items : List Item} {σ : LocalId → V} {o : Ending V}
    (h : M.Runs items σ t o) (hforwards : M.Forwards x t) : ∀ v σ', o = .returned v σ' → v = σ x := by
  induction h with
  | nil v => nofun
  | next hfirst _ ih ih' =>
    obtain ⟨hf, hf'⟩ := hforwards.of_append
    intro v σ' ho
    exact (ih' hf' v σ' ho).trans (hfirst.locals_eq hf.1)
  | stop _ _ ih => exact ih hforwards
  | name _ => nofun
  | @block id e σ σ' t t' items v o _ _ _ _ _ ih ih' =>
    intro w σ'' ho
    cases o with
    | returned u locals =>
      obtain ⟨rfl, -⟩ := Ending.returned.inj ho
      exact ih hforwards.of_append.1 _ _ rfl
    | value u locals => cases ho
    | left locals => cases ho
  | expression _ _ _ ih => exact ih hforwards
  | ret _ _ hvalue ih =>
    intro w σ'' ho
    obtain ⟨rfl, -⟩ := Ending.returned.inj ho
    obtain ⟨-, hlast⟩ := hforwards.of_append
    have hlocal := hlast.2 _ List.mem_cons_self
    exact hlocal ▸ hvalue.name_value (hlocal ▸ hx)
  | retNothing v _ _ _ => exact absurd hforwards (not_forwards_ret_zero hx)
  | compute xs v _ _ _ _ _ _ => nofun
  | leave v _ _ _ _ => exact absurd hforwards.of_append.2 (not_forwards_ret_zero hx)
  | exit _ _ _ ih => exact ih hforwards
  | «break» _ _ => nofun

/-- The statement that a block ends with gives its value. -/
theorem Runs.last_value {statements : List StmtId} {v : V} {s : Statement}
    (h : M.Runs (statements.map .stmt) σ t (.value v σ'))
    (hlast : statements.getLast?.bind M.statement = some s) (hkind : s.kind = .expression)
    (hlocal : M.localOfName s.expression = x) (hx : x ≠ 0) (hwrite : .write x ∉ t) : v = σ x := by
  induction statements generalizing σ t with
  | nil => cases hlast
  | cons id rest ih =>
    cases rest with
    | nil =>
      have hs : M.statement id = some s := hlast
      generalize ho : Ending.value v σ' = o at h
      cases h with
      | expression hs' _ hexpr =>
        obtain rfl := Option.some.inj (hs.symm.trans hs')
        subst ho
        exact hlocal ▸ hexpr.name_value (hlocal ▸ hx)
      | ret hs' hret _ => cases ho
      | retNothing _ _ _ _ => cases ho
      | compute _ _ hcomputes _ _ _ _ =>
        obtain ⟨s', hs', hnot, -⟩ := hcomputes
        obtain rfl := Option.some.inj (hs.symm.trans hs')
        exact absurd hkind hnot
      | leave _ _ _ _ => cases ho
      | exit _ _ hvalue => exact absurd (ho ▸ hvalue) (by simp [Ending.isValue])
      | «break» _ _ => cases ho
    | cons id' rest =>
      generalize ho : Ending.value v σ' = o at h
      cases h with
      | next hfirst hrest =>
        subst ho
        rw [List.mem_append, not_or] at hwrite
        exact (ih hrest hlast hwrite.2).trans (hfirst.locals_eq hwrite.1)
      | stop _ hvalue => exact absurd (ho ▸ hvalue) (by simp [Ending.isValue])

/-- The value of a body. -/
theorem Runs.body_value {body : Expression} {v : V} {s : Statement}
    (h : M.Runs [.expr id] σ t (.value v σ')) (hbody : M.expr id = some body) (hblock : body.kind = .block)
    (hlast : body.statements.getLast?.bind M.statement = some s) (hkind : s.kind = .expression)
    (hlocal : M.localOfName s.expression = x) (hx : x ≠ 0) (hwrite : .write x ∉ t) : v = σ x := by
  generalize ho : Ending.value v σ' = o at h
  cases h with
  | name hname =>
    obtain ⟨e, he, hkind'⟩ := expr_name hname
    obtain rfl := Option.some.inj (hbody.symm.trans he)
    exact absurd (hblock.symm.trans hkind') (by decide)
  | @block _ e _ σ'' t t' items u o he _ hstatements _ _ =>
    obtain rfl := Option.some.inj (hbody.symm.trans he)
    rw [List.mem_append, not_or] at hwrite
    cases o with
    | value w locals =>
      obtain ⟨rfl, -⟩ := Ending.value.inj ho
      exact hstatements.last_value hlast hkind hlocal hx hwrite.1
    | returned w locals => cases ho
    | left locals => cases ho
  | compute _ _ hcomputes _ _ _ _ =>
    obtain ⟨e, he, hnot, -⟩ := hcomputes
    obtain rfl := Option.some.inj (hbody.symm.trans he)
    exact absurd hblock hnot
  | leave _ _ _ _ => cases ho
  | exit _ _ hvalue => exact absurd (ho ▸ hvalue) (by simp [Ending.isValue])

end

/-! ### The walk -/

/-- The locals that a module names, declares or takes. -/
def Touches (M : SraModule) (x : LocalId) : Prop :=
  (∃ f ∈ M.functions, x ∈ f.parameters) ∨ (∃ s ∈ M.statements, s.binding.id = x) ∨ ∃ id, M.localOfName id = x ∧ x ≠ 0

/-- The calls of a module. -/
def IsCall (M : SraModule) (id : ExprId) : Prop := ∃ e ∈ M.expressions, e.id = id ∧ e.kind = .call

/-- What a walk does to the tables, one entry at a time, keeps `P`. -/
structure Keeps (M : SraModule) (P : SraState → Prop) : Prop where
  change : ∀ s x g, M.Touches x →
    (∀ fact : SraLocalFact, (g fact).declaredType = fact.declaredType ∧ (g fact).ownership = fact.ownership) →
    P s → P (s.changeLocal x g)
  declare : ∀ s x, M.Touches x → P s → P (M.declareLocal x s)
  call : ∀ s id fact, M.IsCall id → fact.module = M.key → P s →
    P { s with callFacts := Function.update s.callFacts id (some fact) }
  condition : ∀ s id, P s → P { s with currentCondition := id }

section
variable {M : SraModule} {P : SraState → Prop}

theorem walkAll_keeps {α : Type} {walk : α → SraState → Option SraState} {items : List α} {s s' : SraState}
    (h : ∀ item ∈ items, ∀ s s', walk item s = some s' → P s → P s') (hwalk : walkAll walk items s = some s')
    (hs : P s) : P s' := by
  induction items generalizing s with
  | nil =>
    obtain rfl := Option.some.inj hwalk
    exact hs
  | cons item rest ih =>
    obtain ⟨t, hitem, hrest⟩ := Option.bind_eq_some_iff.mp hwalk
    exact ih (fun i hi => h i (List.mem_cons_of_mem _ hi)) hrest (h item List.mem_cons_self s t hitem hs)

theorem touches_operandLocal {e : Expression} (h : M.operandLocal e ≠ 0) : M.Touches (M.operandLocal e) := by
  rw [operandLocal] at h ⊢
  cases hhead : e.operands.head? with
  | none =>
    rw [hhead] at h
    exact absurd rfl h
  | some a =>
    rw [hhead] at h
    exact .inr (.inr ⟨a, rfl, h⟩)

theorem mem_of_expr {id : ExprId} {e : Expression} (h : M.expr id = some e) : e ∈ M.expressions := by
  rw [expr] at h
  split_ifs at h
  exact List.mem_of_getElem? h

theorem mem_of_statement {id : StmtId} {s : Statement} (h : M.statement id = some s) : s ∈ M.statements := by
  rw [statement] at h
  split_ifs at h
  exact List.mem_of_getElem? h

theorem markRepeated_module (s : SraState) (locals : List LocalId) (fact : SraCallFact) :
    (M.markRepeated s locals fact).module = fact.module := by
  rw [markRepeated]
  refine List.foldlRecOn _ _ (motive := fun f : SraCallFact => f.module = fact.module) rfl fun f hf a _ => ?_
  refine List.foldlRecOn _ _ (motive := fun f : SraCallFact => f.module = fact.module) hf fun f hf b _ => ?_
  split_ifs
  · exact hf
  · exact hf

theorem visit_keeps (hP : M.Keeps P) {depth : ℕ} {e : Expression} (he : e ∈ M.expressions) {s s' : SraState}
    (h : M.visit depth e s = some s') (hs : P s) : P s' := by
  rw [visit] at h
  split_ifs at h with hmoves hcall hreturn
  · obtain rfl := Option.some.inj h
    split_ifs with hroot
    · exact hP.change _ _ _ (touches_operandLocal hroot.1) (fun _ => ⟨rfl, rfl⟩) hs
    · exact hs
  · rw [analyzeCall] at h
    split_ifs at h with hsmall
    · exact Option.some.inj h ▸ hs
    · obtain ⟨ownerships, -, h⟩ := Option.bind_eq_some_iff.mp h
      obtain ⟨locals, -, h⟩ := Option.bind_eq_some_iff.mp h
      obtain rfl := Option.some.inj h
      exact hP.call _ _ _ ⟨e, he, rfl, hcall⟩ (markRepeated_module _ _ _) hs
  · exact absurd hreturn (M.no_return e he)
  · exact Option.some.inj h ▸ hs

theorem applyCurrentNarrowing_keeps (hP : M.Keeps P) {s : SraState} (hs : P s) : P (M.applyCurrentNarrowing s) := by
  rw [applyCurrentNarrowing]
  split
  · split
    · split
      · dsimp only
        split_ifs with h
        · exact hP.change _ _ _ (touches_operandLocal h.2.2.2.1) (fun _ => ⟨rfl, rfl⟩) hs
        · exact hs
      · exact hs
    · exact hs
  · exact hs

theorem walkAssign_keeps (hP : M.Keeps P) (e : Expression) {s : SraState} (hs : P s) : P (M.walkAssign e s) := by
  rw [walkAssign]
  split_ifs with h
  · exact hs
  · rw [not_or, not_or] at h
    exact hP.change _ _ _ (touches_operandLocal h.2.1) (fun _ => ⟨rfl, rfl⟩) hs

/-- The flags that say what has been returned. -/
theorem flags_keeps (flags : Bool × Bool × Option ℕ × List LocalId) :
    M.Keeps fun s => (s.anyReturn, s.allReturnsSameParameter, s.returnedParameter, s.currentParams) = flags where
  change _ _ _ _ _ hs := hs
  declare _ _ _ hs := hs
  call _ _ _ _ _ hs := hs
  condition _ _ hs := hs

theorem walkExpr_keeps (hP : M.Keeps P) : ∀ depth : ℕ, (∀ id s s', M.walkExpr depth id s = some s' → P s → P s') ∧
      ∀ id s s', M.walkStatement depth id s = some s' → P s → P s'
  | 0 => ⟨nofun, nofun⟩
  | depth + 1 => by
    obtain ⟨ihExpr, ihStatement⟩ := walkExpr_keeps hP depth
    refine ⟨fun id s s' h hs => ?_, fun id s s' h hs => ?_⟩
    · rw [walkExpr] at h
      cases he : M.expr id with
      | none =>
        rw [he] at h
        exact Option.some.inj h ▸ hs
      | some e =>
        rw [he] at h
        dsimp only at h
        by_cases hif : e.kind = .if ∧ 2 ≤ e.operands.length
        · rw [if_pos hif] at h
          obtain ⟨t, hbodies, h⟩ := Option.bind_eq_some_iff.mp h
          have ht := hP.condition t s.currentCondition (walkAll_keeps (fun id _ => ihExpr id) hbodies (hP.condition s _ hs))
          split_ifs at h with hstatements
          · exact Option.some.inj h ▸ ht
          · exact walkAll_keeps (fun id _ => ihExpr id) h ht
        · rw [if_neg hif] at h
          by_cases hnull : e.kind = .isNull ∧ e.operands ≠ []
          · rw [if_pos hnull] at h
            exact ihExpr _ _ _ h hs
          · rw [if_neg hnull] at h
            obtain ⟨t, hvisit, h⟩ := Option.bind_eq_some_iff.mp h
            obtain ⟨u, hoperands, h⟩ := Option.bind_eq_some_iff.mp h
            obtain ⟨v, hstatements, h⟩ := Option.bind_eq_some_iff.mp h
            have ht := visit_keeps hP (mem_of_expr he) hvisit hs
            have hv := walkAll_keeps (fun id _ => ihStatement id) hstatements (walkAll_keeps (fun id _ => ihExpr id) hoperands ht)
            split_ifs at h with hexpansion
            · exact ihExpr _ _ _ h hv
            · exact Option.some.inj h ▸ hv
    · rw [walkStatement] at h
      cases hst : M.statement id with
      | none =>
        rw [hst] at h
        exact Option.some.inj h ▸ hs
      | some st =>
        rw [hst] at h
        dsimp only at h
        obtain ⟨t, hexpression, h⟩ := Option.bind_eq_some_iff.mp h
        obtain ⟨u, hinitializer, h⟩ := Option.bind_eq_some_iff.mp h
        have hnarrow : P (if st.expression ≠ 0 then M.applyCurrentNarrowing s else s) := by
          split_ifs
          · exact applyCurrentNarrowing_keeps hP hs
          · exact hs
        have ht : P t := by
          generalize (if st.expression ≠ 0 then M.applyCurrentNarrowing s else s) = n at hexpression hnarrow
          have hassign : P (match M.expr st.expression with
              | some e => if e.kind = .assign then M.walkAssign e n else n
              | none => n) := by
            split
            · split_ifs
              · exact walkAssign_keeps hP _ hnarrow
              · exact hnarrow
            · exact hnarrow
          split_ifs at hexpression
          · exact ihExpr _ _ _ hexpression hassign
          · exact Option.some.inj hexpression ▸ hassign
        have hu : P u := by
          split_ifs at hinitializer
          · exact ihExpr _ _ _ hinitializer ht
          · exact Option.some.inj hinitializer ▸ ht
        obtain rfl := Option.some.inj h
        split_ifs with hskip
        · exact hu
        · exact hP.declare _ _ (.inr (.inl ⟨st, mem_of_statement hst, rfl⟩)) hu

theorem walkBody_keeps (hP : M.Keeps P) {depth : ℕ} {body : Expression} {s s' : SraState}
    (h : M.walkBody depth body s = some s') (hs : P s) : P s' := by
  obtain ⟨t, hstatements, hoperands⟩ := Option.bind_eq_some_iff.mp h
  obtain ⟨ihExpr, ihStatement⟩ := walkExpr_keeps hP depth
  exact walkAll_keeps (fun id _ => ihExpr id) hoperands (walkAll_keeps (fun id _ => ihStatement id) hstatements hs)

end

/-! ### The facts -/

/-- The last statement of a body is the name of a parameter, and this is its index. -/
def ReturnsAt (M : SraModule) (f : SraFunction) (fact : SraFunctionFact) : Prop :=
  ∀ index ∈ fact.parameterIndex, ∃ body s, M.expr f.body = some body ∧ body.kind = .block ∧
    body.statements.getLast?.bind M.statement = some s ∧ s.kind = .expression ∧ M.localOfName s.expression ≠ 0 ∧
    f.parameters[index]? = some (M.localOfName s.expression)

/-- What a fact says of a local is what the module declares, or nothing. -/
def OwnFact (M : SraModule) (x : LocalId) (fact : SraLocalFact) : Prop :=
  (fact.declaredType = 0 ∨ ∃ d, M.localType x = some d ∧ fact.declaredType = d.1) ∧
    (fact.ownership = .default ∨ ∃ d, M.localType x = some d ∧ fact.ownership = d.2)

end SraModule

/-- No two modules have a local or a call of one id. -/
def SraSnapshot.Apart (S : SraSnapshot) : Prop :=
  ∀ M ∈ S.modules, ∀ M' ∈ S.modules, (∃ x, M.Touches x ∧ M'.Touches x) ∨ (∃ id, M.IsCall id ∧ M'.IsCall id) → M = M'

/-- What the tables say. -/
structure SraSnapshot.Sound (S : SraSnapshot) (s : SraState) : Prop where
  functions : ∀ key fact, s.functionFacts key = some fact → ∃ M ∈ S.modules, ∃ f ∈ M.functions,
    key = (M.key, f.id) ∧ M.ReturnsAt f fact
  locals : S.Apart → ∀ x fact, s.localFacts x = some fact → ∃ M ∈ S.modules, M.Touches x ∧ M.OwnFact x fact
  calls : ∀ id fact, s.callFacts id = some fact → ∃ M ∈ S.modules, M.IsCall id ∧ fact.module = M.key

namespace SraModule

section
variable {S : SraSnapshot} {M : SraModule}

theorem sound_keeps (hM : M ∈ S.modules) : M.Keeps S.Sound where
  change s x g hx hg hs := by
    refine ⟨hs.functions, fun hapart y fact hfact => ?_, hs.calls⟩
    by_cases hy : y = x
    · subst hy
      obtain rfl : g ((s.localFacts y).getD {}) = fact := by simpa [SraState.changeLocal] using hfact
      refine ⟨M, hM, hx, ?_⟩
      rw [OwnFact, (hg _).1, (hg _).2]
      cases hold : s.localFacts y with
      | none => exact ⟨.inl rfl, .inl rfl⟩
      | some old =>
        obtain ⟨M', hM', hx', hown⟩ := hs.locals hapart y old hold
        obtain rfl := hapart M hM M' hM' (.inl ⟨y, hx, hx'⟩)
        exact hown
    · exact hs.locals hapart y fact (by simpa [SraState.changeLocal, hy] using hfact)
  declare s x hx hs := by
    refine ⟨hs.functions, fun hapart y fact hfact => ?_, hs.calls⟩
    by_cases hy : y = x
    · subst hy
      refine ⟨M, hM, hx, ?_⟩
      rw [declareLocal] at hfact
      simp only [Function.update_self, Option.some.injEq] at hfact
      cases htype : M.localType y with
      | none =>
        obtain rfl : ({} : SraLocalFact) = fact := by simpa [htype] using hfact
        exact ⟨.inl rfl, .inl rfl⟩
      | some d =>
        rw [htype] at hfact
        subst hfact
        refine ⟨.inr ⟨d, htype, rfl⟩, ?_⟩
        have hdeclared : ((M.localType y).map (·.2)).getD .default = d.2 := by rw [htype]; rfl
        dsimp only
        rw [ownershipOfLocal, hdeclared]
        split
        · next old hold =>
          obtain ⟨M', hM', hx', -, hownership⟩ := hs.locals hapart y old hold
          obtain rfl := hapart M hM M' hM' (.inl ⟨y, hx, hx'⟩)
          split_ifs
          · exact hownership
          · exact .inr ⟨d, htype, rfl⟩
        · exact .inr ⟨d, htype, rfl⟩
    · exact hs.locals hapart y fact (by simpa [declareLocal, hy] using hfact)
  call s id fact hid hmodule hs := by
    refine ⟨hs.functions, hs.locals, fun id' fact' hfact => ?_⟩
    by_cases hid' : id' = id
    · subst hid'
      obtain rfl : fact = fact' := by simpa using hfact
      exact ⟨M, hM, hid, hmodule⟩
    · exact hs.calls id' fact' (by simpa [hid'] using hfact)
  condition s id hs := ⟨hs.functions, hs.locals, hs.calls⟩

variable {f : SraFunction}

/-- What a body ends with is all that is recorded. -/
theorem returnsAt_of_walked {body : Expression} (hbody : M.expr f.body = some body)
    (hblock : body.kind = .block) {s : SraState}
    (hflags : (s.anyReturn, s.allReturnsSameParameter, s.returnedParameter, s.currentParams) =
      (false, true, none, f.parameters)) : M.ReturnsAt f ⟨(M.analyzeImplicitReturn body s).allReturnsSameParameter,
      (M.analyzeImplicitReturn body s).returnedParameter⟩ := by
  intro index hindex
  simp only [Prod.mk.injEq] at hflags
  obtain ⟨-, -, hnone, hparams⟩ := hflags
  have hoperands := M.block_operands body (mem_of_expr hbody) hblock
  rw [analyzeImplicitReturn, hoperands] at hindex
  cases hlast : (body.statements.getLast?.bind M.statement).filter fun last =>
      last.kind = .expression && last.expression ≠ 0 with
  | none =>
    simp only [hlast] at hindex
    simp [hblock, hnone] at hindex
  | some last =>
    obtain ⟨hlast', hkind⟩ := Option.filter_eq_some_iff.mp hlast
    simp only [Bool.and_eq_true, decide_eq_true_eq] at hkind
    simp only [hlast, returnsValue] at hindex
    split_ifs at hindex with hexpr
    · rw [SraState.returnsLocal] at hindex
      split_ifs at hindex with hlocal
      · simp only [SraState.returnsParameter, hnone, Option.mem_some_iff] at hindex
        subst hindex
        refine ⟨body, last, hbody, hblock, hlast', hkind.1, hlocal.1, ?_⟩
        rw [hparams] at hlocal ⊢
        exact List.getElem?_idxOf hlocal.2
      · simp [hnone] at hindex
    · simp [hnone] at hindex

structure SameTables (s s' : SraState) : Prop where
  locals : s'.localFacts = s.localFacts
  calls : s'.callFacts = s.callFacts
  functions : s'.functionFacts = s.functionFacts

theorem SameTables.sound {s s' : SraState} (h : SameTables s s') (hs : S.Sound s) : S.Sound s' := by
  obtain ⟨hlocals, hcalls, hfunctions⟩ := h
  exact ⟨hfunctions ▸ hs.functions, hlocals ▸ hs.locals, hcalls ▸ hs.calls⟩

theorem returnsLocal_tables (s : SraState) (x : LocalId) : SameTables s (s.returnsLocal x) := by
  rw [SraState.returnsLocal]
  split_ifs
  · rw [SraState.returnsParameter]
    split <;> exact ⟨rfl, rfl, rfl⟩
  · exact ⟨rfl, rfl, rfl⟩

theorem analyzeReturn_tables (e : Expression) (s : SraState) : SameTables s (M.analyzeReturn e s) := by
  obtain ⟨hlocals, hcalls, hfunctions⟩ := returnsLocal_tables { s with anyReturn := true } (M.operandLocal e)
  exact ⟨hlocals, hcalls, hfunctions⟩

theorem returnsValue_tables (id : ExprId) (s : SraState) : SameTables s (M.returnsValue id s) := by
  rw [returnsValue]
  split_ifs
  · obtain ⟨hlocals, hcalls, hfunctions⟩ := returnsLocal_tables { s with anyReturn := true } (M.localOfName id)
    exact ⟨hlocals, hcalls, hfunctions⟩
  · exact ⟨rfl, rfl, rfl⟩

theorem analyzeImplicitReturn_sound (body : Expression) {s : SraState} (hs : S.Sound s) :
    S.Sound (M.analyzeImplicitReturn body s) := by
  rw [analyzeImplicitReturn]
  split
  · exact (returnsValue_tables _ s).sound hs
  · split
    · split
      · split_ifs
        · exact (analyzeReturn_tables _ _).sound ((returnsValue_tables _ s).sound hs)
        · exact hs
      · exact hs
    · split_ifs
      · exact (analyzeReturn_tables _ s).sound hs
      · exact hs

theorem expr_block (hf : f ∈ M.functions) {body : Expression} (h : M.expr f.body = some body) : body.kind = .block := by
  rw [expr] at h
  split_ifs at h with hbody
  rcases M.body_block f hf with hzero | ⟨e, he, hkind⟩
  · exact absurd hzero hbody
  · obtain rfl := Option.some.inj (h.symm.trans he)
    exact hkind

theorem collectFunctionFact_sound (hM : M ∈ S.modules) (hf : f ∈ M.functions) {s : SraState} (hs : S.Sound s)
    (hreturns : s.anyReturn → M.ReturnsAt f ⟨s.allReturnsSameParameter, s.returnedParameter⟩) :
    S.Sound (M.collectFunctionFact f s) := by
  rw [collectFunctionFact]
  split_ifs with hany
  · refine ⟨fun key fact hfact => ?_, hs.locals, hs.calls⟩
    by_cases hkey : key = (M.key, f.id)
    · subst hkey
      obtain rfl : (⟨s.allReturnsSameParameter, s.returnedParameter⟩ : SraFunctionFact) = fact := by simpa using hfact
      exact ⟨M, hM, f, hf, rfl, hreturns hany⟩
    · exact hs.functions key fact (by simpa [hkey] using hfact)
  · exact hs

theorem declareParams_sound (hM : M ∈ S.modules) {f : SraFunction} (hf : f ∈ M.functions) :
    ∀ {parameters : List LocalId} {s : SraState}, parameters ⊆ f.parameters → S.Sound s →
      S.Sound (parameters.foldl (fun s parameter => M.declareLocal parameter s) s) ∧
        (parameters.foldl (fun s parameter => M.declareLocal parameter s) s).currentParams = s.currentParams
  | [], s, _, hs => ⟨hs, rfl⟩
  | p :: rest, s, hsub, hs => by
    obtain ⟨hp, hrest⟩ := List.cons_subset.mp hsub
    exact declareParams_sound hM hf (s := M.declareLocal p s) hrest ((sound_keeps hM).declare s p (.inl ⟨f, hf, hp⟩) hs)

theorem analyzeFunction_sound (hM : M ∈ S.modules) {depth : ℕ} (hf : f ∈ M.functions) {s s' : SraState}
    (h : M.analyzeFunction depth f s = some s') (hs : S.Sound s) : S.Sound s' := by
  obtain ⟨t, hwalk, rfl⟩ := Option.map_eq_some_iff.mp h
  obtain ⟨hdeclared, hparams⟩ := declareParams_sound hM hf (s := { s with currentParams := f.parameters })
    (List.Subset.refl _) (SameTables.sound (s := s) ⟨rfl, rfl, rfl⟩ hs)
  generalize f.parameters.foldl (fun s parameter => M.declareLocal parameter s)
    { s with currentParams := f.parameters } = u at hwalk hdeclared hparams
  have hstart : S.Sound { u with anyReturn := false, allReturnsSameParameter := true, returnedParameter := none } :=
    SameTables.sound (s := u) ⟨rfl, rfl, rfl⟩ hdeclared
  rw [walkFunction] at hwalk
  cases hbody : M.expr f.body with
  | none =>
    rw [hbody] at hwalk
    obtain rfl := Option.some.inj hwalk
    exact collectFunctionFact_sound hM hf hstart fun hany => absurd hany (by simp)
  | some body =>
    rw [hbody] at hwalk
    obtain ⟨w, hwalked, hend⟩ := Option.bind_eq_some_iff.mp hwalk
    obtain rfl := Option.some.inj hend
    have hw := walkBody_keeps (sound_keeps hM) hwalked (SameTables.sound (s := u) ⟨rfl, rfl, rfl⟩ hdeclared)
    have hflags := walkBody_keeps (flags_keeps (false, true, none, f.parameters)) hwalked (by simp [hparams])
    refine collectFunctionFact_sound hM hf ?_ fun _ => returnsAt_of_walked hbody (expr_block hf hbody) hflags
    exact SameTables.sound (s := M.analyzeImplicitReturn body w) ⟨rfl, rfl, rfl⟩ (analyzeImplicitReturn_sound body hw)

theorem analyzeModule_sound (hM : M ∈ S.modules) {depth : ℕ} {s s' : SraState}
    (h : M.analyzeModule depth s = some s') (hs : S.Sound s) : S.Sound s' := by
  obtain ⟨t, hfunctions, hcalls⟩ := Option.bind_eq_some_iff.mp h
  have hstart : S.Sound { s with volatileLocals := s.volatileLocals ++ M.volatileBindings } :=
    SameTables.sound (s := s) ⟨rfl, rfl, rfl⟩ hs
  have ht := walkAll_keeps (fun f hf _ _ hwalk hu => analyzeFunction_sound hM hf hwalk hu) hfunctions hstart
  refine walkAll_keeps (fun f hf u v hwalk hu => ?_) hcalls ht
  rw [resolveCallsInFunction] at hwalk
  cases hbody : M.expr f.body with
  | none =>
    rw [hbody] at hwalk
    exact Option.some.inj hwalk ▸ hu
  | some body =>
    rw [hbody] at hwalk
    exact walkBody_keeps (sound_keeps hM) hwalk (SameTables.sound (s := u) ⟨rfl, rfl, rfl⟩ hu)

end

end SraModule

namespace SraSnapshot

variable {S : SraSnapshot} {depth : ℕ} {s : SraState}

theorem run_sound (h : S.run depth = some s) : S.Sound s :=
  SraModule.walkAll_keeps (fun _ hM _ _ hwalk hu => SraModule.analyzeModule_sound hM hwalk hu) h
    ⟨nofun, fun _ => nofun, nofun⟩

/-- A function with this fact returns the parameter as it was. -/
def ReturnsTrue (S : SraSnapshot) (s : SraState)
    (within : SraModule → LocalId → List ReturnStep → Prop) : Prop :=
  ∀ M ∈ S.modules, ∀ f ∈ M.functions, ∀ index, s.functionFacts (M.key, f.id) = some ⟨true, some index⟩ →
    ∃ x, f.parameters[index]? = some x ∧ ∀ (V : Type) (σ : LocalId → V) t v, M.Returns f σ t v → within M x t → v = σ x

/-- What is found under the local of a module or under its call was computed from that module. -/
def OwnFacts (S : SraSnapshot) (s : SraState) : Prop :=
  (∀ M ∈ S.modules, ∀ x, M.Touches x → ∀ fact, s.localFacts x = some fact → M.OwnFact x fact) ∧
    ∀ M ∈ S.modules, ∀ id, M.IsCall id → ∀ fact, s.callFacts id = some fact → fact.module = M.key

theorem module_unique {M M' : SraModule} (hM : M ∈ S.modules) (hM' : M' ∈ S.modules) (hkey : M.key = M'.key) : M = M' :=
  List.inj_on_of_nodup_map S.keys hM hM' hkey

/-- `fn f(a) { a }`. -/
def identityModule : SraModule where
  key := "m"
  functions := [⟨1, [1], 2⟩]
  expressions := [{ id := 1, kind := .name }, { id := 2, kind := .block, statements := [1] }]
  statements := [{ id := 1, kind := .expression, expression := 1 }]
  localOfName := fun id => if id = 1 then 1 else 0
  localType := fun _ => none
  isPointer := fun _ => false
  fieldOwnership := fun _ => none
  callee := fun _ => none
  localOfName_name := fun id h => by
    obtain rfl : id = 1 := by simpa using h
    decide
  expression_id := fun i e h => by
    match i with
    | 0 | 1 =>
      obtain rfl := Option.some.inj h
      rfl
    | i + 2 => cases h
  no_return := by decide
  block_operands := by decide
  body_block := fun f hf => by
    obtain rfl := List.mem_singleton.mp hf
    exact .inr ⟨_, rfl, rfl⟩
  function_ids := by decide

/-- `fn f(c, a) { if c { return 0; } a }`. -/
def earlyReturn : SraModule where
  key := "m"
  functions := [⟨1, [1, 2], 6⟩]
  expressions := [{ id := 1, kind := .name }, { id := 2, kind := .literal },
    { id := 3, kind := .block, statements := [1] }, { id := 4, kind := .if, operands := [1, 3] },
    { id := 5, kind := .name }, { id := 6, kind := .block, statements := [2, 3] }]
  statements := [{ id := 1, kind := .return, expression := 2 }, { id := 2, kind := .expression, expression := 4 },
    { id := 3, kind := .expression, expression := 5 }]
  localOfName := fun id => if id = 1 then 1 else if id = 5 then 2 else 0
  localType := fun _ => none
  isPointer := fun _ => false
  fieldOwnership := fun _ => none
  callee := fun _ => none
  localOfName_name := fun id h => by
    split_ifs at h with hone hfive
    · subst hone
      decide
    · subst hfive
      decide
    · exact absurd rfl h
  expression_id := fun i e h => by
    match i with
    | 0 | 1 | 2 | 3 | 4 | 5 =>
      obtain rfl := Option.some.inj h
      rfl
    | i + 6 => cases h
  no_return := by decide
  block_operands := by decide
  body_block := fun f hf => by
    obtain rfl := List.mem_singleton.mp hf
    exact .inr ⟨_, rfl, rfl⟩
  function_ids := by decide

def only (M : SraModule) : SraSnapshot := ⟨[M], List.nodup_singleton _⟩

theorem returns_early : earlyReturn.Returns ⟨1, [1, 2], 6⟩ (fun _ => 1) [.ret 2] 0 := by
  have hstatement : earlyReturn.statement 1 = some { id := 1, kind := .return, expression := 2 } := rfl
  have hcomputes : earlyReturn.computes (.expr 2) := ⟨_, rfl, by decide, rfl⟩
  have hvalue : earlyReturn.Runs [.expr 2] (fun _ => 1) [] (.value 0 fun _ => 1) :=
    .compute [] 0 hcomputes (fun _ h => absurd h List.not_mem_nil) (.nil 0) rfl fun _ _ => rfl
  have hreturn : earlyReturn.Runs [.stmt 1] (fun _ => 1) [.ret 2] (.returned 0 fun _ => 1) :=
    .ret hstatement rfl hvalue
  have hblock : earlyReturn.Runs [.expr 3] (fun _ => 1) [.ret 2] (.returned 0 fun _ => 1) :=
    SraModule.runs_block rfl rfl hreturn
  have hif : earlyReturn.Runs [.expr 4] (fun _ => 1) [.ret 2] (.returned 0 fun _ => 1) :=
    .exit (by decide : ∀ j ∈ [Item.expr 3], j ∈ earlyReturn.parts (.expr 4)) hblock rfl
  exact ⟨_, .inr (SraModule.runs_block rfl rfl (.stop (.expression rfl rfl hif) rfl))⟩

end SraSnapshot

end Zith.Sema
