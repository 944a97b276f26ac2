import Zith.Frontend.SelfContained
import Zith.Lib.Fuel

/-! What a clone adds to the tables. A clone may only be of nodes whose parts may be cloned (`Clonable`); what
    it adds is then fresh, and linked with what it is of.

        `addExpression` … ──▶ `cloneTypeExpr`, `cloneScope` ──▶ `cloneStmt`, `copyExpr` ──▶ `cloneExpr` -/

namespace Zith.Frontend
open Zith.Lib Zith.Lib.Growing

/-! ### Entries -/

section
variable {α : Type} {l l' : List α} {a b : α} {id : ℕ}

theorem entry_zero : entry l 0 = none := rfl

theorem ne_zero_of_entry (h : entry l id = some a) : id ≠ 0 := (entry_eq_some_iff.mp h).1

theorem le_of_entry (h : entry l id = some a) : id ≤ l.length := by
  obtain ⟨hne, hget⟩ := entry_eq_some_iff.mp h
  have := (List.getElem?_eq_some_iff.mp hget).1
  omega

theorem exists_entry (hne : id ≠ 0) (hle : id ≤ l.length) : ∃ a, entry l id = some a := by
  have hlt : id - 1 < l.length := by omega
  exact ⟨l[id - 1], entry_eq_some_iff.mpr ⟨hne, List.getElem?_eq_getElem hlt⟩⟩

theorem entry_of_le (hle : l <+: l') (h : entry l id = some a) : entry l' id = some a := by
  obtain ⟨hne, hget⟩ := entry_eq_some_iff.mp h
  obtain ⟨rest, rfl⟩ := hle
  have hlt := (List.getElem?_eq_some_iff.mp hget).1
  rw [entry_eq_some_iff, List.getElem?_append_left hlt]
  exact ⟨hne, hget⟩

theorem entry_concat : entry (l ++ [a]) (l.length + 1) = some a := entry_eq_some_iff.mpr ⟨Nat.succ_ne_zero _, by simp⟩

/-- An entry of a table with one more is an entry of the table, or the one more. -/
theorem entry_of_concat (h : entry (l ++ [a]) id = some b) : entry l id = some b ∨ id = l.length + 1 ∧ b = a := by
  obtain ⟨hne, hget⟩ := entry_eq_some_iff.mp h
  by_cases hlt : id - 1 < l.length
  · rw [List.getElem?_append_left hlt] at hget
    exact Or.inl (entry_eq_some_iff.mpr ⟨hne, hget⟩)
  · have hid := le_of_entry h
    rw [List.length_append, List.length_singleton] at hid
    obtain rfl : id = l.length + 1 := by omega
    exact Or.inr ⟨rfl, Option.some.inj (h.symm.trans entry_concat)⟩

theorem Added.mono {old new new' : List α} (h : Added old new id) (hle : new.length ≤ new'.length) :
    Added old new' id := ⟨h.1, le_trans h.2 hle⟩

theorem Added.ne_zero {old new : List α} (h : Added old new id) : id ≠ 0 := by
  have := h.1
  omega

end

/-! ### Tables that grow -/

/-- Every table of the first is the beginning of one of the second. -/
structure Tables.Prefix (a b : Tables) : Prop where
  expressions : a.expressions <+: b.expressions
  statements : a.statements <+: b.statements
  scopes : a.scopes <+: b.scopes
  typeExpressions : a.typeExpressions <+: b.typeExpressions

theorem Tables.Prefix.refl (a : Tables) : a.Prefix a :=
  ⟨List.prefix_rfl, List.prefix_rfl, List.prefix_rfl, List.prefix_rfl⟩

theorem Tables.Prefix.trans {a b c : Tables} (h : a.Prefix b) (h' : b.Prefix c) : a.Prefix c :=
  ⟨h.1.trans h'.1, h.2.trans h'.2, h.3.trans h'.3, h.4.trans h'.4⟩

/-- At least as many entries in every table. -/
structure Tables.Le (a b : Tables) : Prop where
  expressions : a.expressions.length ≤ b.expressions.length
  statements : a.statements.length ≤ b.statements.length
  scopes : a.scopes.length ≤ b.scopes.length
  typeExpressions : a.typeExpressions.length ≤ b.typeExpressions.length

theorem Tables.Le.refl (a : Tables) : a.Le a := ⟨le_rfl, le_rfl, le_rfl, le_rfl⟩

theorem Tables.Le.trans {a b c : Tables} (h : a.Le b) (h' : b.Le c) : a.Le c :=
  ⟨h.1.trans h'.1, h.2.trans h'.2, h.3.trans h'.3, h.4.trans h'.4⟩

theorem Tables.Prefix.le {a b : Tables} (h : a.Prefix b) : a.Le b :=
  ⟨h.1.length_le, h.2.length_le, h.3.length_le, h.4.length_le⟩

/-- A later state of a clone. -/
structure Later (s t : Expander) : Prop where
  tables : s.snapshot.Prefix t.snapshot
  exprMap : s.exprMap <:+ t.exprMap
  stmtMap : s.stmtMap <:+ t.stmtMap
  scopeMap : ∀ sc, (s.scopeMap.lookup sc).isSome = true → (t.scopeMap.lookup sc).isSome = true
  callAttributes : t.callAttributes = s.callAttributes

theorem Later.refl (s : Expander) : Later s s := ⟨.refl _, List.suffix_rfl, List.suffix_rfl, fun _ h => h, rfl⟩

theorem Later.trans {s t u : Expander} (h : Later s t) (h' : Later t u) : Later s u :=
  ⟨h.1.trans h'.1, h.2.trans h'.2, h.3.trans h'.3, fun sc hsc => h'.4 sc (h.4 sc hsc), h'.5.trans h.5⟩

theorem Linked.mono {links links' : List (ℕ × ℕ)} (h : links <:+ links') {id id' : ℕ} (hl : Linked links id id') :
    Linked links' id id' := hl.imp_right fun hmem => h.subset hmem

theorem TypeAvoids.mono {types types' : List TypeExpression} {names : List Text} (hle : types <+: types')
    {id : TypeExprId} (h : TypeAvoids types names id) : TypeAvoids types' names id := by
  induction h with
  | none => exact .none
  | node hentry hname _ ih => exact .node (entry_of_le hle hentry) hname ih

theorem forall₂_linked_mono {links links' : List (ℕ × ℕ)} (h : links <:+ links') {ids ids' : List ℕ}
    (hl : List.Forall₂ (Linked links) ids ids') : List.Forall₂ (Linked links') ids ids' :=
  hl.imp fun _ _ => Linked.mono h

/-! ### What is created -/

section
variable (macros : List MacroInfo) (nodes : MacroInfo → TemplateNodes) (S : Tables) (C : NodeSet)

/-- A node that was created: its parts were created, its attributes, its scope and the binding of a loop were
    or are of the caller. -/
structure FreshExpr (T : Tables) (e : Expression) : Prop where
  operands : ∀ id ∈ e.operands ++ e.conditions, id ≠ 0 → Added S.expressions T.expressions id
  statements : ∀ id ∈ e.statements, id ≠ 0 → Added S.statements T.statements id
  attributes : ∀ id ∈ e.attributes, id ≠ 0 → (own S T C).exprs id
  bindingStmt : e.forInBindingStmt ≠ 0 → (own S T C).stmts e.forInBindingStmt
  scope : e.scope ≠ 0 → (own S T C).scopes e.scope
  types : ∀ id ∈ e.typeIds, id ≠ 0 → Added S.typeExpressions T.typeExpressions id
  expansion : e.expansion ≠ 0 → Added S.expressions T.expressions e.expansion
  gives : e.kind = .macroCall → GivesAttributes macros nodes e

structure FreshStmt (T : Tables) (s : Statement) : Prop where
  operands : ∀ id ∈ s.operands, id ≠ 0 → Added S.expressions T.expressions id
  attributes : ∀ id ∈ s.attributeIds, id ≠ 0 → (own S T C).exprs id
  types : ∀ id ∈ s.typeIds, id ≠ 0 → Added S.typeExpressions T.typeExpressions id

/-- The tables between two steps of an expansion: what there was is as it was, but for the expansions of its
    calls and the parents of scopes that are of no template; what was added is fresh. -/
structure Good (T : Tables) : Prop where
  grown : S.Le T
  oldExprs : ∀ id e, entry S.expressions id = some e →
    ∃ e', entry T.expressions id = some e' ∧
      { e' with expansion := e.expansion, expansionIsRaw := e.expansionIsRaw } = e
  oldStmts : ∀ id s, entry S.statements id = some s → entry T.statements id = some s
  oldTypes : ∀ id t, entry S.typeExpressions id = some t → entry T.typeExpressions id = some t
  oldScopes : ∀ m ∈ macros, m.source = none → ∀ id, (nodes m).scopes id → ∀ sc, entry S.scopes id = some sc →
    entry T.scopes id = some sc
  exprs : ∀ id e, Added S.expressions T.expressions id →
    entry T.expressions id = some e → FreshExpr macros nodes S C T e
  stmts : ∀ id s, Added S.statements T.statements id → entry T.statements id = some s → FreshStmt S C T s
  scopes : ∀ id sc, Added S.scopes T.scopes id → entry T.scopes id = some sc →
    sc.parent ≠ 0 → (own S T C).scopes sc.parent
  types : ∀ id t, Added S.typeExpressions T.typeExpressions id →
    entry T.typeExpressions id = some t →
    ∀ a ∈ t.arguments, a ≠ 0 → Added S.typeExpressions T.typeExpressions a

end

variable {macros : List MacroInfo} {nodes : MacroInfo → TemplateNodes} {S T T' : Tables} {C : NodeSet}

theorem own_exprs_mono (h : T.Le T') {id : ExprId} : (own S T C).exprs id → (own S T' C).exprs id :=
  Or.imp_left fun hid => hid.mono h.expressions

theorem own_stmts_mono (h : T.Le T') {id : StmtId} : (own S T C).stmts id → (own S T' C).stmts id :=
  Or.imp_left fun hid => hid.mono h.statements

theorem own_scopes_mono (h : T.Le T') {id : ScopeId} : (own S T C).scopes id → (own S T' C).scopes id :=
  Or.imp_left fun hid => hid.mono h.scopes

theorem FreshExpr.mono (h : T.Le T') {e : Expression} (he : FreshExpr macros nodes S C T e) :
    FreshExpr macros nodes S C T' e where
  operands id hid hne := (he.operands id hid hne).mono h.expressions
  statements id hid hne := (he.statements id hid hne).mono h.statements
  attributes id hid hne := own_exprs_mono h (he.attributes id hid hne)
  bindingStmt hne := own_stmts_mono h (he.bindingStmt hne)
  scope hne := own_scopes_mono h (he.scope hne)
  types id hid hne := (he.types id hid hne).mono h.typeExpressions
  expansion hne := (he.expansion hne).mono h.expressions
  gives := he.gives

theorem FreshStmt.mono (h : T.Le T') {s : Statement} (hs : FreshStmt S C T s) : FreshStmt S C T' s where
  operands id hid hne := (hs.operands id hid hne).mono h.expressions
  attributes id hid hne := own_exprs_mono h (hs.attributes id hid hne)
  types id hid hne := (hs.types id hid hne).mono h.typeExpressions

/-- Tables that are good stay so when fresh nodes are added. -/
theorem Good.grow (hst : Good macros nodes S C T) (hle : T.Prefix T')
    (hexprs : ∀ id e, entry T'.expressions id = some e →
      entry T.expressions id = some e ∨ FreshExpr macros nodes S C T' e)
    (hstmts : ∀ id s, entry T'.statements id = some s → entry T.statements id = some s ∨ FreshStmt S C T' s)
    (hscopes : ∀ id sc, entry T'.scopes id = some sc →
      entry T.scopes id = some sc ∨ (sc.parent ≠ 0 → (own S T' C).scopes sc.parent))
    (htypes : ∀ id t, entry T'.typeExpressions id = some t → entry T.typeExpressions id = some t ∨
        ∀ a ∈ t.arguments, a ≠ 0 → Added S.typeExpressions T'.typeExpressions a) : Good macros nodes S C T' where
  grown := hst.grown.trans hle.le
  oldExprs id e he := by
    obtain ⟨e', he', heq⟩ := hst.oldExprs id e he
    exact ⟨e', entry_of_le hle.expressions he', heq⟩
  oldStmts id s hs := entry_of_le hle.statements (hst.oldStmts id s hs)
  oldTypes id t ht := entry_of_le hle.typeExpressions (hst.oldTypes id t ht)
  oldScopes m hm hsource id hid sc hsc := entry_of_le hle.scopes (hst.oldScopes m hm hsource id hid sc hsc)
  exprs id e hadded he := by
    rcases hexprs id e he with hold | hfresh
    · exact (hst.exprs id e ⟨hadded.1, le_of_entry hold⟩ hold).mono hle.le
    · exact hfresh
  stmts id s hadded hs := by
    rcases hstmts id s hs with hold | hfresh
    · exact (hst.stmts id s ⟨hadded.1, le_of_entry hold⟩ hold).mono hle.le
    · exact hfresh
  scopes id sc hadded hsc hne := by
    rcases hscopes id sc hsc with hold | hfresh
    · exact own_scopes_mono hle.le (hst.scopes id sc ⟨hadded.1, le_of_entry hold⟩ hold hne)
    · exact hfresh hne
  types id t hadded ht a ha hne := by
    rcases htypes id t ht with hold | hfresh
    · exact (hst.types id t ⟨hadded.1, le_of_entry hold⟩ hold a ha hne).mono hle.typeExpressions.length_le
    · exact hfresh a ha hne

/-! ### What may be cloned -/

/-- An expression that is replaced, where a template is cloned. -/
def Cloning.replaces (c : Cloning) (src : Tables) (e : Expression) : Bool :=
  c.template.any fun m => isReplaced m src e

section
variable (macros : List MacroInfo) (nodes : MacroInfo → TemplateNodes) (S : Tables) (C : NodeSet)
  (c : Cloning) (attributes : List (Text × ExprId)) (src T : Tables)
  (X : Ctx → ExprId → Prop) (Y : List ScopeId → StmtId → Prop)

/-- An expression that is not replaced, and whose parts may be cloned. -/
structure ClonableExpr (ctx : Ctx) (e : Expression) : Prop where
  operands : ∀ id ∈ e.operands ++ e.conditions, id ≠ 0 → X (ctx.enter e) id
  statements : ∀ id ∈ e.statements, id ≠ 0 → Y (ctx.enter e).blocks id
  ownScope : c.template = none → e.scope ≠ 0 → (own S T C).scopes e.scope
  nests : c.template.isSome = true → ScopeNests src ctx e
  attributes : ∀ id ∈ e.attributes, id ≠ 0 → (own S T C).exprs id
  bindingStmt : e.forInBindingStmt ≠ 0 → (own S T C).stmts e.forInBindingStmt ∨
    ∃ b ∈ e.operands, ∃ body, entry src.expressions b = some body ∧ c.replaces src body = false ∧
      e.forInBindingStmt ∈ body.statements
  gives : e.kind = .macroCall → GivesAttributes macros nodes e
  loop : ∀ m, c.template = some m → e.kind = .forIn → e.text ∉ m.paramNames
  types : ∀ m, c.template = some m → ∀ t ∈ e.typeIds, TypeAvoids src.typeExpressions m.paramNames t

structure ClonableStmt (blocks : List ScopeId) (s : Statement) : Prop where
  operands : ∀ id ∈ s.operands, id ≠ 0 → X ⟨blocks, true⟩ id
  attributes : ∀ id ∈ s.attributeIds, id ≠ 0 → (own S T C).exprs id
  name : ∀ m, c.template = some m → s.kind = .binding → s.binding.name ∉ m.paramNames
  types : ∀ m, c.template = some m → ∀ t ∈ s.typeIds, TypeAvoids src.typeExpressions m.paramNames t

/-- Nodes of the source that may be cloned: they are there, and so are their parts; what replaces one is of
    the call. -/
structure Clonable : Prop where
  exprs : ∀ ctx id, X ctx id → ∃ e, entry src.expressions id = some e ∧
    (c.replaces src e = true → ∃ arg, replacedBy c attributes src e = some arg ∧ arg ≠ 0 ∧ (own S T C).exprs arg) ∧
    (c.replaces src e = false → ClonableExpr macros nodes S C c src T X Y ctx e)
  stmts : ∀ blocks id, Y blocks id → ∃ s, entry src.statements id = some s ∧ ClonableStmt S C c src T X blocks s

/-- What a link of the expressions says. -/
def CopiedAt (st : Expander) (id id' : ExprId) : Prop :=
  ∀ e, entry src.expressions id = some e →
    (∀ arg, replacedBy c attributes src e = some arg → SameHead st.snapshot arg id') ∧
    (c.replaces src e = false → ∃ e', entry st.snapshot.expressions id' = some e' ∧
      CopiedExpr st.exprMap st.stmtMap e e' ∧ ∀ m, c.template = some m →
        (e'.kind = .forIn → e'.text ∉ m.paramNames) ∧
        ∀ t ∈ e'.typeIds, TypeAvoids st.snapshot.typeExpressions m.paramNames t)

/-- What a link of the statements says. -/
def CopiedStmtAt (st : Expander) (id id' : StmtId) : Prop :=
  ∀ s, entry src.statements id = some s →
    ∃ s', entry st.snapshot.statements id' = some s' ∧ CopiedStmt st.exprMap s s' ∧ ∀ m, c.template = some m →
      (s'.kind = .binding → s'.binding.name ∉ m.paramNames) ∧
      ∀ t ∈ s'.typeIds, TypeAvoids st.snapshot.typeExpressions m.paramNames t

/-- The state during a clone that started with the tables `src` and `T`. -/
structure CloneInv (st : Expander) : Prop where
  good : Good macros nodes S C st.snapshot
  source : src.Prefix (c.sourceOf st)
  start : T.Prefix st.snapshot
  callAttributes : c.template.isSome = true → st.callAttributes.getD [] = attributes
  exprMap : ∀ p ∈ st.exprMap, Added S.expressions st.snapshot.expressions p.2 ∧ CopiedAt c attributes src st p.1 p.2
  stmtMap : ∀ p ∈ st.stmtMap, Added S.statements st.snapshot.statements p.2 ∧ CopiedStmtAt c src st p.1 p.2
  scopeMap : ∀ p ∈ st.scopeMap, Added S.scopes st.snapshot.scopes p.2

/-- A clone as a program over tables that grow. -/
def cloning : Growing Expander where
  inv := CloneInv macros nodes S C c attributes src T
  later := Later
  refl := Later.refl
  trans := Later.trans

/-- The scopes of the blocks around are mapped, and outside of statements the scope of the call is at hand. -/
structure CtxOk (ctx : Ctx) (callScope : ScopeId) (st : Expander) : Prop where
  blocks : ∀ b ∈ ctx.blocks, c.template.isSome = true → (st.scopeMap.lookup b).isSome = true
  callScope : ctx.inStatement = false → callScope ≠ 0 → (own S st.snapshot C).scopes callScope

end

variable {c : Cloning} {attributes : List (Text × ExprId)} {src : Tables} {X : Ctx → ExprId → Prop}
  {Y : List ScopeId → StmtId → Prop} {s t : Expander}

theorem SameHead.mono (h : T.Prefix T') {id id' : ExprId} (hsame : SameHead T id id') : SameHead T' id id' := by
  obtain ⟨e, e', he, he', hkind, htext⟩ := hsame
  exact ⟨e, e', entry_of_le h.expressions he, entry_of_le h.expressions he', hkind, htext⟩

theorem CopiedExpr.mono {exprs exprs' stmts stmts' : List (ℕ × ℕ)} (he : exprs <:+ exprs')
    (hs : stmts <:+ stmts') {e e' : Expression} (h : CopiedExpr exprs stmts e e') : CopiedExpr exprs' stmts' e e' :=
  ⟨h.kind, h.text, forall₂_linked_mono he h.operands, forall₂_linked_mono hs h.statements⟩

theorem CopiedStmt.mono {exprs exprs' : List (ℕ × ℕ)} (he : exprs <:+ exprs') {s s' : Statement}
    (h : CopiedStmt exprs s s') : CopiedStmt exprs' s s' :=
  ⟨h.kind, h.name, forall₂_linked_mono he h.operands⟩

theorem CopiedAt.mono (h : Later s t) {id id' : ExprId} (hcopied : CopiedAt c attributes src s id id') :
    CopiedAt c attributes src t id id' := by
  intro e he
  obtain ⟨hreplaced, hcopy⟩ := hcopied e he
  refine ⟨fun arg harg => (hreplaced arg harg).mono h.tables, fun hnot => ?_⟩
  obtain ⟨e', he', hparts, hnames⟩ := hcopy hnot
  refine ⟨e', entry_of_le h.tables.expressions he', hparts.mono h.exprMap h.stmtMap, fun m hm => ?_⟩
  exact ⟨(hnames m hm).1, fun ty hty => ((hnames m hm).2 ty hty).mono h.tables.typeExpressions⟩

theorem CopiedStmtAt.mono (h : Later s t) {id id' : StmtId} (hcopied : CopiedStmtAt c src s id id') :
    CopiedStmtAt c src t id id' := by
  intro stmt hstmt
  obtain ⟨stmt', hstmt', hparts, hnames⟩ := hcopied stmt hstmt
  refine ⟨stmt', entry_of_le h.tables.statements hstmt', hparts.mono h.exprMap, fun m hm => ?_⟩
  exact ⟨(hnames m hm).1, fun ty hty => ((hnames m hm).2 ty hty).mono h.tables.typeExpressions⟩

variable {e : Expression} {callScope : ScopeId}

theorem CtxOk.mono (h : Later s t) {ctx : Ctx} (hctx : CtxOk S C c ctx callScope s) : CtxOk S C c ctx callScope t :=
  ⟨fun b hb hsome => h.scopeMap b (hctx.blocks b hb hsome),
    fun hin hne => own_scopes_mono h.tables.le (hctx.callScope hin hne)⟩

theorem sourceOf_le (h : s.snapshot.Prefix t.snapshot) : (c.sourceOf s).Prefix (c.sourceOf t) := by
  unfold Cloning.sourceOf
  rcases c.template.bind (·.source) with _ | tables
  · exact h
  · exact .refl tables

/-- Tables may grow by fresh nodes during a clone. -/
theorem CloneInv.grow {snapshot : Tables} (h : CloneInv macros nodes S C c attributes src T s)
    (hle : s.snapshot.Prefix snapshot) (hgood : Good macros nodes S C snapshot) :
    CloneInv macros nodes S C c attributes src T { s with snapshot } ∧ Later s { s with snapshot } := by
  have hlater : Later s { s with snapshot } := ⟨hle, List.suffix_rfl, List.suffix_rfl, fun _ h => h, rfl⟩
  refine ⟨?_, hlater⟩
  exact {
    good := hgood
    source := h.source.trans (sourceOf_le hle)
    start := h.start.trans hle
    callAttributes := h.callAttributes
    exprMap := fun p hp => ⟨(h.exprMap p hp).1.mono hle.le.expressions, (h.exprMap p hp).2.mono hlater⟩
    stmtMap := fun p hp => ⟨(h.stmtMap p hp).1.mono hle.le.statements, (h.stmtMap p hp).2.mono hlater⟩
    scopeMap := fun p hp => (h.scopeMap p hp).mono hle.le.scopes }

/-! ### Adding nodes -/

theorem FreshExpr.withId (h : FreshExpr macros nodes S C T e) (id : ExprId) :
    FreshExpr macros nodes S C T { e with id } :=
  ⟨h.operands, h.statements, h.attributes, h.bindingStmt, h.scope, h.types, h.expansion, h.gives⟩

/-- A fresh expression may be added. -/
theorem Good.addExpression (hT : Good macros nodes S C T) (he : FreshExpr macros nodes S C T e) :
    T.Prefix { T with expressions := T.expressions ++ [{ e with id := T.expressions.length + 1 }] } ∧
      Good macros nodes S C { T with expressions := T.expressions ++ [{ e with id := T.expressions.length + 1 }] } ∧
        Added S.expressions (T.expressions ++ [{ e with id := T.expressions.length + 1 }])
          (T.expressions.length + 1) := by
  have hle : T.Prefix { T with expressions := T.expressions ++ [{ e with id := T.expressions.length + 1 }] } :=
    ⟨List.prefix_append .., List.prefix_rfl, List.prefix_rfl, List.prefix_rfl⟩
  refine ⟨hle, ?_, Nat.lt_succ_of_le hT.grown.expressions, by simp⟩
  refine hT.grow hle (fun id e' he' => ?_) (fun _ _ h => Or.inl h) (fun _ _ h => Or.inl h) fun _ _ h => Or.inl h
  rcases entry_of_concat he' with hold | ⟨_, rfl⟩
  · exact Or.inl hold
  · exact Or.inr ((he.mono hle.le).withId _)

/-- A fresh statement may be added. -/
theorem Good.addStatement (hT : Good macros nodes S C T) {stmt : Statement} (hstmt : FreshStmt S C T stmt) :
    T.Prefix { T with statements := T.statements ++ [{ stmt with id := T.statements.length + 1 }] } ∧
      Good macros nodes S C { T with statements := T.statements ++ [{ stmt with id := T.statements.length + 1 }] } ∧
        Added S.statements (T.statements ++ [{ stmt with id := T.statements.length + 1 }])
          (T.statements.length + 1) := by
  have hle : T.Prefix { T with statements := T.statements ++ [{ stmt with id := T.statements.length + 1 }] } :=
    ⟨List.prefix_rfl, List.prefix_append .., List.prefix_rfl, List.prefix_rfl⟩
  refine ⟨hle, ?_, Nat.lt_succ_of_le hT.grown.statements, by simp⟩
  refine hT.grow hle (fun _ _ h => Or.inl h) (fun id stmt' hstmt' => ?_) (fun _ _ h => Or.inl h) fun _ _ h => Or.inl h
  rcases entry_of_concat hstmt' with hold | ⟨_, rfl⟩
  · exact Or.inl hold
  · obtain ⟨hops, hattrs, htypes⟩ := hstmt.mono hle.le
    exact Or.inr ⟨hops, hattrs, htypes⟩

/-- A scope may be added below one of the expansion or the caller. -/
theorem Good.addScope (hT : Good macros nodes S C T) {scope : Scope}
    (hparent : scope.parent ≠ 0 → (own S T C).scopes scope.parent) :
    T.Prefix { T with scopes := T.scopes ++ [{ scope with id := T.scopes.length + 1 }] } ∧
      Good macros nodes S C { T with scopes := T.scopes ++ [{ scope with id := T.scopes.length + 1 }] } ∧
        Added S.scopes (T.scopes ++ [{ scope with id := T.scopes.length + 1 }]) (T.scopes.length + 1) := by
  have hle : T.Prefix { T with scopes := T.scopes ++ [{ scope with id := T.scopes.length + 1 }] } :=
    ⟨List.prefix_rfl, List.prefix_rfl, List.prefix_append .., List.prefix_rfl⟩
  refine ⟨hle, ?_, Nat.lt_succ_of_le hT.grown.scopes, by simp⟩
  refine hT.grow hle (fun _ _ h => Or.inl h) (fun _ _ h => Or.inl h) (fun id scope' hscope' => ?_) fun _ _ h => Or.inl h
  rcases entry_of_concat hscope' with hold | ⟨_, rfl⟩
  · exact Or.inl hold
  · exact Or.inr fun hne => own_scopes_mono hle.le (hparent hne)

theorem addExpression_from (he : FreshExpr macros nodes S C s.snapshot e) :
    (cloning macros nodes S C c attributes src T).From s (addExpression e) fun id t =>
      Added S.expressions t.snapshot.expressions id ∧ entry t.snapshot.expressions id = some { e with id } := by
  intro hs id t hrun
  obtain ⟨rfl, rfl⟩ := Prod.mk.inj (Option.some.inj hrun)
  obtain ⟨hle, hgood, hadded⟩ := hs.good.addExpression he
  obtain ⟨hinv, hlater⟩ := hs.grow hle hgood
  exact ⟨hinv, hlater, hadded, entry_concat⟩

theorem addStatement_from {stmt : Statement} (hstmt : FreshStmt S C s.snapshot stmt) :
    (cloning macros nodes S C c attributes src T).From s (addStatement stmt) fun id t =>
      Added S.statements t.snapshot.statements id ∧ entry t.snapshot.statements id = some { stmt with id } := by
  intro hs id t hrun
  obtain ⟨rfl, rfl⟩ := Prod.mk.inj (Option.some.inj hrun)
  obtain ⟨hle, hgood, hadded⟩ := hs.good.addStatement hstmt
  obtain ⟨hinv, hlater⟩ := hs.grow hle hgood
  exact ⟨hinv, hlater, hadded, entry_concat⟩

theorem addScope_from {scope : Scope} (hparent : scope.parent ≠ 0 → (own S s.snapshot C).scopes scope.parent) :
    (cloning macros nodes S C c attributes src T).From s (addScope scope) fun id t =>
      Added S.scopes t.snapshot.scopes id := by
  intro hs id t hrun
  obtain ⟨rfl, rfl⟩ := Prod.mk.inj (Option.some.inj hrun)
  obtain ⟨hle, hgood, hadded⟩ := hs.good.addScope hparent
  obtain ⟨hinv, hlater⟩ := hs.grow hle hgood
  exact ⟨hinv, hlater, hadded⟩

theorem addTypeExpression_from {te : TypeExpression}
    (hargs : ∀ a ∈ te.arguments, a ≠ 0 → Added S.typeExpressions s.snapshot.typeExpressions a) :
    (cloning macros nodes S C c attributes src T).From s (addTypeExpression te) fun id t =>
      Added S.typeExpressions t.snapshot.typeExpressions id ∧
        entry t.snapshot.typeExpressions id = some { te with id } := by
  intro hs id t hrun
  obtain ⟨rfl, rfl⟩ := Prod.mk.inj (Option.some.inj hrun)
  have hle : s.snapshot.Prefix { s.snapshot with
      typeExpressions := s.snapshot.typeExpressions ++ [{ te with id := s.snapshot.typeExpressions.length + 1 }] } :=
    ⟨List.prefix_rfl, List.prefix_rfl, List.prefix_rfl, List.prefix_append ..⟩
  have hgood := hs.good.grow hle (fun _ _ h => Or.inl h)
    (fun _ _ h => Or.inl h) (fun _ _ h => Or.inl h)
    (fun id te' hte' => by
      rcases entry_of_concat hte' with hold | ⟨_, rfl⟩
      · exact Or.inl hold
      · exact Or.inr fun a ha hne => (hargs a ha hne).mono hle.le.typeExpressions)
  obtain ⟨hinv, hlater⟩ := hs.grow hle hgood
  refine ⟨hinv, hlater, ⟨?_, ?_⟩, entry_concat⟩
  · exact Nat.lt_succ_of_le hs.good.grown.typeExpressions
  · simp

/-! ### Recording links -/

theorem recordExpr_from {id id' : ExprId} (hadded : Added S.expressions s.snapshot.expressions id')
    (hcopied : CopiedAt c attributes src s id id') :
    (cloning macros nodes S C c attributes src T).From s (recordExpr id id') fun _ t => (id, id') ∈ t.exprMap := by
  intro hs _ t hrun
  obtain ⟨_, rfl⟩ := Prod.mk.inj (Option.some.inj hrun)
  have hlater : Later s { s with exprMap := (id, id') :: s.exprMap } :=
    ⟨.refl _, List.suffix_cons .., List.suffix_rfl, fun _ h => h, rfl⟩
  refine ⟨?_, hlater, List.mem_cons_self ..⟩
  exact {
    good := hs.good
    source := hs.source
    start := hs.start
    callAttributes := hs.callAttributes
    exprMap := by
      rintro p (_ | ⟨_, hp⟩)
      · exact ⟨hadded, hcopied.mono hlater⟩
      · exact ⟨(hs.exprMap p hp).1, (hs.exprMap p hp).2.mono hlater⟩
    stmtMap := fun p hp => ⟨(hs.stmtMap p hp).1, (hs.stmtMap p hp).2.mono hlater⟩
    scopeMap := hs.scopeMap }

theorem recordStmt_from {id id' : StmtId} (hadded : Added S.statements s.snapshot.statements id')
    (hcopied : CopiedStmtAt c src s id id') :
    (cloning macros nodes S C c attributes src T).From s (recordStmt id id') fun _ t => (id, id') ∈ t.stmtMap := by
  intro hs _ t hrun
  obtain ⟨_, rfl⟩ := Prod.mk.inj (Option.some.inj hrun)
  have hlater : Later s { s with stmtMap := (id, id') :: s.stmtMap } :=
    ⟨.refl _, List.suffix_rfl, List.suffix_cons .., fun _ h => h, rfl⟩
  refine ⟨?_, hlater, List.mem_cons_self ..⟩
  exact {
    good := hs.good
    source := hs.source
    start := hs.start
    callAttributes := hs.callAttributes
    exprMap := fun p hp => ⟨(hs.exprMap p hp).1, (hs.exprMap p hp).2.mono hlater⟩
    stmtMap := by
      rintro p (_ | ⟨_, hp⟩)
      · exact ⟨hadded, hcopied.mono hlater⟩
      · exact ⟨(hs.stmtMap p hp).1, (hs.stmtMap p hp).2.mono hlater⟩
    scopeMap := hs.scopeMap }

/-! ### Types, locals and scopes -/

theorem sourceTables_from : (cloning macros nodes S C c attributes src T).From s (sourceTables c) fun tables t =>
    t = s ∧ tables = c.sourceOf s ∧ CloneInv macros nodes S C c attributes src T s := by
  intro hs tables t hrun
  obtain ⟨rfl, rfl⟩ := Prod.mk.inj (Option.some.inj hrun)
  exact ⟨hs, Later.refl s, rfl, rfl, hs⟩

theorem present_from {α : Type} {o : Option α} :
    (cloning macros nodes S C c attributes src T).From s (present o) fun a t => t = s ∧ o = some a := by
  intro hs a t hrun
  obtain ⟨b, rfl, hb⟩ := Option.map_eq_some_iff.mp hrun
  obtain ⟨rfl, rfl⟩ := Prod.mk.inj hb
  exact ⟨hs, Later.refl s, rfl, rfl⟩

theorem cloneLocal_from (id : LocalId) :
    (cloning macros nodes S C c attributes src T).From s (cloneLocal id) fun _ _ => True := by
  intro hs id' t hrun
  unfold cloneLocal at hrun
  split at hrun
  · obtain ⟨_, rfl⟩ := Prod.mk.inj (Option.some.inj hrun)
    exact ⟨hs, Later.refl s, trivial⟩
  · split at hrun
    · obtain ⟨_, rfl⟩ := Prod.mk.inj (Option.some.inj hrun)
      exact ⟨hs, Later.refl s, trivial⟩
    · obtain ⟨_, rfl⟩ := Prod.mk.inj (Option.some.inj hrun)
      have hlater : Later s { s with
          nextLocalId := s.nextLocalId + 1, localMap := (id, s.nextLocalId) :: s.localMap } :=
        ⟨.refl _, List.suffix_rfl, List.suffix_rfl, fun _ h => h, rfl⟩
      exact ⟨⟨hs.1, hs.2, hs.3, hs.4, hs.5, hs.6, hs.7⟩, hlater, trivial⟩

/-- What the clone of a type expression is: new, and of the same names. -/
def FreshType (S : Tables) (c : Cloning) (src : Tables) (id id' : TypeExprId) (t : Expander) : Prop :=
  (id' ≠ 0 → Added S.typeExpressions t.snapshot.typeExpressions id') ∧ ∀ names,
    c.template.isSome = true → TypeAvoids src.typeExpressions names id → TypeAvoids t.snapshot.typeExpressions names id'

theorem FreshType.mono (h : Later s t) {id id' : TypeExprId} (hfresh : FreshType S c src id id' s) :
    FreshType S c src id id' t :=
  ⟨fun hne => (hfresh.1 hne).mono h.tables.le.typeExpressions,
    fun names hsome havoids => (hfresh.2 names hsome havoids).mono h.tables.typeExpressions⟩

/-- Types are cloned from the arguments up; the induction is on the depth. -/
theorem cloneTypeExpr_from : ∀ (fuel : ℕ) (id : TypeExprId) (s : Expander),
    (cloning macros nodes S C c attributes src T).From s (cloneTypeExpr c fuel id) (FreshType S c src id) := by
  intro fuel
  induction fuel with
  | zero =>
    intro id s _ id' t hrun
    cases hrun
  | succ fuel ih =>
    intro id s
    refine sourceTables_from.bind ?_
    rintro tables t ht _ ⟨rfl, rfl, hs⟩
    rcases hentry : entry (c.sourceOf t).typeExpressions id with _ | orig
    · refine From.pure ⟨fun hne => absurd rfl hne, fun names _ havoids => ?_⟩
      cases havoids with
      | none => exact .none
      | node hnode => rw [entry_of_le hs.source.typeExpressions hnode] at hentry; cases hentry
    · refine (From.mapM (R := FreshType S c src) (fun _ _ _ _ h hfresh => hfresh.mono h)
        fun a _ u _ _ => ih a u).bind fun arguments u _ htu hargs => ?_
      have hfresh : ∀ a ∈ arguments, a ≠ 0 → Added S.typeExpressions u.snapshot.typeExpressions a := by
        intro a ha hne
        obtain ⟨b, _, hb⟩ := exists_of_forall₂ hargs a ha
        exact hb.1 hne
      refine (addTypeExpression_from hfresh).mono fun id' v _ huv hadded => ?_
      refine ⟨fun _ => hadded.1, fun names hsome havoids => ?_⟩
      cases havoids with
      | none =>
        rw [entry_zero] at hentry
        cases hentry
      | node hnode hname hchildren =>
        obtain rfl := Option.some.inj (hentry.symm.trans (entry_of_le hs.source.typeExpressions hnode))
        refine .node hadded.2 hname fun a ha => ?_
        obtain ⟨b, hb, hba⟩ := exists_of_forall₂ hargs a ha
        exact (hba.mono huv).2 names hsome (hchildren b hb)

theorem mem_of_lookup {m : List (ℕ × ℕ)} {k v : ℕ} (h : m.lookup k = some v) : (k, v) ∈ m := by
  obtain ⟨before, after, rfl, _⟩ := List.lookup_eq_some_iff.mp h
  exact List.mem_append_right _ (List.mem_cons_self ..)

/-- A scope that is mapped, or outside of statements the scope of the call. -/
theorem mappedScope_own (hs : CloneInv macros nodes S C c attributes src T s) {ctx : Ctx}
    (hctx : CtxOk S C c ctx callScope s) (htemplate : c.template.isSome = true) {sc : ScopeId}
    (hsc : ctx.inStatement = true → sc ≠ 0 ∧ sc ∈ ctx.blocks) (hne : mappedScope s.scopeMap sc callScope ≠ 0) :
    (own S s.snapshot C).scopes (mappedScope s.scopeMap sc callScope) := by
  have houter : (ctx.inStatement = true → False) → callScope ≠ 0 → (own S s.snapshot C).scopes callScope :=
    fun hin => hctx.callScope (Bool.eq_false_iff.mpr hin)
  rw [mappedScope] at hne ⊢
  split at hne
  · next hzero =>
    rw [if_pos hzero]
    exact houter (fun hin => (hsc hin).1 hzero) hne
  · next hzero =>
    rw [if_neg hzero]
    rcases hlookup : s.scopeMap.lookup sc with _ | v
    · rw [hlookup] at hne
      refine houter (fun hin => ?_) hne
      have hsome := hctx.blocks sc (hsc hin).2 htemplate
      rw [hlookup] at hsome
      cases hsome
    · exact Or.inl (hs.scopeMap _ (mem_of_lookup hlookup))

/-- A clone has a scope of the expansion or of the caller, and its parts are cloned inside of it. -/
theorem cloneScope_from {ctx : Ctx} (he : ClonableExpr macros nodes S C c src T X Y ctx e)
    (hctx : CtxOk S C c ctx callScope s) :
    (cloning macros nodes S C c attributes src T).From s (cloneScope c callScope e) fun sc t =>
      (sc ≠ 0 → (own S t.snapshot C).scopes sc) ∧ CtxOk S C c (ctx.enter e) callScope t := by
  have hsame : ∀ t, Later s t → ¬(e.kind = .block ∧ e.scope ≠ 0) → CtxOk S C c (ctx.enter e) callScope t := by
    intro t ht hblock
    rw [Ctx.enter, if_neg hblock]
    exact hctx.mono ht
  unfold cloneScope
  by_cases htemplate : c.template.isNone = true
  · rw [if_pos htemplate]
    intro hs
    have hnone : c.template = none := Option.isNone_iff_eq_none.mp htemplate
    refine From.pure ⟨fun hne => own_scopes_mono hs.start.le (he.ownScope hnone hne), ?_, ?_⟩ hs
    · intro b _ hsome
      rw [hnone] at hsome
      cases hsome
    · rw [Ctx.enter]
      split
      · exact hctx.callScope
      · exact hctx.callScope
  · have hsome : c.template.isSome = true :=
      Option.isSome_iff_ne_none.mpr fun hnone => htemplate (Option.isNone_iff_eq_none.mpr hnone)
    have hnests := he.nests hsome
    rw [if_neg htemplate]
    by_cases hblock : e.kind = .block ∧ e.scope ≠ 0
    · rw [ScopeNests, if_pos hblock] at hnests
      obtain ⟨scope, hscope, hparent⟩ := hnests
      rw [if_pos hblock]
      refine sourceTables_from.bind ?_
      rintro tables t _ hst ⟨rfl, rfl, hs⟩
      refine present_from.bind ?_
      rintro scope' u hu htu ⟨rfl, hscope'⟩
      obtain rfl := Option.some.inj ((entry_of_le hs.source.scopes hscope).symm.trans hscope')
      refine From.get fun hu => ?_
      refine (addScope_from (mappedScope_own hu hctx hsome hparent)).bind fun id v hv huv hadded => ?_
      have hlater : Later v { v with scopeMap := (e.scope, id) :: v.scopeMap } := by
        refine ⟨.refl _, List.suffix_rfl, List.suffix_rfl, fun sc hsc => ?_, rfl⟩
        rw [List.lookup_cons]
        split
        · rfl
        · exact hsc
      refine (From.modify (P := fun _ w => w = { v with scopeMap := (e.scope, id) :: v.scopeMap })
        (fun hv => ?_) hlater rfl).bind ?_
      · exact {
          good := hv.good
          source := hv.source
          start := hv.start
          callAttributes := hv.callAttributes
          exprMap := fun p hp => ⟨(hv.exprMap p hp).1, (hv.exprMap p hp).2.mono hlater⟩
          stmtMap := fun p hp => ⟨(hv.stmtMap p hp).1, (hv.stmtMap p hp).2.mono hlater⟩
          scopeMap := by
            rintro p (_ | ⟨_, hp⟩)
            · exact hadded
            · exact hv.scopeMap p hp }
      · rintro _ w hw _ rfl
        refine From.pure ⟨fun _ => Or.inl hadded, ?_, ?_⟩
        · rw [Ctx.enter, if_pos hblock]
          rintro b (_ | ⟨_, hb⟩) _
          · rw [List.lookup_cons, beq_self_eq_true]
            rfl
          · exact (hctx.mono (huv.trans hlater)).blocks b hb hsome
        · rw [Ctx.enter, if_pos hblock]
          exact (hctx.mono (huv.trans hlater)).callScope
    · rw [ScopeNests, if_neg hblock] at hnests
      rw [if_neg hblock]
      refine From.ite (fun hne => ?_) (fun hzero => ?_)
      · refine From.get fun hs => From.pure ⟨?_, hsame s (Later.refl s) hblock⟩
        exact mappedScope_own hs hctx hsome fun hin => ⟨hne, hnests hne hin⟩
      · exact From.pure ⟨fun hne => absurd hne hzero, hsame s (Later.refl s) hblock⟩

/-! ### Statements -/

section
variable (macros nodes S C c attributes src T X)

/-- A function that clones the expressions of `X`, each linked with its clone. -/
def ClonesLinked (rec : CloneExpr) : Prop :=
  ∀ ctx callScope id s, CtxOk S C c ctx callScope s → (id ≠ 0 → X ctx id) →
    (cloning macros nodes S C c attributes src T).From s (rec c callScope id) fun id' t => Linked t.exprMap id id'

end

variable {rec : CloneExpr} {blocks : List ScopeId}

theorem linked_later {id id' : ℕ} (h : Later s t) (hl : Linked s.exprMap id id') : Linked t.exprMap id id' :=
  hl.mono h.exprMap

theorem added_of_linked (hs : CloneInv macros nodes S C c attributes src T s) {id id' : ExprId}
    (hl : Linked s.exprMap id id') (hne : id' ≠ 0) : Added S.expressions s.snapshot.expressions id' := by
  rcases hl with ⟨_, hzero⟩ | hmem
  · exact absurd hzero hne
  · exact (hs.exprMap _ hmem).1

theorem added_of_linkedStmt (hs : CloneInv macros nodes S C c attributes src T s) {id id' : StmtId}
    (hl : Linked s.stmtMap id id') (hne : id' ≠ 0) : Added S.statements s.snapshot.statements id' := by
  rcases hl with ⟨_, hzero⟩ | hmem
  · exact absurd hzero hne
  · exact (hs.stmtMap _ hmem).1

theorem mem_of_mapped {m : List (ℕ × ℕ)} {id : ℕ} (h : mapped m id ≠ 0) : (id, mapped m id) ∈ m := by
  rw [mapped] at h ⊢
  rcases hlookup : m.lookup id with _ | id'
  · rw [hlookup] at h
    exact absurd rfl h
  · exact mem_of_lookup hlookup

/-- The scopes of the blocks around are mapped. -/
def BlocksMapped (c : Cloning) (blocks : List ScopeId) (st : Expander) : Prop :=
  ∀ b ∈ blocks, c.template.isSome = true → (st.scopeMap.lookup b).isSome = true

theorem BlocksMapped.mono (h : Later s t) (hblocks : BlocksMapped c blocks s) : BlocksMapped c blocks t :=
  fun b hb hsome => h.scopeMap b (hblocks b hb hsome)

theorem sourceScope_from (id : ExprId) :
    (cloning macros nodes S C c attributes src T).From s (sourceScope c id) fun _ _ => True := by
  unfold sourceScope
  refine From.ite (fun _ => From.pure trivial) fun _ => ?_
  refine sourceTables_from.bind fun tables t _ _ _ => ?_
  exact present_from.bind fun _ _ _ _ _ => From.pure trivial

/-- An expression of a statement, cloned with the scope of its original. -/
theorem cloneInScope_from (hrec : ClonesLinked macros nodes S T C c attributes src X rec)
    (hblocks : BlocksMapped c blocks s) {id : ExprId} (hid : id ≠ 0 → X ⟨blocks, true⟩ id) :
    (cloning macros nodes S C c attributes src T).From s (cloneInScope rec c id) fun id' t =>
      Linked t.exprMap id id' := by
  refine (sourceScope_from id).bind fun callScope t _ hst _ => ?_
  exact hrec _ callScope id t ⟨hblocks.mono hst, fun hout => by cases hout⟩ hid

theorem cloneOperand_from (hrec : ClonesLinked macros nodes S T C c attributes src X rec)
    (hblocks : BlocksMapped c blocks s) {id : ExprId} (hid : id ≠ 0 → X ⟨blocks, true⟩ id) :
    (cloning macros nodes S C c attributes src T).From s (cloneOperand rec c id) fun id' t =>
      Linked t.exprMap id id' := by
  unfold cloneOperand
  refine From.ite (fun hzero => From.pure (Or.inl ⟨hzero, rfl⟩)) fun _ => ?_
  exact cloneInScope_from hrec hblocks hid

theorem cloneLocalOf_from (id : LocalId) :
    (cloning macros nodes S C c attributes src T).From s (cloneLocalOf c id) fun _ _ => True :=
  From.ite (fun _ => cloneLocal_from id) fun _ => From.pure trivial

theorem cloneBindingLocal_from (orig : Statement) :
    (cloning macros nodes S C c attributes src T).From s (cloneBindingLocal c orig) fun _ _ => True :=
  From.ite (fun _ => cloneLocalOf_from _) fun _ => From.pure trivial

theorem cloneInitializer_from (hrec : ClonesLinked macros nodes S T C c attributes src X rec)
    (hblocks : BlocksMapped c blocks s) {orig : Statement} (horig : ClonableStmt S C c src T X blocks orig) :
    (cloning macros nodes S C c attributes src T).From s (cloneInitializer rec c orig) fun id' t =>
      orig.kind = .binding → Linked t.exprMap orig.binding.initializer id' := by
  refine From.ite (fun hbinding => ?_) fun hother => From.pure fun hbinding => absurd hbinding hother
  refine (cloneOperand_from hrec hblocks (horig.operands _ ?_)).mono fun _ _ _ _ hl _ => hl
  rw [Statement.operands, if_pos hbinding]
  exact List.mem_cons_of_mem _ (List.mem_append_left _ (List.mem_singleton_self _))

theorem cloneBindingType_from (fuel : ℕ) (orig : Statement) :
    (cloning macros nodes S C c attributes src T).From s (cloneBindingType c fuel orig) fun id' t =>
      orig.kind = .binding → FreshType S c src orig.binding.type id' t := by
  refine From.ite (fun _ => (cloneTypeExpr_from fuel _ _).mono fun _ _ _ _ h _ => h) fun hother => From.pure ?_
  intro hbinding
  have hzero : orig.binding.type = 0 := by simpa [hbinding] using hother
  rw [hzero]
  exact ⟨fun hne => absurd rfl hne, fun _ _ _ => .none⟩

/-- The copy of a statement whose parts are cloned is fresh. -/
theorem freshStmt_of_copy (hs : CloneInv macros nodes S C c attributes src T s) {orig copy : Statement}
    (horig : ClonableStmt S C c src T X blocks orig) (hcopy : CopiedStmt s.exprMap orig copy)
    (hattributes : copy.attributeIds = orig.attributeIds)
    (htypes : ∀ id ∈ copy.typeIds, id ≠ 0 → Added S.typeExpressions s.snapshot.typeExpressions id) :
    FreshStmt S C s.snapshot copy where
  operands id hid hne := by
    obtain ⟨_, _, hlinked⟩ := exists_of_forall₂ hcopy.operands id hid
    exact added_of_linked hs hlinked hne
  attributes id hid hne := by
    rw [hattributes] at hid
    exact own_exprs_mono hs.start.le (horig.attributes id hid hne)
  types := htypes

theorem copiedKind_eq_binding (kind : StmtKind) :
    (if kind = .declaration then .error else kind) = StmtKind.binding ↔ kind = .binding := by
  cases kind <;> simp

/-- A statement is cloned once, and linked with its clone. -/
theorem cloneStmt_from (hclonable : Clonable macros nodes S C c attributes src T X Y)
    (hrec : ClonesLinked macros nodes S T C c attributes src X rec) (fuel : ℕ)
    (hblocks : BlocksMapped c blocks s) {id : StmtId} (hid : id ≠ 0 → Y blocks id) :
    (cloning macros nodes S C c attributes src T).From s (cloneStmt rec fuel c id) fun id' t =>
      Linked t.stmtMap id id' := by
  unfold cloneStmt
  refine sourceTables_from.bind ?_
  rintro tables t _ hst ⟨rfl, rfl, hs⟩
  by_cases hzero : id = 0
  · subst hzero
    rw [entry_zero]
    exact From.pure (Or.inl ⟨rfl, rfl⟩)
  obtain ⟨orig, horig, hparts⟩ := hclonable.stmts blocks id (hid hzero)
  rw [entry_of_le hs.source.statements horig]
  refine From.get fun _ => ?_
  refine From.ite (fun hknown => From.pure (Or.inr (mem_of_mapped hknown))) fun _ => ?_
  -- the parts, each from the state the one before it left
  refine (cloneBindingLocal_from orig).bind fun local' u₁ _ h₁ _ => ?_
  have hblocks₁ := hblocks.mono h₁
  refine (cloneOperand_from hrec hblocks₁ (hparts.operands _ (List.mem_cons_self ..))).bind
    fun expression u₂ _ h₂ hexpr => ?_
  have hblocks₂ := hblocks₁.mono h₂
  refine (cloneInitializer_from hrec hblocks₂ hparts).bind fun initializer u₃ _ h₃ hinit => ?_
  have hblocks₃ := hblocks₂.mono h₃
  refine (cloneBindingType_from fuel orig).bind fun type u₄ _ h₄ htype => ?_
  have hblocks₄ := hblocks₃.mono h₄
  refine (From.mapM (R := fun a a' (u : Expander) => Linked u.exprMap a a') (fun _ _ _ _ h hl => linked_later h hl)
    fun a ha u _ hu => cloneInScope_from hrec (hblocks₄.mono hu) (hparts.operands a ?_)).bind
    fun arguments u₅ hu₅ h₅ hargs => ?_
  · exact List.mem_cons_of_mem _ (List.mem_append_right _ ha)
  have hlinked : List.Forall₂ (Linked u₅.exprMap) orig.operands
      (expression :: ((if orig.kind = .binding then [initializer] else []) ++ arguments)) := by
    refine List.Forall₂.cons (linked_later (h₃.trans (h₄.trans h₅)) hexpr) (List.rel_append ?_ hargs)
    split
    · next hbinding => exact .cons (linked_later (h₄.trans h₅) (hinit hbinding)) .nil
    · exact .nil
  have hfreshType : orig.kind = .binding → FreshType S c src orig.binding.type type u₅ :=
    fun hbinding => (htype hbinding).mono h₅
  have hcopied : ∀ newId, CopiedStmt u₅.exprMap orig { orig with
      id := newId, kind := if orig.kind = .declaration then .error else orig.kind
      span := c.callSpan, expression, arguments
      declaration := if orig.kind = .declaration then 0 else orig.declaration
      binding := { orig.binding with id := local', initializer, type } } := by
    intro newId
    refine ⟨rfl, rfl, ?_⟩
    simp only [Statement.operands, copiedKind_eq_binding] at hlinked ⊢
    exact hlinked
  refine (addStatement_from (freshStmt_of_copy hu₅ hparts (hcopied orig.id) ?_ ?_)).bind fun result u₆ _ h₆ hadded => ?_
  · simp only [Statement.attributeIds, copiedKind_eq_binding]
  · intro ty hty hne
    simp only [Statement.typeIds, copiedKind_eq_binding] at hty
    split at hty
    · next hbinding =>
      obtain rfl := List.mem_singleton.mp hty
      exact (hfreshType hbinding).1 hne
    · cases hty
  refine (recordStmt_from hadded.1 fun s' hs' => ?_).bind fun _ u₇ _ _ hmem => From.pure (Or.inr hmem)
  obtain rfl := Option.some.inj (horig.symm.trans hs')
  refine ⟨_, hadded.2, (hcopied result).mono h₆.exprMap, fun m hm => ⟨fun hbinding => ?_, fun ty hty => ?_⟩⟩
  · exact hparts.name m hm ((copiedKind_eq_binding _).mp hbinding)
  · simp only [Statement.typeIds, copiedKind_eq_binding] at hty
    split at hty
    · next hbinding =>
      obtain rfl := List.mem_singleton.mp hty
      refine ((hfreshType hbinding).mono h₆).2 m.paramNames (by rw [hm]; rfl) (hparts.types m hm _ ?_)
      rw [Statement.typeIds, if_pos hbinding]
      exact List.mem_singleton_self _
    · cases hty

/-! ### Expressions -/

theorem replacedBy_eq_none {e : Expression} (h : c.replaces src e = false) : replacedBy c attributes src e = none := by
  unfold replacedBy
  rcases hm : c.template with _ | m
  · rfl
  · rw [Cloning.replaces, hm, Option.any_some, isReplaced, Bool.or_eq_false_iff] at h
    obtain ⟨hfield, hname⟩ := h
    rw [Option.bind_some]
    split
    · next hattr =>
      have hbase : attributesBase src e = none := by simpa [hattr.1, hattr.2] using hfield
      rw [hbase]
      rfl
    · split
      · next hkind =>
        have hparam : m.paramIndex e.text = none := by simpa [hkind] using hname
        rw [hparam]
        rfl
      · rfl

theorem mapped_ne_zero_of_mem (hs : CloneInv macros nodes S C c attributes src T s) {id id' : StmtId}
    (h : (id, id') ∈ s.stmtMap) : mapped s.stmtMap id ≠ 0 := by
  rw [mapped]
  rcases hlookup : s.stmtMap.lookup id with _ | v
  · have hne := List.lookup_eq_none_iff.mp hlookup _ h
    simp at hne
  · exact (hs.stmtMap _ (mem_of_lookup hlookup)).1.ne_zero

/-- The binding of a loop is one of the caller, or it was cloned with the body of the loop. -/
theorem clonedBindingStmt_own (hs : CloneInv macros nodes S C c attributes src T s) {ctx : Ctx} {e : Expression}
    (hparts : ClonableExpr macros nodes S C c src T X Y ctx e) {operands : List ExprId}
    (hoperands : List.Forall₂ (Linked s.exprMap) e.operands operands) (hne : clonedBindingStmt s.stmtMap e ≠ 0) :
    (own S s.snapshot C).stmts (clonedBindingStmt s.stmtMap e) := by
  unfold clonedBindingStmt at hne ⊢
  split at hne
  · next hcloned =>
    rw [if_pos hcloned]
    exact Or.inl (hs.stmtMap _ (mem_of_mapped hcloned.2)).1
  · next hkept =>
    rw [if_neg hkept]
    rcases hparts.bindingStmt hne with hown | ⟨b, hb, body, hbody, hnot, hmem⟩
    · exact own_stmts_mono hs.start.le hown
    · obtain ⟨b', _, hlinked⟩ := exists_of_forall₂ hoperands.flip b hb
      have hlink : (b, b') ∈ s.exprMap := by
        rcases hlinked with ⟨hzero, _⟩ | hlink
        · exact absurd hzero (ne_zero_of_entry hbody)
        · exact hlink
      obtain ⟨_, _, hcopy, _⟩ := ((hs.exprMap _ hlink).2 body hbody).2 hnot
      obtain ⟨stmt', _, hstmt⟩ := exists_of_forall₂ hcopy.statements.flip _ hmem
      rcases hstmt with ⟨hzero, _⟩ | hstmt
      · exact absurd hzero hne
      · exact absurd ⟨hne, mapped_ne_zero_of_mem hs hstmt⟩ hkept

theorem cloneCastType_from (fuel : ℕ) (e : Expression) :
    (cloning macros nodes S C c attributes src T).From s (cloneCastType c fuel e) (FreshType S c src e.castType) := by
  refine From.ite (fun _ => cloneTypeExpr_from fuel _ _) fun hzero => From.pure ?_
  rw [not_not.mp hzero]
  exact ⟨fun hne => absurd rfl hne, fun _ _ _ => .none⟩

/-- An expression that is not replaced is copied part by part, and linked with its copy. -/
theorem copyExpr_from (hclonable : Clonable macros nodes S C c attributes src T X Y)
    (hrec : ClonesLinked macros nodes S T C c attributes src X rec) (fuel : ℕ) {ctx : Ctx} {callScope : ScopeId}
    (hctx : CtxOk S C c ctx callScope s) {id : ExprId} {e : Expression} (he : entry src.expressions id = some e)
    (hnot : c.replaces src e = false) (hparts : ClonableExpr macros nodes S C c src T X Y ctx e) :
    (cloning macros nodes S C c attributes src T).From s (copyExpr rec fuel c callScope id e) fun id' t =>
      Linked t.exprMap id id' := by
  unfold copyExpr
  refine (cloneScope_from hparts hctx).bind ?_
  rintro scope u₁ _ h₁ ⟨hscope, hctx₁⟩
  have hclone : ∀ ids, (∀ op ∈ ids, op ∈ e.operands ++ e.conditions) → ∀ u, Later u₁ u →
      (cloning macros nodes S C c attributes src T).From u (ids.mapM (rec c callScope)) fun ids' t =>
        List.Forall₂ (Linked t.exprMap) ids ids' := by
    intro ids hids u hu
    refine From.mapM (R := fun a a' (u : Expander) => Linked u.exprMap a a') (fun _ _ _ _ h hl => linked_later h hl) ?_
    intro op hop v _ hv
    exact hrec _ callScope op v (hctx₁.mono (hu.trans hv)) (hparts.operands op (hids op hop))
  refine (hclone e.operands (fun _ h => List.mem_append_left _ h) u₁ (Later.refl _)).bind
    fun operands u₂ _ h₂ hoperands => ?_
  refine (From.mapM (R := fun a a' (u : Expander) => Linked u.stmtMap a a') (fun _ _ _ _ (h : Later _ _) hl => Linked.mono h.stmtMap hl)
    fun st hst v _ hv => cloneStmt_from hclonable hrec fuel (fun b hb => (hctx₁.mono (h₂.trans hv)).blocks b hb)
      (hparts.statements st hst)).bind fun statements u₃ _ h₃ hstatements => ?_
  refine (hclone e.conditions (fun _ h => List.mem_append_right _ h) u₃ (h₂.trans h₃)).bind
    fun conditions u₄ _ h₄ hconditions => ?_
  refine (cloneLocalOf_from _).bind fun local' u₅ _ h₅ _ => From.get fun hu₅ => ?_
  refine (cloneCastType_from fuel e).bind fun castType u₆ _ h₆ hcast => ?_
  refine (From.mapM (R := FreshType S c src) (fun _ _ _ _ h hfresh => hfresh.mono h)
    fun a _ u _ _ => cloneTypeExpr_from fuel a u).bind fun genericArgs u₇ hu₇ h₇ hgenerics => ?_
  have h₅₇ := h₆.trans h₇
  have h₄₇ := h₅.trans h₅₇
  have h₃₇ := h₄.trans h₄₇
  have hparts' : List.Forall₂ (Linked u₇.exprMap) (e.operands ++ e.conditions) (operands ++ conditions) :=
    List.rel_append (forall₂_linked_mono (h₃.trans h₃₇).exprMap hoperands) (forall₂_linked_mono h₄₇.exprMap hconditions)
  have hstatements' := forall₂_linked_mono h₃₇.stmtMap hstatements
  have htypes : List.Forall₂ (fun a b => FreshType S c src a b u₇) e.typeIds (castType :: genericArgs) :=
    List.Forall₂.cons (hcast.mono h₇) hgenerics
  refine (addExpression_from ?_).bind fun result u₈ _ h₈ hadded => ?_
  · exact {
      operands := fun op hop hne => by
        obtain ⟨_, _, hlinked⟩ := exists_of_forall₂ hparts' op hop
        exact added_of_linked hu₇ hlinked hne
      statements := fun st hst hne => by
        obtain ⟨_, _, hlinked⟩ := exists_of_forall₂ hstatements' st hst
        exact added_of_linkedStmt hu₇ hlinked hne
      attributes := fun a ha hne => own_exprs_mono hu₇.start.le (hparts.attributes a ha hne)
      bindingStmt := fun hne => own_stmts_mono h₅₇.tables.le
        (clonedBindingStmt_own hu₅ hparts (forall₂_linked_mono (h₃.trans (h₄.trans h₅)).exprMap hoperands) hne)
      scope := fun hne => own_scopes_mono (h₂.trans (h₃.trans h₃₇)).tables.le (hscope hne)
      types := fun ty hty hne => by
        obtain ⟨_, _, hfresh⟩ := exists_of_forall₂ htypes ty hty
        exact hfresh.1 hne
      expansion := fun hne => absurd rfl hne
      gives := hparts.gives }
  refine (recordExpr_from hadded.1 fun e' he' => ?_).bind fun _ _ _ _ hmem => From.pure (Or.inr hmem)
  obtain rfl := Option.some.inj (he.symm.trans he')
  refine ⟨fun arg harg => ?_, fun _ => ?_⟩
  · rw [replacedBy_eq_none hnot] at harg
    cases harg
  refine ⟨_, hadded.2, ⟨rfl, rfl, forall₂_linked_mono h₈.exprMap hparts',
    forall₂_linked_mono h₈.stmtMap hstatements'⟩, fun m hm => ⟨hparts.loop m hm, fun ty hty => ?_⟩⟩
  obtain ⟨ty₀, hty₀, hfresh⟩ := exists_of_forall₂ htypes ty hty
  exact (hfresh.mono h₈).2 m.paramNames (by rw [hm]; rfl) (hparts.types m hm ty₀ hty₀)

/-! ### The call site -/

/-- What was created and what is of the caller may be cloned without a template. -/
theorem clonable_of_good (hC : IsCaller macros nodes S C) (hT : Good macros nodes S C T) (callSpan : TextSpan) :
    Clonable macros nodes S C { callSpan } [] T T (fun _ id => (own S T C).exprs id)
      fun _ id => (own S T C).stmts id where
  exprs := by
    rintro ctx id (hadded | hcaller)
    · obtain ⟨e, he⟩ := exists_entry hadded.ne_zero hadded.2
      have hfresh := hT.exprs id e hadded he
      refine ⟨e, he, nofun, fun _ => ?_⟩
      exact {
        operands := fun op hop hne => Or.inl (hfresh.operands op hop hne)
        statements := fun st hst hne => Or.inl (hfresh.statements st hst hne)
        ownScope := fun _ => hfresh.scope
        nests := nofun
        attributes := hfresh.attributes
        bindingStmt := fun hne => Or.inl (hfresh.bindingStmt hne)
        gives := hfresh.gives
        loop := nofun
        types := nofun }
    · obtain ⟨e, he, hids⟩ := hC.closed.exprs id hcaller
      obtain ⟨e', he', hsame⟩ := hT.oldExprs id e he
      have hgives := hC.gives id e hcaller he
      rw [← hsame] at hids hgives
      refine ⟨e', he', nofun, fun _ => ?_⟩
      exact {
        operands := fun op hop hne => Or.inr (hids.exprs op (List.mem_append_left _ hop) hne)
        statements := fun st hst hne => Or.inr (hids.stmts st (List.mem_append_left _ hst) hne)
        ownScope := fun _ hne => Or.inr (hids.scope hne)
        nests := nofun
        attributes := fun a ha hne => Or.inr (hids.exprs a (List.mem_append_right _ ha) hne)
        bindingStmt := fun hne => Or.inl (Or.inr (hids.stmts _ (List.mem_append_right _ (List.mem_singleton_self _)) hne))
        gives := hgives
        loop := nofun
        types := nofun }
  stmts := by
    rintro blocks id (hadded | hcaller)
    · obtain ⟨st, hst⟩ := exists_entry hadded.ne_zero hadded.2
      have hfresh := hT.stmts id st hadded hst
      refine ⟨st, hst, ?_⟩
      exact ⟨fun op hop hne => Or.inl (hfresh.operands op hop hne), hfresh.attributes, nofun, nofun⟩
    · obtain ⟨st, hst, hids⟩ := hC.closed.stmts id hcaller
      refine ⟨st, hT.oldStmts id st hst, ?_⟩
      exact ⟨fun op hop hne => Or.inr (hids.operands op hop hne),
        fun a ha hne => Or.inr (hids.attributes a ha hne), nofun, nofun⟩

section
variable (macros nodes S C)

/-- A function that clones what was created and what is of the caller. -/
def ClonesArguments (rec : CloneExpr) : Prop :=
  ∀ callSpan T, Good macros nodes S C T →
    ClonesLinked macros nodes S T C { callSpan } [] T (fun _ id => (own S T C).exprs id) rec

end

/-- An argument is cloned beside the template: a new expression of the same kind and text. -/
theorem cloneArgument_from (hC : IsCaller macros nodes S C) (hrec : ClonesArguments macros nodes S C rec)
    (callSpan : TextSpan) (callScope : ScopeId) {arg : ExprId} (hne : arg ≠ 0) (hown : (own S s.snapshot C).exprs arg) :
    (cloning macros nodes S C c attributes src T).From s (cloneArgument rec callSpan callScope arg) fun id' t =>
      Added S.expressions t.snapshot.expressions id' ∧ SameHead t.snapshot arg id' := by
  intro hs id' t hrun
  obtain ⟨_, _, hget, hrun⟩ := bind_eq_some hrun
  obtain ⟨rfl, rfl⟩ := Prod.mk.inj (Option.some.inj hget)
  obtain ⟨_, _, hempty, hrun⟩ := bind_eq_some hrun
  obtain ⟨_, rfl⟩ := Prod.mk.inj (Option.some.inj hempty)
  obtain ⟨result, u, hclone, hrun⟩ := bind_eq_some hrun
  obtain ⟨_, _, hrestore, hrun⟩ := bind_eq_some hrun
  obtain ⟨_, rfl⟩ := Prod.mk.inj (Option.some.inj hrestore)
  obtain ⟨rfl, rfl⟩ := Prod.mk.inj (Option.some.inj hrun)
  -- the clone starts with empty maps
  have hstart : CloneInv macros nodes S C { callSpan } [] s.snapshot s.snapshot
      { s with exprMap := [], stmtMap := [], localMap := [] } :=
    ⟨hs.good, .refl _, .refl _, nofun, nofun, nofun, hs.scopeMap⟩
  obtain ⟨hu, hlater, hlinked⟩ := hrec callSpan s.snapshot hs.good ⟨[], true⟩ callScope arg _ ⟨nofun, nofun⟩
    (fun _ => hown) hstart _ _ hclone
  have hlink : (arg, result) ∈ u.exprMap := by
    rcases hlinked with ⟨hzero, _⟩ | hlink
    · exact absurd hzero hne
    · exact hlink
  obtain ⟨e, he, _⟩ := (clonable_of_good hC hs.good callSpan).exprs {} arg hown
  obtain ⟨hadded, hcopied⟩ := hu.exprMap _ hlink
  obtain ⟨e', he', hcopy, _⟩ := (hcopied e he).2 rfl
  have hback : Later s { u with exprMap := s.exprMap, stmtMap := s.stmtMap } :=
    ⟨hlater.tables, List.suffix_rfl, List.suffix_rfl, hlater.scopeMap, hlater.callAttributes⟩
  refine ⟨?_, ⟨hlater.tables, List.suffix_rfl, List.suffix_rfl, hlater.scopeMap, hlater.callAttributes⟩, hadded, ?_⟩
  · exact {
      good := hu.good
      source := hs.source.trans (sourceOf_le hlater.tables)
      start := hs.start.trans hlater.tables
      callAttributes := fun hsome => (congrArg (·.getD []) hlater.callAttributes).trans (hs.callAttributes hsome)
      exprMap := fun p hp => ⟨(hs.exprMap p hp).1.mono hlater.tables.le.expressions, (hs.exprMap p hp).2.mono hback⟩
      stmtMap := fun p hp => ⟨(hs.stmtMap p hp).1.mono hlater.tables.le.statements, (hs.stmtMap p hp).2.mono hback⟩
      scopeMap := hu.scopeMap }
  · exact ⟨e, e', entry_of_le hlater.tables.expressions he, he', hcopy.kind, hcopy.text⟩

/-! ### Templates -/

/-- The base of an attribute access is the same in tables that have grown. -/
theorem attributesBase_eq {big : Tables} (hle : src.Prefix big) {e : Expression}
    (h : ∀ op, e.operands.head? = some op → op ≠ 0 → ∃ b, entry src.expressions op = some b) :
    attributesBase big e = attributesBase src e := by
  rw [attributesBase, attributesBase]
  rcases hop : e.operands.head? with _ | op
  · rfl
  · rw [Option.bind_some, Option.bind_some]
    by_cases hzero : op = 0
    · rw [hzero, entry_zero, entry_zero]
    · obtain ⟨b, hb⟩ := h op hop hzero
      rw [entry_of_le hle.expressions hb, hb]

/-- Where a template is cloned the first operand of an access is there. -/
theorem exists_base (hclonable : Clonable macros nodes S C c attributes src T X Y) {m : MacroInfo}
    (hm : c.template = some m) {ctx : Ctx} {e : Expression} (hfield : e.kind = .field ∧ m.hasAttributes = true)
    (hparts : c.replaces src e = false → ClonableExpr macros nodes S C c src T X Y ctx e) :
    ∀ op, e.operands.head? = some op → op ≠ 0 → ∃ b, entry src.expressions op = some b := by
  intro op hop hne
  by_cases hbase : (attributesBase src e).isSome = true
  · rw [attributesBase, hop, Option.bind_some] at hbase
    rcases hb : entry src.expressions op with _ | b
    · rw [hb] at hbase
      cases hbase
    · exact ⟨b, rfl⟩
  · have hnot : c.replaces src e = false := by
      rw [Cloning.replaces, hm, Option.any_some, isReplaced]
      simp [hfield.1, hbase]
    obtain ⟨b, hb, _⟩ := hclonable.exprs _ op
      ((hparts hnot).operands op (List.mem_append_left _ (List.mem_of_mem_head? hop)) hne)
    exact ⟨b, hb⟩

/-- An expression is replaced by what it stands for, or not at all. -/
theorem substitute_from (hC : IsCaller macros nodes S C) (hclonable : Clonable macros nodes S C c attributes src T X Y)
    (hrec : ClonesArguments macros nodes S C rec) {ctx : Ctx} {callScope : ScopeId} {e : Expression}
    (hreplaced : c.replaces src e = true →
      ∃ arg, replacedBy c attributes src e = some arg ∧ arg ≠ 0 ∧ (own S T C).exprs arg)
    (hparts : c.replaces src e = false → ClonableExpr macros nodes S C c src T X Y ctx e) :
    (cloning macros nodes S C c attributes src T).From s (substitute rec c callScope e) fun r t =>
      match r with
      | some id' => c.replaces src e = true ∧ Added S.expressions t.snapshot.expressions id' ∧
          ∀ arg, replacedBy c attributes src e = some arg → SameHead t.snapshot arg id'
      | none => c.replaces src e = false := by
  unfold substitute
  rcases hm : c.template with _ | m
  · exact From.pure (by rw [Cloning.replaces, hm]; rfl)
  dsimp only
  have hreplaces : c.replaces src e = isReplaced m src e := by rw [Cloning.replaces, hm, Option.any_some]
  refine From.ite (fun hfield => ?_) fun hfield => From.ite (fun hname => ?_) fun hname => From.pure ?_
  · refine sourceTables_from.bind ?_
    rintro tables t _ hst ⟨rfl, rfl, hs⟩
    rw [attributesBase_eq hs.source (exists_base hclonable hm hfield hparts)]
    rcases hbase : attributesBase src e with _ | base
    · refine From.pure ?_
      rw [hreplaces, isReplaced, hbase]
      simp [hfield.1]
    · have hyes : c.replaces src e = true := by
        rw [hreplaces, isReplaced, hbase]
        simp [hfield.1, hfield.2]
      obtain ⟨arg, harg, hne, hown⟩ := hreplaced hyes
      have hattr : (attributes.find? fun a => a.1 == e.text).map Prod.snd = some arg := by
        rw [replacedBy, hm, Option.bind_some, if_pos hfield, hbase, Option.bind_some] at harg
        exact harg
      obtain ⟨attr, hfind, rfl⟩ := Option.map_eq_some_iff.mp hattr
      refine From.bind (Q := fun id' u => Added S.expressions u.snapshot.expressions id' ∧
        SameHead u.snapshot attr.2 id') ?_ fun id' u _ _ hid' => From.pure ?_
      · unfold substituteAttribute
        refine From.get fun hs => ?_
        rw [hs.callAttributes (by rw [hm]; rfl), hfind]
        exact cloneArgument_from hC hrec _ _ hne (own_exprs_mono hs.start.le hown)
      · rw [if_neg hid'.1.ne_zero]
        refine ⟨hyes, hid'.1, fun arg' harg' => ?_⟩
        obtain rfl := Option.some.inj (harg.symm.trans harg')
        exact hid'.2
  · rcases hparam : m.paramIndex e.text with _ | i
    · refine From.pure ?_
      rw [hreplaces, isReplaced, hparam]
      simp [hname]
    · have hyes : c.replaces src e = true := by
        rw [hreplaces, isReplaced, hparam]
        simp [hname]
      obtain ⟨arg, harg, hne, hown⟩ := hreplaced hyes
      have hargs : c.args[i]? = some arg := by
        rw [replacedBy, hm, Option.bind_some, if_neg hfield, if_pos hname, hparam, Option.bind_some] at harg
        exact harg
      refine present_from.bind ?_
      rintro arg' t ht hst ⟨rfl, harg'⟩
      obtain rfl := Option.some.inj (hargs.symm.trans harg')
      refine (cloneArgument_from hC hrec _ _ hne (own_exprs_mono ht.start.le hown)).bind
        fun id' u _ _ hid' => From.pure ⟨hyes, hid'.1, fun arg' harg' => ?_⟩
      obtain rfl := Option.some.inj (harg.symm.trans harg')
      exact hid'.2
  · rw [hreplaces, isReplaced]
    simp only [Bool.or_eq_false_iff, decide_eq_false_iff_not]
    exact ⟨fun h => hfield ⟨h.1, h.2.1⟩, fun h => hname h.1⟩

/-- Whatever may be cloned is cloned once, and linked with its clone; the induction is on the depth. -/
theorem cloneExpr_from (hC : IsCaller macros nodes S C) : ∀ (fuel : ℕ) {c : Cloning}
    {attributes : List (Text × ExprId)} {src T : Tables} {X : Ctx → ExprId → Prop}
    {Y : List ScopeId → StmtId → Prop}, Clonable macros nodes S C c attributes src T X Y →
      ClonesLinked macros nodes S T C c attributes src X (cloneExpr fuel) := by
  intro fuel
  induction fuel with
  | zero =>
    intro c attributes src T X Y _ ctx callScope id s _ _ _ id' t hrun
    cases hrun
  | succ fuel ih =>
    intro c attributes src T X Y hclonable ctx callScope id s hctx hid
    have hargs : ClonesArguments macros nodes S C (cloneExpr fuel) :=
      fun callSpan T hT => ih (clonable_of_good hC hT callSpan)
    refine sourceTables_from.bind ?_
    rintro tables t _ hst ⟨rfl, rfl, hs⟩
    by_cases hzero : id = 0
    · subst hzero
      rw [entry_zero]
      exact From.pure (Or.inl ⟨rfl, rfl⟩)
    obtain ⟨e, he, hreplaced, hparts⟩ := hclonable.exprs ctx id (hid hzero)
    rw [entry_of_le hs.source.expressions he]
    refine From.get fun _ => ?_
    refine From.ite (fun hknown => From.pure (Or.inr (mem_of_mapped hknown))) fun _ => ?_
    refine (substitute_from hC hclonable hargs hreplaced hparts).bind fun r u _ hu hr => ?_
    rcases r with _ | id'
    · exact copyExpr_from hclonable (ih hclonable) fuel (hctx.mono hu) he hr (hparts hr)
    · refine (recordExpr_from hr.2.1 fun e' he' => ?_).bind fun _ _ _ _ hmem => From.pure (Or.inr hmem)
      obtain rfl := Option.some.inj (he.symm.trans he')
      refine ⟨hr.2.2, fun hnot => ?_⟩
      rw [hnot] at hr
      cases hr.1

end Zith.Frontend
