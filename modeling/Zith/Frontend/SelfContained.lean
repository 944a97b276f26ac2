import Zith.Frontend.MacroExpander

/-! What it means for an expansion to stand on its own: an id in a node it creates is of a node it creates, or
    of a node of the caller. And what a template must be like for that.

        `NodeSet.Closed` (the caller)   `IsTemplate` (the macros)   ──▶   `SelfContained` -/

namespace Zith.Frontend

/-! ### The ids in a node -/

def Expression.exprIds (e : Expression) : List ExprId := e.operands ++ e.conditions ++ e.attributes

def Expression.stmtIds (e : Expression) : List StmtId := e.statements ++ [e.forInBindingStmt]

def Expression.typeIds (e : Expression) : List TypeExprId := e.castType :: e.genericArgs

/-- The expressions that a statement evaluates; an initializer is one of a binding. -/
def Statement.operands (s : Statement) : List ExprId :=
  s.expression :: ((if s.kind = .binding then [s.binding.initializer] else []) ++ s.arguments)

/-- The expressions in the attributes of a statement. -/
def Statement.attributeIds (s : Statement) : List ExprId :=
  (s.attributes ++ if s.kind = .binding then s.binding.attributes else []).map Attribute.argument

def Statement.typeIds (s : Statement) : List TypeExprId := if s.kind = .binding then [s.binding.type] else []

/-! ### The caller -/

structure NodeSet where
  exprs : ExprId → Prop
  stmts : StmtId → Prop
  scopes : ScopeId → Prop
  types : TypeExprId → Prop

/-- The ids in a node are in the set, but for those of nothing. -/
structure NodeSet.HasExpr (C : NodeSet) (e : Expression) : Prop where
  exprs : ∀ id ∈ e.exprIds, id ≠ 0 → C.exprs id
  stmts : ∀ id ∈ e.stmtIds, id ≠ 0 → C.stmts id
  scope : e.scope ≠ 0 → C.scopes e.scope
  types : ∀ id ∈ e.typeIds, id ≠ 0 → C.types id

structure NodeSet.HasStmt (C : NodeSet) (s : Statement) : Prop where
  operands : ∀ id ∈ s.operands, id ≠ 0 → C.exprs id
  attributes : ∀ id ∈ s.attributeIds, id ≠ 0 → C.exprs id
  types : ∀ id ∈ s.typeIds, id ≠ 0 → C.types id

/-- A set of nodes of some tables that has everything its nodes refer to. -/
structure NodeSet.Closed (C : NodeSet) (S : Tables) : Prop where
  exprs : ∀ id, C.exprs id → ∃ e, entry S.expressions id = some e ∧ C.HasExpr e
  stmts : ∀ id, C.stmts id → ∃ s, entry S.statements id = some s ∧ C.HasStmt s
  scopes : ∀ id, C.scopes id → ∃ sc, entry S.scopes id = some sc ∧ (sc.parent ≠ 0 → C.scopes sc.parent)
  types : ∀ id, C.types id → ∃ t, entry S.typeExpressions id = some t ∧ ∀ a ∈ t.arguments, a ≠ 0 → C.types a

/-! ### What an expansion creates -/

/-- An id of the part that a table has grown by. -/
def Added {α : Type} (old new : List α) (id : ℕ) : Prop := old.length < id ∧ id ≤ new.length

/-- What was created from `S` to `T`, and the caller. -/
def own (S T : Tables) (C : NodeSet) : NodeSet where
  exprs id := Added S.expressions T.expressions id ∨ C.exprs id
  stmts id := Added S.statements T.statements id ∨ C.stmts id
  scopes id := Added S.scopes T.scopes id ∨ C.scopes id
  types id := Added S.typeExpressions T.typeExpressions id ∨ C.types id

/-- Every id in a node created from `S` to `T` is of a node that was created, or of one of the caller. -/
structure SelfContained (S T : Tables) (C : NodeSet) : Prop where
  exprs : ∀ id e, Added S.expressions T.expressions id → entry T.expressions id = some e → (own S T C).HasExpr e
  stmts : ∀ id s, Added S.statements T.statements id → entry T.statements id = some s → (own S T C).HasStmt s
  scopes : ∀ id sc, Added S.scopes T.scopes id → entry T.scopes id = some sc → sc.parent ≠ 0 →
    (own S T C).scopes sc.parent
  types : ∀ id t, Added S.typeExpressions T.typeExpressions id → entry T.typeExpressions id = some t →
    ∀ a ∈ t.arguments, a ≠ 0 → (own S T C).types a

/-- A call that is not expanded yet, with its arguments, attributes and scope in a set. -/
structure NodeSet.HasCall (C : NodeSet) (call : Expression) : Prop where
  kind : call.kind = .macroCall
  expansion : call.expansion = 0
  operands : ∀ id ∈ call.operands, id ≠ 0 → C.exprs id
  attributes : ∀ id ∈ call.attributes, id ≠ 0 → C.exprs id
  scope : call.scope ≠ 0 → C.scopes call.scope

/-- Whatever a call is expanded to refers to what was created and to what the call brings along. -/
def ExpandsSelfContained (macros : List MacroInfo) (st : Expander) (id : ExprId) (C : NodeSet) : Prop :=
  ∀ fuel stack st', expandExpr macros fuel stack id st = some ((), st') → SelfContained st.snapshot st'.snapshot C

/-! ### Parameters -/

/-- The expression an access to an attribute or the name of a parameter is replaced by. -/
def replacedBy (c : Cloning) (attributes : List (Text × ExprId)) (src : Tables) (e : Expression) :
    Option ExprId :=
  c.template.bind fun m =>
    if e.kind = .field ∧ m.hasAttributes then
      (attributesBase src e).bind fun _ => (attributes.find? fun a => a.1 == e.text).map Prod.snd
    else if e.kind = .name then (m.paramIndex e.text).bind fun i => c.args[i]?
    else none

/-- An expression of a template that is replaced. -/
def isReplaced (m : MacroInfo) (src : Tables) (e : Expression) : Bool :=
  (e.kind = .field ∧ m.hasAttributes ∧ (attributesBase src e).isSome) || (e.kind = .name ∧ (m.paramIndex e.text).isSome)

/-- A type expression in which no name of a list occurs. -/
inductive TypeAvoids (types : List TypeExpression) (names : List Text) : TypeExprId → Prop where
  | none : TypeAvoids types names 0
  | node {id : TypeExprId} {t : TypeExpression} : entry types id = some t → t.name ∉ names →
      (∀ a ∈ t.arguments, TypeAvoids types names a) → TypeAvoids types names id

def MacroInfo.paramNames (m : MacroInfo) : List Text := m.params.map Prod.fst

/-- A copy that is linked with its original. -/
def Linked (links : List (ℕ × ℕ)) (id id' : ℕ) : Prop := id = 0 ∧ id' = 0 ∨ (id, id') ∈ links

/-- The copy of an expression that is not replaced: of its kind and text, with copies for its parts. -/
structure CopiedExpr (exprs stmts : List (ℕ × ℕ)) (e e' : Expression) : Prop where
  kind : e'.kind = e.kind
  text : e'.text = e.text
  operands : List.Forall₂ (Linked exprs) (e.operands ++ e.conditions) (e'.operands ++ e'.conditions)
  statements : List.Forall₂ (Linked stmts) e.statements e'.statements

structure CopiedStmt (exprs : List (ℕ × ℕ)) (s s' : Statement) : Prop where
  kind : s'.kind = if s.kind = .declaration then .error else s.kind
  name : s'.binding.name = s.binding.name
  operands : List.Forall₂ (Linked exprs) s.operands s'.operands

/-- The copy of an expression that is replaced. -/
def SameHead (dst : Tables) (id id' : ExprId) : Prop :=
  ∃ e e', entry dst.expressions id = some e ∧ entry dst.expressions id' = some e' ∧ e'.kind = e.kind ∧ e'.text = e.text

/-- A copy of a template: linked nodes are copies, a parameter is linked with a copy of its argument and an
    access to an attribute with a copy of its value, and no parameter is left in a type or as the name of a
    binding. -/
structure IsInstance (m : MacroInfo) (call : Expression) (src dst : Tables) (exprs stmts : List (ℕ × ℕ)) : Prop where
  replaced : ∀ id id' e arg, (id, id') ∈ exprs → entry src.expressions id = some e →
    replacedBy { callSpan := call.span, template := some m, args := call.operands }
      (call.attributeNames.zip call.attributes) src e = some arg → SameHead dst arg id'
  copied : ∀ id id' e, (id, id') ∈ exprs → entry src.expressions id = some e → isReplaced m src e = false →
    ∃ e', entry dst.expressions id' = some e' ∧ CopiedExpr exprs stmts e e' ∧
      (e'.kind = .forIn → e'.text ∉ m.paramNames) ∧
      ∀ t ∈ e'.typeIds, TypeAvoids dst.typeExpressions m.paramNames t
  statements : ∀ id id' s, (id, id') ∈ stmts → entry src.statements id = some s →
    ∃ s', entry dst.statements id' = some s' ∧ CopiedStmt exprs s s' ∧
      (s'.kind = .binding → s'.binding.name ∉ m.paramNames) ∧
      ∀ t ∈ s'.typeIds, TypeAvoids dst.typeExpressions m.paramNames t

/-! ### Templates -/

/-- The blocks around an expression of a template, the innermost first, and whether it is in a statement. -/
structure Ctx where
  blocks : List ScopeId := []
  inStatement : Bool := false

def Ctx.enter (ctx : Ctx) (e : Expression) : Ctx :=
  if e.kind = .block ∧ e.scope ≠ 0 then { ctx with blocks := e.scope :: ctx.blocks } else ctx

/-- The nodes of a template with the blocks they are in, its scopes, and the attributes it reads. -/
structure TemplateNodes where
  exprs : Ctx → ExprId → Prop
  stmts : List ScopeId → StmtId → Prop
  scopes : ScopeId → Prop
  reads : Text → Prop

/-- A block is in a block around it; any other expression has the scope of one. -/
def ScopeNests (src : Tables) (ctx : Ctx) (e : Expression) : Prop :=
  if e.kind = .block ∧ e.scope ≠ 0 then
    ∃ sc, entry src.scopes e.scope = some sc ∧ (ctx.inStatement = true → sc.parent ≠ 0 ∧ sc.parent ∈ ctx.blocks)
  else e.scope ≠ 0 → ctx.inStatement = true → e.scope ∈ ctx.blocks

/-- A call gives every attribute that the template of its macro reads. -/
def GivesAttributes (macros : List MacroInfo) (nodes : MacroInfo → TemplateNodes) (call : Expression) : Prop :=
  ∀ m, macros.find? (fun m => m.name == call.text) = some m → ∀ x, (nodes m).reads x →
    ∃ v, (call.attributeNames.zip call.attributes).find? (fun a => a.1 == x) = some v ∧ v.2 ≠ 0

/-- An expression of a template that is not replaced. No call in a template has attributes, and no type names
    a parameter; the binding of a loop is a statement of its body. -/
structure TemplateExpr (macros : List MacroInfo) (nodes : MacroInfo → TemplateNodes) (m : MacroInfo)
    (src : Tables) (ctx : Ctx) (e : Expression) : Prop where
  operands : ∀ id ∈ e.operands ++ e.conditions, id ≠ 0 → (nodes m).exprs (ctx.enter e) id
  statements : ∀ id ∈ e.statements, id ≠ 0 → (nodes m).stmts (ctx.enter e).blocks id
  scope : ScopeNests src ctx e
  ownScope : e.kind = .block → e.scope ≠ 0 → (nodes m).scopes e.scope
  attributes : e.attributes = []
  nested : e.kind = .macroCall → GivesAttributes macros nodes e
  types : ∀ t ∈ e.typeIds, TypeAvoids src.typeExpressions m.paramNames t
  loop : e.kind = .forIn → e.text ∉ m.paramNames
  bindingStmt : e.forInBindingStmt ≠ 0 → ∃ b ∈ e.operands, ∃ body, entry src.expressions b = some body ∧
    isReplaced m src body = false ∧ e.forInBindingStmt ∈ body.statements

structure TemplateStmt (nodes : MacroInfo → TemplateNodes) (m : MacroInfo) (src : Tables) (blocks : List ScopeId)
    (s : Statement) : Prop where
  operands : ∀ id ∈ s.operands, id ≠ 0 → (nodes m).exprs ⟨blocks, true⟩ id
  attributes : ∀ id ∈ s.attributeIds, id = 0
  types : ∀ t ∈ s.typeIds, TypeAvoids src.typeExpressions m.paramNames t
  name : s.kind = .binding → s.binding.name ∉ m.paramNames

/-- A template, from its body on. -/
structure IsTemplate (macros : List MacroInfo) (nodes : MacroInfo → TemplateNodes) (src : Tables)
    (m : MacroInfo) : Prop where
  body : m.body ≠ 0 → (nodes m).exprs {} m.body
  exprs : ∀ ctx id, (nodes m).exprs ctx id → ∃ e, entry src.expressions id = some e ∧
    (e.kind = .field → m.hasAttributes = true → (attributesBase src e).isSome = true → (nodes m).reads e.text) ∧
    (isReplaced m src e = false → TemplateExpr macros nodes m src ctx e)
  stmts : ∀ blocks id, (nodes m).stmts blocks id → ∃ s, entry src.statements id = some s ∧
    TemplateStmt nodes m src blocks s

/-- The templates of the macros, each in its source; their scopes are not of the caller. -/
structure AreTemplates (macros : List MacroInfo) (nodes : MacroInfo → TemplateNodes) (S : Tables) (C : NodeSet) :
    Prop where
  templates : ∀ m ∈ macros, IsTemplate macros nodes (m.source.getD S) m
  apart : ∀ m ∈ macros, m.source = none → ∀ id, (nodes m).scopes id → ¬C.scopes id

/-- The caller: a closed set of nodes whose calls give the attributes that are read. -/
structure IsCaller (macros : List MacroInfo) (nodes : MacroInfo → TemplateNodes) (S : Tables) (C : NodeSet) :
    Prop where
  closed : C.Closed S
  gives : ∀ id e, C.exprs id → entry S.expressions id = some e → e.kind = .macroCall → GivesAttributes macros nodes e

end Zith.Frontend
