import Zith.Flow.Infer
import Zith.Frontend.Lexer

/-! The tables of a parsed file. An id is one more than an index into its table, and 0 names nothing. -/

namespace Zith.Frontend
open Flow (BindingKind)

abbrev ExprId := ℕ
abbrev StmtId := ℕ
abbrev ScopeId := ℕ
abbrev TypeExprId := ℕ
abbrev DeclId := ℕ
abbrev LocalId := ℕ
abbrev SymbolId := ℕ

inductive Visibility where
  | «private» | «public» | module
  deriving DecidableEq, Repr

inductive DeclKind where
  | error | macroDecl | importDecl | function | typeAlias | struct | enum | union | trait | interface
  | variable | context | word
  deriving DecidableEq, Repr

inductive ExprKind where
  | error | name | literal | unary | macroCall | binary | dockCall | call | block | «if» | while | «for»
  | forIn | «return» | assign | optionalProp | index | field | arrow | structLiteral | arrayLiteral
  | cast | isNull | isType | sliceRange | packLiteral | when | range | placeholder | whenGuard | pipe
  | pipeDo | pipeCurrent | layoutIntrinsic | ownershipCoerce | functionLiteral
  deriving DecidableEq, Repr

inductive StmtKind where
  | error | expression | binding | discard | defer | declaration | «return» | «break» | «continue» | jump
  deriving DecidableEq, Repr

inductive TypeExprKind where
  | error | name | pointer | optional | array | function | slice | opaqueRaw | opaqueTagged | pack | dyn
  | parenthesized
  deriving DecidableEq, Repr

/-- `OwnershipKind`; `default` is no ownership prefix. -/
inductive OwnershipKind where
  | default | unique | share | lend | view | belong
  deriving DecidableEq, Repr

inductive FunctionKind where
  | standard | const | raw | externC | state
  deriving DecidableEq, Repr

inductive AttributeKind where
  | unknown | alignAs | discardable | likely | noAlias | unlikely | volatile | test
  deriving DecidableEq, Repr

/-- `#[text(argument)]`, before a statement or a binding. -/
structure Attribute where
  text : Text
  argument : ExprId := 0
  kind : AttributeKind := .unknown
  span : TextSpan := ⟨0, 0⟩
  deriving DecidableEq, Repr

/-- `Binding`, of a statement that binds. -/
structure Binding where
  id : LocalId := 0
  name : Text := []
  bindingKind : BindingKind := .let
  span : TextSpan := ⟨0, 0⟩
  type : TypeExprId := 0
  initializer : ExprId := 0
  attributes : List Attribute := []
  deriving DecidableEq, Repr

structure Statement where
  id : StmtId
  kind : StmtKind := .error
  span : TextSpan := ⟨0, 0⟩
  expression : ExprId := 0
  binding : Binding := {}
  declaration : DeclId := 0
  label : Text := []
  arguments : List ExprId := []
  attributes : List Attribute := []
  hasSemicolon : Bool := false
  deriving DecidableEq, Repr

structure Expression where
  id : ExprId
  kind : ExprKind := .error
  span : TextSpan := ⟨0, 0⟩
  text : Text := []
  operands : List ExprId := []
  statements : List StmtId := []
  scope : ScopeId := 0
  conditions : List ExprId := []
  castType : TypeExprId := 0
  forInBinding : LocalId := 0
  forInBindingStmt : StmtId := 0
  genericArgs : List TypeExprId := []
  expansion : ExprId := 0
  expansionIsRaw : Bool := false
  attributeNames : List Text := []
  attributes : List ExprId := []
  declaration : DeclId := 0
  label : Text := []
  fieldNames : List Text := []
  whenIslandOps : List Text := []
  isRaw : Bool := false
  isForSpelling : Bool := false
  forNoCondition : Bool := false
  isRawName : Bool := false
  isAttributeValue : Bool := false
  openAtLo : Bool := false
  openAtHi : Bool := false
  argIsUnevaluated : List Bool := []
  argSpans : List TextSpan := []
  ownership : OwnershipKind := .default
  deriving DecidableEq, Repr

structure TypeExpression where
  id : TypeExprId
  span : TextSpan := ⟨0, 0⟩
  name : Text := []
  arguments : List TypeExprId := []
  kind : TypeExprKind := .error
  segments : List Text := []
  arrayLength : ℕ := 0
  isVariadicSlice : Bool := false
  ownership : OwnershipKind := .default
  isMut : Bool := false
  hasMutKeyword : Bool := false
  isStateFunctionType : Bool := false
  memberNames : List Text := []
  deriving DecidableEq, Repr

structure Scope where
  id : ScopeId
  parent : ScopeId := 0
  span : TextSpan := ⟨0, 0⟩
  deriving DecidableEq, Repr

structure Parameter where
  id : LocalId
  name : Text
  span : TextSpan := ⟨0, 0⟩
  isVariadicSlice : Bool := false
  bindingKind : BindingKind := .let
  defaultValue : ExprId := 0
  type : TypeExprId := 0
  deriving DecidableEq, Repr

/-- `GenericParam`: `constraint` is the first of the constraints. -/
structure GenericParam where
  name : Text
  span : TextSpan
  constraint : TypeExprId := 0
  constraints : List TypeExprId := []
  deriving DecidableEq, Repr

/-- A declaration; it is in the table, so its id is not 0. -/
structure Declaration where
  id : DeclId
  kind : DeclKind
  visibility : Visibility := .private
  span : TextSpan := ⟨0, 0⟩
  isExtern : Bool := false
  externalSymbol : Text := []
  isVariadic : Bool := false
  bindingKind : BindingKind := .const
  discardable : Bool := false
  name : Text
  parameters : List Parameter := []
  initializer : ExprId := 0
  body : ExprId := 0
  ownerName : Text := []
  parentScope : ScopeId := 0
  isAnonymousFunction : Bool := false
  functionKind : FunctionKind := .standard
  externalSymbolSpan : TextSpan := ⟨0, 0⟩
  genericParams : List GenericParam := []
  declaredType : TypeExprId := 0
  parentName : Text := []
  id_ne_zero : id ≠ 0 := by decide
  deriving DecidableEq, Repr

/-- `declaration.parameters.back().isVariadicSlice`, of a declaration that has parameters. -/
def Declaration.isVariadicSlice (d : Declaration) : Bool := d.parameters.getLast?.any Parameter.isVariadicSlice

/-- `FrontendSnapshot` after the parser: the text with its tokens, and the tables. -/
structure ParsedSnapshot extends FrontendSnapshot where
  declarations : List Declaration := []
  expressions : List Expression := []
  statements : List Statement := []
  scopes : List Scope := []
  macroTemplateExprs : List ExprId := []
  macroTemplateStmts : List StmtId := []

/-- An entry of a table, by its id. -/
def entry {α : Type} (table : List α) (id : ℕ) : Option α := if id = 0 then none else table[id - 1]?

theorem entry_eq_some_iff {α : Type} {l : List α} {a : α} {id : ℕ} :
    entry l id = some a ↔ id ≠ 0 ∧ l[id - 1]? = some a := by
  unfold entry
  split
  · simp [*]
  · simp [*]

def ParsedSnapshot.isMacroTemplateExpr (f : ParsedSnapshot) (id : ExprId) : Bool := f.macroTemplateExprs.contains id

def ParsedSnapshot.isMacroTemplateStmt (f : ParsedSnapshot) (id : StmtId) : Bool := f.macroTemplateStmts.contains id

end Zith.Frontend
