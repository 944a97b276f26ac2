import Zith.Frontend.Snapshot

/-! `MacroExpander`: a macro call is checked, its template is cloned with the arguments in the place of the
    parameters, the clones of the template's own names are renamed, and the result is walked for further
    calls. The tables grow at their ends. A read outside of a table, and a recursion deeper than the fuel,
    have no result.

        checkCall ──▶ cloneExpr ──▶ renameHygienic ──▶ wrapExpansion ──▶ the walk over the expansion -/

namespace Zith.Frontend

/-! ### Tables and macros -/

/-- The tables of a snapshot that an expansion reads and adds to. -/
structure Tables where
  expressions : List Expression := []
  statements : List Statement := []
  scopes : List Scope := []
  typeExpressions : List TypeExpression := []
  deriving DecidableEq, Repr

/-- `MacroInfo`: a parameter is its name and its meta type. A macro of the module itself has no `source` of
    its own: its template is in the tables that grow. -/
structure MacroInfo where
  name : Text
  isRaw : Bool := false
  isTag : Bool := false
  hasAttributes : Bool := false
  params : List (Text × Text) := []
  body : ExprId := 0
  source : Option Tables := none

/-- The first parameter of a name. -/
def MacroInfo.paramIndex (m : MacroInfo) (name : Text) : Option ℕ := m.params.findIdx? fun p => p.1 == name

inductive MacroError where
  | unknown | arity | recursion | argKind | attrNotAllowed | tagValue | rawValue | attrUnknown
  deriving DecidableEq, Repr

structure MacroDiagnostic extends Diagnostic where
  code : MacroError
  deriving DecidableEq, Repr

/-- The expander, with the maps of the clone in progress. -/
structure Expander where
  snapshot : Tables
  diagnostics : List MacroDiagnostic := []
  nonHygienicExprs : List ExprId := []
  nonHygienicStmts : List StmtId := []
  scopeMap : List (ScopeId × ScopeId) := []
  callAttributes : Option (List (Text × ExprId)) := none
  callSpanForAttrs : TextSpan := ⟨0, 0⟩
  hygieneCounter : ℕ := 1
  nextLocalId : ℕ := 1
  exprMap : List (ExprId × ExprId) := []
  stmtMap : List (StmtId × StmtId) := []
  localMap : List (LocalId × LocalId) := []
  deriving DecidableEq

abbrev Expand := StateT Expander Option

def undefinedRead {α : Type} : Expand α := fun _ => none

/-- A value a table has. -/
def present {α : Type} (value : Option α) : Expand α := fun st => value.map fun a => (a, st)

/-- What a map holds for an id, 0 when it holds nothing. -/
def mapped (map : List (ℕ × ℕ)) (id : ℕ) : ℕ := (map.lookup id).getD 0

/-! ### Tables grow -/

def addExpression (expr : Expression) : Expand ExprId := fun st =>
  let id := st.snapshot.expressions.length + 1
  some (id, { st with snapshot.expressions := st.snapshot.expressions ++ [{ expr with id }] })

def addStatement (stmt : Statement) : Expand StmtId := fun st =>
  let id := st.snapshot.statements.length + 1
  some (id, { st with snapshot.statements := st.snapshot.statements ++ [{ stmt with id }] })

def addScope (scope : Scope) : Expand ScopeId := fun st =>
  let id := st.snapshot.scopes.length + 1
  some (id, { st with snapshot.scopes := st.snapshot.scopes ++ [{ scope with id }] })

def addTypeExpression (te : TypeExpression) : Expand TypeExprId := fun st =>
  let id := st.snapshot.typeExpressions.length + 1
  some (id, { st with snapshot.typeExpressions := st.snapshot.typeExpressions ++ [{ te with id }] })

def recordExpr (src result : ExprId) : Expand Unit := fun st =>
  some ((), { st with exprMap := (src, result) :: st.exprMap })

def recordStmt (src result : StmtId) : Expand Unit := fun st =>
  some ((), { st with stmtMap := (src, result) :: st.stmtMap })

def report (span : TextSpan) (message : Text) (code : MacroError) : Expand Unit := fun st =>
  some ((), { st with diagnostics := st.diagnostics ++ [{ span, message, code }] })

def cloneLocal (src : LocalId) : Expand LocalId := fun st =>
  if src = 0 then some (0, st)
  else if mapped st.localMap src ≠ 0 then some (mapped st.localMap src, st)
  else some (st.nextLocalId,
    { st with nextLocalId := st.nextLocalId + 1, localMap := (src, st.nextLocalId) :: st.localMap })

/-! ### Clones -/

/-- What a clone is of: a template with the arguments of a call, or (without a template) an expression of the
    call site. -/
structure Cloning where
  callSpan : TextSpan
  template : Option MacroInfo := none
  args : List ExprId := []

/-- `source`. -/
def Cloning.sourceOf (c : Cloning) (st : Expander) : Tables := (c.template.bind (·.source)).getD st.snapshot

def sourceTables (c : Cloning) : Expand Tables := fun st => some (c.sourceOf st, st)

def mappedScope (scopeMap : List (ScopeId × ScopeId)) (templateScope callScope : ScopeId) : ScopeId :=
  if templateScope = 0 then callScope else (scopeMap.lookup templateScope).getD callScope

/-- The scope of a copy. A block of a template gets a scope of its own, under the clone of its parent. -/
def cloneScope (c : Cloning) (callScope : ScopeId) (orig : Expression) : Expand ScopeId := do
  if c.template.isNone then return orig.scope
  if orig.kind = .block ∧ orig.scope ≠ 0 then
    let scope ← present (entry (← sourceTables c).scopes orig.scope)
    let id ← addScope { id := 0, parent := mappedScope (← get).scopeMap scope.parent callScope, span := c.callSpan }
    modify fun st => { st with scopeMap := (orig.scope, id) :: st.scopeMap }
    return id
  if orig.scope ≠ 0 then return mappedScope (← get).scopeMap orig.scope callScope
  return orig.scope

/-- `cloneTypeExpr`. -/
def cloneTypeExpr (c : Cloning) : ℕ → TypeExprId → Expand TypeExprId
  | 0, _ => undefinedRead
  | fuel + 1, src => do
    match entry (← sourceTables c).typeExpressions src with
    | none => return 0
    | some orig =>
      let arguments ← orig.arguments.mapM (cloneTypeExpr c fuel)
      addTypeExpression { orig with span := ⟨0, 0⟩, arguments }

/-- A function that clones an expression: what it is of, the call scope and the expression. -/
abbrev CloneExpr := Cloning → ScopeId → ExprId → Expand ExprId

/-- A clone of an expression of the call site, with maps of its own; hygiene leaves its names alone. -/
def cloneArgument (rec : CloneExpr) (callSpan : TextSpan) (callScope : ScopeId) (src : ExprId) :
    Expand ExprId := do
  let before ← get
  modify fun st => { st with exprMap := [], stmtMap := [], localMap := [] }
  let result ← rec { callSpan } callScope src
  modify fun st =>
    { st with
      exprMap := before.exprMap, stmtMap := before.stmtMap, localMap := before.localMap
      nonHygienicExprs := st.nonHygienicExprs ++
        (List.range' (before.snapshot.expressions.length + 1)
          (st.snapshot.expressions.length - before.snapshot.expressions.length))
      nonHygienicStmts := st.nonHygienicStmts ++
        (List.range' (before.snapshot.statements.length + 1)
          (st.snapshot.statements.length - before.snapshot.statements.length)) }
  return result

/-- The name `attributes` that a field access is of. -/
def attributesBase (tables : Tables) (field : Expression) : Option Expression :=
  (field.operands.head?.bind (entry tables.expressions)).filter fun base =>
    base.kind = .name && base.text = text "attributes"

/-- `substituteAttribute`, of an access to `attributes`. -/
def substituteAttribute (rec : CloneExpr) (m : MacroInfo) (field base : Expression) : Expand ExprId := do
  let st ← get
  match (st.callAttributes.getD []).find? fun attr => attr.1 == field.text with
  | some attr => cloneArgument rec st.callSpanForAttrs base.scope attr.2
  | none =>
    report st.callSpanForAttrs (text "macro '" ++ m.name ++ text "' has no attribute '" ++ field.text ++
      text "' at this call site") .attrUnknown
    addExpression { id := 0, kind := .error, span := st.callSpanForAttrs, scope := base.scope }

/-- What stands in the place of an expression of a template: an argument, or the value of an attribute when
    it has a clone. -/
def substitute (rec : CloneExpr) (c : Cloning) (callScope : ScopeId) (orig : Expression) :
    Expand (Option ExprId) := do
  match c.template with
  | none => return none
  | some m =>
    if orig.kind = .field ∧ m.hasAttributes then
      match attributesBase (← sourceTables c) orig with
      | some base =>
        let value ← substituteAttribute rec m orig base
        return if value = 0 then none else some value
      | none => return none
    else if orig.kind = .name then
      match m.paramIndex orig.text with
      | some i => return some (← cloneArgument rec c.callSpan callScope (← present c.args[i]?))
      | none => return none
    else return none

/-- The scope that the expressions of a statement are cloned with: that of the original. -/
def sourceScope (c : Cloning) (src : ExprId) : Expand ScopeId := do
  if src = 0 then return 0
  return (← present (entry (← sourceTables c).expressions src)).scope

/-- An expression of a statement. -/
def cloneOperand (rec : CloneExpr) (c : Cloning) (src : ExprId) : Expand ExprId := do
  if src = 0 then return 0
  rec c (← sourceScope c src) src

/-- An argument of a statement, with the scope of its original. -/
def cloneInScope (rec : CloneExpr) (c : Cloning) (src : ExprId) : Expand ExprId := do
  rec c (← sourceScope c src) src

/-- The local of a binding or a loop; it is the caller's own outside of templates. -/
def cloneLocalOf (c : Cloning) (src : LocalId) : Expand LocalId :=
  if c.template.isSome then cloneLocal src else return src

def cloneBindingLocal (c : Cloning) (orig : Statement) : Expand LocalId :=
  if orig.kind = .binding then cloneLocalOf c orig.binding.id else return orig.binding.id

def cloneInitializer (rec : CloneExpr) (c : Cloning) (orig : Statement) : Expand ExprId :=
  if orig.kind = .binding then cloneOperand rec c orig.binding.initializer else return orig.binding.initializer

def cloneBindingType (c : Cloning) (fuel : ℕ) (orig : Statement) : Expand TypeExprId :=
  if orig.kind = .binding ∧ orig.binding.type ≠ 0 then cloneTypeExpr c fuel orig.binding.type
  else return orig.binding.type

/-- `cloneStmt`. A declaration is left out. -/
def cloneStmt (rec : CloneExpr) (fuel : ℕ) (c : Cloning) (src : StmtId) : Expand StmtId := do
  match entry (← sourceTables c).statements src with
  | none => return 0
  | some orig =>
    let st ← get
    if mapped st.stmtMap src ≠ 0 then return mapped st.stmtMap src
    else
      let id ← cloneBindingLocal c orig
      let expression ← cloneOperand rec c orig.expression
      let initializer ← cloneInitializer rec c orig
      let type ← cloneBindingType c fuel orig
      let arguments ← orig.arguments.mapM (cloneInScope rec c)
      let result ← addStatement { orig with
        kind := if orig.kind = .declaration then .error else orig.kind
        span := c.callSpan, expression, arguments
        declaration := if orig.kind = .declaration then 0 else orig.declaration
        binding := { orig.binding with id, initializer, type } }
      recordStmt src result
      return result

/-- The statement that binds the element of a loop: its clone, when there is one. -/
def clonedBindingStmt (stmtMap : List (StmtId × StmtId)) (orig : Expression) : StmtId :=
  if orig.forInBindingStmt ≠ 0 ∧ mapped stmtMap orig.forInBindingStmt ≠ 0 then mapped stmtMap orig.forInBindingStmt
  else orig.forInBindingStmt

def cloneCastType (c : Cloning) (fuel : ℕ) (orig : Expression) : Expand TypeExprId :=
  if orig.castType ≠ 0 then cloneTypeExpr c fuel orig.castType else return 0

/-- The copy of an expression that is not replaced. -/
def copyExpr (rec : CloneExpr) (fuel : ℕ) (c : Cloning) (callScope : ScopeId) (src : ExprId)
    (orig : Expression) : Expand ExprId := do
  let scope ← cloneScope c callScope orig
  let operands ← orig.operands.mapM (rec c callScope)
  let statements ← orig.statements.mapM (cloneStmt rec fuel c)
  let conditions ← orig.conditions.mapM (rec c callScope)
  let forInBinding ← cloneLocalOf c orig.forInBinding
  let st ← get
  let castType ← cloneCastType c fuel orig
  let genericArgs ← orig.genericArgs.mapM (cloneTypeExpr c fuel)
  let result ← addExpression { orig with
    span := c.callSpan, expansion := 0, expansionIsRaw := false, scope, operands, statements, conditions
    forInBinding, castType, genericArgs, forInBindingStmt := clonedBindingStmt st.stmtMap orig }
  recordExpr src result
  return result

/-- `cloneExpr`. -/
def cloneExpr : ℕ → CloneExpr
  | 0, _, _, _ => undefinedRead
  | fuel + 1, c, callScope, src => do
    match entry (← sourceTables c).expressions src with
    | none => return 0
    | some orig =>
      let st ← get
      if mapped st.exprMap src ≠ 0 then return mapped st.exprMap src
      else
        match ← substitute (cloneExpr fuel) c callScope orig with
        | some replaced =>
          recordExpr src replaced
          return replaced
        | none => copyExpr (cloneExpr fuel) fuel c callScope src orig

/-! ### A call -/

def kMaxExpansionDepth : ℕ := 64

/-- `prependTrace`. -/
def prependTrace (message : Text) (stack : List Text) : Text :=
  stack.foldr (fun name message => text "in expansion of macro '" ++ name ++ text "': " ++ message) message

/-- An expression is used as a value unless it is a statement of its own. -/
def contextIsValue (tables : Tables) (id : ExprId) : Bool :=
  !tables.expressions.any fun ex => ex.statements.any fun sid =>
    (entry tables.statements sid).any fun stmt => stmt.kind = .expression && stmt.expression == id

/-- What is wrong with an argument: nothing, an id of no expression (which is not reported), or its kind. -/
def checkArgument (m : MacroInfo) (tables : Tables) (stack : List Text) (param : Text × Text) (argId : ExprId) :
    Option (Option MacroDiagnostic) :=
  let wrong (arg : Expression) (expected : Text) : MacroDiagnostic :=
    let message := expected ++ text " for parameter '" ++ param.1 ++ text "' of macro '" ++ m.name ++ text "'"
    { span := arg.span, message := prependTrace message stack, code := .argKind }
  match entry tables.expressions argId with
  | none => some none
  | some arg =>
    if param.2 = text "identifier" ∧ arg.kind ≠ .name then some (some (wrong arg (text "expected an identifier")))
    else if (param.2 = text "block" ∨ param.2 = text "body") ∧ arg.kind ≠ .block then
      some (some (wrong arg (text "expected a block")))
    else none

/-- A check of a call, which fails when a condition holds. -/
def failWhen (condition : Prop) [Decidable condition] (problem : MacroDiagnostic) :
    Except (Option MacroDiagnostic) Unit :=
  if condition then .error (some problem) else .ok ()

local instance lawfulText : LawfulBEq Text := List.instLawfulBEq

/-- The macro of a call, or why the call is not expanded. -/
def checkCall (macros : List MacroInfo) (stack : List Text) (tables : Tables) (call : Expression) :
    Except (Option MacroDiagnostic) MacroInfo :=
  let problem (message : Text) (code : MacroError) : MacroDiagnostic :=
    { span := call.span, message := prependTrace message stack, code }
  match macros.find? fun m => m.name == call.text with
  | none => .error (some (problem (text "unknown macro '" ++ call.text ++ text "'") .unknown))
  | some m => do
    failWhen (call.operands.length ≠ m.params.length) (problem
      (text "macro '" ++ call.text ++ text "' expects " ++ text (toString m.params.length) ++
        text " arguments but " ++ text (toString call.operands.length) ++ text " were provided") .arity)
    failWhen (stack.length ≥ kMaxExpansionDepth)
      (problem (text "macro recursion limit exceeded at '" ++ call.text ++ text "'") .recursion)
    failWhen (m.name ∈ stack) (problem
      (text "in expansion of macro '" ++ m.name ++ text "': recursive macro expansion detected") .recursion)
    match (m.params.zip call.operands).findSome? fun p => checkArgument m tables stack p.1 p.2 with
    | some wrong => .error wrong
    | none =>
      failWhen (call.attributes ≠ [] ∧ !m.hasAttributes) (problem
        (text "macro '" ++ m.name ++ text "' does not declare an 'attributes' parameter") .attrNotAllowed)
      failWhen (m.isTag ∧ contextIsValue tables call.id)
        (problem (text "tag macro '" ++ call.text ++ text "' cannot be used as a value") .tagValue)
      failWhen (m.isRaw ∧ contextIsValue tables call.id)
        (problem (text "raw macro '" ++ call.text ++ text "' cannot be used as a value") .rawValue)
      .ok m

/-- `collectHygieneNames`. -/
def collectHygieneNames (tables : Tables) : ℕ → ExprId → Option (List Text)
  | 0, _ => none
  | fuel + 1, body =>
    match entry tables.expressions body with
    | none => some []
    | some expr => do
      let fromStatements ← expr.statements.mapM fun sid =>
        match entry tables.statements sid with
        | none => some []
        | some stmt => do
          let fromArguments ← stmt.arguments.mapM (collectHygieneNames tables fuel)
          return (if stmt.kind = .binding then [stmt.binding.name] else []) ++ fromArguments.flatten
      let fromOperands ← expr.operands.mapM (collectHygieneNames tables fuel)
      return fromStatements.flatten ++ fromOperands.flatten

/-- `hygieneName` of every name, the last first, and the counter after. -/
def hygieneMap (names : List Text) (counter : ℕ) : List (Text × Text) × ℕ :=
  names.foldl (fun acc name => ((name, name ++ text "$m" ++ text (toString acc.2)) :: acc.1, acc.2 + 1))
    ([], counter)

def renamed (renames : List (Text × Text)) (name : Text) : Text := (renames.lookup name).getD name

/-- The names of the nodes that are added from some counts on, but for those of the call site. -/
def renameHygienic (renames : List (Text × Text)) (origExprCount origStmtCount : ℕ) : Expand Unit :=
  modify fun st => { st with
    snapshot.expressions := st.snapshot.expressions.mapIdx fun ei e =>
      if ei < origExprCount ∨ ei + 1 ∈ st.nonHygienicExprs ∨ e.kind ≠ .name then e
      else { e with text := renamed renames e.text }
    snapshot.statements := st.snapshot.statements.mapIdx fun si s =>
      if si < origStmtCount ∨ si + 1 ∈ st.nonHygienicStmts ∨ s.kind ≠ .binding then s
      else { s with binding.name := renamed renames s.binding.name } }

/-- `scopes_[id - 1].parent = parent`. -/
def setParent (id parent : ScopeId) : Expand Unit := do
  let _ ← present (entry (← get).snapshot.scopes id)
  modify fun st => { st with
    snapshot.scopes := st.snapshot.scopes.modify (id - 1) fun scope => { scope with parent } }

/-- The scope of the block that stands for a call; that of a raw macro has none of its own. -/
def expansionScope (m : MacroInfo) (call : Expression) : Expand ScopeId :=
  if m.isRaw then return call.scope else addScope { id := 0, parent := call.scope, span := call.span }

/-- A block that was cloned is put below the scope of the call. -/
def reparent (block : Expression) (scope : ScopeId) : Expand Unit :=
  if block.scope ≠ 0 then setParent block.scope scope else return ()

/-- The block that stands for a call: the clone itself, its statements, or a statement with it. -/
def wrapExpansion (m : MacroInfo) (call : Expression) (expandedBody : ExprId) : Expand ExprId := do
  let scope ← expansionScope m call
  let block : Expression := { id := 0, kind := .block, span := call.span, scope }
  if expandedBody = 0 then addExpression block
  else
    let expanded ← present (entry (← get).snapshot.expressions expandedBody)
    if expanded.kind = .block ∧ !m.isRaw then
      reparent expanded call.scope
      return expandedBody
    else if expanded.kind = .block then addExpression { block with statements := expanded.statements }
    else
      let stmt ← addStatement { id := 0, kind := .expression, expression := expandedBody, span := call.span }
      addExpression { block with statements := [stmt] }

/-- The template of a macro, cloned for a call. -/
def cloneTemplate (fuel : ℕ) (m : MacroInfo) (call : Expression) : Expand ExprId := do
  modify fun st => { st with
    scopeMap := [], exprMap := [], stmtMap := [], localMap := []
    callAttributes := some (call.attributeNames.zip call.attributes), callSpanForAttrs := call.span }
  cloneExpr fuel { callSpan := call.span, template := some m, args := call.operands } call.scope m.body

/-- The names that hygiene renames; a raw macro is not hygienic. -/
def hygieneNames (fuel : ℕ) (m : MacroInfo) : Expand (List Text) := do
  if m.isRaw then return []
  else present (collectHygieneNames (m.source.getD (← get).snapshot) fuel m.body)

/-- The expansion of a call. -/
def instantiate (fuel : ℕ) (m : MacroInfo) (call : Expression) : Expand ExprId := do
  let st ← get
  let names ← hygieneNames fuel m
  modify fun st => { st with hygieneCounter := (hygieneMap names st.hygieneCounter).2 }
  let expandedBody ← cloneTemplate fuel m call
  renameHygienic (hygieneMap names st.hygieneCounter).1 st.snapshot.expressions.length st.snapshot.statements.length
  let result ← wrapExpansion m call expandedBody
  modify fun st => { st with callAttributes := none }
  return result

/-! ### The walk -/

def setExpansion (id result : ExprId) (isRaw : Bool) : Expand Unit :=
  modify fun st => { st with
    snapshot.expressions := st.snapshot.expressions.modify (id - 1) fun e =>
      { e with expansion := result, expansionIsRaw := isRaw } }

def setStatements (id : ExprId) (statements : List StmtId) : Expand Unit :=
  modify fun st => { st with
    snapshot.expressions := st.snapshot.expressions.modify (id - 1) fun e => { e with statements } }

/-- The statements that take the place of a statement: those of a raw macro that was expanded before. -/
def splice (stmt : Statement) : Expand (Option (List StmtId)) := do
  if stmt.kind = .expression ∧ stmt.expression ≠ 0 then
    let es ← present (entry (← get).snapshot.expressions stmt.expression)
    if es.kind = .macroCall ∧ es.expansion ≠ 0 ∧ es.expansionIsRaw then
      return some (← present (entry (← get).snapshot.expressions es.expansion)).statements
    else return none
  else return none

def walkOperand (expand : ExprId → Expand Unit) (id : ExprId) : Expand Unit :=
  if id ≠ 0 then expand id else return ()

def walkInitializer (expand : ExprId → Expand Unit) (stmt : Statement) : Expand Unit :=
  if stmt.kind = .binding then walkOperand expand stmt.binding.initializer else return ()

/-- The expressions of a statement. -/
def walkStatement (expand : ExprId → Expand Unit) (stmt : Statement) : Expand Unit := do
  walkOperand expand stmt.expression
  walkInitializer expand stmt
  stmt.arguments.forM expand

/-- The statements of an expression from `si` on, as they are when each is reached. -/
def walkStatements (expand : ExprId → Expand Unit) (id : ExprId) : ℕ → ℕ → Expand Unit
  | 0, _ => undefinedRead
  | fuel + 1, si => do
    let expr ← present (entry (← get).snapshot.expressions id)
    match expr.statements[si]? with
    | none => return ()
    | some sid =>
      match entry (← get).snapshot.statements sid with
      | none => walkStatements expand id fuel (si + 1)
      | some stmt =>
        match ← splice stmt with
        | some inserted =>
          setStatements id (expr.statements.take si ++ inserted ++ expr.statements.drop (si + 1))
          walkStatements expand id fuel si
        | none =>
          walkStatement expand stmt
          walkStatements expand id fuel (si + 1)

/-- `expandExpr`. -/
def expandExpr (macros : List MacroInfo) : ℕ → List Text → ExprId → Expand Unit
  | 0, _, _ => undefinedRead
  | fuel + 1, stack, id => do
    match entry (← get).snapshot.expressions id with
    | none => return ()
    | some expr =>
      if expr.kind = .macroCall ∧ expr.expansion = 0 then
        match checkCall macros stack (← get).snapshot expr with
        | .error none => return ()
        | .error (some d) => report d.span d.message d.code
        | .ok m =>
          let result ← instantiate fuel m expr
          setExpansion id result m.isRaw
          expandExpr macros fuel (stack ++ [m.name]) result
      else
        expr.operands.forM (expandExpr macros fuel stack)
        walkStatements (expandExpr macros fuel stack) id fuel 0
        expr.conditions.forM (expandExpr macros fuel stack)

end Zith.Frontend
