import Zith.Frontend.Snapshot

/-! `SraFacts`: before the lowering, one walk over each function collects what is known of its locals, of its calls and
    of what it returns. All modules of a compilation write to the same tables, and the locals and the calls of a module
    are known there by their ids alone.

        fn f(a, b) { .. a }        the last expression is a parameter ──▶ "returns a"
        return b;                  a statement, whose expression is walked as any other one -/

namespace Zith.Sema
open Zith.Frontend

inductive SraArgEscape
  | borrow
  | escape
  | move
  deriving DecidableEq

structure SraLocalFact where
  declaredType : ℕ := 0
  ownership : OwnershipKind := .default
  knownAlive : Bool := true
  nonNull : Bool := false
  deriving DecidableEq

/-- `module` is the one whose call it is; the source does not keep it. -/
structure SraCallFact where
  module : String
  returnsArgument : Option ℕ := none
  argEscapes : List SraArgEscape
  argRepeated : List Bool
  duplicatedShareOrView : Bool := false
  deriving DecidableEq

structure SraFunctionFact where
  allReturnsParameter : Bool
  parameterIndex : Option ℕ
  deriving DecidableEq

structure SraFunction where
  id : DeclId
  parameters : List LocalId
  body : ExprId

/-- What the analysis reads of a module: its tables, what its names resolve to, and the types of its locals. -/
structure SraModule where
  key : String
  functions : List SraFunction
  expressions : List Expression
  statements : List Statement
  localOfName : ExprId → LocalId
  /-- The type of a local and the ownership that it is qualified with. -/
  localType : LocalId → Option (ℕ × OwnershipKind)
  isPointer : LocalId → Bool
  /-- The ownership of a field. -/
  fieldOwnership : ExprId → Option OwnershipKind
  /-- The function that a name in front of a call resolves to. -/
  callee : ExprId → Option (String × DeclId)
  localOfName_name : ∀ id, localOfName id ≠ 0 → ∃ e ∈ expressions, e.id = id ∧ e.kind = .name
  expression_id : ∀ i e, expressions[i]? = some e → e.id = i + 1
  /-- The parser makes a statement of `return`, and statements of all that is in a block. -/
  no_return : ∀ e ∈ expressions, e.kind ≠ .return
  block_operands : ∀ e ∈ expressions, e.kind = .block → e.operands = []
  body_block : ∀ f ∈ functions, f.body = 0 ∨ ∃ e, expressions[f.body - 1]? = some e ∧ e.kind = .block
  function_ids : (functions.map SraFunction.id).Nodup

structure SraState where
  localFacts : LocalId → Option SraLocalFact := fun _ => none
  callFacts : ExprId → Option SraCallFact := fun _ => none
  functionFacts : String × DeclId → Option SraFunctionFact := fun _ => none
  volatileLocals : List LocalId := []
  currentCondition : ExprId := 0
  currentParams : List LocalId := []
  anyReturn : Bool := false
  allReturnsSameParameter : Bool := true
  returnedParameter : Option ℕ := none

namespace SraState

/-- `local_facts_[id]`, changed. -/
def changeLocal (s : SraState) (id : LocalId) (change : SraLocalFact → SraLocalFact) : SraState :=
  { s with localFacts := Function.update s.localFacts id (some (change ((s.localFacts id).getD {}))) }

/-- A parameter is returned. -/
def returnsParameter (s : SraState) (index : ℕ) : SraState :=
  match s.returnedParameter with
  | none => { s with returnedParameter := some index }
  | some returned => { s with allReturnsSameParameter := s.allReturnsSameParameter && returned = index }

/-- A local is returned, or anything else (0). -/
def returnsLocal (s : SraState) (id : LocalId) : SraState :=
  if id ≠ 0 ∧ id ∈ s.currentParams then s.returnsParameter (s.currentParams.idxOf id) else s

end SraState

namespace SraModule

variable (M : SraModule)

def expr (id : ExprId) : Option Expression := if id = 0 then none else M.expressions[id - 1]?

def statement (id : StmtId) : Option Statement := if id = 0 then none else M.statements[id - 1]?

/-- The local of an operand. -/
def operandLocal (e : Expression) : LocalId := (e.operands.head?.map M.localOfName).getD 0

def ownershipOfLocal (s : SraState) (id : LocalId) : OwnershipKind :=
  match s.localFacts id with
  | some fact => if id ≠ 0 then fact.ownership else ((M.localType id).map (·.2)).getD .default
  | none => ((M.localType id).map (·.2)).getD .default

/-- A parameter or a binding. -/
def declareLocal (id : LocalId) (s : SraState) : SraState :=
  let fact : SraLocalFact := match M.localType id with
    | some (type, _) => { declaredType := type, ownership := M.ownershipOfLocal s id }
    | none => {}
  { s with localFacts := Function.update s.localFacts id (some fact) }

/-! ### Calls -/

/-- The local of an argument, through ownership annotations and fields. -/
def localOfArgument : ℕ → ExprId → Option LocalId
  | 0, _ => none
  | depth + 1, id =>
    match M.expr id with
    | none => some 0
    | some arg =>
      match arg.kind, arg.operands with
      | .ownershipCoerce, a :: _ => if (M.expr a).isSome then localOfArgument depth a else some (M.localOfName id)
      | .field, a :: _ | .arrow, a :: _ => localOfArgument depth a
      | _, _ => some (M.localOfName id)

def ownershipOfArgument (s : SraState) : ℕ → ExprId → Option OwnershipKind
  | 0, _ => none
  | depth + 1, id =>
    match M.expr id with
    | none => some .default
    | some arg =>
      match arg.kind, arg.operands with
      | .ownershipCoerce, [] => some .default
      | .ownershipCoerce, _ :: _ => some arg.ownership
      | .field, operands | .arrow, operands =>
        match M.fieldOwnership id with
        | some ownership => some ownership
        | none =>
          match operands with
          | [] => some .default
          | a :: _ => ownershipOfArgument s depth a
      | _, _ => some (if M.localOfName id = 0 then .default else M.ownershipOfLocal s (M.localOfName id))

/-- The arguments that stand for a local twice; `fact.argEscapes` has one entry for each argument. -/
def markRepeated (s : SraState) (locals : List LocalId) (fact : SraCallFact) : SraCallFact :=
  (List.range locals.length).foldl (fun fact a =>
    ((List.range locals.length).filter (a < ·)).foldl (fun fact b =>
      if locals.getD a 0 = 0 ∨ locals.getD a 0 ≠ locals.getD b 0 then fact
      else
        let ownership := M.ownershipOfLocal s (locals.getD a 0)
        let borrowed := ownership = .share ∨ ownership = .view
        let argEscape : SraArgEscape := if borrowed then .borrow else .move
        { fact with
          duplicatedShareOrView := fact.duplicatedShareOrView || borrowed
          argEscapes := (fact.argEscapes.set a argEscape).set b argEscape
          argRepeated := (fact.argRepeated.set a true).set b true }) fact) fact

def analyzeCall (depth : ℕ) (call : Expression) (s : SraState) : Option SraState :=
  if call.id = 0 ∨ call.operands.length < 2 then some s
  else
    let args := call.operands.drop 1
    (args.mapM (M.ownershipOfArgument s depth)).bind fun ownerships =>
      ((args.filter fun a => (M.expr a).isSome).mapM (M.localOfArgument depth)).bind fun locals =>
        let fact : SraCallFact := {
          module := M.key
          argEscapes := ownerships.map fun ownership => if ownership = .belong then .escape else .borrow
          argRepeated := args.map fun _ => false }
        let fact := M.markRepeated s locals fact
        let returned :=
          ((M.callee (call.operands.headD 0)).bind s.functionFacts).bind fun f =>
            if f.allReturnsParameter then f.parameterIndex else none
        let fact := { fact with returnsArgument := returned.filter (· < fact.argEscapes.length) }
        some { s with callFacts := Function.update s.callFacts call.id (some fact) }

/-! ### The walk -/

def analyzeReturn (ret : Expression) (s : SraState) : SraState :=
  { s with anyReturn := true }.returnsLocal (M.operandLocal ret)

/-- `&local`, and `@ptrOf(local)`. -/
def moves (e : Expression) : Bool :=
  e.kind = .unary && e.text = text "&" || e.kind = .layoutIntrinsic && e.text = text "ptrOf"

/-- What is done with an expression itself, in front of its parts. -/
def visit (depth : ℕ) (e : Expression) (s : SraState) : Option SraState :=
  if moves e then
    let root := M.operandLocal e
    some (if root ≠ 0 ∧ root ∉ s.volatileLocals then s.changeLocal root fun fact => { fact with knownAlive := false }
      else s)
  else if e.kind = .call then M.analyzeCall depth e s
  else if e.kind = .return then some (M.analyzeReturn e s)
  else some s

/-- `not (x is null)` holds in the branch that is walked. -/
def applyCurrentNarrowing (s : SraState) : SraState :=
  match M.expr s.currentCondition with
  | some condition =>
    match condition.operands with
    | [inner] =>
      match M.expr inner with
      | some test =>
        let root := M.operandLocal test
        if condition.kind = .unary ∧ condition.text = text "not" ∧ test.kind = .isNull ∧ root ≠ 0 ∧
            root ∉ s.volatileLocals then
          s.changeLocal root fun fact => { fact with nonNull := true }
        else s
      | none => s
    | _ => s
  | none => s

def walkAssign (assign : Expression) (s : SraState) : SraState :=
  let root := M.operandLocal assign
  if assign.operands.length < 2 ∨ root = 0 ∨ root ∈ s.volatileLocals ∨ M.isPointer root then s
  else s.changeLocal root fun fact => { fact with knownAlive := true }

/-- One after the other. -/
def walkAll {α : Type} (walk : α → SraState → Option SraState) (items : List α) (s : SraState) : Option SraState :=
  items.foldlM (fun s item => walk item s) s

mutual

/-- The bodies of an `If` are walked under its condition, and once more where it has statements. -/
def walkExpr : ℕ → ExprId → SraState → Option SraState
  | 0, _, _ => none
  | depth + 1, id, s =>
    match M.expr id with
    | none => some s
    | some e =>
      if e.kind = .if ∧ 2 ≤ e.operands.length then
        (walkAll (walkExpr depth) ((e.operands.drop 1).take 2) { s with currentCondition := e.operands.headD 0 }).bind
          fun s' =>
            let s' := { s' with currentCondition := s.currentCondition }
            if e.statements = [] then some s' else walkAll (walkExpr depth) (e.operands.drop 1) s'
      else if e.kind = .isNull ∧ e.operands ≠ [] then walkExpr depth (e.operands.headD 0) s
      else
        (M.visit depth e s).bind fun s =>
          (walkAll (walkExpr depth) e.operands s).bind fun s =>
            (walkAll (walkStatement depth) e.statements s).bind fun s =>
              if e.expansion ≠ 0 then walkExpr depth e.expansion s else some s

def walkStatement : ℕ → StmtId → SraState → Option SraState
  | 0, _, _ => none
  | depth + 1, id, s =>
    match M.statement id with
    | none => some s
    | some statement =>
      let s := if statement.expression ≠ 0 then M.applyCurrentNarrowing s else s
      let s :=
        match M.expr statement.expression with
        | some e => if e.kind = .assign then M.walkAssign e s else s
        | none => s
      (if statement.expression ≠ 0 then walkExpr depth statement.expression s else some s).bind fun s =>
        (if statement.binding.initializer ≠ 0 then walkExpr depth statement.binding.initializer s else some s).bind
          fun s =>
            some (if statement.binding.id = 0 ∨ statement.binding.id ∈ s.volatileLocals then s
              else M.declareLocal statement.binding.id s)

end

def walkBody (depth : ℕ) (body : Expression) (s : SraState) : Option SraState :=
  (walkAll (M.walkStatement depth) body.statements s).bind (walkAll (M.walkExpr depth) body.operands)

/-! ### Functions -/

/-- An expression whose value is that of the function. -/
def returnsValue (id : ExprId) (s : SraState) : SraState :=
  if (M.expr id).isSome then { s with anyReturn := true }.returnsLocal (M.localOfName id) else s

def analyzeImplicitReturn (body : Expression) (s : SraState) : SraState :=
  let last := (body.statements.getLast?.bind M.statement).filter fun last =>
    last.kind = .expression && last.expression ≠ 0
  match last with
  | some last => M.returnsValue last.expression s
  | none =>
    match body.operands.getLast? with
    | some operand =>
      match M.expr operand with
      | some value => if value.kind ≠ .return then M.analyzeReturn value (M.returnsValue operand s) else s
      | none => s
    | none => if body.kind ≠ .block ∧ body.kind ≠ .return then M.analyzeReturn body s else s

def walkFunction (depth : ℕ) (f : SraFunction) (s : SraState) : Option SraState :=
  match M.expr f.body with
  | none => some s
  | some body =>
    (M.walkBody depth body { s with currentCondition := 0 }).bind fun s =>
      some { M.analyzeImplicitReturn body s with currentCondition := 0 }

def collectFunctionFact (f : SraFunction) (s : SraState) : SraState :=
  if s.anyReturn then
    let fact : SraFunctionFact := ⟨s.allReturnsSameParameter, s.returnedParameter⟩
    { s with functionFacts := Function.update s.functionFacts (M.key, f.id) (some fact) }
  else s

def analyzeFunction (depth : ℕ) (f : SraFunction) (s : SraState) : Option SraState :=
  let s := { s with currentParams := f.parameters }
  let s := f.parameters.foldl (fun s parameter => M.declareLocal parameter s) s
  let s := { s with anyReturn := false, allReturnsSameParameter := true, returnedParameter := none }
  (M.walkFunction depth f s).map (M.collectFunctionFact f)

/-- The second walk, for the calls of functions that are declared further down. -/
def resolveCallsInFunction (depth : ℕ) (f : SraFunction) (s : SraState) : Option SraState :=
  match M.expr f.body with
  | none => some s
  | some body => M.walkBody depth body { s with currentParams := f.parameters }

/-- The locals that are declared volatile. -/
def volatileBindings : List LocalId :=
  (M.statements.filter fun statement =>
    statement.binding.attributes.any (·.kind = .volatile) && statement.binding.id ≠ 0).map (·.binding.id)

def analyzeModule (depth : ℕ) (s : SraState) : Option SraState :=
  let s := { s with volatileLocals := s.volatileLocals ++ M.volatileBindings }
  (walkAll (M.analyzeFunction depth) M.functions s).bind (walkAll (M.resolveCallsInFunction depth) M.functions)

end SraModule

structure SraSnapshot where
  modules : List SraModule
  keys : (modules.map SraModule.key).Nodup

/-- `SraFacts::run`. -/
def SraSnapshot.run (S : SraSnapshot) (depth : ℕ) : Option SraState :=
  SraModule.walkAll (fun M => M.analyzeModule depth) S.modules {}

end Zith.Sema
