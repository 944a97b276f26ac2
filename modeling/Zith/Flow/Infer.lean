import Mathlib.Data.Finset.Insert
import Mathlib.Data.Finset.Erase
import Zith.Flow.Returns

/-! The inference pass over one function body, as far as it checks locals: `inferExpr` goes over every
    expression once, in the order of the source's `infer...` functions, and changes sets of locals on its
    way. The bodies of default cases are not among what it goes over; a sweep after all functions types
    them, with the sets of another function, and of the checks here only that on immutable bindings means
    anything then. -/

namespace Zith.Flow

inductive BindingKind
  | let
  | var
  | const
deriving DecidableEq, Repr

/-- How a parameter is passed, of what `checkImmutableRootFieldWrite` tells apart. -/
inductive ParameterMode
  | value
  | pointer
  | bareSelf
  | borrow
  | qualified
deriving DecidableEq, Repr

/-- What resolution and the type table say of a local; `isView` of a value that is one, or points to
    one. -/
structure LocalInfo where
  bindingKind : BindingKind
  parameter : Option ParameterMode
  isPointer : Bool
  isNullablePointer : Bool
  isView : Bool
  isPointer_of_parameter : parameter = some .pointer → isPointer = true := by decide
deriving DecidableEq, Repr

/-- A local of a plain value. -/
def LocalInfo.plain (bindingKind : BindingKind) : LocalInfo where
  bindingKind := bindingKind
  parameter := none
  isPointer := false
  isNullablePointer := false
  isView := false

inductive Diagnostic
  | usedAfterMove (x : LocalId)
  | assignedThroughMoved (x : LocalId)
  | usedUninitialized (x : LocalId)
  | assignedImmutable (x : LocalId)
  | wroteThroughImmutable (x : LocalId)
  | wroteThroughView
  | nullDerefUnproven
deriving DecidableEq, Repr

/-- `optionalReadPathKey`: the root and the field names; a local itself has none. -/
abbrev PathKey := LocalId × List String

/-- The members of `PerModuleSema` that the pass changes. -/
structure State where
  movedLocals : Finset LocalId
  uninitializedLocals : Finset LocalId
  typeInferredByAssignment : Finset LocalId
  provenNonNull : Finset PathKey
  diagnostics : List Diagnostic

def State.init : State := ⟨∅, ∅, ∅, ∅, []⟩

/-- What the pass reads of the function: of each local, and which are declared without an initializer. -/
structure Scope where
  info : LocalId → LocalInfo
  uninitializedBindings : List LocalId

def State.report (s : State) (d : Diagnostic) : State :=
  { s with diagnostics := d :: s.diagnostics }

def State.reportIf (s : State) (condition : Bool) (d : Diagnostic) : State :=
  if condition then s.report d else s

/-- The two tests on a name. -/
def State.use (s : State) (x : LocalId) : State :=
  (s.reportIf (x ∈ s.movedLocals) (.usedAfterMove x)).reportIf (x ∈ s.uninitializedLocals) (.usedUninitialized x)

def State.moveLocal (s : State) (x : LocalId) : State :=
  { s with movedLocals := insert x s.movedLocals }

def State.prove (s : State) (key : PathKey) : State :=
  { s with provenNonNull := insert key s.provenNonNull }

def State.unprove (s : State) (key : PathKey) : State :=
  { s with provenNonNull := s.provenNonNull.erase key }

/-! ### Assignment -/

/-- The local that a place is rooted at, at most `guard` steps away. -/
def assignmentRoot : Nat → Expr → Option LocalId
  | 0, _ => none
  | _ + 1, .name x => some x
  | guard + 1, .path _ object _ => assignmentRoot guard object
  | _ + 1, _ => none

/-- The test on a moved root; a direct rebind revives it. -/
def checkMovedRoot (scope : Scope) (target : Expr) (s : State) : State :=
  match target with
  | .name x => { s with movedLocals := s.movedLocals.erase x }
  | _ =>
    match assignmentRoot 64 target with
    | none => s
    | some x =>
      if x ∉ s.movedLocals ∨ (scope.info x).isPointer then s else s.report (.assignedThroughMoved x)

/-- The local where a step begins: a pointer, if the step asks for one or its type is one. -/
def LocalInfo.object (l : LocalInfo) (step : PathStep) : PointerKind :=
  if l.isView then .view else if l.isPointer || step.isPointer then .mutable else .none

def objectKind (scope : Scope) (step : PathStep) : Expr → PointerKind
  | .name x => (scope.info x).object step
  | _ => step.object

/-- The object of the first arrow behind fields and indices: the root that `checkAssignableOwnership` looks
    at instead of the local. -/
def arrowObject (scope : Scope) : Expr → Option PointerKind
  | .path (.arrow name view) object _ => some (objectKind scope (.arrow name view) object)
  | .path (.field _ _) object _ => arrowObject scope object
  | .path (.index _) object _ => arrowObject scope object
  | _ => none

def checkAssignableOwnership (scope : Scope) (target : Expr) (s : State) : State :=
  match assignmentRoot 64 target with
  | none => s
  | some x =>
    match arrowObject scope target with
    | some object => s.reportIf (object = .view) .wroteThroughView
    | none => s.reportIf (scope.info x).isView .wroteThroughView

/-- The first assignment to a `let` without an initializer is let pass. -/
def checkImmutable (scope : Scope) (x : LocalId) (s : State) : State :=
  if (scope.info x).bindingKind = .var then s else
    if (scope.info x).bindingKind = .let ∧ x ∉ s.typeInferredByAssignment ∧
        x ∈ scope.uninitializedBindings then
      { s with typeInferredByAssignment := insert x s.typeInferredByAssignment }
    else s.report (.assignedImmutable x)

/-- A parameter that is written through, whatever its binding. -/
def ParameterMode.writable : ParameterMode → Bool
  | .value => false
  | .bareSelf => false
  | .pointer => true
  | .borrow => true
  | .qualified => true

/-- The target is a field or an element: `has_field_path`. -/
def hasFieldPath : Expr → Bool
  | .path (.deref _) _ _ => false
  | .path _ _ _ => true
  | _ => false

def checkImmutableRootFieldWrite (scope : Scope) (target : Expr) (s : State) : State :=
  match assignmentRoot 64 target with
  | none => s
  | some x =>
    if (scope.info x).bindingKind = .var then s else
      if (scope.info x).bindingKind = .let ∧ (scope.info x).parameter.any ParameterMode.writable then s
      else s.reportIf (hasFieldPath target) (.wroteThroughImmutable x)

/-- What `inferAssign` does before it goes over the operands. -/
def beginAssign (scope : Scope) (target : Expr) (s : State) : State :=
  let s := checkMovedRoot scope target s
  match target with
  | .name x =>
    checkImmutable scope x { s with uninitializedLocals := s.uninitializedLocals.erase x }
  | _ => s

/-- What it does after. -/
def endAssign (scope : Scope) (target : Expr) (s : State) : State :=
  let s := match target with
    | .name x => s.unprove (x, [])
    | _ => s
  checkImmutableRootFieldWrite scope target (checkAssignableOwnership scope target s)

/-! ### Proofs of non-nullness -/

def optionalReadPathKey : Expr → Option PathKey
  | .name x => some (x, [])
  | .path (.field name _) object _ =>
    (optionalReadPathKey object).map fun key => (key.1, key.2 ++ [name])
  | .path (.arrow name _) object _ =>
    (optionalReadPathKey object).map fun key => (key.1, key.2 ++ [name])
  | _ => none

/-- The key that an `is null` condition tells about, and whether it is non-null where the condition
    holds. -/
def narrowing : Expr → Option (PathKey × Bool)
  | .isNull operand => (optionalReadPathKey operand).map fun key => (key, false)
  | .not (.isNull operand) => (optionalReadPathKey operand).map fun key => (key, true)
  | _ => none

/-- The body that runs where the key is null always terminates. -/
def keepsProof (narrowThen : Bool) (body : Expr) (tail : IfTail) : Bool :=
  if narrowThen then tailTerminates tail else exprAlwaysTerminates body

def beginThen (n : Option (PathKey × Bool)) (s : State) : State :=
  match n with
  | some (key, true) => s.prove key
  | _ => s

def beginElse (n : Option (PathKey × Bool)) (s : State) : State :=
  match n with
  | some (key, true) => s.unprove key
  | some (key, false) => s.prove key
  | none => s

/-- The proof is restored to what it was before the `If`, or kept. -/
def endIf (n : Option (PathKey × Bool)) (before : Finset PathKey) (body : Expr) (tail : IfTail)
    (s : State) : State :=
  match n with
  | none => s
  | some (key, narrowThen) =>
    let s := if key ∈ before then s.prove key else s.unprove key
    if keepsProof narrowThen body tail then s.prove key else s

/-- `nonNullPointerLocalFromCondition`. -/
def loopNarrowing (scope : Scope) : Expr → Option PathKey
  | .not (.isNull (.name x)) => if (scope.info x).isNullablePointer then some (x, []) else none
  | _ => none

def beginLoop (n : Option PathKey) (s : State) : State :=
  match n with
  | some key => s.prove key
  | none => s

def endLoop (n : Option PathKey) (s : State) : State :=
  match n with
  | some key => s.unprove key
  | none => s

def checkPayload (operand : Expr) (s : State) : State :=
  match optionalReadPathKey operand with
  | some key => s.reportIf (key ∉ s.provenNonNull) .nullDerefUnproven
  | none => s.report .nullDerefUnproven

/-! ### The pass -/

def moveOperand (operand : Expr) (s : State) : State :=
  match operand with
  | .name x => s.moveLocal x
  | _ => s

def moveReceiver (kind : Receiver) (receiver : Expr) (s : State) : State :=
  match kind with
  | .consumed => moveOperand receiver s
  | _ => s

mutual

def inferExpr (scope : Scope) : Expr → State → State
  | .literal _, s => s
  | .name x, s => s.use x
  | .operator _ operands, s => inferOperands scope operands s
  | .isNull operand, s => inferExpr scope operand s
  | .not operand, s => inferExpr scope operand s
  | .payload operand, s => checkPayload operand (inferExpr scope operand s)
  | .address operand, s => moveOperand operand (inferExpr scope operand s)
  | .method kind _ receiver arguments, s =>
    moveReceiver kind receiver (inferOperands scope arguments (inferExpr scope receiver s))
  | .path _ object operands, s => inferOperands scope operands (inferExpr scope object s)
  | .assign target value, s =>
    endAssign scope target (inferExpr scope value (inferExpr scope target (beginAssign scope target s)))
  | .optionalProp operand, s => inferExpr scope operand s
  | .block statements, s => inferDefers scope statements (inferStatements scope statements s)
  | .ifE cond body tail, s =>
    let s := inferExpr scope cond s
    let before := s.provenNonNull
    let s := inferExpr scope body (beginThen (narrowing cond) s)
    endIf (narrowing cond) before body tail (inferTail scope tail (beginElse (narrowing cond) s))
  | .whenE subject cases, s => inferCases scope cases (inferExpr scope subject s)
  | .whileE _ cond body, s =>
    let n := loopNarrowing scope cond
    endLoop n (inferExpr scope body (beginLoop n (inferExpr scope cond s)))
  | .forE _ cond body step, s =>
    let n := loopNarrowing scope cond
    endLoop n (inferStep scope step (inferExpr scope body (beginLoop n (inferExpr scope cond s))))
  | .forIn _ iterable body, s => inferExpr scope body (inferExpr scope iterable s)
  | .macroCall _ expansion, s => inferExpr scope expansion s
termination_by structural e => e

def inferOperands (scope : Scope) : List Expr → State → State
  | [], s => s
  | e :: rest, s => inferOperands scope rest (inferExpr scope e s)
termination_by structural es => es

/-- Of four operands the last is gone over before the condition that it stands behind. -/
def inferTail (scope : Scope) : IfTail → State → State
  | .none, s => s
  | .els e, s => inferExpr scope e s
  | .elsIf c b, s => inferExpr scope c (inferExpr scope b s)
termination_by structural tail => tail

def inferCases (scope : Scope) : List WhenCase → State → State
  | [], s => s
  | .case c b :: rest, s => inferCases scope rest (inferExpr scope b (inferExpr scope c s))
  | .default _ :: rest, s => inferCases scope rest s
termination_by structural cases => cases

def inferStep (scope : Scope) : Option Expr → State → State
  | none, s => s
  | some step, s => inferExpr scope step s
termination_by structural step => step

/-- The statements of a block; what follows a `jump` is not gone over. -/
def inferStatements (scope : Scope) : List Stmt → State → State
  | [], s => s
  | .expression e _ :: rest, s => inferStatements scope rest (inferExpr scope e s)
  | .discard e :: rest, s => inferStatements scope rest (inferExpr scope e s)
  | .binding x none :: rest, s =>
    inferStatements scope rest { s with uninitializedLocals := insert x s.uninitializedLocals }
  | .binding x (some e) :: rest, s =>
    let s := inferExpr scope e s
    inferStatements scope rest { s with uninitializedLocals := s.uninitializedLocals.erase x }
  | .element x :: rest, s =>
    inferStatements scope rest { s with uninitializedLocals := s.uninitializedLocals.erase x }
  | .ret (some e) :: rest, s => inferStatements scope rest (inferExpr scope e s)
  | .jump arguments :: _, s => inferOperands scope arguments s
  | _ :: rest, s => inferStatements scope rest s
termination_by structural statements => statements

/-- The deferred bodies of a block, after its statements. -/
def inferDefers (scope : Scope) : List Stmt → State → State
  | [], s => s
  | .defer e :: rest, s => inferDefers scope rest (inferExpr scope e s)
  | .jump _ :: _, s => s
  | _ :: rest, s => inferDefers scope rest s
termination_by structural statements => statements

end

end Zith.Flow
