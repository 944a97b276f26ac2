import Mathlib.Data.Finset.Filter
import Zith.Flow.Infer

/-! Stores to immutable locals. Inference lets the first assignment to a `let` without an initializer pass and
    no other, once for each place in the text; the assignments in the bodies of default cases it comes to in
    the sweep over all expressions. `stores` goes along a run with the locals written since they were
    declared. A run that the check has thought of writes no for-in variable, does not go into another
    iteration of a loop that assigns a local already written, and writes through no path that is too long
    for the check or that ends in a dereference of a `view` in a field or an element. -/

namespace Zith.Flow

open Lib (Monitor)

/-- A `let` or `const`, and among the parameters those of the default mode. -/
def LocalInfo.immutable (l : LocalInfo) : Bool :=
  l.bindingKind ≠ .var && l.parameter ≠ some .borrow && l.parameter ≠ some .qualified

/-! ### Assignments -/

mutual

/-- The targets of assignments, in the order of inference: outside of the bodies of default cases, or in
    them. -/
def targets : Bool → Expr → List Expr
  | _, .literal _ => []
  | _, .name _ => []
  | swept, .operator _ operands => targetsOperands swept operands
  | swept, .isNull operand => targets swept operand
  | swept, .not operand => targets swept operand
  | swept, .payload operand => targets swept operand
  | swept, .address operand => targets swept operand
  | swept, .method _ _ receiver arguments => targets swept receiver ++ targetsOperands swept arguments
  | swept, .path _ object operands => targets swept object ++ targetsOperands swept operands
  | swept, .assign target value =>
    (if swept then [] else [target]) ++ (targets swept target ++ targets swept value)
  | swept, .optionalProp operand => targets swept operand
  | swept, .block statements => targetsStatements swept statements ++ targetsDefers swept statements
  | swept, .ifE cond body tail => targets swept cond ++ (targets swept body ++ targetsTail swept tail)
  | swept, .whenE subject cases => targets swept subject ++ targetsCases swept cases
  | swept, .whileE _ cond body => targets swept cond ++ targets swept body
  | swept, .forE _ cond body step => targets swept cond ++ (targets swept body ++ targetsStep swept step)
  | swept, .forIn _ iterable body => targets swept iterable ++ targets swept body
  | swept, .macroCall _ expansion => targets swept expansion
termination_by structural _ e => e

def targetsOperands : Bool → List Expr → List Expr
  | _, [] => []
  | swept, e :: rest => targets swept e ++ targetsOperands swept rest
termination_by structural _ es => es

def targetsTail : Bool → IfTail → List Expr
  | _, .none => []
  | swept, .els e => targets swept e
  | swept, .elsIf c b => targets swept b ++ targets swept c
termination_by structural _ tail => tail

def targetsCases : Bool → List WhenCase → List Expr
  | _, [] => []
  | swept, .case c b :: rest => targets swept c ++ (targets swept b ++ targetsCases swept rest)
  | true, .default b :: rest => (targets false b ++ targets true b) ++ targetsCases true rest
  | false, .default _ :: rest => targetsCases false rest
termination_by structural _ cases => cases

def targetsStep : Bool → Option Expr → List Expr
  | _, none => []
  | swept, some step => targets swept step
termination_by structural _ step => step

def targetsStatements : Bool → List Stmt → List Expr
  | _, [] => []
  | swept, .expression e _ :: rest => targets swept e ++ targetsStatements swept rest
  | swept, .discard e :: rest => targets swept e ++ targetsStatements swept rest
  | swept, .binding _ (some e) :: rest => targets swept e ++ targetsStatements swept rest
  | swept, .ret (some e) :: rest => targets swept e ++ targetsStatements swept rest
  | swept, .jump arguments :: _ => targetsOperands swept arguments
  | swept, _ :: rest => targetsStatements swept rest
termination_by structural _ statements => statements

def targetsDefers : Bool → List Stmt → List Expr
  | _, [] => []
  | swept, .defer e :: rest => targets swept e ++ targetsDefers swept rest
  | _, .jump _ :: _ => []
  | swept, _ :: rest => targetsDefers swept rest
termination_by structural _ statements => statements

end

def directTarget : Expr → Option LocalId
  | .name x => some x
  | _ => none

/-- The locals that are assigned themselves, once for each place. -/
def direct (ts : List Expr) : List LocalId := ts.filterMap directTarget

def assignedLocals (e : Expr) : List LocalId := direct (targets false e ++ targets true e)

/-- What the sweep checks of the assignments that are left to it. -/
def sweep (scope : Scope) (ts : List Expr) (s : State) : State :=
  ts.foldl (fun s target => endAssign scope target (beginAssign scope target s)) s

/-! ### Bindings -/

inductive BindingForm
  | initialised
  | uninitialised
  | element
deriving DecidableEq, Repr

mutual

/-- The locals that are bound in this form. -/
def bound (form : BindingForm) : Expr → List LocalId
  | .literal _ => []
  | .name _ => []
  | .operator _ operands => boundOperands form operands
  | .isNull operand => bound form operand
  | .not operand => bound form operand
  | .payload operand => bound form operand
  | .address operand => bound form operand
  | .method _ _ receiver arguments => bound form receiver ++ boundOperands form arguments
  | .path _ object operands => bound form object ++ boundOperands form operands
  | .assign target value => bound form target ++ bound form value
  | .optionalProp operand => bound form operand
  | .block statements => boundStatements form statements
  | .ifE cond body tail => bound form cond ++ (bound form body ++ boundTail form tail)
  | .whenE subject cases => bound form subject ++ boundCases form cases
  | .whileE _ cond body => bound form cond ++ bound form body
  | .forE _ cond body step => bound form cond ++ (bound form body ++ boundStep form step)
  | .forIn _ iterable body => bound form iterable ++ bound form body
  | .macroCall _ expansion => bound form expansion
termination_by structural e => e

def boundOperands (form : BindingForm) : List Expr → List LocalId
  | [] => []
  | e :: rest => bound form e ++ boundOperands form rest
termination_by structural es => es

def boundTail (form : BindingForm) : IfTail → List LocalId
  | .none => []
  | .els e => bound form e
  | .elsIf c b => bound form c ++ bound form b
termination_by structural tail => tail

def boundCases (form : BindingForm) : List WhenCase → List LocalId
  | [] => []
  | .case c b :: rest => bound form c ++ (bound form b ++ boundCases form rest)
  | .default b :: rest => bound form b ++ boundCases form rest
termination_by structural cases => cases

def boundStep (form : BindingForm) : Option Expr → List LocalId
  | none => []
  | some step => bound form step
termination_by structural step => step

def boundStatements (form : BindingForm) : List Stmt → List LocalId
  | [] => []
  | .expression e _ :: rest => bound form e ++ boundStatements form rest
  | .discard e :: rest => bound form e ++ boundStatements form rest
  | .declaration :: rest => boundStatements form rest
  | .binding x none :: rest => (if form = .uninitialised then [x] else []) ++ boundStatements form rest
  | .binding x (some e) :: rest =>
    bound form e ++ ((if form = .initialised then [x] else []) ++ boundStatements form rest)
  | .element x :: rest => (if form = .element then [x] else []) ++ boundStatements form rest
  | .defer e :: rest => bound form e ++ boundStatements form rest
  | .ret none :: rest => boundStatements form rest
  | .ret (some e) :: rest => bound form e ++ boundStatements form rest
  | .brk _ :: rest => boundStatements form rest
  | .cont _ :: rest => boundStatements form rest
  | .jump arguments :: rest => boundOperands form arguments ++ boundStatements form rest
termination_by structural statements => statements

end

/-- The binding of a for-in loop is one without an initializer. -/
def scopeOf (info : LocalId → LocalInfo) (body : Expr) : Scope :=
  ⟨info, bound .uninitialised body ++ bound .element body⟩

/-- What the frontend promises of the locals of a body: a parameter is not bound in it, and a local that is
    bound with an initializer is not bound without one as well. -/
structure Scoped (info : LocalId → LocalInfo) (body : Expr) : Prop where
  parameters : ∀ x, (info x).parameter ≠ none → x ∉ (scopeOf info body).uninitializedBindings
  initialised : ∀ x ∈ bound .initialised body, x ∉ (scopeOf info body).uninitializedBindings

/-- Inference of the body and the sweep report nothing. The sweep begins with the sets of another function,
    which hold none of these locals. -/
def acceptsSwept (info : LocalId → LocalInfo) (body : Expr) : Prop :=
  (sweep (scopeOf info body) (targets true body)
    { inferExpr (scopeOf info body) body .init with
      movedLocals := ∅, uninitializedLocals := ∅ }).diagnostics = []

instance (info : LocalId → LocalInfo) (body : Expr) : Decidable (acceptsSwept info body) :=
  inferInstanceAs (Decidable (_ = []))

/-! ### Paths -/

def placeRoot : Expr → Option LocalId
  | .name x => some x
  | .path _ object _ => placeRoot object
  | _ => none

def placeSteps : Expr → Nat
  | .path _ object _ => placeSteps object + 1
  | _ => 0

/-- The path to the target passes through a mutable pointer. -/
def throughMutablePointer (scope : Scope) : Expr → Bool
  | .path step object _ => objectKind scope step object = .mutable || throughMutablePointer scope object
  | _ => false

/-- The target is a dereference of a `view` that is not a local. -/
def derefsView (target : Expr) : Bool :=
  match target with
  | .path (.deref true) object _ => (directTarget object).isNone
  | _ => false

/-! ### Runs -/

/-- The locals written since they were declared. An immutable one is not written again, nor anything in
    it. -/
def stores (info : LocalId → LocalInfo) (body : Expr) : Monitor (Finset LocalId) Action where
  step W
    | .declare x => W.erase x
    | .initialise x => insert x W
    | .store x => insert x W
    | .leave xs => W.filter (· ∉ xs)
    | _ => W
  assume W
    | .store x => (info x).immutable → x ∉ bound .element body
    | .again e => ∀ x ∈ W, (info x).immutable → x ∉ assignedLocals (repeated e)
    | .storeThrough target => placeSteps target < 64 ∧ derefsView target = false
    | _ => True
  assert W
    | .store x => (info x).immutable → x ∉ W
    | .storeThrough target => ∀ x, placeRoot target = some x → (info x).immutable →
        throughMutablePointer (scopeOf info body) target
    | _ => True

end Zith.Flow
