import Zith.Lib.Taint
import Zith.Flow.Syntax

/-! Reads of a local that has not been written, or that has been moved. `visits` is what one pass over an
    expression does to the set of these locals, in the order of inference; `faults` goes along a run with the
    set as it is then. The run is assumed to come to no place where the pass has seen an assignment that the
    run has not made, or has not yet seen what the run has done. -/

namespace Zith.Flow

open Lib (Command Monitor Effect Passes Changes Revives Exposes after)

inductive Fault
  | uninitialised
  | moved
deriving DecidableEq, Repr

/-! ### What inference does to the locals -/

/-- What `&operand`, or the call of a consuming method, does to a local. -/
def Fault.moves : Fault → Expr → List (Effect LocalId)
  | .moved, .name x => [.taint x]
  | _, _ => []

/-- The move is recorded only of this kind of receiver. -/
def Fault.receives : Fault → Receiver → Expr → List (Effect LocalId)
  | f, .consumed, receiver => f.moves receiver
  | _, _, _ => []

/-- `inferAssign` and `checkMovedRoot` clear the target first. -/
def assigned : Expr → List (Effect LocalId)
  | .name x => [.clear x]
  | _ => []

def Fault.declares : Fault → LocalId → List (Effect LocalId)
  | .uninitialised, x => [.taint x]
  | .moved, _ => []

def Fault.initialises : Fault → LocalId → List (Effect LocalId)
  | .uninitialised, x => [.clear x]
  | .moved, _ => []

mutual

def visits (f : Fault) : Expr → List (Effect LocalId)
  | .literal _ => []
  | .name x => [.use x]
  | .operator _ operands => visitsOperands f operands
  | .isNull operand => visits f operand
  | .not operand => visits f operand
  | .payload operand => visits f operand
  | .address operand => visits f operand ++ f.moves operand
  | .method kind _ receiver arguments =>
    visits f receiver ++ (visitsOperands f arguments ++ f.receives kind receiver)
  | .path _ object operands => visits f object ++ visitsOperands f operands
  | .assign target value => assigned target ++ (visits f target ++ visits f value)
  | .optionalProp operand => visits f operand
  | .block statements => visitsStatements f statements ++ visitsDefers f statements
  | .ifE cond body tail => visits f cond ++ (visits f body ++ visitsTail f tail)
  | .whenE subject cases => visits f subject ++ visitsCases f cases
  | .whileE _ cond body => visits f cond ++ visits f body
  | .forE _ cond body step => visits f cond ++ (visits f body ++ visitsStep f step)
  | .forIn _ iterable body => visits f iterable ++ visits f body
  | .macroCall _ expansion => visits f expansion
termination_by structural e => e

def visitsOperands (f : Fault) : List Expr → List (Effect LocalId)
  | [] => []
  | e :: rest => visits f e ++ visitsOperands f rest
termination_by structural es => es

def visitsTail (f : Fault) : IfTail → List (Effect LocalId)
  | .none => []
  | .els e => visits f e
  | .elsIf c b => visits f b ++ visits f c
termination_by structural tail => tail

def visitsCases (f : Fault) : List WhenCase → List (Effect LocalId)
  | [] => []
  | .case c b :: rest => visits f c ++ (visits f b ++ visitsCases f rest)
  | .default _ :: rest => visitsCases f rest
termination_by structural cases => cases

def visitsStep (f : Fault) : Option Expr → List (Effect LocalId)
  | none => []
  | some step => visits f step
termination_by structural step => step

def visitsStatements (f : Fault) : List Stmt → List (Effect LocalId)
  | [] => []
  | .expression e _ :: rest => visits f e ++ visitsStatements f rest
  | .discard e :: rest => visits f e ++ visitsStatements f rest
  | .binding x none :: rest => f.declares x ++ visitsStatements f rest
  | .binding x (some e) :: rest => visits f e ++ (f.initialises x ++ visitsStatements f rest)
  | .element x :: rest => f.initialises x ++ visitsStatements f rest
  | .ret (some e) :: rest => visits f e ++ visitsStatements f rest
  | .jump arguments :: _ => visitsOperands f arguments
  | _ :: rest => visitsStatements f rest
termination_by structural statements => statements

def visitsDefers (f : Fault) : List Stmt → List (Effect LocalId)
  | [] => []
  | .defer e :: rest => visits f e ++ visitsDefers f rest
  | .jump _ :: _ => []
  | _ :: rest => visitsDefers f rest
termination_by structural statements => statements

end

/-! ### What a run of the expression may leave unwritten, or moved -/

def tainted : List (Effect LocalId) → List LocalId
  | [] => []
  | .taint x :: es => x :: tainted es
  | _ :: es => tainted es

mutual

def escaping (f : Fault) : Expr → List LocalId
  | .literal _ => []
  | .name _ => []
  | .operator _ operands => escapingOperands f operands
  | .isNull operand => escaping f operand
  | .not operand => escaping f operand
  | .payload operand => escaping f operand
  | .address operand => escaping f operand ++ tainted (f.moves operand)
  | .method kind _ receiver arguments =>
    escaping f receiver ++ (escapingOperands f arguments ++ tainted (f.receives kind receiver))
  | .path _ object operands => escaping f object ++ escapingOperands f operands
  | .assign target value => escaping f target ++ escaping f value
  | .optionalProp operand => escaping f operand
  | .block statements =>
    (escapingStatements f statements ++ escapingDefers f statements).filter (· ∉ declared statements)
  | .ifE cond body tail => escaping f cond ++ (escaping f body ++ escapingTail f tail)
  | .whenE subject cases => escaping f subject ++ escapingCases f cases
  | .whileE _ cond body => escaping f cond ++ escaping f body
  | .forE _ cond body step => escaping f cond ++ (escaping f body ++ escapingStep f step)
  | .forIn _ iterable body => escaping f iterable ++ escaping f body
  | .macroCall _ expansion => escaping f expansion
termination_by structural e => e

def escapingOperands (f : Fault) : List Expr → List LocalId
  | [] => []
  | e :: rest => escaping f e ++ escapingOperands f rest
termination_by structural es => es

def escapingTail (f : Fault) : IfTail → List LocalId
  | .none => []
  | .els e => escaping f e
  | .elsIf c b => escaping f c ++ escaping f b
termination_by structural tail => tail

def escapingCases (f : Fault) : List WhenCase → List LocalId
  | [] => []
  | .case c b :: rest => escaping f c ++ (escaping f b ++ escapingCases f rest)
  | .default _ :: rest => escapingCases f rest
termination_by structural cases => cases

def escapingStep (f : Fault) : Option Expr → List LocalId
  | none => []
  | some step => escaping f step
termination_by structural step => step

def escapingStatements (f : Fault) : List Stmt → List LocalId
  | [] => []
  | .expression e _ :: rest => escaping f e ++ escapingStatements f rest
  | .discard e :: rest => escaping f e ++ escapingStatements f rest
  | .binding x none :: rest => tainted (f.declares x) ++ escapingStatements f rest
  | .binding _ (some e) :: rest => escaping f e ++ escapingStatements f rest
  | .ret (some e) :: rest => escaping f e ++ escapingStatements f rest
  | .jump arguments :: _ => escapingOperands f arguments
  | _ :: rest => escapingStatements f rest
termination_by structural statements => statements

def escapingDefers (f : Fault) : List Stmt → List LocalId
  | [] => []
  | .defer e :: rest => escaping f e ++ escapingDefers f rest
  | .jump _ :: _ => []
  | _ :: rest => escapingDefers f rest
termination_by structural statements => statements

end

/-! ### Runs -/

/-- What an action of a run does to the locals. -/
def Fault.effects : Fault → Action → List (Effect LocalId)
  | f, .declare x => f.declares x
  | f, .initialise x => f.initialises x
  | _, .leave xs => xs.map .clear
  | _, .read x => [.use x]
  | _, .store x => [.clear x]
  | .moved, .move x _ _ => [.use x, .taint x]
  | _, _ => []

/-- What the pass has thought of at a step of the run, `A` being the locals unwritten, or moved, then. -/
def Fault.foreseen (f : Fault) (A : Finset LocalId) : Action → Prop
  | .move x recorded arguments => f = .moved → recorded = true ∧ x ∉ escapingOperands f arguments
  | .assigning x value => x ∈ A → ¬ Exposes x (visits f value)
  | .enter skipped e =>
    ∀ x ∈ A, (∃ b ∈ skipped, Revives x (visits f b)) → ¬ Exposes x (visits f e)
  | .els body missed e =>
    ∀ x ∈ A, Revives x (visits f body) ∨ (∃ b ∈ missed, x ∈ escaping f b) → ¬ Exposes x (visits f e)
  | .default _ body =>
    escaping f body = [] ∧ Passes ∅ (visits f body) ∧ ∀ x ∈ A, ¬ Exposes x (visits f body)
  | .deferred block body =>
    ∀ x ∈ A, Revives x (visitsStatements f block) ∨ Changes x (visitsDefers f block) → ¬ Exposes x (visits f body)
  | .again e => ∀ x ∈ A, x ∈ escaping f (repeated e) → ¬ Exposes x (visits f (repeated e))
  | .joined e => ∀ x ∈ A, ¬ Revives x (visits f e)
  | _ => True

instance (f : Fault) (A : Finset LocalId) : ∀ a : Action, Decidable (f.foreseen A a)
  | .move x recorded arguments =>
    inferInstanceAs (Decidable (f = .moved → recorded = true ∧ x ∉ escapingOperands f arguments))
  | .assigning x value => inferInstanceAs (Decidable (x ∈ A → ¬ Exposes x (visits f value)))
  | .enter skipped e => inferInstanceAs (Decidable
      (∀ x ∈ A, (∃ b ∈ skipped, Revives x (visits f b)) → ¬ Exposes x (visits f e)))
  | .els body missed e => inferInstanceAs (Decidable (∀ x ∈ A,
      Revives x (visits f body) ∨ (∃ b ∈ missed, x ∈ escaping f b) → ¬ Exposes x (visits f e)))
  | .default _ body => inferInstanceAs (Decidable
      (escaping f body = [] ∧ Passes ∅ (visits f body) ∧ ∀ x ∈ A, ¬ Exposes x (visits f body)))
  | .deferred block body => inferInstanceAs (Decidable
      (∀ x ∈ A, Revives x (visitsStatements f block) ∨ Changes x (visitsDefers f block) → ¬ Exposes x (visits f body)))
  | .again e => inferInstanceAs (Decidable
      (∀ x ∈ A, x ∈ escaping f (repeated e) → ¬ Exposes x (visits f (repeated e))))
  | .joined e => inferInstanceAs (Decidable (∀ x ∈ A, ¬ Revives x (visits f e)))
  | .declare _ | .initialise _ | .leave _ | .read _ | .store _ | .storeThrough _ | .tested _ _
  | .unwrap _ | .unmatched _ _ => inferInstanceAs (Decidable True)

/-- The locals that are unwritten, or moved; none of them is read, nor moved again. -/
def faults (f : Fault) : Monitor (Finset LocalId) Action where
  step A a := after A (f.effects a)
  assume := f.foreseen
  assert A a := Passes A (f.effects a)

instance (f : Fault) (A : Finset LocalId) (a : Action) : Decidable ((faults f).assume A a) :=
  inferInstanceAs (Decidable (f.foreseen A a))

end Zith.Flow
