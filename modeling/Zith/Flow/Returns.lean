import Zith.Flow.Syntax

/-! The check for a return on every path. `exprAlwaysTerminates` decides from the parts of a construct that
    its end is not reached; `Ends` says what that, the type of the construct and the search for a `break`
    promise of how a run of it ends. A run breaks the promise only where it leaves a for-in loop at its
    end, finds no body in an `If` of four operands, takes a body without a value where the type of the
    construct is that of another, or leaves an endless loop by a `break` the search does not look for. -/

namespace Zith.Flow

open Lib (Command Exit Exec Outcome Monitor Triple)

/-! ### The check -/

mutual

def exprContainsBreak : Expr → Bool
  | .literal _ => false
  | .name _ => false
  | .operator _ operands => operandsContainBreak operands
  | .isNull operand => exprContainsBreak operand
  | .not operand => exprContainsBreak operand
  | .payload operand => exprContainsBreak operand
  | .address operand => exprContainsBreak operand
  | .method _ _ receiver arguments => exprContainsBreak receiver || operandsContainBreak arguments
  | .path _ object operands => exprContainsBreak object || operandsContainBreak operands
  | .assign target value => exprContainsBreak target || exprContainsBreak value
  | .optionalProp operand => exprContainsBreak operand
  | .block statements => statementsContainBreak statements
  | .ifE cond body tail => exprContainsBreak cond || exprContainsBreak body || tailContainsBreak tail
  | .whenE subject cases => exprContainsBreak subject || bodiesContainBreak cases
  | .whileE _ cond body => exprContainsBreak cond || exprContainsBreak body
  | .forE _ cond body step => exprContainsBreak cond || exprContainsBreak body || stepContainsBreak step
  | .forIn _ iterable body => exprContainsBreak iterable || exprContainsBreak body
  | .macroCall arguments _ => operandsContainBreak arguments
termination_by structural e => e

def operandsContainBreak : List Expr → Bool
  | [] => false
  | e :: rest => exprContainsBreak e || operandsContainBreak rest
termination_by structural es => es

def tailContainsBreak : IfTail → Bool
  | .none => false
  | .els e => exprContainsBreak e
  | .elsIf c b => exprContainsBreak c || exprContainsBreak b
termination_by structural tail => tail

/-- The conditions are not among the operands. -/
def bodiesContainBreak : List WhenCase → Bool
  | [] => false
  | .case _ b :: rest => exprContainsBreak b || bodiesContainBreak rest
  | .default b :: rest => exprContainsBreak b || bodiesContainBreak rest
termination_by structural cases => cases

def stepContainsBreak : Option Expr → Bool
  | none => false
  | some step => exprContainsBreak step
termination_by structural step => step

/-- `statementContainsBreak`; an initializer is not the expression of its statement. -/
def statementsContainBreak : List Stmt → Bool
  | [] => false
  | .brk _ :: _ => true
  | .expression e _ :: rest => exprContainsBreak e || statementsContainBreak rest
  | .discard e :: rest => exprContainsBreak e || statementsContainBreak rest
  | .defer e :: rest => exprContainsBreak e || statementsContainBreak rest
  | .ret (some e) :: rest => exprContainsBreak e || statementsContainBreak rest
  | _ :: rest => statementsContainBreak rest
termination_by structural statements => statements

end

/-- `expr.conditions.back()` is empty. -/
def lastIsDefault : List WhenCase → Bool
  | [] => false
  | [.default _] => true
  | _ :: rest => lastIsDefault rest

mutual

def exprAlwaysTerminates : Expr → Bool
  | .block statements => statementsTerminate statements
  | .ifE _ body tail => exprAlwaysTerminates body && tailTerminates tail
  | .whenE _ cases => lastIsDefault cases && casesTerminate cases
  | .whileE _ cond body => conditionIsAlwaysLiteralTrue cond && !exprContainsBreak body
  | .forE _ cond body _ => conditionIsAlwaysLiteralTrue cond && !exprContainsBreak body
  | .forIn _ _ (.block statements) => statementsTerminate statements
  | _ => false
termination_by structural e => e

def tailTerminates : IfTail → Bool
  | .none => false
  | .els e => exprAlwaysTerminates e
  | .elsIf _ b => exprAlwaysTerminates b
termination_by structural tail => tail

def casesTerminate : List WhenCase → Bool
  | [] => true
  | .case _ b :: rest => exprAlwaysTerminates b && casesTerminate rest
  | .default b :: rest => exprAlwaysTerminates b && casesTerminate rest
termination_by structural cases => cases

/-- `blockAlwaysTerminates` with `statementAlwaysTerminates`. -/
def statementsTerminate : List Stmt → Bool
  | [] => false
  | .ret _ :: _ => true
  | .jump _ :: _ => true
  | .expression e _ :: rest => exprAlwaysTerminates e || statementsTerminate rest
  | _ :: rest => statementsTerminate rest
termination_by structural statements => statements

end

/-! ### Values -/

mutual

/-- The type that sema gives the expression is not void. -/
def hasValue : Expr → Bool
  | .operator value _ => value
  | .method _ value _ _ => value
  | .block statements => blockHasValue statements
  | .ifE _ _ .none => false
  | .ifE _ body _ => hasValue body
  | .whenE _ (.case _ body :: _) => hasValue body
  | .whenE _ _ => false
  | .whileE _ _ _ => false
  | .forE _ _ _ _ => false
  | .forIn _ _ _ => false
  | .macroCall _ expansion => hasValue expansion
  | _ => true
termination_by structural e => e

def blockHasValue : List Stmt → Bool
  | [] => false
  | [.expression e hasSemicolon] => !hasSemicolon && hasValue e
  | _ :: rest => blockHasValue rest
termination_by structural statements => statements

end

/-- The body of a case other than a default has a value, or has none. -/
def WhenCase.bodyAgrees (value : Bool) : WhenCase → Bool
  | .case _ b => hasValue b == value
  | .default _ => true

/-- `inferWhen` reports nothing: the bodies of the cases other than a default have a value if the first one
    has, and then the last case is a default. -/
def casesAgree : List WhenCase → Bool
  | .case c first :: rest =>
    rest.all (·.bodyAgrees (hasValue first)) && (!hasValue first || lastIsDefault (.case c first :: rest))
  | _ => true

mutual

/-- Every `when` that gives the expression its value passes. -/
def whensAgree : Expr → Bool
  | .block statements => tailWhensAgree statements
  | .ifE _ body tail => whensAgree body && elseWhensAgree tail
  | .whenE _ cases => casesAgree cases && bodiesWhensAgree cases
  | .macroCall _ expansion => whensAgree expansion
  | _ => true
termination_by structural e => e

def tailWhensAgree : List Stmt → Bool
  | [] => true
  | [.expression e _] => whensAgree e
  | _ :: rest => tailWhensAgree rest
termination_by structural statements => statements

def elseWhensAgree : IfTail → Bool
  | .none => true
  | .els e => whensAgree e
  | .elsIf _ b => whensAgree b
termination_by structural tail => tail

def bodiesWhensAgree : List WhenCase → Bool
  | [] => true
  | .case _ b :: rest => whensAgree b && bodiesWhensAgree rest
  | .default b :: rest => whensAgree b && bodiesWhensAgree rest
termination_by structural cases => cases

end

/-- What `checkReturnsAndCalls` lets pass as the body of a function with a result. -/
def acceptsBody (body : Expr) : Bool := whensAgree body && (hasValue body || exprAlwaysTerminates body)

/-! ### Runs -/

mutual

/-- A `break` stands in the code of the expression. -/
def hasBreak : Expr → Bool
  | .literal _ => false
  | .name _ => false
  | .operator _ operands => operandsHaveBreak operands
  | .isNull operand => hasBreak operand
  | .not operand => hasBreak operand
  | .payload operand => hasBreak operand
  | .address operand => hasBreak operand
  | .method _ _ receiver arguments => hasBreak receiver || operandsHaveBreak arguments
  | .path _ object operands => hasBreak object || operandsHaveBreak operands
  | .assign target value => hasBreak target || hasBreak value
  | .optionalProp operand => hasBreak operand
  | .block statements => statementsHaveBreak statements
  | .ifE cond body tail => hasBreak cond || hasBreak body || tailHasBreak tail
  | .whenE subject cases => hasBreak subject || casesHaveBreak cases
  | .whileE _ cond body => hasBreak cond || hasBreak body
  | .forE _ cond body step => hasBreak cond || hasBreak body || stepHasBreak step
  | .forIn _ iterable body => hasBreak iterable || hasBreak body
  | .macroCall _ expansion => hasBreak expansion
termination_by structural e => e

def operandsHaveBreak : List Expr → Bool
  | [] => false
  | e :: rest => hasBreak e || operandsHaveBreak rest
termination_by structural es => es

def tailHasBreak : IfTail → Bool
  | .none => false
  | .els e => hasBreak e
  | .elsIf c b => hasBreak c || hasBreak b
termination_by structural tail => tail

def casesHaveBreak : List WhenCase → Bool
  | [] => false
  | .case c b :: rest => hasBreak c || hasBreak b || casesHaveBreak rest
  | .default b :: rest => hasBreak b || casesHaveBreak rest
termination_by structural cases => cases

def stepHasBreak : Option Expr → Bool
  | none => false
  | some step => hasBreak step
termination_by structural step => step

def statementsHaveBreak : List Stmt → Bool
  | [] => false
  | .brk _ :: _ => true
  | .expression e _ :: rest => hasBreak e || statementsHaveBreak rest
  | .discard e :: rest => hasBreak e || statementsHaveBreak rest
  | .binding _ (some e) :: rest => hasBreak e || statementsHaveBreak rest
  | .defer e :: rest => hasBreak e || statementsHaveBreak rest
  | .ret (some e) :: rest => hasBreak e || statementsHaveBreak rest
  | .jump arguments :: rest => operandsHaveBreak arguments || statementsHaveBreak rest
  | _ :: rest => statementsHaveBreak rest
termination_by structural statements => statements

end

/-- A step that the check has thought of: a for-in loop that is left at its end has a body that need not
    terminate; an `If` of four operands finds a body when it is to have a value or both bodies terminate; a
    body run in another's place has a value if that has, or terminates; and an endless loop is left by a
    `break` the search for one sees. -/
def Foreseen : Action → Prop
  | .els body _ e => hasValue body → hasValue e ∨ exprAlwaysTerminates e
  | .default skipped b =>
    ∀ first, skipped.head? = some first → hasValue first → hasValue b ∨ exprAlwaysTerminates b
  | .unmatched first second =>
    ¬ hasValue first ∧ ¬ (exprAlwaysTerminates first ∧ exprAlwaysTerminates second)
  | .joined (.forIn label iterable body) => ¬ exprAlwaysTerminates (.forIn label iterable body)
  | .joined (.whileE _ cond body) =>
    conditionIsAlwaysLiteralTrue cond → hasBreak cond ∨ hasBreak body → exprContainsBreak body
  | .joined (.forE _ cond body step) =>
    conditionIsAlwaysLiteralTrue cond → hasBreak cond ∨ hasBreak body ∨ stepHasBreak step → exprContainsBreak body
  | _ => True

/-- No state; every action of the run is foreseen. -/
def returns : Monitor Unit Action where
  step _ _ := ()
  assume _ a := Foreseen a
  assert _ _ := True

/-- What a run that ends in `o` keeps of: the end is not reached; the end comes with a value; no `break`
    leads out. -/
structure Ends (terminates value breaks : Bool) (o : Outcome) : Prop where
  terminates : terminates = true → ∀ v, o ≠ .normal v
  value : value = true → ∀ v, o = .normal v → v = true
  breaks : breaks = false → ∀ label, o ≠ .exit (.brk label)

end Zith.Flow
