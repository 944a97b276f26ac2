import Zith.Lib.Command

/-! A function body as the checks on locals and on control flow see it. The tree is the frontend's, with
    every `Name` that resolves to a local and nothing of types but what these checks ask for; functions with
    raw regions are left out. A run of a body is a run of its command (`Expr.code`), in the order the
    lowering evaluates things in.

        if (c) { b }                        ifE c b .none
        if (c) { b } else { e }             ifE c b (.els e)
        if (c) { b } else (c2) { b2 }       ifE c b (.elsIf c2 b2)         an `If` of four operands
-/

namespace Zith.Flow

open Lib (Command Exit)

abbrev LocalId := Nat

/-- Whether a value is a pointer, and to a `view`. -/
inductive PointerKind
  | none
  | mutable
  | view
deriving DecidableEq, Repr

/-- How a place expression goes on from the value of its object, and what that is: if it is a pointer, the
    step goes through it. The object of an arrow or a dereference always is one. -/
inductive PathStep
  | field (name : String) (object : PointerKind)
  | arrow (name : String) (view : Bool)
  | index (object : PointerKind)
  | deref (view : Bool)
deriving DecidableEq, Repr

def PathStep.object : PathStep → PointerKind
  | .field _ object => object
  | .arrow _ view => if view then .view else .mutable
  | .index object => object
  | .deref view => if view then .view else .mutable

def PathStep.isPointer : PathStep → Bool
  | .field _ _ => false
  | .arrow _ _ => true
  | .index _ => false
  | .deref _ => true

/-- What a method does with its receiver. The move of a receiver is recorded, unless the method is
    generic: `inferMethodCall` returns before it in that case. -/
inductive Receiver
  | borrowed
  | consumed
  | consumedByGeneric
deriving DecidableEq, Repr

mutual

inductive Expr
  | literal (text : String)
  | name (x : LocalId)
  /-- The kinds whose operands are inferred, and evaluated, from left to right. -/
  | operator (hasValue : Bool) (operands : List Expr)
  | isNull (operand : Expr)
  | not (operand : Expr)
  /-- An optional where its payload is asked for: sema wants a proof that it is not null. -/
  | payload (operand : Expr)
  /-- `&operand`. -/
  | address (operand : Expr)
  | method (kind : Receiver) (hasValue : Bool) (receiver : Expr) (arguments : List Expr)
  | path (step : PathStep) (object : Expr) (operands : List Expr)
  | assign (target value : Expr)
  | optionalProp (operand : Expr)
  | block (statements : List Stmt)
  | ifE (cond body : Expr) (tail : IfTail)
  | whenE (subject : Expr) (cases : List WhenCase)
  | whileE (label : String) (cond body : Expr)
  | forE (label : String) (cond body : Expr) (step : Option Expr)
  | forIn (label : String) (iterable body : Expr)
  | macroCall (arguments : List Expr) (expansion : Expr)

inductive IfTail
  | none
  | els (body : Expr)
  | elsIf (cond body : Expr)

inductive WhenCase
  | case (cond body : Expr)
  | default (body : Expr)

inductive Stmt
  | expression (expression : Expr) (hasSemicolon : Bool)
  | discard (expression : Expr)
  | declaration
  | binding (x : LocalId) (initializer : Option Expr)
  /-- The binding that `parseFor` puts at the front of the body of a for-in loop. -/
  | element (x : LocalId)
  | defer (expression : Expr)
  | ret (expression : Option Expr)
  | brk (label : String)
  | cont (label : String)
  | jump (arguments : List Expr)

end

def Stmt.isDefer : Stmt → Bool
  | .defer _ => true
  | _ => false

/-- The locals that a block declares itself. -/
def declared : List Stmt → List LocalId
  | [] => []
  | .binding x _ :: rest => x :: declared rest
  | .element x :: rest => x :: declared rest
  | _ :: rest => declared rest

/-- What a run does. The first group happens to the locals; the second tells where a run is, for the
    inference goes over the body in another order and once. -/
inductive Action
  | declare (x : LocalId)
  | initialise (x : LocalId)
  | leave (xs : List LocalId)
  | read (x : LocalId)
  | store (x : LocalId)
  | storeThrough (target : Expr)
  /-- `&x`, or the call of a method that consumes `x` when its arguments have been evaluated. -/
  | move (x : LocalId) (recorded : Bool) (arguments : List Expr)
  | tested (cond : Expr) (outcome : Bool)
  | unwrap (operand : Expr)
  /-- The right side of an assignment to a local begins. -/
  | assigning (x : LocalId) (value : Expr)
  /-- `e` begins, and of what inference sees before it `skipped` has not been run. -/
  | enter (skipped : List Expr) (e : Expr)
  /-- The body `e` of an `else` begins, instead of `body`; `missed` has been run and inference sees it
      later. -/
  | els (body : Expr) (missed : List Expr) (e : Expr)
  /-- Neither body of an `If` of four operands is run. -/
  | unmatched (first second : Expr)
  /-- The body of a default case begins, instead of the bodies `skipped`. -/
  | default (skipped : List Expr) (body : Expr)
  | deferred (block : List Stmt) (body : Expr)
  /-- A loop goes into its next iteration. -/
  | again (e : Expr)
  | joined (e : Expr)

/-- What a loop repeats. -/
def repeated : Expr → Expr
  | .forIn _ _ body => body
  | e => e

/-! ### Commands -/

/-- `conditionIsAlwaysLiteralTrue`. -/
def conditionIsAlwaysLiteralTrue : Expr → Bool
  | .literal text => text == "true"
  | _ => false

/-- A loop: `cond` and `body`, then `step`, until the condition fails; it cannot fail if `endless`. -/
def loopCode (label : String) (e : Expr) (endless : Bool) (cond body step : Command Action) :
    Command Action :=
  let body := if endless then body else .either (.exit (.brk "")) body
  .mark
    (.loop label (.seq (.resume label (.seq cond body)) (.seq (.resume label step) (.act (.again e)))))
    (.joined e)

/-- The move of a receiver that is a local. -/
def moveCode (arguments : List Expr) : Receiver → Expr → Command Action
  | .consumed, .name x => .act (.move x true arguments)
  | .consumedByGeneric, .name x => .act (.move x false arguments)
  | _, _ => .done false

mutual

def Expr.code : Expr → Command Action
  | .literal _ => .done true
  | .name x => .seq (.act (.read x)) (.done true)
  | .operator hasValue operands => .seq (operandsCode operands) (.done hasValue)
  | .isNull operand => .seq operand.code (.done true)
  | .not operand => .seq operand.code (.done true)
  | .payload operand => .seq (.mark operand.code (.unwrap operand)) (.done true)
  | .address (.name x) => .seq (.act (.read x)) (.seq (.act (.move x true [])) (.done true))
  | .address operand => .seq operand.code (.done true)
  | .method kind hasValue receiver arguments =>
    .seq receiver.code (.seq (operandsCode arguments) (.seq (moveCode arguments kind receiver) (.done hasValue)))
  | .path _ object operands => .seq object.code (.seq (operandsCode operands) (.done true))
  | .assign (.name x) value =>
    .seq (.act (.assigning x value)) (.seq value.code (.seq (.act (.store x)) (.done true)))
  | .assign target value =>
    .seq target.code (.seq value.code (.seq (.act (.storeThrough target)) (.done true)))
  | .optionalProp operand => .seq operand.code (.either (.done true) (.exit .ret))
  | .block statements =>
    let body := .cleanup (statementsCode statements statements) (.act (.leave (declared statements)))
    if statements.any Stmt.isDefer then .mark body (.joined (.block statements)) else body
  | .ifE cond body tail =>
    .mark
      (.seq cond.code (.either (.seq (.act (.tested cond true)) body.code)
        (.seq (.act (.tested cond false)) (tailCode body tail))))
      (.joined (.ifE cond body tail))
  | .whenE subject cases =>
    .mark (.seq subject.code (casesCode [] cases)) (.joined (.whenE subject cases))
  | .whileE label cond body =>
    loopCode label (.whileE label cond body) (conditionIsAlwaysLiteralTrue cond) cond.code body.code (.done false)
  | .forE label cond body step =>
    loopCode label (.forE label cond body step) (conditionIsAlwaysLiteralTrue cond) cond.code body.code
      (stepCode cond body step)
  | .forIn label iterable body =>
    .seq iterable.code (loopCode label (.forIn label iterable body) false (.done false) body.code (.done false))
  | .macroCall _ expansion => expansion.code
termination_by structural e => e

def operandsCode : List Expr → Command Action
  | [] => .done false
  | e :: rest => .seq e.code (operandsCode rest)
termination_by structural es => es

def tailCode (body : Expr) : IfTail → Command Action
  | .none => .done false
  | .els e => .seq (.act (.els body [] e)) e.code
  | .elsIf c b =>
    .seq (.act (.enter [body, b] c)) (.seq c.code
      (.either (.seq (.act (.tested c true)) (.seq (.act (.els body [c] b)) b.code))
        (.seq (.act (.tested c false)) (.act (.unmatched body b)))))
termination_by structural tail => tail

/-- The cases still to be tested; the bodies of those before them have been skipped. -/
def casesCode (skipped : List Expr) : List WhenCase → Command Action
  | [] => .done false
  | .case c b :: rest =>
    .seq (.act (.enter skipped c)) (.seq c.code
      (.either (.seq (.act (.enter skipped b)) b.code) (casesCode (skipped ++ [b]) rest)))
  | .default b :: _ => .seq (.act (.default skipped b)) b.code
termination_by structural cases => cases

def stepCode (cond body : Expr) : Option Expr → Command Action
  | none => .done false
  | some step => .seq (.act (.enter [cond, body] step)) step.code
termination_by structural step => step

/-- The statements of the block `all`. A deferred body runs when what follows it in the block has ended,
    the last one deferred first. -/
def statementsCode (all : List Stmt) : List Stmt → Command Action
  | [] => .done false
  | [.expression e false] => e.code
  | .expression e _ :: rest => .seq e.code (statementsCode all rest)
  | .discard e :: rest => .seq e.code (statementsCode all rest)
  | .declaration :: rest => statementsCode all rest
  | .binding x none :: rest => .seq (.act (.declare x)) (statementsCode all rest)
  | .binding x (some e) :: rest =>
    .seq e.code (.seq (.act (.initialise x)) (statementsCode all rest))
  | .element x :: rest => .seq (.act (.initialise x)) (statementsCode all rest)
  | .defer e :: rest => .cleanup (statementsCode all rest) (.seq (.act (.deferred all e)) e.code)
  | .ret none :: _ => .exit .ret
  | .ret (some e) :: _ => .seq e.code (.exit .ret)
  | .brk label :: _ => .exit (.brk label)
  | .cont label :: _ => .exit (.cont label)
  | .jump arguments :: _ => .seq (operandsCode arguments) (.exit .ret)
termination_by structural statements => statements

end

end Zith.Flow
