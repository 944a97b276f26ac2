/-! The frontend's expressions and statements, as far as the lowering to HIR tells them apart. What sema
    found out (whether a type is void, whether an index may fail) is recorded in the tree.

        if (c1) { b1 } else (c2) { b2 } else { b }     parseIf     ifE [c1, b1, ifE [c2, b2, b]]
        if (c1) { b1 } else (c2) { b2 }                parseIf     ifE [c1, b1, c2, b2]
-/

namespace Zith.Sema

/-- What the lowering asks of the type of an expression. -/
inductive SemaType
  | void
  | error
  | value
deriving DecidableEq, Repr

/-- `type != kVoidType && type != kErrorType`. -/
def SemaType.hasValue : SemaType → Bool
  | .value => true
  | .void => false
  | .error => false

/-- `HirBinaryOp`. -/
inductive BinaryOp
  | add | sub | mul | div | rem | eq | ne | lt | le | gt | ge | and | or | xor | shl | shr
deriving DecidableEq, Repr

/-- The expression kinds whose lowering lowers the operands from left to right and adds nodes only. -/
inductive Operator
  | literal (value : Int)
  | name (id : Nat)
  | var (symbol : Nat)
  | unary (op : Nat)
  | binary (op : BinaryOp)
  | call (callee : Nat)
  | index
  | assign (id : Nat)
  /-- `object[index] = value`, on these three operands. -/
  | assignIndex
  | other (kind : Nat)
deriving DecidableEq, Repr

mutual

inductive Expr
  | operator (op : Operator) (operands : List Expr)
  /-- The operand is kept in a slot of its own and the node reads the slot (`IsNull`, `IsType`, an
      optional used as a condition, ...). -/
  | spilled (op : Operator) (operand : Expr)
  /-- An index or a slice whose result is optional: the bounds are tested. -/
  | checkedIndex (object index : Expr)
  | optionalProp (operand : Expr)
  | must (operand : Expr)
  | block (statements : List Stmt)
  | ifE (type : SemaType) (operands : List Expr)
  | whenE (type : SemaType) (subject : Expr) (cases : List WhenCase)
  | whileE (label : String) (cond body : Expr)
  | forE (label : String) (cond body : Expr) (step : Option Expr)
  | forInRange (label : String) (binding : Nat) (lower upper : Expr) (openAtLo openAtHi : Bool)
      (body : Expr)
  | forInNext (label : String) (binding : Nat) (iterable body : Expr)

inductive Stmt
  | expression (type : SemaType) (expression : Expr) (hasSemicolon : Bool)
  | discard (type : SemaType) (expression : Expr)
  | declaration
  | binding (id : Nat) (initializer : Option Expr)
  | defer (expression : Expr)
  | ret (expression : Option Expr)
  | brk (label : String)
  | cont (label : String)

inductive WhenCase
  | case (cond : WhenCond) (body : Expr)
  | default (body : Expr)

/-- A condition of a `when` case; islands joined by `and`, `or` and `xor` are a tree of `join`. -/
inductive WhenCond
  | test (e : Expr)
  | equal (e : Expr)
  | range (lower upper : Expr) (openAtLo openAtHi : Bool)
  | join (op : BinaryOp) (left right : WhenCond)

end

def Expr.isBlock : Expr → Bool
  | .block _ => true
  | _ => false

/-! ### Conditional chains -/

/-- One `(cond) { body }` of a chain, with the type sema gives the `If` node it starts. -/
structure Arm where
  type : SemaType
  cond : Expr
  body : Expr

/-- `parseElseTail`, after an `else`: a block, or an `If` node of two or three operands. -/
def parseElseTail : List Arm → Option Expr → Option Expr
  | [], els => els
  | arm :: rest, els =>
    match parseElseTail rest els with
    | none => some (.ifE arm.type [arm.cond, arm.body])
    | some tail => some (.ifE arm.type [arm.cond, arm.body, tail])

/-- `parseIf`: a condition after the first `else` starts a node of its own when a further `else` follows,
    and becomes the third operand of this node when none does. -/
def parseIf (first : Arm) (rest : List Arm) (els : Option Expr) : Expr :=
  match rest with
  | [] =>
    match els with
    | none => .ifE first.type [first.cond, first.body]
    | some block => .ifE first.type [first.cond, first.body, block]
  | second :: rest =>
    match parseElseTail rest els with
    | none => .ifE first.type [first.cond, first.body, second.cond, second.body]
    | some tail =>
      .ifE first.type [first.cond, first.body, .ifE second.type [second.cond, second.body, tail]]

end Zith.Sema
