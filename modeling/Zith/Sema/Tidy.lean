import Zith.Sema.Syntax

/-! Which source trees lower to well-formed control flow. Only a `return` leaves the current block ended;
    `break`, `continue` and every construct with blocks of its own go on in a fresh block.

        closes e    lowering `e` ends in a block that has a terminator
        valued e    lowering `e` gives a node
        moves e     lowering `e` may leave another block current
        tidy e      nothing is written to a block that has ended, and a loop step stays in its block
-/

namespace Zith.Sema

mutual

/-- Lowered where the block has ended already, the expression writes nothing. -/
def quiet : Expr → Bool
  | .operator _ operands => quietAll operands
  | .block _ => true
  | _ => false

def quietAll : List Expr → Bool
  | [] => true
  | e :: es => quiet e && quietAll es

end

mutual

/-- Whether a quiet expression lowered after the end of the block gives a node. -/
def valuedAfterEnd : Expr → Bool
  | .operator _ operands => valuedAfterEndAll operands
  | _ => false

def valuedAfterEndAll : List Expr → Bool
  | [] => true
  | e :: es => valuedAfterEnd e && valuedAfterEndAll es

end

mutual

def closes : Expr → Bool
  | .operator (.call _) operands => closesArguments operands
  | .operator _ operands => closesAny operands
  | .spilled _ e => closes e
  | .checkedIndex object index => closes object || closes index
  | .optionalProp e => closes e
  | .must e => closes e
  | .block statements => closesStmts statements
  | .ifE _ operands => closesCondition operands
  | .whenE _ subject cases => !cases.isEmpty && closes subject
  | .forInRange _ _ lower upper _ _ _ => closes lower || closes upper
  | .forInNext _ _ iterable _ => closes iterable
  | _ => false

def closesAny : List Expr → Bool
  | [] => false
  | e :: es => closes e || closesAny es

/-- The operands of a call are lowered up to the first without a value. -/
def closesArguments : List Expr → Bool
  | [] => false
  | e :: es => closes e || (valued e && closesArguments es)

def closesCondition : List Expr → Bool
  | [] => false
  | cond :: rest => !rest.isEmpty && closes cond

def closesStmt : Stmt → Bool
  | .expression _ e _ => closes e
  | .discard _ e => closes e
  | .binding _ (some e) => closes e
  | .ret _ => true
  | _ => false

def closesStmts : List Stmt → Bool
  | [] => false
  | st :: sts => closesStmt st || closesStmts sts

def valued : Expr → Bool
  | .operator _ operands => valuedOperands operands
  | .spilled _ e => valued e
  | .checkedIndex object index =>
    valued object && (if closes object then valuedAfterEnd index else valued index)
  | .optionalProp e => valued e
  | .must e => valued e
  | .block statements => valuedStmts false statements
  | .ifE type operands => valuedCondition operands && type.hasValue
  | .whenE type subject cases => !cases.isEmpty && valued subject && type.hasValue
  | _ => false

def valuedOperands : List Expr → Bool
  | [] => true
  | e :: es => valued e && (if closes e then valuedAfterEndAll es else valuedOperands es)

/-- An `if` has a value only with an else side. -/
def valuedCondition : List Expr → Bool
  | [] => false
  | cond :: rest => decide (2 ≤ rest.length) && valued cond

/-- Whether the block has a value after the statement, given whether it had one before. -/
def valuedStmt (last : Bool) : Stmt → Bool
  | .expression _ e hasSemicolon => !hasSemicolon && valued e
  | .discard _ _ => false
  | .binding _ _ => false
  | .defer _ => false
  | _ => last

def valuedStmts (last : Bool) : List Stmt → Bool
  | [] => last
  | st :: sts => if closesStmt st then valuedStmt last st else valuedStmts (valuedStmt last st) sts

end

mutual

def moves : Expr → Bool
  | .operator _ operands => movesAny operands
  | .spilled _ e => moves e
  | .block statements => movesStmts statements
  | _ => true

def movesAny : List Expr → Bool
  | [] => false
  | e :: es => moves e || movesAny es

def movesStmt : Stmt → Bool
  | .expression _ e _ => moves e
  | .discard _ e => moves e
  | .binding _ (some e) => moves e
  | .ret (some e) => moves e
  | .brk _ => true
  | .cont _ => true
  | _ => false

def movesStmts : List Stmt → Bool
  | [] => false
  | st :: sts => movesStmt st || movesStmts sts

end

/-- The value, if there is one, is in a block that has not ended. -/
def usable (e : Expr) : Bool := !(closes e && valued e)

mutual

def tidy : Expr → Bool
  | .operator (.call _) operands => tidyOperands true operands
  | .operator _ operands => tidyOperands false operands
  | .spilled _ e => tidy e && usable e
  | .checkedIndex object index =>
    tidy object && (if closes object then quiet index else tidy index) && usable (.checkedIndex object index)
  | .optionalProp e => tidy e && usable e
  | .must e => tidy e && usable e
  | .block statements => tidyStmts statements
  | .ifE _ operands => tidyIf operands
  | .whenE _ subject cases =>
    cases.isEmpty || (tidy subject && usable subject && (!valued subject || tidyCases cases))
  | .whileE _ cond body => tidy cond && !closes cond && tidy body
  | .forE _ cond body none => tidy cond && !closes cond && tidy body
  | .forE _ cond body (some step) =>
    tidy cond && !closes cond && tidy body && (tidy step && !moves step && usable step)
  | .forInRange _ _ lower upper _ _ body =>
    tidy lower && (if closes lower then quiet upper else tidy upper) &&
      usable (.checkedIndex lower upper) && (!valued (.checkedIndex lower upper) || tidy body)
  | .forInNext _ _ iterable body => tidy iterable && usable iterable && (!valued iterable || tidy body)

def tidyOperands (isCall : Bool) : List Expr → Bool
  | [] => true
  | e :: es =>
    tidy e && ((isCall && !valued e) || if closes e then quietAll es else tidyOperands isCall es)

def tidyIf : List Expr → Bool
  | [] => true
  | cond :: rest => rest.isEmpty || (tidy cond && usable cond && (!valued cond || tidyArms rest))

/-- The body and the else operands of an `if`. -/
def tidyArms : List Expr → Bool
  | [] => true
  | body :: rest => tidy body && tidyElse rest

def tidyElse : List Expr → Bool
  | [] => true
  | e :: rest =>
    if rest.isEmpty then tidy e
    else tidy e && usable e && tidyElseBody (valued e || closes e) rest

/-- The last of four operands: lowered after the branch to the merge block, unless the condition has no
    value. -/
def tidyElseBody (ended : Bool) : List Expr → Bool
  | [] => true
  | body :: _ => if ended then quiet body else tidy body

/-- The language has no deferred statements here. -/
def tidyStmt : Stmt → Bool
  | .expression _ e _ => tidy e && usable e
  | .discard _ e => tidy e && usable e
  | .declaration => true
  | .binding _ none => true
  | .binding _ (some e) => tidy e && usable e
  | .defer _ => false
  | .ret none => true
  | .ret (some e) => tidy e && !closes e
  | .brk _ => true
  | .cont _ => true

def tidyStmts : List Stmt → Bool
  | [] => true
  | st :: sts => tidyStmt st && (closesStmt st || tidyStmts sts)

def tidyCase : WhenCase → Bool
  | .case cond body => tidyWhenCond cond && tidy body
  | .default body => tidy body

def tidyCases : List WhenCase → Bool
  | [] => true
  | c :: cs => tidyCase c && tidyCases cs

def tidyWhenCond : WhenCond → Bool
  | .test e => tidy e && !closes e
  | .equal e => tidy e && !closes e
  | .range lower upper _ _ => tidy lower && !closes lower && tidy upper && !closes upper
  | .join _ left right => tidyWhenCond left && tidyWhenCond right

end

end Zith.Sema
