import Zith.Sema.Syntax

/-! What the lowering writes: HIR expressions, the blocks of one function, and the state the lowering
    functions share while they move `current_block_` from block to block. -/

namespace Zith.Sema

/-- A storage slot: that of a local, or the n-th one made by the lowering itself. -/
inductive Slot
  | local (id : Nat)
  | temp (n : Nat)
deriving DecidableEq, Repr

/-- A node of the expression arena with the nodes it refers to; two references to one node carry the same
    `id`. -/
inductive HirExpr
  | node (id : Nat) (op : Operator) (operands : List HirExpr)
  | slotAlloca (id : Nat) (slot : Slot)
  | slotStore (id : Nat) (slot : Slot) (value : HirExpr)
  | slotLoad (id : Nat) (slot : Slot)
  | slotAddr (id : Nat) (slot : Slot)
  | cleanup (id : Nat) (exprs : List HirExpr)

/-- What ends a block. -/
inductive HirTerminator
  | jump (target : Nat)
  | branch (cond : Option HirExpr) (thenBlock elseBlock : Nat)
  | ret (value : Option HirExpr)
  | panic (code : Nat)

def HirTerminator.targets : HirTerminator → List Nat
  | .jump target => [target]
  | .branch _ thenBlock elseBlock => [thenBlock, elseBlock]
  | .ret _ => []
  | .panic _ => []

structure HirBlock where
  insts : List HirExpr
  terminator : Option HirTerminator

def HirBlock.empty : HirBlock := { insts := [], terminator := none }

structure LoopTarget where
  continueBlock : Nat
  breakBlock : Nat
  label : String
  /-- Index of the first cleanup frame that belongs to the loop body. -/
  cleanupDepth : Nat

/-- A write to a block, as it was made: an instruction with the block that was current then and whether
    its block had ended, or a terminator. -/
inductive Write
  | inst (block current : Nat) (ended : Bool)
  | terminator (block : Nat)

/-- `HirLowerModern` while it lowers one function body. The innermost frame and loop come first. Nothing
    reads `writes`. -/
structure Builder where
  blocks : List HirBlock
  current : Nat
  nextExpr : Nat
  nextSlot : Nat
  loopStack : List LoopTarget
  cleanupStack : List (List HirExpr)
  deferBodySink : Option (List HirExpr)
  writes : List Write

namespace Builder

def block (s : Builder) (b : Nat) : HirBlock := (s.blocks[b]?).getD .empty

/-- The terminator of a block, if it has one. -/
def term (s : Builder) (b : Nat) : Option HirTerminator := (s.block b).terminator

/-- `blocks[current_block_].terminator != kInvalidHirExpr`. -/
def ended (s : Builder) : Bool := (s.term s.current).isSome

def newBlock (s : Builder) : Builder := { s with blocks := s.blocks ++ [.empty] }

def setCurrentBlock (s : Builder) (b : Nat) : Builder := { s with current := b }

/-- `setCurrentBlock(b)` with the instructions of `b` dropped. -/
def startBlock (s : Builder) (b : Nat) : Builder :=
  { s with
    blocks := s.blocks.modify b fun block => { block with insts := [] }
    current := b }

/-- `blocks[b].insts.push(e)`. -/
def push (s : Builder) (b : Nat) (e : HirExpr) : Builder :=
  { s with
    blocks := s.blocks.modify b fun block => { block with insts := block.insts ++ [e] }
    writes := .inst b s.current (s.term b).isSome :: s.writes }

def pushCurrent (s : Builder) (e : HirExpr) : Builder := s.push s.current e

def setTerminator (s : Builder) (t : HirTerminator) : Builder :=
  { s with
    blocks := s.blocks.modify s.current fun block => { block with terminator := some t }
    writes := .terminator s.current :: s.writes }

def emitJump (s : Builder) (target : Nat) : Builder := s.setTerminator (.jump target)

/-- `emitJump` where the code has tested that the block has not ended. -/
def jumpIfOpen (s : Builder) (target : Nat) : Builder :=
  if s.ended then s else s.emitJump target

/-- An id for one more node. -/
def fresh (s : Builder) : Builder := { s with nextExpr := s.nextExpr + 1 }

/-- `next_slot_++`. -/
def freshSlot (s : Builder) : Builder := { s with nextSlot := s.nextSlot + 1 }

def pushFrame (s : Builder) : Builder := { s with cleanupStack := [] :: s.cleanupStack }

def popFrame (s : Builder) : Builder := { s with cleanupStack := s.cleanupStack.tail }

def pushLoop (s : Builder) (l : LoopTarget) : Builder := { s with loopStack := l :: s.loopStack }

def popLoop (s : Builder) : Builder := { s with loopStack := s.loopStack.tail }

end Builder

end Zith.Sema
