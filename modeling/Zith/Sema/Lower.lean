import Zith.Sema.Builder

/-! The lowering of a function body to HIR blocks. Every lowering function takes the lowerings of its
    parts: an expression lowers to a `Lowering`, which writes to the current block, may leave another
    block current, and gives the node of the value, if there is one. A reported error ends it.

    The frame stack holds lowered deferred bodies; a `defer` statement itself waits in the list of its
    block until the block ends or is left. -/

namespace Zith.Sema

theorem bind_eq_ok {α β : Type} {x : Except String α} {f : α → Except String β} {b : β}
    (h : (x >>= f) = .ok b) : ∃ a, x = .ok a ∧ f a = .ok b := by
  cases x with
  | error e => cases h
  | ok a => exact ⟨a, rfl, h⟩

/-- `lowerExpr` of some expression: the node is `none` for `kInvalidHirExpr`. -/
abbrev Lowering := Builder → Except String (Option HirExpr × Builder)

/-- The lowering of a statement, from the value so far of the block to the value after it. A deferred body
    only says how it is lowered once its block is left. -/
inductive StmtLowering
  | plain (exits : Bool) (lower : Option HirExpr → Lowering)
  | defer (lowerBody : Builder → Except String Builder)

structure CaseLowering where
  /-- Absent for the default case. -/
  cond : Option (Slot → Lowering)
  bodyIsBlock : Bool
  body : Lowering

namespace Builder

def pushAlloca (s : Builder) (slot : Slot) : Builder := s.fresh.pushCurrent (.slotAlloca s.nextExpr slot)

def pushStore (s : Builder) (slot : Slot) (value : HirExpr) : Builder :=
  s.fresh.pushCurrent (.slotStore s.nextExpr slot value)

/-- Keeps `value` in a slot made for it, the number `s.nextSlot`. -/
def spill (s : Builder) (value : HirExpr) : Builder :=
  (s.freshSlot.pushAlloca (.temp s.nextSlot)).pushStore (.temp s.nextSlot) value

/-- An instruction: of the deferred body being collected, else of the current block. -/
def emitInst (s : Builder) (e : HirExpr) : Builder :=
  match s.deferBodySink with
  | some sink => { s with deferBodySink := some (sink ++ [e]) }
  | none => s.pushCurrent e

/-- Where a lowered deferred body goes. -/
def deferInst (s : Builder) (e : HirExpr) : Builder :=
  match s.deferBodySink, s.cleanupStack with
  | some sink, _ => { s with deferBodySink := some (sink ++ [e]) }
  | none, frame :: frames => { s with cleanupStack := (frame ++ [e]) :: frames }
  | none, [] => s.pushCurrent e

/-- One cleanup with the frames from the innermost to the one of index `first`, each from its end. -/
def emitCleanupFrom (s : Builder) (first : Nat) : Builder :=
  let exprs := (s.cleanupStack.take (s.cleanupStack.length - first)).flatMap List.reverse
  if s.ended || exprs.isEmpty then s else s.fresh.pushCurrent (.cleanup s.nextExpr exprs)

end Builder

open Builder

/-! ### Operators -/

def operatorNode (op : Operator) (id : Nat) (operands : List HirExpr) : HirExpr :=
  match op, operands with
  | .name l, [] => .slotLoad id (.local l)
  | .assign l, [value] => .slotStore id (.local l) value
  | op, operands => .node id op operands

/-- Lowers all operands; a missing value shows only afterwards. -/
def lowerAll : List Lowering → Builder → Except String (Option (List HirExpr) × Builder)
  | [], s => .ok (some [], s)
  | e :: es, s => do
      let (value, s) ← e s
      let (values, s) ← lowerAll es s
      match value, values with
      | some value, some values => .ok (some (value :: values), s)
      | _, _ => .ok (none, s)

/-- Lowers the operands of a call, up to the first without a value. -/
def lowerArguments : List Lowering → Builder → Except String (Option (List HirExpr) × Builder)
  | [], s => .ok (some [], s)
  | e :: es, s => do
      let (value, s) ← e s
      match value with
      | none => .ok (none, s)
      | some value =>
        let (values, s) ← lowerArguments es s
        .ok (values.map (value :: ·), s)

def lowerOperands : Operator → List Lowering → Builder → Except String (Option (List HirExpr) × Builder)
  | .call _, operands => lowerArguments operands
  | _, operands => lowerAll operands

def lowerOperator (op : Operator) (operands : List Lowering) : Lowering := fun s => do
  let (values, s) ← lowerOperands op operands s
  match values with
  | none => .ok (none, s)
  | some values => .ok (some (operatorNode op s.nextExpr values), s.fresh)

/-- `lowerOptionalCondition`, `lowerIsNull`, `lowerIsType`, ...: the operand is spilled. -/
def lowerSpilled (op : Operator) (operand : Lowering) : Lowering := fun s => do
  let (value, s) ← operand s
  match value with
  | none => .ok (none, s)
  | some value =>
    let t := (s.spill value).fresh
    .ok (some (.node t.nextExpr op [.slotAddr (s.spill value).nextExpr (.temp s.nextSlot)]), t.fresh)

/-- The bounds of a spilled index are tested; each side stores the result and goes on at the merge block. -/
def boundsTest (objectSlot indexSlot resultSlot : Slot) (s : Builder) : HirExpr × Builder :=
  let inBounds := HirExpr.node (s.nextExpr + 2) (.other 0)
    [.slotLoad s.nextExpr indexSlot, .slotLoad (s.nextExpr + 1) objectSlot]
  let someBlock := s.blocks.length
  let noneBlock := someBlock + 1
  let mergeBlock := someBlock + 2
  let s := s.fresh.fresh.fresh.newBlock.newBlock.newBlock
  let s := (s.setTerminator (.branch (some inBounds) someBlock noneBlock)).startBlock someBlock
  let element := HirExpr.node (s.nextExpr + 2) .index
    [.slotLoad s.nextExpr objectSlot, .slotLoad (s.nextExpr + 1) indexSlot]
  let s := (s.fresh.fresh.fresh.pushStore resultSlot element).emitJump mergeBlock
  let s := s.startBlock noneBlock
  let s := (s.fresh.pushStore resultSlot (.node s.nextExpr (.other 1) [])).emitJump mergeBlock
  let s := s.startBlock mergeBlock
  (.slotLoad s.nextExpr resultSlot, s.fresh)

/-- `lowerIndex` (and `lowerSliceRange`) of an optional result: object, index and result have slots. -/
def lowerCheckedIndex (object index : Lowering) : Lowering := fun s => do
  let (object, s) ← object s
  let (index, s) ← index s
  match object, index with
  | some object, some index =>
    let objectSlot := Slot.temp s.nextSlot
    let indexSlot := Slot.temp (s.nextSlot + 1)
    let resultSlot := Slot.temp (s.nextSlot + 2)
    let s := s.freshSlot.freshSlot.freshSlot
    let s := (s.pushAlloca objectSlot).pushStore objectSlot object
    let s := (s.pushAlloca indexSlot).pushStore indexSlot index
    let (result, s) := boundsTest objectSlot indexSlot resultSlot (s.pushAlloca resultSlot)
    .ok (some result, s)
  | _, _ => .ok (none, s)

/-- The block of a spilled optional without a payload ends as `noneEnd` says; the other one goes on. -/
def payloadTest (slot : Slot) (noneEnd : Builder → Builder) (s : Builder) : Builder :=
  let isSome := HirExpr.node (s.nextExpr + 1) (.other 2) [.slotAddr s.nextExpr slot]
  let someBlock := s.blocks.length
  let noneBlock := someBlock + 1
  let s := s.fresh.fresh.newBlock.newBlock.setTerminator (.branch (some isSome) someBlock noneBlock)
  (noneEnd (s.startBlock noneBlock)).startBlock someBlock

/-- `return None`. -/
def returnNone (s : Builder) : Builder := s.fresh.setTerminator (.ret (some (.node s.nextExpr (.other 1) [])))

/-- `x?`: the enclosing function returns `None` when there is no payload. -/
def lowerOptionalProp (operand : Lowering) : Lowering := fun s => do
  let (value, s) ← operand s
  match value with
  | none => .ok (none, s)
  | some value =>
    let slot := Slot.temp s.nextSlot
    let resultSlot := Slot.temp (s.nextSlot + 1)
    let s := (s.spill value).freshSlot.pushAlloca resultSlot
    let s := payloadTest slot returnNone s
    let payload := HirExpr.node (s.nextExpr + 1) (.other 3) [.slotAddr s.nextExpr slot]
    let s := s.fresh.fresh.pushStore resultSlot payload
    .ok (some (.slotLoad s.nextExpr resultSlot), s.fresh)

/-- `must x`: a run without a payload ends with the runtime error 10003. -/
def lowerMust (operand : Lowering) : Lowering := fun s => do
  let (value, s) ← operand s
  match value with
  | none => .ok (none, s)
  | some value =>
    let slot := Slot.temp s.nextSlot
    let s := payloadTest slot (·.setTerminator (.panic 10003)) (s.spill value)
    .ok (some (.node (s.nextExpr + 1) (.other 3) [.slotAddr s.nextExpr slot]), s.fresh.fresh)

/-! ### Blocks and deferred bodies -/

/-- Lowers the waiting deferred bodies into the innermost frame, unless the block has ended. -/
def flushPendingDefers : List (Builder → Except String Builder) → Builder → Except String Builder
  | [], s => .ok s
  | body :: rest, s => do
      if s.ended then .ok s else
        let s ← body s
        flushPendingDefers rest s

/-- The statement loop of `lowerBlock`. -/
def lowerStatements (pending : List (Builder → Except String Builder)) (last : Option HirExpr) :
    List StmtLowering → Builder → Except String (List (Builder → Except String Builder) × Option HirExpr × Builder)
  | [], s => .ok (pending, last, s)
  | .plain exits lower :: rest, s => do
      let s ← (if exits then flushPendingDefers pending s else .ok s)
      if s.ended then .ok (pending, last, s) else
        let (last, s) ← lower last s
        lowerStatements pending last rest s
  | .defer lowerBody :: rest, s => do
      if s.ended then .ok (pending, last, s) else
        match s.deferBodySink with
        | some _ =>
          let s ← lowerBody s
          lowerStatements pending last rest s
        | none => lowerStatements (pending ++ [lowerBody]) none rest s

def lowerBlock (statements : List StmtLowering) : Lowering := fun s => do
  let (pending, last, s) ← lowerStatements [] none statements s.pushFrame
  let s ← flushPendingDefers pending s
  let frame := s.cleanupStack.headD []
  let s := s.popFrame
  if frame.isEmpty || s.ended then .ok (last, s)
  else .ok (last, s.fresh.pushCurrent (.cleanup s.nextExpr frame))

/-- The statement loop of `lowerDeferBlock`; a nested `defer` is lowered where it stands. -/
def lowerDeferStatements (last : Option HirExpr) : List StmtLowering → Builder → Except String Builder
  | [], s => .ok s
  | .plain _ lower :: rest, s => do
      if s.ended then .ok s else
        let (last, s) ← lower last s
        lowerDeferStatements last rest s
  | .defer lowerBody :: rest, s => do
      if s.ended then .ok s else
        let s ← lowerBody s
        lowerDeferStatements last rest s

/-- `lowerDeferBody` of a block. -/
def lowerDeferBlock (statements : List StmtLowering) : Builder → Except String Builder := fun s => do
  let t ← lowerDeferStatements none statements { s with deferBodySink := some [] }
  let body := HirExpr.cleanup t.nextExpr (t.deferBodySink.getD [])
  .ok ({ t with deferBodySink := s.deferBodySink }.fresh.deferInst body)

/-- `lowerDeferBody` of any other expression. Without a value the source gives up the enclosing block
    with its frame in place; the lowering ends here. -/
def lowerDeferExpr (body : Lowering) : Builder → Except String Builder := fun s => do
  let (value, s) ← body s
  match value with
  | none => .error "deferred expression without a value"
  | some value => .ok (s.deferInst value)

/-! ### Branches -/

/-- One side of an `if`: the body in a frame of its own, its value stored in the result slot, and a jump
    to the merge block. -/
def lowerArm (resultSlot : Option Slot) (mergeBlock : Nat) (body : Lowering) :
    Builder → Except String Builder := fun s => do
  let depth := s.cleanupStack.length
  let (value, s) ← body s.pushFrame
  let s := (s.emitCleanupFrom depth).popFrame
  let s := match resultSlot, value with
    | some slot, some value => if s.ended then s else s.pushStore slot value
    | _, _ => s
  .ok (s.jumpIfOpen mergeBlock)

/-- The else side of an `if` of four operands: the third one ends the block with a branch whose targets
    are both the merge block, and the fourth is lowered after it. -/
def lowerElseCondition (mergeBlock : Nat) (cond body : Lowering) : Lowering := fun s => do
  let (cond, s) ← cond s
  let s := match cond with
    | none => s
    | some cond => (s.pushCurrent cond).setTerminator (.branch (some cond) mergeBlock mergeBlock)
  body s

def lowerElse (resultSlot : Option Slot) (elseBlock mergeBlock : Nat) :
    List Lowering → Builder → Except String Builder
  | [], s => .ok s
  | [elseBody], s => lowerArm resultSlot mergeBlock elseBody (s.startBlock elseBlock)
  | elseCond :: elseBody :: _, s =>
    lowerArm resultSlot mergeBlock (lowerElseCondition mergeBlock elseCond elseBody) (s.startBlock elseBlock)

def lowerIf (type : SemaType) : List Lowering → Lowering
  | cond :: thenBody :: elseOperands => fun s => do
      let (cond, s) ← cond s
      match cond with
      | none => .ok (none, s)
      | some cond =>
        let hasElse := !elseOperands.isEmpty
        let hasValue := hasElse && type.hasValue
        let resultSlot := if hasValue then some (Slot.temp s.nextSlot) else none
        let s := if hasValue then s.freshSlot.pushAlloca (.temp s.nextSlot) else s
        let thenBlock := s.blocks.length
        let elseBlock := thenBlock + 1
        let mergeBlock := thenBlock + 2
        let s := s.newBlock.newBlock.newBlock
        let s := s.setTerminator
          (.branch (some cond) thenBlock (if hasElse then elseBlock else mergeBlock))
        let s ← lowerArm resultSlot mergeBlock thenBody (s.startBlock thenBlock)
        let s ← lowerElse resultSlot elseBlock mergeBlock elseOperands s
        let s := s.startBlock mergeBlock
        match resultSlot with
        | none => .ok (none, s)
        | some slot => .ok (some (.slotLoad s.nextExpr slot), s.fresh)
  | _ => fun s => .ok (none, s)

/-- A pattern of a `when` case: the value is compared with the subject. -/
def lowerWhenEqual (value : Lowering) (subjectSlot : Slot) : Lowering := fun s => do
  let (value, s) ← value s
  let subject := HirExpr.slotLoad s.nextExpr subjectSlot
  match value with
  | none => .ok (none, s.fresh)
  | some value => .ok (some (.node (s.nextExpr + 1) (.binary .eq) [subject, value]), s.fresh.fresh)

def lowerWhenRange (lower upper : Lowering) (openAtLo openAtHi : Bool) (subjectSlot : Slot) :
    Lowering := fun s => do
  let (lower, s) ← lower s
  let (upper, s) ← upper s
  let subject := HirExpr.slotLoad s.nextExpr subjectSlot
  match lower, upper with
  | some lower, some upper =>
    let low := HirExpr.node (s.nextExpr + 1) (.binary (if openAtLo then .gt else .ge))
      [subject, lower]
    let high := HirExpr.node (s.nextExpr + 2) (.binary (if openAtHi then .lt else .le))
      [subject, upper]
    .ok (some (.node (s.nextExpr + 3) (.binary .and) [low, high]), s.fresh.fresh.fresh.fresh)
  | _, _ => .ok (none, s.fresh)

def lowerWhenJoin (op : BinaryOp) (left right : Lowering) : Lowering := fun s => do
  let (left, s) ← left s
  let (right, s) ← right s
  match left, right with
  | some left, some right => .ok (some (.node s.nextExpr (.binary op) [left, right]), s.fresh)
  | _, _ => .ok (none, s)

/-- The test of one case: to its body, or on to the block the next case is tested in. Behind a default that
    is not the last case this is a block nothing leads to. -/
def lowerCaseTest (subjectSlot : Slot) (mergeBlock bodyBlock chainBlock : Nat) (isLast : Bool) :
    Option (Slot → Lowering) → Builder → Except String (Nat × Builder)
  | none, s =>
    let s := s.emitJump bodyBlock
    if isLast then .ok (chainBlock, s) else .ok (s.blocks.length, s.newBlock)
  | some cond, s => do
      let elseBlock := if isLast then mergeBlock else s.blocks.length
      let s := if isLast then s else s.newBlock
      let (cond, s) ← cond subjectSlot s
      .ok (elseBlock, s.setTerminator (.branch cond bodyBlock elseBlock))

/-- The case loop of `lowerWhen`: `chainBlock` is where the conditions go on, `first` says that this block
    is current already. -/
def lowerWhenCases (subjectSlot : Slot) (resultSlot : Option Slot) (mergeBlock : Nat) :
    Bool → Nat → List CaseLowering → Builder → Except String Builder
  | _, _, [], s => .ok s
  | first, chainBlock, c :: rest, s => do
      let s := if first then s else s.startBlock chainBlock
      let bodyBlock := s.blocks.length
      let s := s.newBlock
      let (nextChain, s) ← lowerCaseTest subjectSlot mergeBlock bodyBlock chainBlock rest.isEmpty c.cond s
      let s := s.startBlock bodyBlock
      let (value, s) ← c.body s
      let s := match resultSlot, value with
        | some slot, some value => if s.ended then s else s.pushStore slot value
        | none, some value => if s.ended || c.bodyIsBlock then s else s.pushCurrent value
        | _, none => s
      lowerWhenCases subjectSlot resultSlot mergeBlock false nextChain rest (s.jumpIfOpen mergeBlock)

def lowerWhen (type : SemaType) (subject : Lowering) (cases : List CaseLowering) : Lowering := fun s => do
  if cases.isEmpty then .ok (none, s) else
    let (subject, s) ← subject s
    match subject with
    | none => .ok (none, s)
    | some subject =>
      let subjectSlot := Slot.temp s.nextSlot
      let s := s.spill subject
      let resultSlot := if type.hasValue then some (Slot.temp s.nextSlot) else none
      let s := if type.hasValue then s.freshSlot.pushAlloca (.temp s.nextSlot) else s
      let mergeBlock := s.blocks.length
      let s := s.newBlock
      let s ← lowerWhenCases subjectSlot resultSlot mergeBlock true s.current cases s
      let s := s.startBlock mergeBlock
      match resultSlot with
      | none => .ok (none, s)
      | some slot => .ok (some (.slotLoad s.nextExpr slot), s.fresh)

/-! ### Loops -/

/-- A loop body: lowered in a frame of its own with `target` innermost, then a jump to the block a
    `continue` goes to. -/
def lowerLoopBody (continueBlock breakBlock : Nat) (label : String) (body : Lowering) :
    Builder → Except String Builder := fun s => do
  let depth := s.cleanupStack.length
  let s := (s.pushLoop ⟨continueBlock, breakBlock, label, depth⟩).pushFrame
  let (_, s) ← body s
  let s := (s.emitCleanupFrom depth).popFrame
  .ok (s.jumpIfOpen continueBlock).popLoop

def lowerWhile (label : String) (cond body : Lowering) : Lowering := fun s => do
  let headerBlock := s.blocks.length
  let bodyBlock := headerBlock + 1
  let exitBlock := headerBlock + 2
  let s := s.newBlock.newBlock.newBlock.emitJump headerBlock
  let (cond, s) ← cond (s.startBlock headerBlock)
  let s := s.setTerminator (.branch cond bodyBlock exitBlock)
  let s ← lowerLoopBody headerBlock exitBlock label body (s.startBlock bodyBlock)
  .ok (none, s.startBlock exitBlock)

/-- The step of a three-clause loop: its node goes to the step block and the test whether to jump back is
    made on the step block, wherever the lowering of the step has ended. -/
def lowerStep (headerBlock stepBlock : Nat) : Option Lowering → Builder → Except String Builder
  | none, s => .ok (if (s.term stepBlock).isSome then s else s.emitJump headerBlock)
  | some step, s => do
      let (value, s) ← step s
      let s := match value with
        | none => s
        | some value => s.push stepBlock value
      .ok (if (s.term stepBlock).isSome then s else s.emitJump headerBlock)

def lowerFor (label : String) (cond body : Lowering) (step : Option Lowering) : Lowering := fun s => do
  let headerBlock := s.blocks.length
  let bodyBlock := headerBlock + 1
  let stepBlock := headerBlock + 2
  let exitBlock := headerBlock + 3
  let s := s.newBlock.newBlock.newBlock.newBlock.emitJump headerBlock
  let (cond, s) ← cond (s.startBlock headerBlock)
  let s := s.setTerminator (.branch cond bodyBlock exitBlock)
  let s ← lowerLoopBody stepBlock exitBlock label body (s.startBlock bodyBlock)
  let s ← lowerStep headerBlock stepBlock step (s.startBlock stepBlock)
  .ok (none, s.startBlock exitBlock)

/-- The counter plus one. -/
def addOne (counter : Slot) (s : Builder) : Builder :=
  s.fresh.fresh.fresh.pushStore counter
    (.node (s.nextExpr + 2) (.binary .add) [.slotLoad s.nextExpr counter, .node (s.nextExpr + 1) (.literal 1) []])

/-- The slots of a range loop are filled: the bounds, and the counter with the first value. -/
def rangeSetup (lo hi counter : Slot) (lower upper : HirExpr) (openAtLo : Bool) (s : Builder) : Builder :=
  let s := (s.pushAlloca lo).pushStore lo lower
  let s := (s.pushAlloca hi).pushStore hi upper
  let s := s.pushAlloca counter
  let s := s.fresh.pushStore counter (.slotLoad s.nextExpr lo)
  if openAtLo then addOne counter s else s

/-- The test in the header of a range loop, and the loop variable in its body. -/
def rangeHeader (lo hi counter : Slot) (openAtLo openAtHi : Bool) (binding bodyBlock exitBlock : Nat)
    (s : Builder) : Builder :=
  let low := HirExpr.node (s.nextExpr + 2) (.binary (if openAtLo then .gt else .ge))
    [.slotLoad s.nextExpr counter, .slotLoad (s.nextExpr + 1) lo]
  let high := HirExpr.node (s.nextExpr + 4) (.binary (if openAtHi then .lt else .le))
    [.slotLoad s.nextExpr counter, .slotLoad (s.nextExpr + 3) hi]
  let cond := HirExpr.node (s.nextExpr + 5) (.binary .and) [low, high]
  let s := s.fresh.fresh.fresh.fresh.fresh.fresh
  let s := (s.setTerminator (.branch (some cond) bodyBlock exitBlock)).startBlock bodyBlock
  let s := s.pushAlloca (.local binding)
  s.fresh.pushStore (.local binding) (.slotLoad s.nextExpr counter)

/-- `lowerForIn` over a literal range: bounds and counter have slots, and the step adds one. -/
def lowerForInRange (label : String) (binding : Nat) (lower upper : Lowering)
    (openAtLo openAtHi : Bool) (body : Lowering) : Lowering := fun s => do
  let (lower, s) ← lower s
  let (upper, s) ← upper s
  match lower, upper with
  | some lower, some upper =>
    let headerBlock := s.blocks.length
    let bodyBlock := headerBlock + 1
    let stepBlock := headerBlock + 2
    let exitBlock := headerBlock + 3
    let lo := Slot.temp s.nextSlot
    let hi := Slot.temp (s.nextSlot + 1)
    let counter := Slot.temp (s.nextSlot + 2)
    let s := s.newBlock.newBlock.newBlock.newBlock.freshSlot.freshSlot.freshSlot
    let s := rangeSetup lo hi counter lower upper openAtLo s
    let s := (s.emitJump headerBlock).startBlock headerBlock
    let s := rangeHeader lo hi counter openAtLo openAtHi binding bodyBlock exitBlock s
    let s ← lowerLoopBody stepBlock exitBlock label body s
    let s := (addOne counter (s.startBlock stepBlock)).jumpIfOpen headerBlock
    .ok (none, s.startBlock exitBlock)
  | _, _ => .ok (none, s)

/-- The header of an iterator loop calls `next` and tests its result; the body takes the element out. -/
def nextHeader (address : HirExpr) (binding bodyBlock exitBlock : Nat) (s : Builder) : Builder :=
  let nextSlot := Slot.temp s.nextSlot
  let s := s.fresh.spill (.node s.nextExpr (.call 0) [address])
  let isEnd := HirExpr.node (s.nextExpr + 1) (.other 4) [.slotAddr s.nextExpr nextSlot]
  let s := s.fresh.fresh.setTerminator (.branch (some isEnd) exitBlock bodyBlock)
  let s := s.startBlock bodyBlock
  let payload := HirExpr.node (s.nextExpr + 1) (.other 3) [.slotAddr s.nextExpr nextSlot]
  (s.fresh.fresh.pushAlloca (.local binding)).pushStore (.local binding) payload

/-- `lowerForIn` over an iterator, which is kept in a slot. -/
def lowerForInNext (label : String) (binding : Nat) (iterable body : Lowering) : Lowering := fun s => do
  let (iterable, s) ← iterable s
  match iterable with
  | none => .ok (none, s)
  | some iterable =>
    let iterableSlot := Slot.temp s.nextSlot
    let s := s.spill iterable
    let address := HirExpr.slotAddr s.nextExpr iterableSlot
    let headerBlock := s.blocks.length
    let bodyBlock := headerBlock + 1
    let exitBlock := headerBlock + 2
    let s := s.fresh.newBlock.newBlock.newBlock.emitJump headerBlock
    let s := nextHeader address binding bodyBlock exitBlock (s.startBlock headerBlock)
    let s ← lowerLoopBody headerBlock exitBlock label body s
    .ok (none, s.startBlock exitBlock)

/-! ### Statements -/

def lowerExpressionStatement (type : SemaType) (e : Lowering) (hasSemicolon : Bool) : Lowering :=
  fun s => do
    let (value, s) ← e s
    match value with
    | none =>
      if type = .value then .error "expression statement could not be lowered" else .ok (none, s)
    | some value => .ok (if hasSemicolon then none else some value, s.emitInst value)

def lowerDiscard (type : SemaType) (e : Lowering) : Lowering := fun s => do
  let (value, s) ← e s
  match value with
  | none =>
    if type = .value then .error "discarded expression could not be lowered" else .ok (none, s)
  | some value => .ok (none, s.emitInst value)

def lowerBinding (id : Nat) (initializer : Option Lowering) : Lowering := fun s => do
  let s := s.fresh.emitInst (.slotAlloca s.nextExpr (.local id))
  match initializer with
  | none => .ok (none, s)
  | some init => do
      let (value, s) ← init s
      match value with
      | none => .ok (none, s)
      | some value => .ok (none, s.fresh.emitInst (.slotStore s.nextExpr (.local id) value))

/-- `return`: the frames come before the value. The value so far of the block is left as it is. -/
def lowerReturn (value : Option Lowering) (last : Option HirExpr) : Lowering := fun s => do
  let s := s.emitCleanupFrom 0
  match value with
  | none => .ok (last, s.setTerminator (.ret none))
  | some value => do
      let (value, s) ← value s
      .ok (last, s.setTerminator (.ret value))

/-- The loop a `break` or `continue` names: the innermost one when it names none. -/
def findLoop (label : String) (loops : List LoopTarget) : Option LoopTarget :=
  if label = "" then loops.head? else loops.find? fun l => l.label = label

/-- `break` and `continue`: the frames of the loop body, a jump, and a fresh block for what follows. -/
def lowerLoopExit (kind label : String) (block : LoopTarget → Nat) (last : Option HirExpr) : Lowering :=
  fun s =>
    if s.loopStack = [] then .error (kind ++ " used outside of a loop") else
      match findLoop label s.loopStack with
      | none => .error (kind ++ " label '" ++ label ++ "' does not name an active loop")
      | some target =>
        let s := (s.emitCleanupFrom target.cleanupDepth).emitJump (block target)
        .ok (last, s.newBlock.startBlock s.blocks.length)

/-! ### The recursion over the tree -/

mutual

def lowerExpr : Expr → Lowering
  | .operator op operands => lowerOperator op (lowerExprs operands)
  | .spilled op operand => lowerSpilled op (lowerExpr operand)
  | .checkedIndex object index => lowerCheckedIndex (lowerExpr object) (lowerExpr index)
  | .optionalProp operand => lowerOptionalProp (lowerExpr operand)
  | .must operand => lowerMust (lowerExpr operand)
  | .block statements => lowerBlock (lowerStmts statements)
  | .ifE type operands => lowerIf type (lowerExprs operands)
  | .whenE type subject cases => lowerWhen type (lowerExpr subject) (lowerCases cases)
  | .whileE label cond body => lowerWhile label (lowerExpr cond) (lowerExpr body)
  | .forE label cond body none => lowerFor label (lowerExpr cond) (lowerExpr body) none
  | .forE label cond body (some step) =>
    lowerFor label (lowerExpr cond) (lowerExpr body) (some (lowerExpr step))
  | .forInRange label binding lower upper openAtLo openAtHi body =>
    lowerForInRange label binding (lowerExpr lower) (lowerExpr upper) openAtLo openAtHi (lowerExpr body)
  | .forInNext label binding iterable body =>
    lowerForInNext label binding (lowerExpr iterable) (lowerExpr body)

def lowerExprs : List Expr → List Lowering
  | [] => []
  | e :: es => lowerExpr e :: lowerExprs es

def lowerStmt : Stmt → StmtLowering
  | .expression type e hasSemicolon =>
    .plain false fun _ => lowerExpressionStatement type (lowerExpr e) hasSemicolon
  | .discard type e => .plain false fun _ => lowerDiscard type (lowerExpr e)
  | .declaration => .plain false fun last s => .ok (last, s)
  | .binding id none => .plain false fun _ => lowerBinding id none
  | .binding id (some init) => .plain false fun _ => lowerBinding id (some (lowerExpr init))
  | .defer (.block statements) => .defer (lowerDeferBlock (lowerStmts statements))
  | .defer e => .defer (lowerDeferExpr (lowerExpr e))
  | .ret none => .plain true (lowerReturn none)
  | .ret (some e) => .plain true (lowerReturn (some (lowerExpr e)))
  | .brk label => .plain true (lowerLoopExit "break" label LoopTarget.breakBlock)
  | .cont label => .plain true (lowerLoopExit "continue" label LoopTarget.continueBlock)

def lowerStmts : List Stmt → List StmtLowering
  | [] => []
  | st :: sts => lowerStmt st :: lowerStmts sts

def lowerCase : WhenCase → CaseLowering
  | .case cond body => ⟨some (lowerWhenCondition cond), body.isBlock, lowerExpr body⟩
  | .default body => ⟨none, body.isBlock, lowerExpr body⟩

def lowerCases : List WhenCase → List CaseLowering
  | [] => []
  | c :: cs => lowerCase c :: lowerCases cs

def lowerWhenCondition : WhenCond → Slot → Lowering
  | .test e, _ => lowerExpr e
  | .equal e, subject => lowerWhenEqual (lowerExpr e) subject
  | .range lower upper openAtLo openAtHi, subject =>
    lowerWhenRange (lowerExpr lower) (lowerExpr upper) openAtLo openAtHi subject
  | .join op left right, subject =>
    lowerWhenJoin op (lowerWhenCondition left subject) (lowerWhenCondition right subject)

end

/-! ### Functions -/

/-- The builder on an empty entry block. -/
def Builder.init : Builder :=
  { blocks := [.empty]
    current := 0
    nextExpr := 0
    nextSlot := 0
    loopStack := []
    cleanupStack := []
    deferBodySink := none
    writes := [] }

/-- A parameter is stored in the slot of its local. -/
def lowerParameter (s : Builder) (id : Nat) : Builder :=
  let s := s.pushAlloca (.local id)
  s.fresh.pushStore (.local id) (.node s.nextExpr (.var id) [])

/-- `lowerFunctionBody`, for a function other than `main` and the tests. -/
def lowerFunctionBody (parameters : List Nat) (returnsValue : Bool) (body : Expr) :
    Except String Builder := do
  let (value, s) ← lowerExpr body (parameters.foldl lowerParameter .init)
  if s.ended then .ok s else .ok (s.setTerminator (.ret (if returnsValue then value else none)))

end Zith.Sema
