import Zith.Hir.GuardMatchers

/-! `HirVerifier::verify`: the reports about a module, expressions first, then functions, attributes, globals
    and tables of methods. A module is accepted when there is no report. The safety modes and the kinds of
    proofs are enumerations here, so nothing is to be reported about a number that is none of them.

    The search for dominators and the recursions over expressions have fuel; `none` is a call that has not
    returned with it. -/

namespace Zith.Hir
open Types (TypeIntern)
open Cache (CompactSafetyMode CompactSafetyProofKind)

def reportIf (condition : Bool) (message : String) : List String := if condition then [message] else []

/-! ### Operands -/

/-- The operands of an expression, in the order in which `appendExprTree` goes to them. -/
def children : HirExpr → List HirExprId
  | .binary lhs rhs _ _ _ => [lhs, rhs]
  | .unary _ operand _ => [operand]
  | .let _ _ init => [init]
  | .makeSome value _ | .cast value _ _ | .unionCast value _ _ _ _ | .unionCheck value _ _
  | .makeDyn value _ _ _ _ | .makeOpaque value _ _ _ _ | .opaqueCast value _ _ _ _ _ _ _ _
  | .opaqueCheck value _ _ _ => [value]
  | .call call | .stateTailCall call => call.callee :: call.args
  | .ret value => [value]
  | .branch cond _ _ => [cond]
  | .phi incoming => incoming
  | .assign target value => [target, value]
  | .index object index _ _ _ _ => [object, index]
  | .field object _ _ _ _ => [object]
  | .structLiteral values _ => values
  | .arrayLiteral elements _ => elements
  | .slotStore _ value => [value]
  | .makeSlice object lo hi _ _ _ _ _ _ => [object, lo, hi]
  | .layoutIntrinsic _ _ _ operand _ _ => [operand]
  | .cleanup exprs => exprs
  | .dynCall receiver _ _ _ _ _ args _ => receiver :: args
  | .pipe _ _ stage _ _ => [stage]
  | _ => []

/-- The expressions below `id` that `out` does not have yet, behind it. -/
def appendExprTree (m : HirModule) : ℕ → List HirExprId → HirExprId → Option (List HirExprId)
  | 0, _, _ => none
  | fuel + 1, out, id =>
    match m.tryExpr id with
    | none => some out
    | some expr =>
      if id ∈ out then some out else (children expr).foldlM (appendExprTree m fuel) (out ++ [id])

section
variable (m : HirModule) (types : TypeIntern) (internedId : Text → UInt32)

/-! ### Expressions -/

def checkExpr (id : HirExprId) (role : String) (allowInvalid : Bool := false) : List String :=
  reportIf (!(id == kInvalidHirExpr && allowInvalid) && (m.tryExpr id).isNone)
    ("HIR " ++ role ++ " references an invalid expression")

def checkType (id : TypeId) (role : String) (allowInvalid : Bool := false) : List String :=
  reportIf (!(id == kInvalidType && allowInvalid) && (id == kInvalidType || types.types.length ≤ id.toNat))
    ("HIR " ++ role ++ " references an invalid type")

def checkCall (call : HirCall) : List String :=
  checkExpr m call.callee "call callee" true ++
  reportIf (call.resolvedFn != kInvalidHirFunction && m.fns.length ≤ call.resolvedFn.toNat)
    "HIR call references an invalid function" ++
  reportIf (call.args.length != call.argumentTypes.length)
    "HIR call argument and argument-type counts differ" ++
  call.args.flatMap (checkExpr m · "call argument") ++
  call.argumentTypes.flatMap (checkType types · "call argument") ++
  checkType types call.fnType "call function signature" true

/-- The proof of an expression, when it has one. -/
def presentProof (id : ℕ) : Option HirSafetyProof := m.attrs.safetyProofs[id]?.filter (·.present)

def checkSafety (id : ℕ) (mode : CompactSafetyMode) (expectedKind : CompactSafetyProofKind)
    (operandA operandB operandC : HirExprId) (proofAllowed : Bool := true) : List String :=
  match presentProof m id with
  | none => []
  | some proof =>
    reportIf (mode != .requiredCheck) "HIR safety proof is attached to an operation without a required check" ++
    reportIf (!proofAllowed || proof.kind != expectedKind) "HIR safety proof kind does not match its operation" ++
    reportIf (proof.operandA != operandA || proof.operandB != operandB || proof.operandC != operandC)
      "HIR safety proof operands do not match its operation"

/-- `alignment == 0U || (alignment & (alignment - 1U)) == 0U`. -/
def validAlignment (alignment : UInt32) : Bool := alignment == 0 || alignment &&& (alignment - 1) == 0

def checkNode (id : ℕ) : HirExpr → List String
  | .literal _ type => checkType types type "literal"
  | .binary lhs rhs _ type operandType =>
    checkExpr m lhs "binary left operand" ++ checkExpr m rhs "binary right operand" ++
    checkType types type "binary result" ++ checkType types operandType "binary operand" true
  | .unary _ operand type => checkExpr m operand "unary operand" ++ checkType types type "unary result"
  | .let _ type init => checkExpr m init "let initializer" true ++ checkType types type "let"
  | .call call => checkCall m types call
  | .ret value => checkExpr m value "return value" true
  | .branch cond _ _ => checkExpr m cond "branch condition"
  | .phi incoming => incoming.flatMap (checkExpr m · "phi input")
  | .assign target value => checkExpr m target "assignment target" ++ checkExpr m value "assignment value"
  | .index object index type objType _ safety =>
    checkExpr m object "index object" ++ checkExpr m index "index operand" ++
    checkType types type "index result" ++ checkType types objType "index object" ++
    checkSafety m id safety .boundsValid object index kInvalidHirExpr
  | .field object _ type objectType safety =>
    checkExpr m object "field object" ++ checkType types type "field result" ++
    checkType types objectType "field object" ++
    checkSafety m id safety .optionalPresent object kInvalidHirExpr kInvalidHirExpr (isOptionalType types objectType)
  | .structLiteral values type =>
    checkType types type "struct literal" ++ values.flatMap (checkExpr m · "struct literal field")
  | .arrayLiteral elements type =>
    checkType types type "array literal" ++ elements.flatMap (checkExpr m · "array literal element")
  | .enumValue _ type => checkType types type "enum value"
  | .slotAlloca _ type alignmentBytes =>
    checkType types type "slot allocation" ++
    reportIf (!validAlignment alignmentBytes) "HIR slot allocation has an invalid alignment"
  | .slotStore _ value => checkExpr m value "slot store value"
  | .slotLoad _ type | .slotAddr _ type => checkType types type "slot result"
  | .makeNone type => checkType types type "none value"
  | .cast value source target =>
    checkExpr m value "cast value" ++ checkType types source "cast source" ++ checkType types target "cast target"
  | .makeSome value type => checkExpr m value "some payload" ++ checkType types type "some value"
  | .makeSlice object lo hi type objectType boundType _ _ safety =>
    checkExpr m object "slice object" ++ checkExpr m lo "slice lower bound" ++
    checkExpr m hi "slice upper bound" ++ checkType types type "slice result" ++
    checkType types objectType "slice object" ++ checkType types boundType "slice bound" ++
    checkSafety m id safety .boundsValid object lo hi
  | .unionCast value source target _ safety =>
    checkExpr m value "union cast value" ++ checkType types source "union cast source" ++
    checkType types target "union cast target" ++
    checkSafety m id safety .unionMemberMatches value kInvalidHirExpr kInvalidHirExpr
  | .unionCheck value unionType _ =>
    checkExpr m value "union check value" ++ checkType types unionType "union check"
  | .layoutIntrinsic _ type _ operand operandType _ =>
    checkType types type "layout intrinsic" ++ checkExpr m operand "layout operand" true ++
    checkType types operandType "layout operand" true
  | .stateTailCall call => checkCall m types call
  | .cleanup exprs => exprs.flatMap (checkExpr m · "cleanup")
  | .globalConstLoad _ type | .externalGlobalAddr _ type => checkType types type "global"
  | .makeDyn value sourceType dynType _ _ =>
    checkExpr m value "dyn value" ++ checkType types sourceType "dyn source" ++
    checkType types dynType "dyn target"
  | .dynCall receiver _ _ _ resultType fnType args argTypes =>
    checkExpr m receiver "dyn receiver" ++ checkType types resultType "dyn call result" ++
    checkType types fnType "dyn call signature" ++ args.flatMap (checkExpr m · "dyn call argument") ++
    argTypes.flatMap (checkType types · "dyn call argument") ++
    reportIf (args.length != argTypes.length) "HIR dyn-call argument and argument-type counts differ"
  | .makeOpaque value sourceType opaqueType _ _ =>
    checkExpr m value "opaque value" ++ checkType types sourceType "opaque source" ++
    checkType types opaqueType "opaque target"
  | .opaqueCast value source target opaqueType resultType _ _ safety _ =>
    checkExpr m value "opaque cast value" ++ checkType types source "opaque cast source" ++
    checkType types target "opaque cast target" ++ checkType types opaqueType "opaque cast representation" ++
    checkType types resultType "opaque cast result" ++
    checkSafety m id safety .opaqueTypeMatches value kInvalidHirExpr kInvalidHirExpr
  | .opaqueCheck value opaqueType _ _ =>
    checkExpr m value "opaque check value" ++ checkType types opaqueType "opaque check"
  | .canonicalType _ type => checkType types type "canonical type"
  | .pipe _ sourceType stage type _ =>
    checkExpr m stage "pipe stage" ++ checkType types sourceType "pipe source" ++
    checkType types type "pipe result"
  | .pipeCurrent _ type => checkType types type "pipe current value"
  | .var _ _ | .jump _ | .runtimePanic _ => []

def isCall : HirExpr → Bool
  | .call _ => true
  | _ => false

/-- The operations that a safety proof may be about. -/
def hasSafety : HirExpr → Bool
  | .index .. | .field .. | .makeSlice .. | .unionCast .. | .opaqueCast .. => true
  | _ => false

def HirCallAttrs.hasResidualFacts (attrs : HirCallAttrs) : Bool :=
  attrs.returnsArg != 0xFFFFFFFF || attrs.args.any (· != 0)

def exprReports (id : ℕ) (expr : HirExpr) : List String :=
  checkNode m types id expr ++
  reportIf ((m.attrs.calls[id]?.any fun attrs => attrs.hasResidualFacts || !attrs.args.isEmpty) && !isCall expr)
    "HIR call attributes are attached to a non-call expression" ++
  reportIf ((presentProof m id).isSome && !hasSafety expr)
    "HIR safety proof is attached to an unsupported expression kind"

/-! ### Blocks -/

section
variable (fn : HirFunction) (reachable : List Bool) (dominators : List (List Bool)) (fuel : ℕ)

/-- A guarded operation is reported when no branch guards it. -/
def guardReports (block : ℕ) (expr : HirExpr) : Option (List String) :=
  match guardedUse m types internedId expr with
  | none => some []
  | some (matching, message) =>
    (hasDominatingGuard m fn reachable dominators fuel matching block).map fun guarded =>
      reportIf (!guarded) message

def targetReports : HirExpr → List String
  | .slotAlloca slot _ _ => reportIf (slot == kInvalidHirSlot) "HIR slot allocation has an invalid slot"
  | .branch _ thenBlock elseBlock =>
    reportIf (fn.blocks.length ≤ thenBlock.toNat || fn.blocks.length ≤ elseBlock.toNat)
      "HIR branch target is outside its function"
  | .jump target => reportIf (fn.blocks.length ≤ target.toNat) "HIR jump target is outside its function"
  | _ => []

/-- The expressions of a block, each once. -/
def blockExprs (block : HirBasicBlock) : Option (List HirExprId) :=
  (block.insts ++ [block.terminator]).foldlM (appendExprTree m fuel) []

def blockReports (index : ℕ) (block : HirBasicBlock) : Option (List String) := do
  let ids ← blockExprs m fuel block
  let uses ← (ids.filterMap m.tryExpr).mapM fun expr => do
    return (← guardReports m types internedId fn reachable dominators fuel index expr) ++ targetReports fn expr
  return block.insts.flatMap (checkExpr m · "basic-block instruction") ++
    checkExpr m block.terminator "basic-block terminator" true ++ uses.flatten

end

/-! ### Functions -/

def definedSlot : HirExpr → Option HirSlotId
  | .slotAlloca slot _ _ => if slot = kInvalidHirSlot then none else some slot
  | _ => none

def usedSlot : HirExpr → Option HirSlotId
  | .slotStore slot _ | .slotLoad slot _ | .slotAddr slot _ | .pipe slot _ _ _ _ | .pipeCurrent slot _ => some slot
  | _ => none

/-- The slots that a function defines, and those it uses. -/
def slotsOf (fn : HirFunction) (fuel : ℕ) : Option (List HirSlotId × List HirSlotId) := do
  let exprs := (← fn.blocks.mapM (blockExprs m fuel)).flatten.filterMap m.tryExpr
  return (fn.paramSlots.filter (· != kInvalidHirSlot) ++ exprs.filterMap definedSlot,
    (exprs.filterMap usedSlot).eraseDups)

/-- The reports about a function, and the slots it defines. -/
def functionReports (fuel : ℕ) (fn : HirFunction) : Option (List String × List HirSlotId) := do
  let (reachable, dominators) ← dominatorsOf m fn fuel
  let blocks ← fn.blocks.zipIdx.mapM fun (block, index) =>
    blockReports m types internedId fn reachable dominators fuel index block
  let (defined, used) ← slotsOf m fn fuel
  return (checkType types fn.returnType "function return" ++
    checkType types fn.machineReturnType "state machine return" true ++
    reportIf (fn.hasBody != !fn.blocks.isEmpty)
      "HIR function body classification does not match its blocks" ++
    fn.params.flatMap (checkType types · "function parameter") ++
    reportIf (!fn.paramSlots.isEmpty && fn.paramSlots.length != fn.params.length)
      "HIR function parameter and slot counts differ" ++
    blocks.flatten ++
    used.flatMap fun slot => reportIf (slot == kInvalidHirSlot || !defined.contains slot)
      "HIR slot use has no function-local allocation or parameter", defined)

/-! ### Modules -/

/-- The reports behind those about expressions and functions. `moduleSlots` are the slots of all functions. -/
def tableReports (moduleSlots : List HirSlotId) : List String :=
  (List.range m.attrs.slots.length).flatMap (fun slot =>
    reportIf (!moduleSlots.contains (UInt32.ofNat slot)) "HIR slot attributes refer to an undefined slot") ++
  reportIf (m.fns.length < m.attrs.fns.length) "HIR function attributes exceed the function count" ++
  reportIf (m.exprs.length < m.attrs.calls.length) "HIR call attributes exceed the expression count" ++
  reportIf (m.exprs.length < m.attrs.safetyProofs.length) "HIR safety proofs exceed the expression count" ++
  m.globals.flatMap (fun global =>
    checkType types global.type "global constant" ++
    checkExpr m global.init "global constant initializer" ++
    reportIf (!validAlignment global.alignmentBytes) "HIR global constant has an invalid alignment") ++
  m.vtables.flatMap fun vtable => vtable.slots.flatMap fun functionId =>
    reportIf (functionId == kInvalidHirFunction || m.fns.length ≤ functionId.toNat)
      "HIR vtable references an invalid function"

def verify (fuel : ℕ) : Option (List String) := do
  let functions ← m.fns.mapM (functionReports m types internedId fuel)
  return m.exprs.zipIdx.flatMap (fun (expr, id) => exprReports m types id expr) ++
    functions.flatMap Prod.fst ++ tableReports m types (functions.flatMap Prod.snd)

end

end Zith.Hir
