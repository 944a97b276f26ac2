import Zith.Hir.Verifier

/-! Runs of a function over the contents of its slots, as `HirInterpreter` makes them: an expression is
    evaluated each time it is come to, its operands first, and a block without a terminator goes on with the
    block behind it. A content is kept as far as a guard looks at it, and what no guard looks at may be
    anything: the value of a call, the payload of an optional, the operands that a call or a literal
    evaluates.

        Reaches b s ──instructions, terminator──▶ Reaches b' s'
             └──▶ Moment b use operands s'     `use` has its operands and is about to be evaluated -/

namespace Zith.Hir
open Types (TypeIntern)
open Cache (CompactSafetyMode)

inductive Content
  | int (value : Int64)
  | optional (present : Bool)
  | slice (length : UInt64)
  | union (member : UInt32)
  | erased (typeId : UInt32)
  | other
  deriving DecidableEq

def Content.ofBool (b : Bool) : Content := .int (if b then 1 else 0)

abbrev Slots := HirSlotId → Content

inductive Event
  | evaluated (id : HirExprId) (operands : List Content)
  | left (block : ℕ) (exit : Exit)
  | fell (block : ℕ)

/-- The slots, and what has happened, the last event first. -/
structure State where
  slots : Slots
  log : List Event

/-! ### One expression -/

/-- The member `b` of a literal, the low byte of the union. -/
def HirLiteralValue.truth (internedId : Text → UInt32) : HirLiteralValue → Bool
  | .b value => value
  | value => (value.word internedId).toUInt64 % 256 != 0

section
variable (m : HirModule) (types : TypeIntern) (internedId : Text → UInt32)

/-- A value of an optional, slice or union type. A union has one of its members. -/
def Fits (type : TypeId) (content : Content) : Prop :=
  match types.lookup type.toNat with
  | some (.optional _) => ∃ present, content = .optional present
  | some (.slice _) => ∃ length, content = .slice length
  | some (.union defId) => ∃ member, content = .union member ∧ member.toNat < (types.getUnionDef defId).members.length
  | _ => True

/-- The operands that an operation can be evaluated on. -/
def Takes (expr : HirExpr) (operands : List Content) : Prop :=
  match expr, operands with
  | .field _ _ _ objectType _, [object] => Fits types objectType object
  | .index _ _ _ objType _ _, [object, index] =>
    (∀ elem, types.lookup objType.toNat = some (.slice elem) → ∃ length, object = .slice length) ∧ ∃ i, index = .int i
  | .makeSlice _ _ _ _ objectType _ _ _ _, [object, lo, hi] =>
    (∀ elem, types.lookup objectType.toNat = some (.slice elem) → ∃ length, object = .slice length) ∧
      (∃ i, lo = .int i) ∧ ∃ i, hi = .int i
  | .unionCast _ source _ _ _, [value] => Fits types source value
  | .opaqueCast .., [value] | .opaqueCheck .., [value] => ∃ typeId, value = .erased typeId
  | _, _ => True

/-- A literal is an integer when its type is a kind of integer. -/
def LiteralGives (literal : HirLiteralValue) (type : TypeId) (value : Content) : Prop :=
  match types.lookup type.toNat with
  | some (.int _) | some (.enum _) | some .char => value = .int (literal.word internedId)
  | some .bool => value = .ofBool (literal.truth internedId)
  | _ => ∀ i, value ≠ .int i

/-- Integers are compared as such. An integer and another content are compared for equality only, a
    pointer with null. -/
def BinaryGives (op : UInt8) (lhs rhs value : Content) : Prop :=
  match lhs, rhs with
  | .int a, .int b =>
    if op = HirBinaryOp.lt then value = .ofBool (a < b)
    else if op = HirBinaryOp.le then value = .ofBool (a ≤ b)
    else if op = HirBinaryOp.ge then value = .ofBool (b ≤ a)
    else if op = HirBinaryOp.and then value = .int (a &&& b)
    else True
  | .int _, _ | _, .int _ => op ≠ HirBinaryOp.lt ∧ op ≠ HirBinaryOp.le ∧ op ≠ HirBinaryOp.ge ∧ op ≠ HirBinaryOp.and
  | _, _ => True

/-- The flag of an optional, the length of a slice and the tag of a union are field 1. -/
def FieldGives (index : UInt32) (object value : Content) : Prop :=
  match object with
  | .optional present => index = 1 → value = .ofBool present
  | .slice length => index = 1 → value = .int length.toInt64
  | .union member => index = 1 → value = .int member.toUInt64.toInt64
  | _ => True

/-- The values that an expression can have. -/
def Gives (expr : HirExpr) (slots : Slots) (operands : List Content) (value : Content) : Prop :=
  match expr, operands with
  | .slotLoad slot _, _ | .slotAddr slot _, _ => value = slots slot
  | .literal literal type, _ => LiteralGives types internedId literal type value
  | .binary _ _ op _ _, [lhs, rhs] => BinaryGives op lhs rhs value
  | .unary op _ _, [.int i] => op = HirUnaryOp.not → value = .ofBool (i == 0)
  | .cast _ _ _, [.int i] => value = .int i
  | .field _ index _ _ _, [object] => FieldGives index object value
  | .unionCheck _ _ memberIndex, [.int tag] => value = .ofBool (tag == memberIndex.toUInt64.toInt64)
  | .opaqueCheck _ _ typeId _, [.erased id] => value = .ofBool (id == typeId)
  | _, _ => True

/-- The operations that evaluate all their operands, in order. -/
def inOrder : HirExpr → Bool
  | .binary .. | .unary .. | .cast .. | .index .. | .field .. | .slotStore .. | .makeSlice .. | .unionCast ..
  | .unionCheck .. | .opaqueCast .. | .opaqueCheck .. => true
  | _ => false

def Operands (expr : HirExpr) (ids : List HirExprId) : Prop :=
  if inOrder expr then ids = children expr else ∀ id ∈ ids, id ∈ children expr

/-- Only a store changes a slot. -/
def store (expr : HirExpr) (operands : List Content) (slots : Slots) : Slots :=
  match expr, operands with
  | .slotStore slot _, [value] => Function.update slots slot value
  | _, _ => slots

def State.after (s : State) (id : HirExprId) (expr : HirExpr) (operands : List Content) : State where
  slots := store expr operands s.slots
  log := .evaluated id operands :: s.log

/-! ### Runs -/

/-- Expressions are evaluated one after the other. -/
inductive Evaluates : List HirExprId → State → List Content → State → Prop
  | nil {s : State} : Evaluates [] s [] s
  | cons {id : HirExprId} {expr : HirExpr} {ids rest : List HirExprId} {s s₁ s₂ : State}
      {operands values : List Content} {value : Content} (hexpr : m.tryExpr id = some expr)
      (hids : Operands expr ids) (hoperands : Evaluates ids s operands s₁) (htakes : Takes types expr operands)
      (hgives : Gives types internedId expr s₁.slots operands value)
      (hrest : Evaluates rest (s₁.after id expr operands) values s₂) :
      Evaluates (id :: rest) s (value :: values) s₂

/-- While `id` is evaluated, `use` has its operands and is about to be evaluated. -/
inductive Meets : HirExprId → State → HirExprId → List Content → State → Prop
  | here {id : HirExprId} {expr : HirExpr} {ids : List HirExprId} {s s' : State} {operands : List Content}
      (hexpr : m.tryExpr id = some expr) (hids : Operands expr ids)
      (hoperands : Evaluates m types internedId ids s operands s') (htakes : Takes types expr operands) :
      Meets id s id operands s'
  | inside {id child use : HirExprId} {expr : HirExpr} {before behind : List HirExprId} {s s₁ s' : State}
      {values operands : List Content} (hexpr : m.tryExpr id = some expr)
      (hids : Operands expr (before ++ child :: behind))
      (hbefore : Evaluates m types internedId before s values s₁) (hmeets : Meets child s₁ use operands s') :
      Meets id s use operands s'

/-- How a block is left, with its instructions done. -/
inductive Leaves (terminator : Option HirExpr) (s : State) : Exit → ℕ → State → Prop
  | branch {cond : HirExprId} {thenBlock elseBlock : HirBlockId} {value : Content} {s' : State} (answer : Bool)
      (hterm : terminator = some (.branch cond thenBlock elseBlock))
      (hcond : Evaluates m types internedId [cond] s [value] s')
      (hanswer : ∀ i, value = .int i → (i != 0) = answer) :
      Leaves terminator s (selectedExit answer) (if answer then thenBlock else elseBlock).toNat s'
  | jump {target : HirBlockId} (hterm : terminator = some (.jump target)) : Leaves terminator s .jump target.toNat s

variable (fn : HirFunction)

/-- The run is at the start of a block. -/
inductive Reaches : ℕ → State → Prop
  | start (slots : Slots) : Reaches 0 ⟨slots, []⟩
  | leave {b target : ℕ} {block : HirBasicBlock} {s s₁ s₂ : State} {values : List Content} {exit : Exit}
      (hreaches : Reaches b s) (hblock : fn.blocks[b]? = some block)
      (hinsts : Evaluates m types internedId block.insts s values s₁)
      (hleaves : Leaves m types internedId (m.tryExpr block.terminator) s₁ exit target s₂) :
      Reaches target { s₂ with log := .left b exit :: s₂.log }
  | fall {b : ℕ} {block : HirBasicBlock} {s s₁ : State} {values : List Content} (hreaches : Reaches b s)
      (hblock : fn.blocks[b]? = some block) (hinsts : Evaluates m types internedId block.insts s values s₁)
      (hnone : block.terminator = kInvalidHirExpr) : Reaches (b + 1) { s₁ with log := .fell b :: s₁.log }

/-- In a run, `use` has its operands and is about to be evaluated in block `b`. -/
inductive Moment : ℕ → HirExprId → List Content → State → Prop
  | instruction {b : ℕ} {block : HirBasicBlock} {inst use : HirExprId} {before behind : List HirExprId}
      {s s₁ s' : State} {values operands : List Content} (hreaches : Reaches m types internedId fn b s)
      (hblock : fn.blocks[b]? = some block) (hinsts : block.insts = before ++ inst :: behind)
      (hbefore : Evaluates m types internedId before s values s₁)
      (hmeets : Meets m types internedId inst s₁ use operands s') : Moment b use operands s'
  | terminator {b : ℕ} {block : HirBasicBlock} {use : HirExprId} {s s₁ s' : State} {values operands : List Content}
      (hreaches : Reaches m types internedId fn b s) (hblock : fn.blocks[b]? = some block)
      (hinsts : Evaluates m types internedId block.insts s values s₁)
      (hmeets : Meets m types internedId block.terminator s₁ use operands s') : Moment b use operands s'

end

/-! ### What a guarded operation needs -/

/-- How many elements there are. -/
def boundOf (types : TypeIntern) (type : TypeId) (object : Content) : Option ℕ :=
  match types.lookup type.toNat, object with
  | some (.array _ count), _ => some count.toNat
  | some (.slice _), .slice length => some length.toNat
  | _, _ => none

/-- The payload is present, the bounds are valid, the member or the type is the one of the cast. -/
def Holds (types : TypeIntern) (expr : HirExpr) (operands : List Content) : Prop :=
  match expr, operands with
  | .field .., [.optional present] => present = true
  | .index _ _ _ objType _ _, [object, .int i] =>
    ∃ bound, boundOf types objType object = some bound ∧ 0 ≤ i.toInt ∧ i.toInt < bound
  | .makeSlice _ _ _ _ objectType _ _ _ _, [object, .int lo, .int hi] =>
    ∃ bound, boundOf types objectType object = some bound ∧ 0 ≤ lo.toInt ∧ lo.toInt ≤ hi.toInt ∧ hi.toInt ≤ bound
  | .unionCast _ _ _ memberIndex _, [.union member] => member = memberIndex
  | .opaqueCast _ _ _ _ _ typeId _ _ _, [.erased id] => id = typeId
  | _, _ => False

/-! ### What may have happened since a guard -/

def Event.isLeft (g : ℕ) : Event → Bool
  | .left block _ => block == g
  | _ => false

/-- The events since the run left block `g` the last time. -/
def since (g : ℕ) (log : List Event) : List Event := log.takeWhile fun e => !e.isLeft g

/-- The events before that. -/
def upTo (g : ℕ) (log : List Event) : List Event := (log.dropWhile fun e => !e.isLeft g).tail

section
variable (m : HirModule)

def Stores (slot : HirSlotId) : Event → Prop
  | .evaluated id _ => ∃ value, m.tryExpr id = some (.slotStore slot value)
  | _ => False

/-- Whether an expression looks at the tag of a value. -/
def looksAt (value id : HirExprId) : Bool :=
  match m.tryExpr id with
  | some (.opaqueCheck checked _ _ _) => checked == value
  | some (.field object index _ _ _) => index == 1 && object == value
  | _ => false

/-- The content that the last look at a value saw. -/
def lastLook (value : HirExprId) (log : List Event) : Option (List Content) :=
  log.findSome? fun
    | .evaluated id operands => if looksAt m value id then some operands else none
    | _ => none

/-- No slot of an operand is stored since the guard, and an operand that is in no slot is what the guard
    looked at. -/
structure Undisturbed (log : List Event) (g : ℕ) (expr : HirExpr) (operands : List Content) : Prop where
  slots : ∀ id ∈ children expr, ∀ slot, slotOfValue m id = some slot → ∀ e ∈ since g log, ¬Stores m slot e
  values : ∀ id ∈ children expr, slotOfValue m id = none → ∀ seen, lastLook m id (upTo g log) = some seen →
    seen = operands

end

end Zith.Hir
