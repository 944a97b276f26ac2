import Zith.Sema.IntegerLiterals

/-! Constant integer expressions, and the two evaluators of sema: one for the discriminants of an enum, one for the
    arguments of `alignas`. Each has its own tests for what leaves the range of `int64_t`, and its own spelling of the
    bitwise operators. Numbers are integers; no sum in a test leaves the range.

        enum         - ~    + - * / %   << >>   &. |. ^.   comparisons   variants declared so far
        alignment    + - ~  + - * / %   << >>   & | ^ -/

namespace Zith.Sema
open Zith.Frontend

inductive ConstantUnary
  | plus
  | minus
  | complement
  | other
  deriving DecidableEq

/-- `amp`, `bar` and `caret` are the operators without a dot. -/
inductive ConstantBinary
  | add
  | sub
  | mul
  | div
  | rem
  | shl
  | shr
  | ampDot
  | barDot
  | caretDot
  | amp
  | bar
  | caret
  | eq
  | ne
  | lt
  | le
  | gt
  | ge
  | other
  deriving DecidableEq

/-- An expression of the snapshot; operands are ids. -/
inductive ConstantExpr
  | literal (text : Text)
  | unary (op : ConstantUnary) (operands : List ℕ)
  | binary (op : ConstantBinary) (operands : List ℕ)
  | name (text : String)
  | field (text : String) (operands : List ℕ)
  | other

/-- What the evaluators read of a module. -/
structure ConstantScope where
  expression : ℕ → Option ConstantExpr
  /-- The initializer of the integer constant that a name resolves to, a declaration or a binding. -/
  initializer : ℕ → Option ℕ
  /-- `isConstantExpression`. -/
  isConstant : ℕ → Bool
  /-- An operand that resolves to the enum whose discriminants are evaluated. -/
  isOwnEnum : ℕ → Bool

/-- The variants declared so far, with their discriminants. -/
abbrev Variants := List (String × ℤ)

def minInt64 : ℤ := -2 ^ 63

def maxInt64 : ℤ := 2 ^ 63 - 1

/-- An operation on the bits of two 64-bit numbers. -/
def onBits (op : BitVec 64 → BitVec 64 → BitVec 64) (left right : ℤ) : ℤ :=
  (op (BitVec.ofInt 64 left) (BitVec.ofInt 64 right)).toInt

/-! ### Discriminants -/

def magnitude (value : ℤ) : ℕ := if value < 0 then (-(value + 1)).toNat + 1 else value.toNat

def enumUnary (op : ConstantUnary) (operand : ℤ) : Option ℤ :=
  match op with
  | .minus => if operand = minInt64 then none else some (-operand)
  | .complement => some (-operand - 1)
  | _ => none

def enumProduct (left right : ℤ) : Option ℤ :=
  if right = 0 then some 0
  else
    let sameSign := decide (left < 0) = decide (right < 0)
    let limit := if sameSign then 2 ^ 63 - 1 else 2 ^ 63
    if magnitude left > limit / magnitude right then none
    else
      let product := magnitude left * magnitude right
      if sameSign then some product else if product = 2 ^ 63 then some minInt64 else some (-product)

def enumBinary (op : ConstantBinary) (left right : ℤ) : Option ℤ :=
  match op with
  | .add =>
    if 0 < right ∧ left > maxInt64 - right ∨ right < 0 ∧ left < minInt64 - right then none else some (left + right)
  | .sub =>
    if right < 0 ∧ left > maxInt64 + right ∨ 0 < right ∧ left < minInt64 + right then none else some (left - right)
  | .mul => enumProduct left right
  | .div => if right = 0 ∨ left = minInt64 ∧ right = -1 then none else some (left.tdiv right)
  | .rem => if right = 0 ∨ left = minInt64 ∧ right = -1 then none else some (left.tmod right)
  | .ampDot => some (onBits (· &&& ·) left right)
  | .barDot => some (onBits (· ||| ·) left right)
  | .caretDot => some (onBits (· ^^^ ·) left right)
  | .shl =>
    if right < 0 ∨ 63 ≤ right then none
    else
      let shifted := (left % 2 ^ 64).toNat * 2 ^ right.toNat % 2 ^ 64
      if shifted > 2 ^ 63 - 1 then none else some shifted
  | .shr => if right < 0 ∨ 64 ≤ right then none else some (left / 2 ^ right.toNat)
  | .eq => some (if left = right then 1 else 0)
  | .ne => some (if left ≠ right then 1 else 0)
  | .lt => some (if left < right then 1 else 0)
  | .le => some (if left ≤ right then 1 else 0)
  | .gt => some (if left > right then 1 else 0)
  | .ge => some (if left ≥ right then 1 else 0)
  | _ => none

namespace ConstantScope

variable (C : ConstantScope)

def literalValue (literal : Text) : Option ℤ :=
  match parseIntegerLiteral literal with
  | .ok value => some value
  | _ => none

/-- `evaluate`, of a discriminant; the fuel is what is left of the guard. -/
def evaluate (variants : Variants) : ℕ → ℕ → Option ℤ
  | 0, _ => none
  | fuel + 1, id =>
    match C.expression id with
    | some (.literal text) => literalValue text
    | some (.unary op (a :: _)) => (evaluate variants fuel a).bind (enumUnary op)
    | some (.binary op (a :: b :: _)) =>
      (evaluate variants fuel a).bind fun left => (evaluate variants fuel b).bind fun right => enumBinary op left right
    | some (.name text) =>
      match variants.lookup text with
      | some value => some value
      | none => (C.initializer id).bind (evaluate variants fuel)
    | some (.field text (a :: _)) => if C.isOwnEnum a then variants.lookup text else none
    | _ => none

end ConstantScope

/-! ### Alignments -/

def alignmentUnary (op : ConstantUnary) (operand : ℤ) : Option ℤ :=
  match op with
  | .plus => some operand
  | .minus => if operand ≠ minInt64 then some (-operand) else none
  | .complement => some (-operand - 1)
  | .other => none

def alignmentBinary (op : ConstantBinary) (left right : ℤ) : Option ℤ :=
  match op with
  | .add =>
    if 0 < right ∧ left > maxInt64 - right ∨ right < 0 ∧ left < minInt64 - right then none else some (left + right)
  | .sub =>
    if right < 0 ∧ left > maxInt64 + right ∨ 0 < right ∧ left < minInt64 + right then none else some (left - right)
  | .mul =>
    if left = 0 ∨ right = 0 then some 0
    else if 0 < left ∧ 0 < right ∧ left > maxInt64.tdiv right ∨ 0 < left ∧ right < 0 ∧ right < minInt64.tdiv left ∨
        left < 0 ∧ 0 < right ∧ left < minInt64.tdiv right ∨ left < 0 ∧ right < 0 ∧ left < maxInt64.tdiv right then none
    else some (left * right)
  | .div => if right ≠ 0 ∧ ¬(left = minInt64 ∧ right = -1) then some (left.tdiv right) else none
  | .rem => if right ≠ 0 ∧ ¬(left = minInt64 ∧ right = -1) then some (left.tmod right) else none
  | .shr => if 0 ≤ right ∧ right < 63 then some (left / 2 ^ right.toNat) else none
  | .shl =>
    if 0 ≤ right ∧ right < 63 then
      if 0 ≤ left ∧ left ≤ maxInt64 / 2 ^ right.toNat then some (left * 2 ^ right.toNat) else none
    else none
  | .amp => some (onBits (· &&& ·) left right)
  | .bar => some (onBits (· ||| ·) left right)
  | .caret => some (onBits (· ^^^ ·) left right)
  | _ => none

namespace ConstantScope

variable (C : ConstantScope)

def alignmentIntegerValue : ℕ → ℕ → Option ℤ
  | 0, _ => none
  | fuel + 1, id =>
    match C.expression id with
    | some (.literal text) => literalValue text
    | some (.unary op [a]) => (alignmentIntegerValue fuel a).bind (alignmentUnary op)
    | some (.binary op [a, b]) =>
      (alignmentIntegerValue fuel a).bind fun left =>
        (alignmentIntegerValue fuel b).bind fun right => alignmentBinary op left right
    | some (.name _) => if C.isConstant id then (C.initializer id).bind (alignmentIntegerValue fuel) else none
    | _ => none

/-- `getRequestedAlignment`. -/
def getRequestedAlignment (id : ℕ) : Option ℕ :=
  match C.alignmentIntegerValue 65 id with
  | some value =>
    if value ≤ 0 ∨ value > 2 ^ 32 - 1 then none
    else if value.toNat &&& (value.toNat - 1) ≠ 0 then none
    else some value.toNat
  | none => none

end ConstantScope

end Zith.Sema
