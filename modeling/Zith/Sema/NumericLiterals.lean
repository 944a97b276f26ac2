import Zith.Sema.EnumDiscriminants
import Zith.Sema.StringLiterals
import Zith.Types.Coercion

/-! The types of integer literals. A literal is typed by its suffix or as `i32`, and a minus takes the type of its
    operand; where another type is expected the literal is adapted to it, through minus signs. A narrowing cast tests
    the value of its operand, where that is a literal or a constant.

        300            inferLiteral ──▶ i32
        300u8          inferLiteral ──▶ u8
        x = 300        adaptNumericLiteral ──▶ the type of x
        300 as u8      CastOverflowProbe, constantIntegerFits -/

namespace Zith.Sema
open Zith.Frontend
open Zith.Types (TypeId Entry PerModuleSema orTry)

/-! ### Texts of literals -/

/-- The loop of `looksFloat`. -/
def floatDigits : Bool → Text → Bool
  | sawDot, [] => sawDot
  | sawDot, c :: rest =>
    if c = 46 then if sawDot then false else floatDigits true rest
    else if 48 ≤ c ∧ c ≤ 57 then floatDigits sawDot rest else false

def looksFloat (literal : Text) : Bool := floatDigits false (splitSign literal).2

def looksBool (literal : Text) : Bool := literal = text "true" || literal = text "false"

def looksChar (literal : Text) : Bool := 3 ≤ literal.length && literal.head? = some 39 && literal.getLast? = some 39

/-! ### Casts -/

/-- `constantIntegerFits`; the value is a signed 64-bit number. -/
def constantIntegerFits (source target : UnderlyingType) (value : ℤ) : Bool :=
  if source.bits = target.bits ∧ source.isSigned = target.isSigned then true
  else if target.isSigned then
    let min := if 64 ≤ target.bits then minInt64 else -(2 ^ (target.bits - 1) - 1) - 1
    let max := if target.bits < 64 then 2 ^ (target.bits - 1) - 1 else maxInt64
    min ≤ value ∧ value ≤ max
  else if source.isSigned ∧ value < 0 then false
  else if 64 ≤ target.bits then true
  else value % 2 ^ 64 ≤ 2 ^ target.bits - 1

namespace ConstantScope

variable (C : ConstantScope)

/-- Where nothing is returned, the calls go deeper than `depth`; within that, none is a value that is not known. The
    negation wraps around. -/
def constantIntegerValue : ℕ → ℕ → Option (Option ℤ)
  | 0, _ => none
  | depth + 1, id =>
    match C.expression id with
    | some (.unary .minus (a :: _)) =>
      (constantIntegerValue depth a).map (Option.map fun magnitude => (-magnitude).bmod (2 ^ 64))
    | some (.literal literal) => some (literalValue literal)
    | _ => some none

/-- `CastOverflowProbe::known`. -/
def known : ℕ → ℕ → Option (Option ℤ)
  | 0, _ => none
  | depth + 1, id =>
    match C.expression id with
    | some (.name _) =>
      if C.isConstant id then
        match C.initializer id with
        | some i => known depth i
        | none => some none
      else some none
    | _ => C.constantIntegerValue (depth + 1) id

/-- An expression that is not the operand of a minus. -/
def Root : Type := {id : ℕ // ∀ p rest, C.expression p ≠ some (.unary .minus (id :: rest))}

end ConstantScope

/-! ### Typing -/

/-- What the typing of literals reads of a module, once its declarations are registered. -/
structure LiteralSema extends PerModuleSema where
  constants : ConstantScope
  boolType : TypeId
  charType : TypeId
  i32Type : TypeId
  i64Type : TypeId
  f32Type : TypeId
  f64Type : TypeId
  /-- The pointer to `char` that is interned for a string. -/
  charPointer : ℕ → TypeId
  bool_name : table.findEntry boolType = some (.name "bool" .bool)
  char_name : table.findEntry charType = some (.name "char" .char)
  i32_entry : table.findEntry i32Type = some (.integer 32 true)
  f64_entry : table.findEntry f64Type = some (.float 64)
  pointer_entry : ∀ id, table.findEntry (charPointer id) = some (.pointer charType)
  /-- An expression is the operand of one other. -/
  single_parent : ∀ p p' a rest rest', constants.expression p = some (.unary .minus (a :: rest)) →
    constants.expression p' = some (.unary .minus (a :: rest')) → p = p'

inductive LiteralError
  | tooWide (id : ℕ)
  | invalidEscape (id : ℕ)
  | notNumeric (id : ℕ)
  | castOverflow (value : ℤ) (target : TypeId)
  | other
  deriving DecidableEq

/-- A narrowing cast of a known constant. -/
structure NarrowingCast where
  operand : ℕ
  source : UnderlyingType
  target : UnderlyingType

/-- `casts` are those that were tested. -/
structure LiteralState where
  exprTypes : ℕ → TypeId := fun _ => 0
  errors : List LiteralError := []
  casts : List NarrowingCast := []

namespace LiteralState

def setExprType (s : LiteralState) (id : ℕ) (type : TypeId) : LiteralState :=
  { s with exprTypes := Function.update s.exprTypes id type }

def report (s : LiteralState) (errors : List LiteralError) : LiteralState := { s with errors := s.errors ++ errors }

@[simp] theorem setExprType_exprTypes (s : LiteralState) (id : ℕ) (type : TypeId) :
    (s.setExprType id type).exprTypes = Function.update s.exprTypes id type := rfl

@[simp] theorem setExprType_errors (s : LiteralState) (id : ℕ) (type : TypeId) :
    (s.setExprType id type).errors = s.errors := rfl

@[simp] theorem setExprType_casts (s : LiteralState) (id : ℕ) (type : TypeId) :
    (s.setExprType id type).casts = s.casts := rfl

@[simp] theorem report_exprTypes (s : LiteralState) (errors : List LiteralError) :
    (s.report errors).exprTypes = s.exprTypes := rfl

@[simp] theorem report_errors (s : LiteralState) (errors : List LiteralError) :
    (s.report errors).errors = s.errors ++ errors := rfl

@[simp] theorem report_nil (s : LiteralState) : s.report [] = s := by simp [report]

@[simp] theorem report_casts (s : LiteralState) (errors : List LiteralError) : (s.report errors).casts = s.casts := rfl

end LiteralState

namespace LiteralSema

variable (S : LiteralSema)

/-- `type_table.integer(resolve(type))`. -/
def integer (type : TypeId) : Option UnderlyingType :=
  match S.table.findEntry (S.resolve type) with
  | some (.integer bits isSigned) => if h : 0 < bits then some ⟨bits, isSigned, h⟩ else none
  | _ => none

/-- The type that is registered under the suffix. -/
def suffixType (literal : Text) : Option TypeId :=
  ((S.table.registry.find? fun entry => text entry.1 = integerSuffix literal).map (·.2)).filter (· ≠ 0)

/-- The type of an integer literal by itself. -/
def literalType (literal : Text) : TypeId :=
  if integerSuffix literal = [] then S.i32Type else (S.suffixType literal).getD S.i32Type

def inferLiteral (id : ℕ) (literal : Text) : TypeId × List LiteralError :=
  if literal = text "null" then (S.nullType, [])
  else if looksBool literal then (S.boolType, [])
  else if looksFloat literal then (S.f64Type, [])
  else
    match parseIntegerLiteral literal with
    | .ok _ => (S.literalType literal, [])
    | .overflow => (S.errorType, [.tooWide id])
    | .notInteger =>
      let (decoded, valid) := decodeEscapes false (body literal)
      if looksString literal then (S.charPointer id, if valid then [] else [.invalidEscape id])
      else if looksChar literal then
        (S.charType, if valid && decoded.length = 1 then [] else [.invalidEscape id])
      else (S.errorType, [])

/-- The types that unary `-` accepts. -/
def acceptsMinus (depth : ℕ) (operand : TypeId) : Option Bool :=
  orTry (S.sameType depth operand S.i32Type) (orTry (S.sameType depth operand S.i64Type)
    (orTry (S.sameType depth operand S.f32Type) (S.sameType depth operand S.f64Type)))

/-- `inferExpr`, of literals and of `-`; what else there is keeps the type that is recorded. -/
def inferExpr (depth : ℕ) : ℕ → ℕ → LiteralState → Option (TypeId × LiteralState)
  | 0, _, _ => none
  | fuel + 1, id, s =>
    if s.exprTypes id ≠ 0 then some (s.exprTypes id, s)
    else
      match S.constants.expression id with
      | some (.literal literal) =>
        let (type, errors) := S.inferLiteral id literal
        some (type, (s.report errors).setExprType id type)
      | some (.unary .minus []) => some (S.errorType, s.setExprType id S.errorType)
      | some (.unary .minus (a :: _)) =>
        (inferExpr depth fuel a s).bind fun (operand, s) =>
          (S.acceptsMinus depth operand).bind fun accepted =>
            some (operand, (s.report (if accepted then [] else [.notNumeric id])).setExprType id operand)
      | _ => none

/-- The suffix of a literal has to be the type that it is adapted to. -/
def suffixAllows (depth : ℕ) (literal : Text) (target : TypeId) : Option Bool :=
  if integerSuffix literal = [] then some true
  else
    match S.suffixType literal with
    | none => some false
    | some type => S.sameType depth (S.resolve target) type

def adaptNumericLiteral (depth : ℕ) : ℕ → ℕ → TypeId → LiteralState → Option (Bool × LiteralState)
  | 0, _, _, _ => none
  | fuel + 1, id, target, s =>
    match S.constants.expression id with
    | some (.unary .minus (a :: _)) =>
      (adaptNumericLiteral depth fuel a target s).bind fun (adapted, s) =>
        some (adapted, if adapted then s.setExprType id target else s)
    | some (.literal literal) =>
      let kind := S.table.kindOf (S.resolve target)
      if !looksInteger literal && !looksFloat literal then some (false, s)
      else if kind = .integer && !looksInteger literal then some (false, s)
      else if kind ≠ .integer ∧ kind ≠ .float then some (false, s)
      else
        (if looksInteger literal then S.suffixAllows depth literal target else some true).bind fun allowed =>
          some (allowed, if allowed then s.setExprType id target else s)
    | _ => some (false, s)

/-- `inferCast`, of one integer type to another. -/
def inferCast (depth operand : ℕ) (target : TypeId) (isRaw : Bool) (s : LiteralState) : Option LiteralState :=
  (S.inferExpr depth depth operand s).bind fun (source, s) =>
    match S.integer source, S.integer target with
    | some fromInteger, some toInteger =>
      if !isRaw && toInteger.bits < fromInteger.bits then
        (S.constants.known depth operand).bind fun value =>
          match value with
          | some value =>
            let s := { s with casts := s.casts ++ [⟨operand, fromInteger, toInteger⟩] }
            some (if constantIntegerFits fromInteger toInteger value then s else s.report [.castOverflow value target])
          | none => some s
      else some s
    | _, _ => some s

/-- A call of sema that types an expression. A literal or a minus is typed by the first two, or gets a type that is
    not an integer, as where it is erased or wrapped; `record` is of all other expressions. -/
inductive TypingCall
  | infer (id : ℕ)
  | adapt (value : S.constants.Root) (target : TypeId)
  | cast (operand : ℕ) (target : TypeId) (isRaw : Bool)
  | retype (value : S.constants.Root) (type : TypeId)
  | record (id : ℕ) (type : TypeId)
  | report

/-- Nothing, where a call does not return, or does not occur. -/
def perform (depth : ℕ) (s : LiteralState) : S.TypingCall → Option LiteralState
  | .infer id => (S.inferExpr depth depth id s).map (·.2)
  | .adapt value target => (S.adaptNumericLiteral depth depth value.1 target s).map (·.2)
  | .cast operand target isRaw => S.inferCast depth operand target isRaw s
  | .retype value type => if type ≠ 0 ∧ S.integer type = none then some (s.setExprType value.1 type) else none
  | .record id type =>
    match S.constants.expression id with
    | some (.literal _) | some (.unary .minus _) => none
    | _ => some (s.setExprType id type)
  | .report => some (s.report [.other])

def performAll (depth : ℕ) (calls : List S.TypingCall) : Option LiteralState := calls.foldlM (S.perform depth) {}

end LiteralSema

end Zith.Sema
