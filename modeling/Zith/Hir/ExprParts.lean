import Zith.Hir.Module

/-! The names and the types in an expression, and an expression with both replaced. -/

namespace Zith.Hir.HirExpr

def texts : HirExpr → List Text
  | .let name _ _ | .var name _ | .globalConstLoad name _ | .externalGlobalAddr name _ => [name]
  | .makeDyn _ _ _ vtableName _ | .dynCall _ vtableName _ _ _ _ _ _ => [vtableName]
  | _ => []

def types : HirExpr → List TypeId
  | .literal _ type | .unary _ _ type | .let _ type _ | .structLiteral _ type | .arrayLiteral _ type
  | .enumValue _ type | .slotAlloca _ type _ | .slotLoad _ type | .slotAddr _ type | .makeNone type
  | .makeSome _ type | .unionCheck _ type _ | .globalConstLoad _ type | .externalGlobalAddr _ type
  | .opaqueCheck _ type _ _ | .canonicalType _ type | .pipeCurrent _ type => [type]
  | .binary _ _ _ type other | .index _ _ type other _ _ | .field _ _ type other _ | .cast _ type other
  | .unionCast _ type other _ _ | .layoutIntrinsic _ type _ _ other _ | .makeDyn _ type other _ _
  | .makeOpaque _ type other _ _ | .pipe _ type _ other _ => [type, other]
  | .call c | .stateTailCall c => c.fnType :: c.argumentTypes
  | .makeSlice _ _ _ type objectType boundType _ _ _ => [type, objectType, boundType]
  | .dynCall _ _ _ _ resultType fnType _ argTypes => resultType :: fnType :: argTypes
  | .opaqueCast _ source target opaqueType resultType _ _ _ _ => [source, target, opaqueType, resultType]
  | _ => []

def mapCall (onType : TypeId → TypeId) (c : HirCall) : HirCall :=
  { c with fnType := onType c.fnType, argumentTypes := c.argumentTypes.map onType }

/-- The expression with its names and its types replaced. -/
def map (onText : Text → Text) (onType : TypeId → TypeId) : HirExpr → HirExpr
  | .literal value type => .literal value (onType type)
  | .binary lhs rhs op type operandType => .binary lhs rhs op (onType type) (onType operandType)
  | .unary op operand type => .unary op operand (onType type)
  | .let name type init => .let (onText name) (onType type) init
  | .var name version => .var (onText name) version
  | .call c => .call (mapCall onType c)
  | .index object position type objType isArray safety =>
    .index object position (onType type) (onType objType) isArray safety
  | .field object position type objectType safety =>
    .field object position (onType type) (onType objectType) safety
  | .structLiteral values type => .structLiteral values (onType type)
  | .arrayLiteral elements type => .arrayLiteral elements (onType type)
  | .enumValue value type => .enumValue value (onType type)
  | .slotAlloca slot type alignmentBytes => .slotAlloca slot (onType type) alignmentBytes
  | .slotLoad slot type => .slotLoad slot (onType type)
  | .slotAddr slot type => .slotAddr slot (onType type)
  | .makeNone type => .makeNone (onType type)
  | .makeSome value type => .makeSome value (onType type)
  | .makeSlice object lo hi type objectType boundType isArray isPointer safety =>
    .makeSlice object lo hi (onType type) (onType objectType) (onType boundType) isArray isPointer safety
  | .cast value source target => .cast value (onType source) (onType target)
  | .unionCast value source target memberIndex safety =>
    .unionCast value (onType source) (onType target) memberIndex safety
  | .unionCheck value unionType memberIndex => .unionCheck value (onType unionType) memberIndex
  | .layoutIntrinsic which type fieldIndex operand operandType stringLength =>
    .layoutIntrinsic which (onType type) fieldIndex operand (onType operandType) stringLength
  | .stateTailCall c => .stateTailCall (mapCall onType c)
  | .globalConstLoad name type => .globalConstLoad (onText name) (onType type)
  | .externalGlobalAddr name type => .externalGlobalAddr (onText name) (onType type)
  | .makeDyn value sourceType dynType vtableName valueIsPlace =>
    .makeDyn value (onType sourceType) (onType dynType) (onText vtableName) valueIsPlace
  | .dynCall receiver vtableName slotIndex hasReceiver resultType fnType args argTypes =>
    .dynCall receiver (onText vtableName) slotIndex hasReceiver (onType resultType) (onType fnType) args
      (argTypes.map onType)
  | .makeOpaque value sourceType opaqueType typeId canonicalId =>
    .makeOpaque value (onType sourceType) (onType opaqueType) typeId canonicalId
  | .opaqueCast value source target opaqueType resultType typeId canonicalId safety returnsPtr =>
    .opaqueCast value (onType source) (onType target) (onType opaqueType) (onType resultType) typeId canonicalId
      safety returnsPtr
  | .opaqueCheck value opaqueType typeId canonicalId => .opaqueCheck value (onType opaqueType) typeId canonicalId
  | .canonicalType canonicalId type => .canonicalType canonicalId (onType type)
  | .pipe sourceSlot sourceType stage type isEffect =>
    .pipe sourceSlot (onType sourceType) stage (onType type) isEffect
  | .pipeCurrent slot type => .pipeCurrent slot (onType type)
  | e => e

/-- The expression but for its types and the value of a literal. -/
def outline : HirExpr → HirExpr
  | .literal _ _ => .literal (.i 0) 0
  | e => e.map id fun _ => 0

def literalOf : HirExpr → Option HirLiteralValue
  | .literal value _ => some value
  | _ => none

end Zith.Hir.HirExpr
