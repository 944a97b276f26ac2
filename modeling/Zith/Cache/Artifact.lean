import Zith.Zirl.DeclSection
import Zith.Zirl.Header
import Zith.Zirl.TypeSection

/-! `cache::Artifact` and its records. A floating-point value is carried as its 64 bits; the kind of an
    expression is a byte that the code section does not check. The tables of the metadata section are
    those of `Zirl.Artifact`. -/

namespace Zith.Cache
open Zirl (CompactSymKind DeclRecord DependencyRecord)

inductive CompactExprKind where
  | literal | binary | unary | let | var | call | ret | branch | jump | phi | assign | index | field
  | structLiteral | arrayLiteral | enumValue | slotAlloca | slotStore | slotLoad | slotAddr | makeNone
  | makeSome | makeSlice | cast | layoutIntrinsic | stateTailCall | unionCheck | cleanup
  | globalConstLoad | makeDyn | dynCall | makeOpaque | opaqueCast | opaqueCheck | runtimePanic
  | canonicalType | pipe | pipeDo | pipeCurrent | externalGlobalAddr
  deriving DecidableEq, Repr

/-- The enumerators in the order of their values. -/
def CompactExprKind.all : List CompactExprKind :=
  [.literal, .binary, .unary, .let, .var, .call, .ret, .branch, .jump, .phi, .assign, .index, .field,
    .structLiteral, .arrayLiteral, .enumValue, .slotAlloca, .slotStore, .slotLoad, .slotAddr, .makeNone,
    .makeSome, .makeSlice, .cast, .layoutIntrinsic, .stateTailCall, .unionCheck, .cleanup,
    .globalConstLoad, .makeDyn, .dynCall, .makeOpaque, .opaqueCast, .opaqueCheck, .runtimePanic,
    .canonicalType, .pipe, .pipeDo, .pipeCurrent, .externalGlobalAddr]

def CompactExprKind.ofU8 (b : UInt8) : Option CompactExprKind := CompactExprKind.all[b.toNat]?

inductive CompactSafetyMode where
  | requiredCheck | guarded | intrinsic | raw
  deriving DecidableEq, Repr

def CompactSafetyMode.toU8 (m : CompactSafetyMode) : UInt8 := UInt8.ofNat m.ctorIdx

def CompactSafetyMode.ofU8 (b : UInt8) : Option CompactSafetyMode :=
  [.requiredCheck, .guarded, .intrinsic, .raw][b.toNat]?

inductive CompactSafetyProofKind where
  | boundsValid | optionalPresent | unionMemberMatches | opaqueTypeMatches
  deriving DecidableEq, Repr

def CompactSafetyProofKind.toU8 (k : CompactSafetyProofKind) : UInt8 := UInt8.ofNat k.ctorIdx

def CompactSafetyProofKind.ofU8 (b : UInt8) : Option CompactSafetyProofKind :=
  [.boundsValid, .optionalPresent, .unionMemberMatches, .opaqueTypeMatches][b.toNat]?

/-- The id that stands for none. -/
abbrev noId : UInt32 := 0xFFFFFFFF

structure GenericParamRecord where
  name : List UInt8 := []
  nameId : UInt32 := 0
  boundTypeIds : List UInt32 := []
  deriving DecidableEq

structure TemplateBlueprint where
  name : List UInt8 := []
  nameId : UInt32 := 0
  kind : CompactSymKind := .fn
  declarationIndex : UInt32 := noId
  functionIndex : UInt32 := noId
  params : List GenericParamRecord := []
  methodParams : List GenericParamRecord := []
  returnTypeId : UInt32 := noId
  paramTypeIds : List UInt32 := []
  paramNameIds : List UInt32 := []
  fieldNameIds : List UInt32 := []
  fieldTypeIds : List UInt32 := []
  canonicalFieldOrder : List UInt32 := []
  methodDeclIndices : List UInt32 := []
  traitTypeIds : List UInt32 := []
  isExtern : Bool := false
  isVariadic : Bool := false
  isState : Bool := false
  isForeignC : Bool := false
  usesTailcc : Bool := false
  deriving DecidableEq

structure CompactExpr where
  kind : UInt8 := 0
  typeId : UInt32 := 0
  refA : UInt32 := 0
  refB : UInt32 := 0
  refC : UInt32 := 0
  refD : UInt32 := 0
  refE : UInt32 := 0
  refF : UInt32 := 0
  resolvedFunctionNameId : UInt32 := noId
  resolvedFunctionSignatureTypeId : UInt32 := noId
  variadicSliceParam : UInt32 := noId
  isVariadicSlice : Bool := false
  autoCollectTail : Bool := false
  alignmentBytes : UInt32 := 0
  op : UInt8 := 0
  flags : UInt8 := 0
  safety : CompactSafetyMode := .requiredCheck
  intVal : Int64 := 0
  fltVal : UInt64 := 0
  nameId : UInt32 := 0
  args : List UInt32 := []
  argTypes : List UInt32 := []
  ints : List UInt64 := []
  deriving DecidableEq

structure CompactBasicBlock where
  insts : List UInt32 := []
  terminator : UInt32 := noId
  deriving DecidableEq

structure CompactFunction where
  name : List UInt8 := []
  nameId : UInt32 := 0
  signatureTypeId : UInt32 := noId
  paramTypeIds : List UInt32 := []
  paramNameIds : List UInt32 := []
  paramSlotIds : List UInt32 := []
  returnTypeId : UInt32 := 0
  blocks : List CompactBasicBlock := []
  instanceIndex : UInt32 := noId
  isExtern : Bool := false
  isForeignC : Bool := false
  isVariadic : Bool := false
  isState : Bool := false
  usesTailcc : Bool := false
  machineId : UInt32 := 0
  machineReturnTypeId : UInt32 := 0
  variadicSliceParam : UInt32 := noId
  foreignAdapterNameId : UInt32 := noId
  discardable : Bool := false
  deriving DecidableEq

structure CompactGlobalConst where
  nameId : UInt32 := 0
  typeId : UInt32 := 0
  initExpr : UInt32 := noId
  alignmentBytes : UInt32 := 0
  deriving DecidableEq

structure CompactVTable where
  nameId : UInt32 := 0
  slotFunctionNameIds : List UInt32 := []
  slotFunctionSignatureTypeIds : List UInt32 := []
  deriving DecidableEq

structure CompactCanonicalMapping where
  hi : UInt64 := 0
  lo : UInt64 := 0
  runtimeId : UInt32 := 0
  deriving DecidableEq

structure HirSlotAttrsRecord where
  slot : UInt32 := 0
  ownership : UInt8 := 0
  consumed : UInt8 := 0
  nonNull : Bool := false
  volatileSlot : Bool := false
  deriving DecidableEq

structure HirCallAttrsRecord where
  exprId : UInt32 := 0
  argEscapes : List UInt32 := []
  returnsArg : UInt32 := noId
  deriving DecidableEq

structure HirFnAttrsRecord where
  fnIndex : UInt32 := 0
  returnConsumed : UInt8 := 0
  nonNull : Bool := false
  noAlias : Bool := false
  readOnly : Bool := false
  noCapture : Bool := false
  discardable : Bool := false
  deriving DecidableEq

structure HirSafetyProofRecord where
  exprId : UInt32 := 0
  kind : CompactSafetyProofKind := .boundsValid
  operandA : UInt32 := noId
  operandB : UInt32 := noId
  operandC : UInt32 := noId
  deriving DecidableEq

structure InstantiationRecord where
  canonicalModule : List UInt8
  mangled : List UInt8
  templateName : List UInt8
  argTypes : List (List UInt8) := []
  deriving DecidableEq

structure TestFailureLocation where
  testName : List UInt8
  failureId : UInt32 := 0
  path : List UInt8
  line : UInt32 := 0
  column : UInt32 := 0
  deriving DecidableEq

structure FrontendIdentity where
  dialect : List UInt8 := []
  implementation : List UInt8 := []
  version : List UInt8 := []
  deriving DecidableEq

structure SemanticCompatibilityProfile where
  name : List UInt8 := []
  version : UInt32 := 0
  deriving DecidableEq

structure CanonicalModuleIdentity where
  path : List UInt8 := []
  deriving DecidableEq

structure ContentFingerprint where
  primary : UInt64 := 0
  secondary : UInt64 := 0
  deriving DecidableEq

structure OptionalSection where
  id : UInt16 := 0
  schemaVersion : UInt16 := 1
  payload : List UInt8 := []
  deriving DecidableEq

def kHirSchemaVersion : UInt32 := 3

/-- `kFeatureCanonicalReferences | kFeatureHirDeclarations | kFeatureSafetyObligations`. -/
def kRequiredHirFeatures : UInt64 := 7

def kOptionalFeatureInstantiationSummary : UInt64 := 1
def kOptionalFeatureFrontendProvenance : UInt64 := 2
def kOptionalFeatureDerivedVir : UInt64 := 4
def kOptionalFeatureTestDebug : UInt64 := 8

structure Artifact extends Zirl.Artifact where
  canonicalPath : List UInt8 := []
  frontendIdentity : FrontendIdentity := {}
  semanticProfile : SemanticCompatibilityProfile := {}
  moduleIdentity : CanonicalModuleIdentity := {}
  hirSchemaVersion : UInt32 := kHirSchemaVersion
  sourceFingerprint : ContentFingerprint := {}
  publicAbiHi : UInt32 := 0
  publicAbiLo : UInt32 := 0
  requiredFeatures : UInt64 := kRequiredHirFeatures
  optionalFeatures : UInt64 := 0
  deps : List DependencyRecord := []
  decls : List DeclRecord := []
  templates : List TemplateBlueprint := []
  functions : List CompactFunction := []
  exprs : List CompactExpr := []
  globals : List CompactGlobalConst := []
  vtables : List CompactVTable := []
  canonicalMappings : List CompactCanonicalMapping := []
  attrsSlots : List HirSlotAttrsRecord := []
  attrsCalls : List HirCallAttrsRecord := []
  attrsFns : List HirFnAttrsRecord := []
  attrsSafetyProofs : List HirSafetyProofRecord := []
  instantiations : List InstantiationRecord := []
  testFailureLocations : List TestFailureLocation := []
  optionalSections : List OptionalSection := []
  deriving DecidableEq

end Zith.Cache
