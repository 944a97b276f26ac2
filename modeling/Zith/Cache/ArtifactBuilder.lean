import Zith.Cache.PublicAbi
import Zith.Hir.Module
import Zith.Lib.Succeeds
import Zith.Types.TypeIntern
import Zith.Zirl.References

/-! `cache::ArtifactBuilder`: the artifact of a module. A view of a string is its text here, so that
    `string_index_` is where a text stands in `strings_`. The recursion over the rows of the type table
    takes a depth; `none` is a build that has not returned at that depth, or reads where there is nothing.

        internType ──▶ internType of every dependency ──▶ convertType ──▶ internType of every component
        build : declarations, templates, functions, expressions, globals, vtables, attributes, definitions -/

namespace Zith.Zirl.CompactTypeKind

def error : CompactTypeKind := ⟨0⟩
def never : CompactTypeKind := ⟨1⟩
def void : CompactTypeKind := ⟨2⟩
def bool : CompactTypeKind := ⟨3⟩
def char : CompactTypeKind := ⟨4⟩
def int : CompactTypeKind := ⟨5⟩
def float : CompactTypeKind := ⟨6⟩
def ptr : CompactTypeKind := ⟨7⟩
def array : CompactTypeKind := ⟨8⟩
def struct : CompactTypeKind := ⟨9⟩
def optional : CompactTypeKind := ⟨11⟩
def failable : CompactTypeKind := ⟨12⟩
def slice : CompactTypeKind := ⟨13⟩
def enum : CompactTypeKind := ⟨14⟩
def union : CompactTypeKind := ⟨15⟩
def typeVar : CompactTypeKind := ⟨16⟩
def genericParam : CompactTypeKind := ⟨17⟩
def incomplete : CompactTypeKind := ⟨18⟩
def opaqueUntagged : CompactTypeKind := ⟨19⟩
def dyn : CompactTypeKind := ⟨21⟩
def opaqueTagged : CompactTypeKind := ⟨22⟩

end Zith.Zirl.CompactTypeKind

namespace Zith.Cache
open Zith.Lib Zith.Hir
open Types (TypeIntern TypeData)
open Zirl (CompactType CompactTypeKind CompactSymKind CompactVisibility CompactStructDef CompactEnumDef
  CompactEnumVariant CompactUnionDef DeclRecord DependencyRecord)

/-! ### What is built from -/

/-- What `canonicalTypeId` does not read of a struct definition. -/
structure StructRest where
  args : List ℕ := []
  foreignAbiIsSingleI64 : Bool := false
  foreignOffsets : List UInt64 := []

/-- `types_`, `hir_` and `interner_`. The first list has an entry for each struct definition. -/
structure ArtifactBuilder where
  types : TypeIntern := {}
  structRests : List StructRest := []
  tags : Types.CanonicalTags := ∅
  hir : HirModule := {}
  pool : List Text := []
  sourceFingerprint : ContentFingerprint := {}
  frontendIdentity : FrontendIdentity := {}
  semanticProfile : SemanticCompatibilityProfile := {}

/-- The tables of the artifact that are filled by interning. -/
structure BuilderState where
  strings : List Text := []
  compactTypes : List CompactType := []
  typeIndex : List (ℕ × UInt32) := []
  functionSignatureTypeIds : List UInt32 := []

abbrev Build := StateT BuilderState Option

def internString (s : Text) : Build UInt32 := fun b =>
  if s = [] then some (0, b)
  else match b.strings.idxOf? s with
    | some existing => some (UInt32.ofNat existing, b)
    | none => some (UInt32.ofNat b.strings.length, { b with strings := b.strings ++ [s] })

/-! ### Types -/

def blankType : CompactType :=
  { kind := .error, intWidth := 0, flags := 0, ref0 := 0, ref1 := 0, args := [], argNames := [] }

/-- What `internType` interns first. -/
def dependencies : TypeData → List ℕ
  | .ptr pointee _ _ => [pointee]
  | .array elem _ => [elem]
  | .fn params ret => ret :: params
  | .optional inner | .failable inner | .qualified inner _ _ => [inner]
  | .alias target | .nominal _ target | .dyn target _ => [target]
  | .slice elem => [elem]
  | .pack members _ | .sum members => members
  | .incomplete base args => base :: args
  | _ => []

/-- `convertType` of a row that does not stand for another one. -/
def convertData (internType : ℕ → Build UInt32) : TypeData → Build CompactType
  | .never => return { blankType with kind := .never }
  | .void => return { blankType with kind := .void }
  | .bool => return { blankType with kind := .bool }
  | .char => return { blankType with kind := .char }
  | .int width => return { blankType with kind := .int, intWidth := UInt8.ofNat width.ctorIdx }
  | .float width => return { blankType with kind := .float, intWidth := UInt8.ofNat width.ctorIdx }
  | .ptr pointee isMut _ => do
    return { blankType with kind := .ptr, ref0 := ← internType pointee, flags := if isMut then 1 else 0 }
  | .array elem count => do
    return { blankType with kind := .array, ref0 := ← internType elem, ref1 := count }
  | .struct defId => return { blankType with kind := .struct, ref0 := UInt32.ofNat defId }
  | .fn params ret => do
    let ref0 ← internType ret
    return { blankType with kind := .fn, ref0, args := ← params.mapM internType }
  | .typeVar id => return { blankType with kind := .typeVar, ref0 := id }
  | .optional inner => do return { blankType with kind := .optional, ref0 := ← internType inner }
  | .failable inner => do return { blankType with kind := .failable, ref0 := ← internType inner }
  | .trait name => do return { blankType with kind := .trait, ref0 := ← internString name }
  | .opaqueUntagged => return { blankType with kind := .opaqueUntagged }
  | .opaqueTagged => return { blankType with kind := .opaqueTagged }
  | .slice elem => do return { blankType with kind := .slice, ref0 := ← internType elem }
  | .enum defId => return { blankType with kind := .enum, ref0 := UInt32.ofNat defId }
  | .union defId => return { blankType with kind := .union, ref0 := UInt32.ofNat defId }
  | .pack members names => do
    let args ← members.mapM internType
    return { blankType with kind := .pack, args, argNames := ← names.mapM internString }
  | .dyn target methodCount => do
    return { blankType with kind := .dyn, ref0 := ← internType target, ref1 := methodCount.toUInt32 }
  | .sum members => do return { blankType with kind := .union, args := ← members.mapM internType }
  | .genericParam ownerName paramIndex => do
    return { blankType with kind := .genericParam, ref0 := ← internString ownerName, ref1 := paramIndex }
  | .incomplete base args => do
    let ref0 ← internType base
    return { blankType with kind := .incomplete, ref0, args := ← args.mapM internType }
  -- an error, an unknown type, and the three kinds that `convertType` follows
  | _ => return blankType

/-- The row that an alias, a nominal or a qualified type stands for. -/
def target? : TypeData → Option ℕ
  | .alias target | .nominal _ target => some target
  | .qualified inner _ _ => some inner
  | _ => none

def convertType (T : TypeIntern) (internType : ℕ → Build UInt32) : ℕ → ℕ → Build CompactType
  | 0, _ => fun _ => none
  | depth + 1, id =>
    match T.lookup id with
    | none => return blankType
    | some data =>
      match target? data with
      | some target => convertType T internType depth target
      | none => convertData internType data

/-- The new compact type, under the type it is of. -/
def pushType (id : ℕ) (type : CompactType) : Build UInt32 := fun b =>
  let compactId := UInt32.ofNat b.compactTypes.length
  some (compactId, { b with compactTypes := b.compactTypes ++ [type], typeIndex := (id, compactId) :: b.typeIndex })

def internType (T : TypeIntern) : ℕ → ℕ → Build UInt32
  | 0, _ => fun _ => none
  | depth + 1, id =>
    if id = kInvalidType.toNat then return 0
    else do
      match (← get).typeIndex.lookup id with
      | some existing => return existing
      | none => do
        let data ← ofOption (T.lookup id)
        (dependencies data).forM fun dependency => do let _ ← internType T depth dependency
        pushType id (← convertType T (internType T depth) depth id)

/-- `kFunctionSignatureVariadic`, …`State`, …`ForeignC` and …`TailCC`. -/
def signatureFlags (f : HirFunction) : UInt8 :=
  (if f.isVariadic then 1 else 0) ||| (if f.isState then 2 else 0) ||| (if f.isForeignC then 4 else 0) |||
    (if f.usesTailCC then 8 else 0)

/-- A compact type of its own for each function: it is not entered under a type. -/
def pushSignature (type : CompactType) : Build UInt32 := fun b =>
  some (UInt32.ofNat b.compactTypes.length, { b with compactTypes := b.compactTypes ++ [type] })

/-! ### Expressions -/

def CompactExprKind.toU8 (k : CompactExprKind) : UInt8 := UInt8.ofNat k.ctorIdx

/-- The eight bytes of the union, which are zero before a member is written. -/
def literalWord (pool : List Text) : HirLiteralValue → UInt64
  | .i value => value.toUInt64
  | .f bits => bits
  | .b value => if value then 1 else 0
  | .strVal text => UInt64.ofNat (pool.idxOf text)

/-- `interner_.lookup(lit.str_val)`. -/
def literalText (pool : List Text) : HirLiteralValue → Text
  | .strVal text => text
  | value => pool[(literalWord pool value).toUInt32.toNat]?.getD []

section
variable (B : ArtifactBuilder) (depth : ℕ)

def type (id : TypeId) : Build UInt32 := internType B.types depth id.toNat

/-- The type, when there is one. -/
def internTypeIf (present : Bool) (id : ℕ) (otherwise : UInt32) : Build UInt32 :=
  if present then internType B.types depth id else return otherwise

def internFunctionSignature (f : HirFunction) : Build UInt32 := do
  let ref0 ← type B depth f.returnType
  let args ← f.params.mapM (type B depth)
  pushSignature { blankType with kind := .fn, ref0, flags := signatureFlags f, args }

/-- Which member of the union is written down follows from the kind of the type. -/
def convertLiteral (value : HirLiteralValue) (id : TypeId) : Build CompactExpr := do
  let e : CompactExpr := { kind := CompactExprKind.literal.toU8, typeId := ← type B depth id }
  let word := literalWord B.pool value
  let kind := B.types.kindOf id.toNat
  if kind = TypeData.bool.kind then return { e with flags := 2, intVal := if word &&& 0xFF = 0 then 0 else 1 }
  else if kind = (TypeData.float .f32).kind then return { e with flags := 1, fltVal := word }
  else if kind = (TypeData.ptr 0 false .default).kind then
    return { e with flags := 3, nameId := ← internString (literalText B.pool value) }
  else return { e with flags := 0, intVal := word.toInt64 }

/-- The fields of a call that say which function it goes to. -/
def withResolved (fn : HirFunctionId) (e : CompactExpr) : Build CompactExpr :=
  match B.hir.fns[fn.toNat]? with
  | none => return e
  | some f => do
    let resolvedFunctionNameId ← internString f.name
    let signatures := (← get).functionSignatureTypeIds
    return { e with
      resolvedFunctionNameId
      resolvedFunctionSignatureTypeId := signatures[fn.toNat]?.getD e.resolvedFunctionSignatureTypeId }

def convertCall (kind : CompactExprKind) (flags : UInt8) (c : HirCall) : Build CompactExpr := do
  let e ← withResolved B c.resolvedFn { kind := kind.toU8, refA := c.callee }
  let refE ← type B depth c.fnType
  return { e with
    refE
    flags
    variadicSliceParam := c.variadicSliceParam
    isVariadicSlice := c.isVariadicSlice
    autoCollectTail := c.autoCollectTail
    args := c.args
    argTypes := ← c.argumentTypes.mapM (type B depth) }

def convertExpr (e : HirExpr) : Build CompactExpr :=
  let blank (kind : CompactExprKind) : CompactExpr := { kind := kind.toU8 }
  let type := type B depth
  match e with
  | .literal value id => convertLiteral B depth value id
  | .binary lhs rhs op id operandType => do
    let typeId ← type id
    return { blank .binary with typeId, refA := lhs, refB := rhs, op, refE := ← type operandType }
  | .unary op operand id => do return { blank .unary with typeId := ← type id, refA := operand, op }
  | .let name id init => do
    let nameId ← internString name
    return { blank .let with nameId, typeId := ← type id, refA := init }
  | .var name version => do return { blank .var with nameId := ← internString name, refC := version }
  | .call c => convertCall B depth .call ((if c.musttail then 1 else 0) ||| if c.usesTailCC then 2 else 0) c
  | .ret value => return { blank .ret with refA := value }
  | .branch cond thenBlock elseBlock =>
    return { blank .branch with refA := cond, refC := thenBlock, refD := elseBlock }
  | .jump target => return { blank .jump with refC := target }
  | .phi incoming => return { blank .phi with args := incoming }
  | .assign target value => return { blank .assign with refA := target, refB := value }
  | .index object index id objType isArray safety => do
    let typeId ← type id
    return { blank .index with
      typeId, refA := object, refB := index, refE := ← type objType, flags := if isArray then 1 else 0, safety }
  | .field object index id objectType safety => do
    let typeId ← type id
    return { blank .field with typeId, refA := object, refC := index, refE := ← type objectType, safety }
  | .structLiteral values id => do return { blank .structLiteral with typeId := ← type id, args := values }
  | .arrayLiteral elements id => do return { blank .arrayLiteral with typeId := ← type id, args := elements }
  | .enumValue value id => do return { blank .enumValue with typeId := ← type id, intVal := value }
  | .slotAlloca slot id alignmentBytes => do
    return { blank .slotAlloca with refA := slot, typeId := ← type id, alignmentBytes }
  | .slotStore slot value => return { blank .slotStore with refA := slot, refB := value }
  | .slotLoad slot id => do return { blank .slotLoad with refA := slot, typeId := ← type id }
  | .slotAddr slot id => do return { blank .slotAddr with refA := slot, typeId := ← type id }
  | .makeNone id => do return { blank .makeNone with typeId := ← type id }
  | .makeSome value id => do return { blank .makeSome with typeId := ← type id, refA := value }
  | .makeSlice object lo hi id objectType boundType isArray isPointer safety => do
    let typeId ← type id
    let refE ← type objectType
    return { blank .makeSlice with
      typeId, refA := object, refB := lo, refC := hi, refE, refF := ← type boundType
      flags := (if isArray then 1 else 0) ||| (if isPointer then 4 else 0), safety }
  | .unionCheck value unionType memberIndex => do
    let typeId ← internType B.types depth 3
    return { blank .unionCheck with typeId, refA := value, refB := ← type unionType, refC := memberIndex }
  | .unionCast value source target memberIndex safety => do
    let refE ← type source
    return { blank .cast with refA := value, refE, refB := ← type target, refC := memberIndex, safety }
  | .cast value source target => do
    let refE ← type source
    return { blank .cast with refA := value, refE, refB := ← type target, refC := noId }
  | .layoutIntrinsic which id fieldIndex operand operandType stringLength => do
    let typeId ← type id
    return { blank .layoutIntrinsic with
      typeId, refE := which.toUInt32, refF := fieldIndex, refA := operand, refB := ← type operandType
      intVal := stringLength.toInt64 }
  | .stateTailCall c => convertCall B depth .stateTailCall (if c.usesTailCC then 2 else 0) c
  | .cleanup exprs => return { blank .cleanup with args := exprs }
  | .globalConstLoad name id => do
    let nameId ← internString name
    return { blank .globalConstLoad with nameId, typeId := ← type id }
  | .externalGlobalAddr name id => do
    let nameId ← internString name
    return { blank .externalGlobalAddr with nameId, typeId := ← type id }
  | .makeDyn value sourceType dynType vtableName valueIsPlace => do
    let refB ← type sourceType
    let typeId ← type dynType
    return { blank .makeDyn with
      refA := value, refB, typeId, nameId := ← internString vtableName, flags := if valueIsPlace then 1 else 0 }
  | .dynCall receiver vtableName slotIndex hasReceiver resultType fnType args argTypes => do
    let nameId ← internString vtableName
    let typeId ← type resultType
    let refE ← type fnType
    return { blank .dynCall with
      refA := receiver, nameId, refC := slotIndex, typeId, refE, args, argTypes := ← argTypes.mapM type
      flags := if hasReceiver then 1 else 0 }
  | .makeOpaque value sourceType opaqueType typeTag canonicalId => do
    let refB ← type sourceType
    return { blank .makeOpaque with
      refA := value, refB, typeId := ← type opaqueType, refC := typeTag, ints := [canonicalId.hi, canonicalId.lo] }
  | .opaqueCast value source target opaqueType resultType typeTag canonicalId safety returnsPtr => do
    let refB ← type source
    let refC ← type target
    let refD ← type opaqueType
    return { blank .opaqueCast with
      refA := value, refB, refC, refD, typeId := ← type resultType, refE := typeTag
      flags := if returnsPtr then 2 else 0, safety, ints := [canonicalId.hi, canonicalId.lo] }
  | .opaqueCheck value opaqueType typeTag canonicalId => do
    return { blank .opaqueCheck with
      refA := value, typeId := ← type opaqueType, refE := typeTag, ints := [canonicalId.hi, canonicalId.lo] }
  | .runtimePanic code => return { blank .runtimePanic with intVal := code.toUInt64.toInt64 }
  | .canonicalType canonicalId id => do
    return { blank .canonicalType with typeId := ← type id, ints := [canonicalId.hi, canonicalId.lo] }
  | .pipe sourceSlot sourceType stage id isEffect => do
    let typeId ← type id
    return { blank (if isEffect then .pipeDo else .pipe) with
      refA := stage, refB := sourceSlot, typeId, refE := ← type sourceType }
  | .pipeCurrent slot id => do return { blank .pipeCurrent with refA := slot, typeId := ← type id }

/-! ### Declarations and templates -/

/-- A record before it is written: its name is not in the section. -/
structure BuiltDecl extends DeclRecord where
  name : Text := []
  deriving DecidableEq

/-- The type of a declaration; the error type when it has none. -/
def declType (d : Hir.HirDeclaration) : ℕ :=
  if d.type ≠ kInvalidType then d.type.toNat else (B.types.namedTypes.lookup d.name).getD kErrorType.toNat

def isType (id : ℕ) : Bool := id ≠ kErrorType.toNat ∧ id ≠ kInvalidType.toNat

/-- `lookupStructDef` of the id of either kind, then `lookupUnionDef`. -/
def recordFieldLists (defId : ℕ) : Build (List UInt32 × List UInt32) :=
  match B.types.structDefs[defId]? with
  | some d => do
    let fields ← d.fields.mapM fun field => do
      let nameId ← internString field.name
      return (nameId, ← internType B.types depth field.type)
    return fields.unzip
  | none =>
    match B.types.unionDefs[defId]? with
    | some d => do return ([], ← d.members.mapM (internType B.types depth))
    | none => return ([], [])

def fieldLists (d : Hir.HirDeclaration) (typeId : ℕ) : Build (List UInt32 × List UInt32) :=
  let data := B.types.lookup typeId
  match d.kind with
  | .struct | .union | .component =>
    match if isType typeId then data else none with
    | some (.struct defId) | some (.union defId) => recordFieldLists B depth defId
    | _ => return ([], [])
  | .enum =>
    match data with
    | some (.enum defId) => do
      let variants := (B.types.enumDefs[defId]?.map (·.variants)).getD []
      return (← variants.mapM fun variant => internString variant.name, [])
    | _ => return ([], [])
  | _ => return ([], [])

def hasMethods (kind : CompactSymKind) : Bool := kind == .struct || kind == .union || kind == .component

/-- The declarations that have a record: every one, under its own index. -/
def recorded (ids : List HirDeclarationId) : List HirDeclarationId :=
  ids.filter fun id => id.toNat < B.hir.declarations.length

def buildDecl (d : Hir.HirDeclaration) : Build BuiltDecl := do
  let nameId ← internString d.name
  let id := declType B d
  let typeId ← internTypeIf B depth (isType id) id 0
  let lists ← fieldLists B depth d id
  return { name := d.name
           nameId
           kind := d.kind
           visibility := d.visibility
           modDepth := d.moduleDepth
           isExtern := d.isExtern
           discardable := d.discardable
           templateIndex := d.templateId
           bodyFnIndex := d.bodyFunction
           typeId
           fieldNameIds := lists.1
           fieldTypeIds := lists.2
           methodDeclIndices := if hasMethods d.kind then recorded B d.methodDeclarations else [] }

def buildGenericParam (p : HirGenericParam) : Build GenericParamRecord := do
  let nameId ← internString p.name
  return { nameId, name := p.name, boundTypeIds := ← p.bounds.mapM (type B depth) }

def buildTemplate (t : HirTemplate) : Build TemplateBlueprint := do
  let nameId ← internString t.name
  let returnTypeId ← internTypeIf B depth (t.returnType != kInvalidType) t.returnType.toNat noId
  let params ← t.params.mapM (buildGenericParam B depth)
  let paramTypeIds ← t.parameterTypes.mapM (type B depth)
  let paramNameIds ← t.parameterNames.mapM internString
  let fieldNameIds ← t.fieldNames.mapM internString
  let fieldTypeIds ← t.fieldTypes.mapM (type B depth)
  let traitTypeIds ← t.traitTypes.mapM (type B depth)
  return { kind := t.kind
           isExtern := t.isExtern
           isVariadic := t.variadic
           isState := t.isState
           isForeignC := t.isForeignC
           usesTailcc := t.usesTailCc
           name := t.name
           nameId
           declarationIndex := if t.declarationId.toNat < B.hir.declarations.length then t.declarationId else noId
           functionIndex := t.functionId
           returnTypeId
           params
           paramTypeIds
           paramNameIds
           fieldNameIds
           fieldTypeIds
           canonicalFieldOrder := t.canonicalFieldOrder
           methodDeclIndices := recorded B t.methodDeclarations
           traitTypeIds }

/-! ### Functions -/

/-- The loop of `genericArgsFromName`: the depth of angle brackets, and the argument that is being read. -/
def splitArgs : ℕ → Text → Text → List Text
  | _, current, [] => if current.isEmpty then [] else [current]
  | nesting, current, c :: rest =>
    if c = 0x3C then splitArgs (nesting + 1) (current ++ [c]) rest
    else if c = 0x3E then splitArgs (nesting - 1) (current ++ [c]) rest
    else if c = 0x2C ∧ nesting = 0 then current :: splitArgs 0 [] rest
    else splitArgs nesting (current ++ [c]) rest

/-- The arguments between the first `<` of a name and the `>` it ends with. -/
def genericArgsFromName (mangled : Text) : List Text :=
  let after := (mangled.dropWhile (· ≠ 0x3C)).drop 1
  if mangled.contains 0x3C ∧ mangled.getLast? = some 0x3E then splitArgs 0 [] after.dropLast else []

/-- What a function that is an instance adds to the summary of instances. -/
def instantiationOf (canonicalPath name : Text) : Option InstantiationRecord :=
  if name.contains 0x3C then
    some { canonicalModule := canonicalPath, mangled := name, templateName := name.takeWhile (· ≠ 0x3C)
           argTypes := genericArgsFromName name }
  else none

def buildParam (f : HirFunction) (param : TypeId × ℕ) : Build (UInt32 × UInt32 × UInt32) := do
  let typeId ← type B depth param.1
  let nameId ← internString (← ofOption f.paramNames[param.2]?)
  return (typeId, nameId, f.paramSlots[param.2]?.getD kInvalidHirSlot)

def internAdapter : Option Text → Build UInt32
  | some name => internString name
  | none => return noId

/-- A function and the instances before it. -/
def buildFunction (canonicalPath : Text) (f : HirFunction × ℕ) (instances : List InstantiationRecord) :
    Build (CompactFunction × List InstantiationRecord) := do
  let fn := f.1
  let nameId ← internString fn.name
  let foreignAdapterNameId ← internAdapter fn.foreignAdapterName
  let returnTypeId ← type B depth fn.returnType
  let machineReturnTypeId ←
    internTypeIf B depth (fn.machineReturnType != kInvalidType) fn.machineReturnType.toNat returnTypeId
  let params ← fn.params.zipIdx.mapM (buildParam B depth fn)
  let signatureTypeId ← internFunctionSignature B depth fn
  modify fun b => { b with functionSignatureTypeIds := b.functionSignatureTypeIds ++ [signatureTypeId] }
  let instantiation := instantiationOf canonicalPath fn.name
  return ({ name := fn.name
            nameId
            isExtern := !fn.hasBody
            isForeignC := fn.isForeignC
            isVariadic := fn.isVariadic
            isState := fn.isState
            usesTailcc := fn.usesTailCC
            discardable := (B.hir.attrs.fns[f.2]?.map (·.discardable)).getD false
            variadicSliceParam := fn.variadicSliceParam.getD noId
            foreignAdapterNameId
            machineId := fn.machineId
            returnTypeId
            machineReturnTypeId
            instanceIndex := if instantiation.isSome then UInt32.ofNat instances.length else noId
            paramTypeIds := params.map (·.1)
            paramNameIds := params.map (·.2.1)
            paramSlotIds := params.map (·.2.2)
            signatureTypeId
            blocks := fn.blocks.map fun block => ⟨block.insts, block.terminator⟩ },
    instances ++ instantiation.toList)

def buildFunctions (canonicalPath : Text) :
    List (HirFunction × ℕ) → List InstantiationRecord → Build (List CompactFunction × List InstantiationRecord)
  | [], instances => return ([], instances)
  | f :: rest, instances => do
    let (fn, instances) ← buildFunction B depth canonicalPath f instances
    let (fns, instances) ← buildFunctions canonicalPath rest instances
    return (fn :: fns, instances)

/-! ### Globals, vtables and attributes -/

def buildGlobal (g : HirGlobalConst) : Build CompactGlobalConst := do
  let nameId ← internString g.name
  return { nameId, typeId := ← type B depth g.type, initExpr := g.init, alignmentBytes := g.alignmentBytes }

def buildSlot (id : HirFunctionId) : Build (UInt32 × UInt32) :=
  match B.hir.fns[id.toNat]? with
  | none => return (noId, noId)
  | some f => do
    let nameId ← internString f.name
    return (nameId, ← ofOption (← get).functionSignatureTypeIds[id.toNat]?)

def buildVTable (v : HirVTable) : Build CompactVTable := do
  let nameId ← internString v.name
  let slots ← v.slots.mapM (buildSlot B)
  return { nameId, slotFunctionNameIds := slots.map (·.1), slotFunctionSignatureTypeIds := slots.map (·.2) }

end

def slotAttrsRecords (attrs : HirAttrs) : List HirSlotAttrsRecord :=
  (attrs.slots.zipIdx.filter fun s => s.1.ownership != 0 || s.1.consumed != 0 || s.1.nonNull || s.1.volatileSlot).map
    fun s => { slot := UInt32.ofNat s.2, ownership := s.1.ownership, consumed := s.1.consumed
               nonNull := s.1.nonNull, volatileSlot := s.1.volatileSlot }

def callAttrsRecords (hir : HirModule) : List HirCallAttrsRecord :=
  ((hir.attrs.calls.take hir.exprs.length).zipIdx.filter fun c => c.1.returnsArg != noId || c.1.args.any (· != 0)).map
    fun c => { exprId := UInt32.ofNat c.2, returnsArg := c.1.returnsArg, argEscapes := c.1.args.map (·.toUInt32) }

def fnAttrsRecords (attrs : HirAttrs) : List HirFnAttrsRecord :=
  (attrs.fns.zipIdx.filter fun f => f.1.returnConsumed != 0 || f.1.nonNull || f.1.noAlias || f.1.readOnly ||
      f.1.noCapture || f.1.discardable).map
    fun f => { fnIndex := UInt32.ofNat f.2, returnConsumed := f.1.returnConsumed, nonNull := f.1.nonNull
               noAlias := f.1.noAlias, readOnly := f.1.readOnly, noCapture := f.1.noCapture
               discardable := f.1.discardable }

def safetyProofRecords (hir : HirModule) : List HirSafetyProofRecord :=
  ((hir.attrs.safetyProofs.take hir.exprs.length).zipIdx.filter fun p => p.1.present).map
    fun p => { exprId := UInt32.ofNat p.2, kind := p.1.kind, operandA := p.1.operandA, operandB := p.1.operandB
               operandC := p.1.operandC }

/-! ### Definitions -/

section
variable (B : ArtifactBuilder) (depth : ℕ)

def buildStructDef (d : Types.StructDef × ℕ) : Build CompactStructDef := do
  let rest := B.structRests[d.2]?.getD {}
  let nameId ← internString d.1.name
  let fields ← d.1.fields.mapM fun field => do
    let fieldNameId ← internString field.name
    return (fieldNameId, ← internType B.types depth field.type)
  return { name := d.1.name
           nameId
           hasForeignLayout := d.1.hasForeignLayout
           foreignAbiIsSingleI64 := rest.foreignAbiIsSingleI64
           foreignSizeBytes := d.1.foreignSizeBytes
           foreignAlignBytes := d.1.foreignAlignBytes
           explicitAlignmentBytes := d.1.explicitAlignmentBytes
           fieldNameIds := fields.map (·.1)
           fieldTypeIds := fields.map (·.2)
           foreignFieldOffsets := (List.range d.1.fields.length).map fun i => rest.foreignOffsets[i]?.getD 0
           typeArgIds := ← rest.args.mapM (internType B.types depth) }

def buildEnumVariant (v : Types.EnumVariantDef) : Build CompactEnumVariant := do
  return { name := v.name, nameId := ← internString v.name, discriminant := v.discriminant }

def buildEnumDef (d : Types.EnumDef) : Build CompactEnumDef := do
  let nameId ← internString d.name
  let underlyingId ← internTypeIf B depth (d.underlying != kErrorType.toNat) d.underlying noId
  return { name := d.name, nameId, underlyingId, variants := ← d.variants.mapM buildEnumVariant }

def buildUnionDef (d : Types.UnionDef) : Build CompactUnionDef := do
  let nameId ← internString d.name
  return { name := d.name, nameId, isRaw := !d.isTagged
           memberTypeIds := ← d.members.mapM (internType B.types depth) }

/-! ### The artifact -/

/-- The kind that `mapDeclKind` maps to a kind. -/
def declarationKind : CompactSymKind → HirDeclarationKind
  | .fn => .function
  | .struct => .struct
  | .trait => .trait
  | .interface => .interface
  | .enum => .enum
  | .alias => .alias
  | .«variable» => .«variable»
  | .«module» => .«module»
  | .component => .component
  | .union => .union
  | .asset => .asset
  | .word => .word
  | .context => .context

def declarationVisibility : CompactVisibility → HirVisibility
  | .«private» => .«private»
  | .«public» => .«public»
  | .«module» => .«module»

def publicAbiHash (hir : HirModule) : UInt32 × UInt32 :=
  computePublicAbiHash <| hir.declarations.map fun d =>
    ({ name := d.name, kind := declarationKind d.kind, visibility := declarationVisibility d.visibility
       moduleDepth := d.moduleDepth, type := d.type, discardable := d.discardable } :
      Cache.HirDeclaration TypeId)

/-- Everything that is interned, in the order of the source, and the artifact but for its two tables. -/
def buildTables (canonicalPath moduleName : Text) (deps : List DependencyRecord) :
    Build (List BuiltDecl × Artifact) := do
  let decls ← B.hir.declarations.mapM (buildDecl B depth)
  let templates ← B.hir.templates.mapM (buildTemplate B depth)
  let (functions, instantiations) ← buildFunctions B depth canonicalPath B.hir.fns.zipIdx []
  let exprs ← B.hir.exprs.mapM (convertExpr B depth)
  let globals ← B.hir.globals.mapM (buildGlobal B depth)
  let vtables ← B.hir.vtables.mapM (buildVTable B)
  let structDefs ← B.types.structDefs.zipIdx.mapM (buildStructDef B depth)
  let enumDefs ← B.types.enumDefs.mapM (buildEnumDef B depth)
  let unionDefs ← B.types.unionDefs.mapM (buildUnionDef B depth)
  return (decls,
    { canonicalPath
      moduleIdentity := ⟨canonicalPath⟩
      moduleName
      frontendIdentity := B.frontendIdentity
      semanticProfile := B.semanticProfile
      sourceFingerprint := B.sourceFingerprint
      canonicalMappings := (Types.canonicalTagSnapshot B.tags).map fun m => ⟨m.1.hi, m.1.lo, m.2⟩
      publicAbiHi := (publicAbiHash B.hir).1
      publicAbiLo := (publicAbiHash B.hir).2
      deps
      decls := decls.map (·.toDeclRecord)
      templates, functions, instantiations, exprs, globals, vtables, structDefs, enumDefs, unionDefs
      attrsSlots := slotAttrsRecords B.hir.attrs
      attrsCalls := callAttrsRecords B.hir
      attrsFns := fnAttrsRecords B.hir.attrs
      attrsSafetyProofs := safetyProofRecords B.hir })

/-- `build`: the declarations with their names, and the artifact. -/
def build (canonicalPath moduleName : Text) (deps : List DependencyRecord) : Option (List BuiltDecl × Artifact) := do
  let ((decls, art), state) ← buildTables B depth canonicalPath moduleName deps {}
  return (decls, { art with strings := state.strings, types := state.compactTypes })

end

end Zith.Cache
