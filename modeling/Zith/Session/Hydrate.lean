import Zith.Hir.Module
import Zith.Lib.Succeeds
import Zith.Zirl.References

/-! `CompilationSession::hydrateFromArtifact`: the symbols, the types and the HIR of a module, from its
    artifact. `art.strings[id]`, and every other index that is not tested first, is a lookup that fails out
    of range. What the type table answers does not matter here, so the table is a parameter. -/

namespace Zith.Session
open Zith.Lib Zith.Hir
open Types (TypeCanonicalId)
open Zirl (CompactType CompactStructDef CompactEnumDef CompactUnionDef CompactSymKind CompactVisibility
  DeclRecord resolveFunctionReference)
open Zith.Cache (CompactExpr CompactExprKind CompactFunction CompactVTable CompactGlobalConst
  TemplateBlueprint GenericParamRecord HirSlotAttrsRecord HirCallAttrsRecord HirFnAttrsRecord
  HirSafetyProofRecord noId)

/-! ### The session -/

/-- The calls of the type table. -/
inductive TypeCall where
  | setCurrentModule (path : Text)
  | setCanonicalTag (id : TypeCanonicalId) (tag : UInt32)
  | defineStruct (name : Text)
  | defineEnum (name : Text) (underlying : TypeId)
  | defineUnion (name : Text) (isTagged : Bool)
  | internInt (width : UInt8)
  | internFloat (width : UInt8)
  | internPtr (pointee : TypeId) (isMut : Bool)
  | internArray (elem : TypeId) (count : UInt32)
  | internFn (params : List TypeId) (ret : TypeId)
  | internOptional (inner : TypeId)
  | internFailable (inner : TypeId)
  | internPack (members : List TypeId) (names : List Text)
  | internDyn (target : TypeId) (methodCount : UInt32)
  | internSlice (elem : TypeId)
  | internTypeVar
  | internGenericParam (ownerName : Text) (paramIndex : UInt32)
  | internIncomplete (base : TypeId) (args : List TypeId)
  | internUnknown
  | internTrait (name : Text)
  | internOpaqueTagged
  | setExplicitAlignment (type : TypeId) (bytes : UInt32)
  | setForeignLayout (type : TypeId) (sizeBytes alignBytes : UInt64) (singleI64Abi : Bool)
  | setTypeArgs (type : TypeId) (args : List TypeId)
  | addField (type : TypeId) (name : Text) (fieldType : TypeId) (foreignOffset : UInt64)
  | setEnumUnderlying (type underlying : TypeId)
  | addEnumVariant (type : TypeId) (name : Text) (discriminant : Int64)
  | addUnionMember (type member : TypeId)

/-- A type table: what a call does and returns, and `kindOf(id) == Union`. -/
structure TypeTable (σ : Type) where
  call : TypeCall → σ → TypeId × σ
  isUnion : σ → TypeId → Bool

structure Symbol where
  name : Text
  visibility : CompactVisibility
  modDepth : Int32
  kind : CompactSymKind
  discardable : Bool
  members : List ℕ := []
  deriving DecidableEq

/-- What of the session is hydrated. -/
structure CompilationSession (σ : Type) where
  types : σ
  symbols : List Symbol := []
  hir : HirModule := {}

/-! ### Symbols -/

/-- `mSyms.declare`, of a record that was read: its name is empty. -/
def symbolOf (d : DeclRecord) : Symbol :=
  { name := [], visibility := d.visibility, modDepth := d.modDepth, kind := d.kind,
    discardable := d.discardable }

def hasMembers (d : DeclRecord) : Bool := d.kind == .struct || d.kind == .union || d.kind == .component

/-- The symbols with the members of the declaration at `index`, whose ids are in `declSymIds`. -/
def linkMembers (declSymIds : List ℕ) (symbols : List Symbol) (d : DeclRecord × ℕ) : Option (List Symbol) :=
  if hasMembers d.1 then do
    let id ← declSymIds[d.2]?
    let owner ← symbols[id]?
    let members := d.1.methodDeclIndices.filterMap fun method => declSymIds[method.toNat]?
    return symbols.set id { owner with members := owner.members ++ members }
  else some symbols

def declareSymbols (art : Cache.Artifact) (symbols : List Symbol) : Option (List Symbol) :=
  let declSymIds := (List.range art.decls.length).map (symbols.length + ·)
  art.decls.zipIdx.foldlM (linkMembers declSymIds) (symbols ++ art.decls.map symbolOf)

/-! ### Types -/

section
variable {σ : Type} (table : TypeTable σ) (art : Cache.Artifact)

def run (call : TypeCall) : StateT σ Option TypeId := fun s => some (table.call call s)

/-- A call for what it does. -/
def tell (call : TypeCall) : StateT σ Option PUnit := do
  let _ ← run table call
  return ⟨⟩

def tellIf (b : Bool) (call : TypeCall) : StateT σ Option PUnit := if b then tell table call else pure ⟨⟩

/-- `art.strings[id]`. -/
def string (id : UInt32) : StateT σ Option Text := ofOption art.strings[id.toNat]?

/-- `compactType`; a compact id that is not filled in yet is the error type too. -/
def compactType (ids : List TypeId) (id : UInt32) : TypeId := ids[id.toNat]?.getD kErrorType

/-- The types of the composite definitions. -/
structure Composites where
  structTids : List TypeId
  enumTids : List TypeId
  unionTids : List TypeId

def defineComposites : StateT σ Option Composites := do
  let structTids ← art.structDefs.mapM fun d => run table (.defineStruct d.name)
  let enumTids ← art.enumDefs.mapM fun d => run table (.defineEnum d.name kErrorType)
  let unionTids ← art.unionDefs.mapM fun d => run table (.defineUnion d.name (!d.isRaw))
  return { structTids, enumTids, unionTids }

/-- One round of the loop over the compact types. -/
def hydrateType (c : Composites) (ids : List TypeId) (t : CompactType) : StateT σ Option TypeId :=
  match t.kind.val.toNat with
  | 1 => pure 1
  | 2 => pure 2
  | 3 => pure 3
  | 4 => pure 4
  | 5 => run table (.internInt t.intWidth)
  | 6 => run table (.internFloat t.intWidth)
  | 7 => run table (.internPtr (compactType ids t.ref0) (t.flags &&& 1 != 0))
  | 8 => run table (.internArray (compactType ids t.ref0) t.ref1)
  | 9 => pure (c.structTids[t.ref0.toNat]?.getD kErrorType)
  | 10 => run table (.internFn (t.args.map (compactType ids)) (compactType ids t.ref0))
  | 11 => run table (.internOptional (compactType ids t.ref0))
  | 12 => run table (.internFailable (compactType ids t.ref0))
  | 13 => run table (.internSlice (compactType ids t.ref0))
  | 14 => pure (c.enumTids[t.ref0.toNat]?.getD kErrorType)
  | 15 => pure (c.unionTids[t.ref0.toNat]?.getD kErrorType)
  | 16 => run table .internTypeVar
  | 17 => match art.strings[t.ref0.toNat]? with
    | some owner => run table (.internGenericParam owner t.ref1)
    | none => pure kErrorType
  | 18 => run table (.internIncomplete (compactType ids t.ref0) (t.args.map (compactType ids)))
  | 19 => run table .internUnknown
  | 20 => do
    let names ← t.argNames.mapM (string art)
    run table (.internPack (t.args.map (compactType ids)) names)
  | 21 => run table (.internDyn (compactType ids t.ref0) t.ref1)
  | 22 => run table .internOpaqueTagged
  | 23 => match art.strings[t.ref0.toNat]? with
    | some name => run table (.internTrait name)
    | none => pure kErrorType
  | _ => pure kErrorType

def hydrateStructDef (c : Composites) (ids : List TypeId) (d : CompactStructDef × ℕ) :
    StateT σ Option PUnit := do
  let tid ← ofOption c.structTids[d.2]?
  tellIf table (d.1.explicitAlignmentBytes != 0) (.setExplicitAlignment tid d.1.explicitAlignmentBytes)
  tellIf table d.1.hasForeignLayout
    (.setForeignLayout tid d.1.foreignSizeBytes d.1.foreignAlignBytes d.1.foreignAbiIsSingleI64)
  tellIf table (!d.1.typeArgIds.isEmpty) (.setTypeArgs tid (d.1.typeArgIds.map (compactType ids)))
  (d.1.fieldNameIds.zip d.1.fieldTypeIds).zipIdx.forM fun field => do
    let name ← string art field.1.1
    tell table (.addField tid name (compactType ids field.1.2) (d.1.foreignFieldOffsets[field.2]?.getD 0))

def hydrateEnumDef (c : Composites) (ids : List TypeId) (d : CompactEnumDef × ℕ) :
    StateT σ Option PUnit := do
  let tid ← ofOption c.enumTids[d.2]?
  tellIf table (d.1.underlyingId != noId) (.setEnumUnderlying tid (compactType ids d.1.underlyingId))
  d.1.variants.forM fun v => tell table (.addEnumVariant tid v.name v.discriminant)

def hydrateUnionDef (c : Composites) (ids : List TypeId) (d : CompactUnionDef × ℕ) :
    StateT σ Option PUnit := do
  let tid ← ofOption c.unionTids[d.2]?
  d.1.memberTypeIds.forM fun member => tell table (.addUnionMember tid (compactType ids member))

/-- The compact types, by their compact ids. -/
def hydrateTypes : StateT σ Option (List TypeId) := do
  tell table (.setCurrentModule art.canonicalPath)
  art.canonicalMappings.forM fun m => tell table (.setCanonicalTag ⟨m.hi, m.lo⟩ m.runtimeId)
  let c ← defineComposites table art
  let ids ← art.types.foldlM (fun ids t => do return ids ++ [← hydrateType table art c ids t]) []
  art.structDefs.zipIdx.forM (hydrateStructDef table art c ids)
  art.enumDefs.zipIdx.forM (hydrateEnumDef table c ids)
  art.unionDefs.zipIdx.forM (hydrateUnionDef table c ids)
  return ids

/-! ### Declarations and templates -/

/-- A name by its id, and the empty name of a record that was read otherwise. -/
def nameOr (id : UInt32) (name : Text) : Text := art.strings[id.toNat]?.getD name

/-- An index below the size, and the invalid id otherwise. -/
def indexOr (index : UInt32) (size : ℕ) (invalid : UInt32) : UInt32 :=
  if index.toNat < size then index else invalid

def hydrateDecl (ids : List TypeId) (d : DeclRecord) : HirDeclaration :=
  { isExtern := d.isExtern
    name := nameOr art d.nameId []
    kind := d.kind
    visibility := d.visibility
    moduleDepth := d.modDepth
    type := compactType ids d.typeId
    discardable := d.discardable
    bodyFunction := indexOr d.bodyFnIndex art.functions.length kInvalidHirFunction
    templateId := indexOr d.templateIndex art.templates.length kInvalidHirTemplate
    methodDeclarations := d.methodDeclIndices.filter fun member => member.toNat < art.decls.length }

def hydrateParam (ids : List TypeId) (p : GenericParamRecord) : HirGenericParam :=
  { name := nameOr art p.nameId p.name, bounds := p.boundTypeIds.map (compactType ids) }

def hydrateTemplate (ids : List TypeId) (t : TemplateBlueprint) : StateT σ Option HirTemplate := do
  let parameterNames ← t.paramNameIds.mapM (string art)
  let fieldNames ← t.fieldNameIds.mapM (string art)
  return { declarationId := indexOr t.declarationIndex art.decls.length kInvalidHirDeclaration
           functionId := indexOr t.functionIndex art.functions.length kInvalidHirFunction
           kind := t.kind
           isExtern := t.isExtern
           name := nameOr art t.nameId t.name
           returnType := if t.returnTypeId = noId then kInvalidType else compactType ids t.returnTypeId
           variadic := t.isVariadic
           isState := t.isState
           isForeignC := t.isForeignC
           usesTailCc := t.usesTailcc
           params := t.params.map (hydrateParam art ids)
           parameterTypes := t.paramTypeIds.map (compactType ids)
           parameterNames
           fieldNames
           fieldTypes := t.fieldTypeIds.map (compactType ids)
           canonicalFieldOrder := t.canonicalFieldOrder
           methodDeclarations := t.methodDeclIndices
           traitTypes := t.traitTypeIds.map (compactType ids) }

/-! ### Expressions -/

/-- The two words of a canonical id, when there are two. -/
def canonicalIdOf : List UInt64 → TypeCanonicalId
  | hi :: lo :: _ => ⟨hi, lo⟩
  | _ => ⟨0, 0⟩

def hydrateLiteral (ids : List TypeId) (e : CompactExpr) : StateT σ Option HirExpr := do
  let type := compactType ids e.typeId
  if e.flags = 1 then return .literal (.f e.fltVal) type
  else if e.flags = 2 then return .literal (.b (e.intVal != 0)) type
  else if e.flags = 3 then return .literal (.strVal (← string art e.nameId)) type
  else return .literal (.i e.intVal) type

/-- The call of a call or a state tail call. -/
def hydrateCall (ids : List TypeId) (e : CompactExpr) (musttail : Bool) : HirCall :=
  { callee := e.refA
    args := e.args
    argumentTypes := e.argTypes.map (compactType ids)
    fnType := compactType ids e.refE
    variadicSliceParam := e.variadicSliceParam
    isVariadicSlice := e.isVariadicSlice
    autoCollectTail := e.autoCollectTail
    usesTailCC := e.flags &&& 2 != 0
    musttail }

/-- A cast that involves a union is one of its own. -/
def hydrateCast (ids : List TypeId) (e : CompactExpr) : StateT σ Option HirExpr := fun types =>
  let target := compactType ids e.refB
  let source := compactType ids e.refE
  if source = kInvalidType ∨ target = kInvalidType then some (.cast e.refA source target, types)
  else if table.isUnion types source || table.isUnion types target then
    some (.unionCast e.refA source target e.refC e.safety, types)
  else some (.cast e.refA source target, types)

/-- One round of the loop over the expressions. A kind without a case leaves the default literal. -/
def hydrateExpr (ids : List TypeId) (e : CompactExpr) : StateT σ Option HirExpr :=
  let type := compactType ids e.typeId
  match CompactExprKind.ofU8 e.kind with
  | none => pure (.literal (.i 0) kInvalidType)
  | some .literal => hydrateLiteral art ids e
  | some .binary => pure (.binary e.refA e.refB e.op type (compactType ids e.refE))
  | some .unary => pure (.unary e.op e.refA type)
  | some .let => do return .let (← string art e.nameId) type e.refA
  | some .var => do return .var (← string art e.nameId) e.refC
  | some .globalConstLoad => do return .globalConstLoad (← string art e.nameId) type
  | some .externalGlobalAddr => do return .externalGlobalAddr (← string art e.nameId) type
  | some .call => pure (.call (hydrateCall ids e (e.flags &&& 1 != 0)))
  | some .stateTailCall => pure (.stateTailCall (hydrateCall ids e true))
  | some .ret => pure (.ret e.refA)
  | some .branch => pure (.branch e.refA e.refC e.refD)
  | some .jump => pure (.jump e.refC)
  | some .phi => pure (.phi e.args)
  | some .assign => pure (.assign e.refA e.refB)
  | some .index =>
    pure (.index e.refA e.refB type (compactType ids e.refE) (e.flags &&& 1 != 0) e.safety)
  | some .field => pure (.field e.refA e.refC type (compactType ids e.refE) e.safety)
  | some .structLiteral => pure (.structLiteral e.args type)
  | some .arrayLiteral => pure (.arrayLiteral e.args type)
  | some .enumValue => pure (.enumValue e.intVal type)
  | some .slotAlloca => pure (.slotAlloca e.refA type e.alignmentBytes)
  | some .slotStore => pure (.slotStore e.refA e.refB)
  | some .slotLoad => pure (.slotLoad e.refA type)
  | some .slotAddr => pure (.slotAddr e.refA type)
  | some .makeNone => pure (.makeNone type)
  | some .makeSome => pure (.makeSome e.refA type)
  | some .makeSlice =>
    pure (.makeSlice e.refA e.refB e.refC type (compactType ids e.refE) (compactType ids e.refF)
      (e.flags &&& 1 != 0) (e.flags &&& 4 != 0) e.safety)
  | some .unionCheck => pure (.unionCheck e.refA (compactType ids e.refB) e.refC)
  | some .cast => hydrateCast table ids e
  | some .layoutIntrinsic =>
    pure (.layoutIntrinsic e.refE.toUInt8 type e.refF e.refA (compactType ids e.refB) e.intVal.toUInt64)
  | some .cleanup => pure (.cleanup e.args)
  | some .makeDyn => do
    return .makeDyn e.refA (compactType ids e.refB) type (← string art e.nameId) (e.flags &&& 1 != 0)
  | some .dynCall => do
    return .dynCall e.refA (← string art e.nameId) e.refC (e.flags &&& 1 != 0) type
      (compactType ids e.refE) e.args (e.argTypes.map (compactType ids))
  | some .makeOpaque =>
    pure (.makeOpaque e.refA (compactType ids e.refB) type e.refC (canonicalIdOf e.ints))
  | some .opaqueCast =>
    pure (.opaqueCast e.refA (compactType ids e.refB) (compactType ids e.refC) (compactType ids e.refD)
      type e.refE (canonicalIdOf e.ints) e.safety (e.flags &&& 2 != 0))
  | some .opaqueCheck => pure (.opaqueCheck e.refA type e.refE (canonicalIdOf e.ints))
  | some .runtimePanic => pure (.runtimePanic e.intVal.toUInt64.toUInt32)
  | some .canonicalType => pure (.canonicalType (canonicalIdOf e.ints) type)
  | some .pipe => pure (.pipe e.refB (compactType ids e.refE) e.refA type false)
  | some .pipeDo => pure (.pipe e.refB (compactType ids e.refE) e.refA type true)
  | some .pipeCurrent => pure (.pipeCurrent e.refA type)

/-! ### Functions -/

def hydrateForeignAdapter (f : CompactFunction) : StateT σ Option (Option Text) :=
  if f.foreignAdapterNameId = noId then pure none
  else do return some (← string art f.foreignAdapterNameId)

def hydrateFn (ids : List TypeId) (f : CompactFunction) : StateT σ Option HirFunction := do
  let foreignAdapterName ← hydrateForeignAdapter art f
  let params := f.paramTypeIds.zip f.paramNameIds
  let paramNames ← params.mapM fun p => string art p.2
  let returnType := compactType ids f.returnTypeId
  return { name := Zirl.functionName art f
           params := params.map fun p => compactType ids p.1
           paramNames
           paramSlots := params.zipIdx.map fun p => f.paramSlotIds[p.2]?.getD kInvalidHirSlot
           returnType
           isState := f.isState
           usesTailCC := f.usesTailcc
           machineReturnType :=
             if f.machineReturnTypeId != 0 then compactType ids f.machineReturnTypeId else returnType
           machineId := f.machineId
           isVariadic := f.isVariadic
           variadicSliceParam := if f.variadicSliceParam = noId then none else some f.variadicSliceParam
           isForeignC := f.isForeignC
           hasBody := !f.isExtern
           foreignAdapterName
           blocks := f.blocks.map fun b => ⟨b.insts, b.terminator⟩ }

/-- `attrs().fn(fi).discardable` of the functions that are discardable. -/
def markDiscardable (attrs : HirAttrs) (f : CompactFunction × ℕ) : Option HirAttrs :=
  if f.1.discardable then attrs.fn f.2 fun a => { a with discardable := true } else some attrs

def resolveFunction (nameId signatureTypeId : UInt32) : HirFunctionId :=
  match resolveFunctionReference art nameId signatureTypeId with
  | some index => UInt32.ofNat index
  | none => kInvalidHirFunction

/-- The expression with the function its call goes to. -/
def resolved (fn : HirFunctionId) : HirExpr → HirExpr
  | .call c => .call { c with resolvedFn := fn }
  | .stateTailCall c => .stateTailCall { c with resolvedFn := fn }
  | e => e

/-- One round of the loop that resolves calls. -/
def resolveCall (exprs : List HirExpr) (e : CompactExpr × ℕ) : Option (List HirExpr) :=
  let fn := resolveFunction art e.1.resolvedFunctionNameId e.1.resolvedFunctionSignatureTypeId
  if fn = kInvalidHirFunction then some exprs
  else do
    let id := (UInt32.ofNat e.2).toNat
    let expr ← exprs[id]?
    return exprs.set id (resolved fn expr)

/-- The slots of one vtable; the second list is indexed as far as the first one goes. -/
def hydrateSlots (v : CompactVTable) : Option (List HirFunctionId) :=
  v.slotFunctionNameIds.zipIdx.mapM fun slot => do
    let signature ← v.slotFunctionSignatureTypeIds[slot.2]?
    return resolveFunction art slot.1 signature

def hydrateVTable (vtables : List HirVTable) (v : CompactVTable) : Option (List HirVTable) :=
  match art.strings[v.nameId.toNat]? with
  | none => some vtables
  | some name => do return vtables ++ [⟨name, ← hydrateSlots art v⟩]

def hydrateGlobal (ids : List TypeId) (g : CompactGlobalConst) : Option HirGlobalConst :=
  art.strings[g.nameId.toNat]?.map fun name => ⟨name, compactType ids g.typeId, g.initExpr, g.alignmentBytes⟩

end

/-! ### Attributes -/

def hydrateSlotAttrs (attrs : HirAttrs) (s : HirSlotAttrsRecord) : Option HirAttrs :=
  attrs.slot s.slot fun _ => ⟨s.ownership, s.consumed, s.nonNull, s.volatileSlot⟩

def hydrateCallAttrs (attrs : HirAttrs) (c : HirCallAttrsRecord) : Option HirAttrs :=
  attrs.call c.exprId fun a => ⟨a.args ++ c.argEscapes.map (·.toUInt8), c.returnsArg⟩

def hydrateFnAttrs (attrs : HirAttrs) (f : HirFnAttrsRecord) : Option HirAttrs :=
  attrs.fn f.fnIndex.toNat fun _ =>
    ⟨f.returnConsumed, f.nonNull, f.noAlias, f.readOnly, f.noCapture, f.discardable⟩

def hydrateSafetyProof (attrs : HirAttrs) (p : HirSafetyProofRecord) : Option HirAttrs :=
  attrs.safetyProof p.exprId fun _ => ⟨p.kind, p.operandA, p.operandB, p.operandC, true⟩

def hydrateAttrs (art : Cache.Artifact) (attrs : HirAttrs) : Option HirAttrs := do
  let attrs ← art.attrsSlots.foldlM hydrateSlotAttrs attrs
  let attrs ← art.attrsCalls.foldlM hydrateCallAttrs attrs
  let attrs ← art.attrsFns.foldlM hydrateFnAttrs attrs
  art.attrsSafetyProofs.foldlM hydrateSafetyProof attrs

/-! ### The whole artifact -/

section
variable {σ : Type} (table : TypeTable σ)

def hydrateModule (art : Cache.Artifact) (hir : HirModule) : StateT σ Option HirModule := do
  let ids ← hydrateTypes table art
  let templates ← art.templates.mapM (hydrateTemplate art ids)
  let exprs ← art.exprs.mapM (hydrateExpr table art ids)
  let fns ← art.functions.mapM (hydrateFn art ids)
  let attrs ← ofOption (art.functions.zipIdx.foldlM markDiscardable hir.attrs)
  let exprs ← ofOption (art.exprs.zipIdx.foldlM (resolveCall art) (hir.exprs ++ exprs))
  let vtables ← ofOption (art.vtables.foldlM (hydrateVTable art) hir.vtables)
  let attrs ← ofOption (hydrateAttrs art attrs)
  return { exprs
           fns := hir.fns ++ fns
           declarations := hir.declarations ++ art.decls.map (hydrateDecl art ids)
           templates := hir.templates ++ templates
           globals := hir.globals ++ art.globals.filterMap (hydrateGlobal art ids)
           vtables
           attrs }

/-- `CompilationSession::hydrateFromArtifact`. -/
def CompilationSession.hydrateFromArtifact (session : CompilationSession σ) (art : Cache.Artifact) :
    Option (CompilationSession σ) := do
  let symbols ← declareSymbols art session.symbols
  let (hir, types) ← hydrateModule table art session.hir session.types
  return { types, symbols, hir }

end

end Zith.Session
