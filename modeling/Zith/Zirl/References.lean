import Zith.Cache.Artifact

/-! `cache::resolveFunctionReference` and the `validateArtifactReferences` of the reader: which ids of a
    decoded artifact have to refer to something. A vector of flags that is searched before it is set is a
    list without repetition here, a sorted vector that is searched the list of its elements. -/

namespace Zith.Zirl

def CompactTypeKind.fn : CompactTypeKind := ⟨10⟩
def CompactTypeKind.pack : CompactTypeKind := ⟨20⟩
def CompactTypeKind.trait : CompactTypeKind := ⟨23⟩

open Cache (CompactExpr CompactExprKind CompactFunction CompactGlobalConst CompactVTable
  HirSlotAttrsRecord HirCallAttrsRecord HirFnAttrsRecord TemplateBlueprint GenericParamRecord noId)

/-! ### Functions by name and signature -/

/-- The name of a function, looked up when it is not there. -/
def functionName (a : Cache.Artifact) (f : CompactFunction) : List UInt8 :=
  if f.name.isEmpty then a.strings[f.nameId.toNat]?.getD f.name else f.name

def functionFlags (f : CompactFunction) : UInt8 :=
  (if f.isVariadic then 1 else 0) ||| (if f.isState then 2 else 0) ||| (if f.isForeignC then 4 else 0) |||
    (if f.usesTailcc then 8 else 0)

/-- The only function of that name and signature. -/
def resolveFunctionReference (a : Cache.Artifact) (nameId signatureTypeId : UInt32) : Option ℕ := do
  let name ← a.strings[nameId.toNat]?
  let signature ← a.types[signatureTypeId.toNat]?
  if signature.kind = .fn ∧ signature.flags &&& 0xF0 = 0 then
    let found := a.functions.zipIdx.filter fun (f, _) =>
      decide (functionName a f = name ∧ f.signatureTypeId = signatureTypeId ∧
        f.returnTypeId = signature.ref0 ∧ f.paramTypeIds = signature.args ∧
        functionFlags f = signature.flags)
    match found with
    | [(_, index)] => some index
    | _ => none
  else none

/-! ### The checks -/

section
variable (a : Cache.Artifact)

def ValidStringId (id : UInt32) : Prop := id.toNat < a.strings.length

def ValidTypeId (id : UInt32) : Prop := id.toNat < a.types.length

def ValidAlignment (alignment : UInt32) : Prop := alignment = 0 ∨ alignment &&& (alignment - 1) = 0

/-- Tried before the instance of a finite type, which would go through every `UInt32`. -/
instance decidableForallMem {α : Type} (l : List α) (p : α → Prop) [DecidablePred p] : Decidable (∀ x ∈ l, p x) :=
  List.decidableBAll p l

instance (id : UInt32) : Decidable (ValidStringId a id) := inferInstanceAs (Decidable (_ < _))
instance (id : UInt32) : Decidable (ValidTypeId a id) := inferInstanceAs (Decidable (_ < _))
instance (alignment : UInt32) : Decidable (ValidAlignment alignment) := inferInstanceAs (Decidable (_ ∨ _))

def ValidType (t : CompactType) : Prop :=
  t.kind.val ≤ CompactTypeKind.trait.val ∧ (t.kind = .trait → ValidStringId a t.ref0) ∧
    (t.kind = .pack → (t.argNames = [] ∨ t.argNames.length = t.args.length) ∧ ∀ id ∈ t.argNames, ValidStringId a id)

def ValidStructDef (d : CompactStructDef) : Prop :=
  ValidStringId a d.nameId ∧ ValidAlignment d.explicitAlignmentBytes ∧
    d.fieldNameIds.length = d.fieldTypeIds.length ∧
    (d.foreignFieldOffsets = [] ∨ d.foreignFieldOffsets.length = d.fieldTypeIds.length) ∧
    (∀ id ∈ d.fieldNameIds, ValidStringId a id) ∧ ∀ id ∈ d.typeArgIds, ValidTypeId a id

def ValidEnumDef (d : CompactEnumDef) : Prop := ValidStringId a d.nameId ∧ ∀ v ∈ d.variants, ValidStringId a v.nameId

def NeedsName (e : CompactExpr) : Prop :=
  match CompactExprKind.ofU8 e.kind with
  | some .literal => e.flags = 3
  | some .let | some .var | some .globalConstLoad | some .externalGlobalAddr | some .makeDyn
  | some .dynCall => True
  | _ => False

instance (e : CompactExpr) : Decidable (NeedsName e) := by
  unfold NeedsName
  split <;> infer_instance

def ValidExpr (e : CompactExpr) : Prop := ValidAlignment e.alignmentBytes ∧ (NeedsName e → ValidStringId a e.nameId)

def ValidFunction (f : CompactFunction) (index : ℕ) : Prop :=
  ValidStringId a f.nameId ∧
    (f.foreignAdapterNameId ≠ noId → ValidStringId a f.foreignAdapterNameId) ∧
    f.paramTypeIds.length = f.paramNameIds.length ∧
    (f.paramSlotIds = [] ∨ f.paramSlotIds.length = f.paramTypeIds.length) ∧
    (∀ id ∈ f.paramNameIds, ValidStringId a id) ∧
    resolveFunctionReference a f.nameId f.signatureTypeId = some index

/-! #### Slots -/

/-- The slots of the parameters; `kInvalidHirSlot` is none. -/
def paramSlots : List UInt32 := (a.functions.flatMap (·.paramSlotIds)).filter (· ≠ noId)

/-- The slot an expression refers to. -/
def exprSlot (e : CompactExpr) : Option UInt32 :=
  match CompactExprKind.ofU8 e.kind with
  | some .slotAlloca | some .slotStore | some .slotLoad | some .slotAddr | some .pipeCurrent => some e.refA
  | some .pipe | some .pipeDo => some e.refB
  | _ => none

def slotCapacity : ℕ := (paramSlots a).length + a.exprs.countP fun e => CompactExprKind.ofU8 e.kind = some .slotAlloca

/-- `valid_slots`. -/
def validSlots : List UInt32 := paramSlots a ++ a.exprs.filterMap exprSlot

def ValidSlots : Prop := ∀ slot ∈ validSlots a, slot ≠ noId ∧ slot.toNat < slotCapacity a

/-! #### Calls and attributes -/

def IsDirectCall (e : CompactExpr) : Prop :=
  CompactExprKind.ofU8 e.kind = some .call ∨ CompactExprKind.ofU8 e.kind = some .stateTailCall

def ValidReference (nameId signatureTypeId : UInt32) : Prop :=
  (nameId = noId ∧ signatureTypeId = noId) ∨ (resolveFunctionReference a nameId signatureTypeId).isSome

def ValidCallee (e : CompactExpr) : Prop :=
  (e.resolvedFunctionNameId = noId ∧ e.resolvedFunctionSignatureTypeId = noId) ∨
    IsDirectCall e ∧ (resolveFunctionReference a e.resolvedFunctionNameId e.resolvedFunctionSignatureTypeId).isSome

def ValidSlotAttrs (slots : List HirSlotAttrsRecord) : Prop :=
  (∀ s ∈ slots, s.slot ∈ validSlots a) ∧ (slots.map (·.slot)).Nodup

def ValidCallAttrs (calls : List HirCallAttrsRecord) : Prop :=
  (∀ c ∈ calls, ∃ e ∈ a.exprs[c.exprId.toNat]?,
    IsDirectCall e ∨ CompactExprKind.ofU8 e.kind = some .dynCall) ∧ (calls.map (·.exprId)).Nodup

def ValidFnAttrs (fns : List HirFnAttrsRecord) : Prop :=
  (∀ f ∈ fns, f.fnIndex.toNat < a.functions.length) ∧ (fns.map (·.fnIndex)).Nodup

def ValidVTable (v : CompactVTable) : Prop :=
  ValidStringId a v.nameId ∧ v.slotFunctionNameIds.length = v.slotFunctionSignatureTypeIds.length ∧
    ∀ slot ∈ v.slotFunctionNameIds.zip v.slotFunctionSignatureTypeIds, ValidReference a slot.1 slot.2

def ValidGlobal (g : CompactGlobalConst) : Prop := ValidStringId a g.nameId ∧ ValidAlignment g.alignmentBytes

/-! #### Declarations and templates -/

def ValidDecl (d : DeclRecord) (index : ℕ) : Prop :=
  ValidStringId a d.nameId ∧ (d.typeId ≠ noId → ValidTypeId a d.typeId) ∧
    (d.templateIndex ≠ noId → d.templateIndex.toNat < a.templates.length) ∧
    (d.bodyFnIndex ≠ noId → d.bodyFnIndex.toNat < a.functions.length) ∧
    (d.kind = .struct ∨ d.kind = .component → d.fieldNameIds.length = d.fieldTypeIds.length) ∧
    (d.templateIndex ≠ noId → ∀ t ∈ a.templates[d.templateIndex.toNat]?, t.declarationIndex.toNat = index) ∧
    (∀ id ∈ d.fieldNameIds, ValidStringId a id) ∧ (∀ id ∈ d.fieldTypeIds, ValidTypeId a id) ∧
    ∀ method ∈ d.methodDeclIndices, method.toNat < a.decls.length

def ValidParam (p : GenericParamRecord) : Prop := ValidStringId a p.nameId ∧ ∀ id ∈ p.boundTypeIds, ValidTypeId a id

def SameSignature (t : TemplateBlueprint) (f : CompactFunction) : Prop :=
  t.returnTypeId = f.returnTypeId ∧ t.paramTypeIds = f.paramTypeIds ∧ t.paramNameIds = f.paramNameIds ∧
    t.isVariadic = f.isVariadic ∧ t.isState = f.isState ∧ t.isForeignC = f.isForeignC ∧
    t.usesTailcc = f.usesTailcc

def ValidFieldOrder (t : TemplateBlueprint) : Prop :=
  (∀ field ∈ t.canonicalFieldOrder, field.toNat < t.fieldNameIds.length) ∧ t.canonicalFieldOrder.Nodup ∧
    (t.canonicalFieldOrder = [] ∨ t.canonicalFieldOrder.length = t.fieldNameIds.length)

def ValidTemplate (t : TemplateBlueprint) (index : ℕ) : Prop :=
  ValidStringId a t.nameId ∧ t.declarationIndex.toNat < a.decls.length ∧
    (t.functionIndex ≠ noId → t.functionIndex.toNat < a.functions.length) ∧
    (t.returnTypeId ≠ noId → ValidTypeId a t.returnTypeId) ∧
    t.paramTypeIds.length = t.paramNameIds.length ∧ t.fieldNameIds.length = t.fieldTypeIds.length ∧
    (∀ d ∈ a.decls[t.declarationIndex.toNat]?, d.templateIndex.toNat = index) ∧
    (∀ p ∈ t.params, ValidParam a p) ∧ (∀ id ∈ t.paramTypeIds, ValidTypeId a id) ∧
    (∀ id ∈ t.paramNameIds, ValidStringId a id) ∧ (∀ id ∈ t.fieldNameIds, ValidStringId a id) ∧
    (∀ id ∈ t.fieldTypeIds, ValidTypeId a id) ∧ ValidFieldOrder t ∧
    (∀ method ∈ t.methodDeclIndices, method.toNat < a.decls.length) ∧
    (∀ id ∈ t.traitTypeIds, ∃ type ∈ a.types[id.toNat]?, type.kind = .trait) ∧
    (t.functionIndex ≠ noId → ∀ f ∈ a.functions[t.functionIndex.toNat]?, SameSignature t f)

/-- `validateArtifactReferences`. -/
structure ValidReferences : Prop where
  types : ∀ t ∈ a.types, ValidType a t
  structDefs : ∀ d ∈ a.structDefs, ValidStructDef a d
  enumDefs : ∀ d ∈ a.enumDefs, ValidEnumDef a d
  unionDefs : ∀ d ∈ a.unionDefs, ValidStringId a d.nameId
  exprs : ∀ e ∈ a.exprs, ValidExpr a e
  functions : ∀ f ∈ a.functions.zipIdx, ValidFunction a f.1 f.2
  slots : ValidSlots a
  callees : ∀ e ∈ a.exprs, ValidCallee a e
  attrsSlots : ValidSlotAttrs a a.attrsSlots
  attrsCalls : ValidCallAttrs a a.attrsCalls
  attrsFns : ValidFnAttrs a a.attrsFns
  vtables : ∀ v ∈ a.vtables, ValidVTable a v
  globals : ∀ g ∈ a.globals, ValidGlobal a g
  decls : ∀ d ∈ a.decls.zipIdx, ValidDecl a d.1 d.2
  templates : ∀ t ∈ a.templates.zipIdx, ValidTemplate a t.1 t.2

end

/-! ### The checks can be run -/

section
variable (a : Cache.Artifact)

instance (t : CompactType) : Decidable (ValidType a t) := by unfold ValidType; infer_instance
instance (d : CompactStructDef) : Decidable (ValidStructDef a d) := by unfold ValidStructDef; infer_instance
instance (d : CompactEnumDef) : Decidable (ValidEnumDef a d) := by unfold ValidEnumDef; infer_instance
instance (e : CompactExpr) : Decidable (ValidExpr a e) := by unfold ValidExpr; infer_instance
instance (f : CompactFunction) (index : ℕ) : Decidable (ValidFunction a f index) := by
  unfold ValidFunction; infer_instance
instance : Decidable (ValidSlots a) := by unfold ValidSlots; infer_instance
instance (e : CompactExpr) : Decidable (IsDirectCall e) := by unfold IsDirectCall; infer_instance
instance (nameId signatureTypeId : UInt32) : Decidable (ValidReference a nameId signatureTypeId) := by
  unfold ValidReference; infer_instance
instance (e : CompactExpr) : Decidable (ValidCallee a e) := by unfold ValidCallee; infer_instance
instance (slots : List HirSlotAttrsRecord) : Decidable (ValidSlotAttrs a slots) := by
  unfold ValidSlotAttrs; infer_instance
instance (calls : List HirCallAttrsRecord) : Decidable (ValidCallAttrs a calls) := by
  unfold ValidCallAttrs; infer_instance
instance (fns : List HirFnAttrsRecord) : Decidable (ValidFnAttrs a fns) := by
  unfold ValidFnAttrs; infer_instance
instance (v : CompactVTable) : Decidable (ValidVTable a v) := by unfold ValidVTable; infer_instance
instance (g : CompactGlobalConst) : Decidable (ValidGlobal a g) := by unfold ValidGlobal; infer_instance
instance (d : DeclRecord) (index : ℕ) : Decidable (ValidDecl a d index) := by
  unfold ValidDecl; infer_instance
instance (p : GenericParamRecord) : Decidable (ValidParam a p) := by unfold ValidParam; infer_instance
instance (t : TemplateBlueprint) (f : CompactFunction) : Decidable (SameSignature t f) := by
  unfold SameSignature; infer_instance
instance (t : TemplateBlueprint) : Decidable (ValidFieldOrder t) := by
  unfold ValidFieldOrder; infer_instance
instance (t : TemplateBlueprint) (index : ℕ) : Decidable (ValidTemplate a t index) := by
  unfold ValidTemplate; infer_instance

instance : Decidable (ValidReferences a) :=
  decidable_of_iff
    ((∀ t ∈ a.types, ValidType a t) ∧ (∀ d ∈ a.structDefs, ValidStructDef a d) ∧
      (∀ d ∈ a.enumDefs, ValidEnumDef a d) ∧ (∀ d ∈ a.unionDefs, ValidStringId a d.nameId) ∧
      (∀ e ∈ a.exprs, ValidExpr a e) ∧ (∀ f ∈ a.functions.zipIdx, ValidFunction a f.1 f.2) ∧
      ValidSlots a ∧ (∀ e ∈ a.exprs, ValidCallee a e) ∧ ValidSlotAttrs a a.attrsSlots ∧
      ValidCallAttrs a a.attrsCalls ∧ ValidFnAttrs a a.attrsFns ∧ (∀ v ∈ a.vtables, ValidVTable a v) ∧
      (∀ g ∈ a.globals, ValidGlobal a g) ∧ (∀ d ∈ a.decls.zipIdx, ValidDecl a d.1 d.2) ∧
      ∀ t ∈ a.templates.zipIdx, ValidTemplate a t.1 t.2)
    ⟨fun ⟨h₁, h₂, h₃, h₄, h₅, h₆, h₇, h₈, h₉, h₁₀, h₁₁, h₁₂, h₁₃, h₁₄, h₁₅⟩ =>
      ⟨h₁, h₂, h₃, h₄, h₅, h₆, h₇, h₈, h₉, h₁₀, h₁₁, h₁₂, h₁₃, h₁₄, h₁₅⟩,
     fun h => ⟨h.types, h.structDefs, h.enumDefs, h.unionDefs, h.exprs, h.functions, h.slots, h.callees,
      h.attrsSlots, h.attrsCalls, h.attrsFns, h.vtables, h.globals, h.decls, h.templates⟩⟩

def validateArtifactReferences : Bool := decide (ValidReferences a)

end

end Zith.Zirl
