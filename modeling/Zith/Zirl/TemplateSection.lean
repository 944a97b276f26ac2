import Zith.Cache.Artifact

/-! The template section of an artifact: `encodeTemplates` and `decodeTemplates`. The section carries the
    ids of names, not their texts, and no method parameters. -/

namespace Zith.Zirl
open Zith.Lib Zith.Lib.Reader
open Cache (GenericParamRecord TemplateBlueprint)

def writeGenericParam (p : GenericParamRecord) : List UInt8 := writeU32 p.nameId ++ writeIds p.boundTypeIds

/-- The four flags in one byte, from bit 0 on. -/
def signatureFlags (isVariadic isState isForeignC usesTailcc : Bool) : UInt8 :=
  (if isVariadic then 1 else 0) ||| (if isState then 2 else 0) ||| (if isForeignC then 4 else 0) |||
    (if usesTailcc then 8 else 0)

def writeTemplate (t : TemplateBlueprint) : List UInt8 :=
  writeU8 t.kind.toU8 ++ (writeFlag t.isExtern ++
    (writeU8 (signatureFlags t.isVariadic t.isState t.isForeignC t.usesTailcc) ++ (writeU8 0 ++
    (writeU32 t.nameId ++ (writeU32 t.declarationIndex ++ (writeU32 t.functionIndex ++
    (writeU32 t.returnTypeId ++ (writeCounted writeGenericParam t.params ++ (writeIds t.paramTypeIds ++
    (writeIds t.paramNameIds ++ (writeIds t.fieldNameIds ++ (writeIds t.fieldTypeIds ++
    (writeIds t.canonicalFieldOrder ++ (writeIds t.methodDeclIndices ++ writeIds t.traitTypeIds))))))))))))))

def encodeTemplates (a : Cache.Artifact) : List UInt8 := writeCounted writeTemplate a.templates

def readGenericParam : Reader GenericParamRecord := do
  let nameId ← readU32
  let boundTypeIds ← readIds
  return { nameId, boundTypeIds }

def readTemplate : Reader TemplateBlueprint := do
  let kind ← readU8
  let ext ← readU8
  let a ← readU8
  let reserved ← readU8
  let kind ← Reader.lift (CompactSymKind.ofU8 kind)
  let isExtern ← Reader.lift (flagOfU8 ext)
  Reader.check (a &&& 0xF0 == 0 && reserved == 0)
  let nameId ← readU32
  let declarationIndex ← readU32
  let functionIndex ← readU32
  let returnTypeId ← readU32
  let params ← readCounted 4 readGenericParam
  let paramTypeIds ← readIds
  let paramNameIds ← readIds
  let fieldNameIds ← readIds
  let fieldTypeIds ← readIds
  let canonicalFieldOrder ← readIds
  let methodDeclIndices ← readIds
  let traitTypeIds ← readIds
  return { kind, isExtern, isVariadic := a &&& 1 != 0, isState := a &&& 2 != 0,
           isForeignC := a &&& 4 != 0, usesTailcc := a &&& 8 != 0, nameId, declarationIndex,
           functionIndex, returnTypeId, params, paramTypeIds, paramNameIds, fieldNameIds,
           fieldTypeIds, canonicalFieldOrder, methodDeclIndices, traitTypeIds }

def decodeTemplates (out : Cache.Artifact) : Reader Cache.Artifact := do
  let templates ← readCounted 4 readTemplate
  return { out with templates }

/-! ### The round trip -/

/-- What the section carries of a generic parameter. -/
def carriedParam (p : GenericParamRecord) : GenericParamRecord := { p with name := [] }

/-- What the section carries of a template: neither the texts of its names nor the method parameters. -/
def carried (t : TemplateBlueprint) : TemplateBlueprint :=
  { t with name := [], methodParams := [], params := t.params.map carriedParam }

theorem signatureFlags_high (isVariadic isState isForeignC usesTailcc : Bool) :
    signatureFlags isVariadic isState isForeignC usesTailcc &&& 0xF0 = 0 := by
  cases isVariadic <;> cases isState <;> cases isForeignC <;> cases usesTailcc <;> rfl

theorem signatureFlags_bits (isVariadic isState isForeignC usesTailcc : Bool) :
    let a := signatureFlags isVariadic isState isForeignC usesTailcc
    (a &&& 1 != 0) = isVariadic ∧ (a &&& 2 != 0) = isState ∧ (a &&& 4 != 0) = isForeignC ∧
      (a &&& 8 != 0) = usesTailcc := by
  cases isVariadic <;> cases isState <;> cases isForeignC <;> cases usesTailcc <;> exact ⟨rfl, rfl, rfl, rfl⟩

theorem inverts_param {p : GenericParamRecord} (h : FitsU32 p.boundTypeIds) :
    Inverts writeGenericParam readGenericParam (carriedParam p) := by
  intro rest
  simp only [readGenericParam, writeGenericParam, List.append_assoc, (inverts_u32 _).bind, carriedParam,
    (inverts_ids h).bind, pure_apply]

/-- All counts of a template are below `2 ^ 32`. -/
structure TemplateFits (t : TemplateBlueprint) : Prop where
  params : FitsU32 t.params ∧ ∀ p ∈ t.params, FitsU32 p.boundTypeIds
  paramTypeIds : FitsU32 t.paramTypeIds
  paramNameIds : FitsU32 t.paramNameIds
  fieldNameIds : FitsU32 t.fieldNameIds
  fieldTypeIds : FitsU32 t.fieldTypeIds
  canonicalFieldOrder : FitsU32 t.canonicalFieldOrder
  methodDeclIndices : FitsU32 t.methodDeclIndices
  traitTypeIds : FitsU32 t.traitTypeIds

theorem inverts_template {t : TemplateBlueprint} (h : TemplateFits t) :
    Inverts writeTemplate readTemplate (carried t) := by
  have hparams : Inverts (writeCounted writeGenericParam) (readCounted 4 readGenericParam)
      (t.params.map carriedParam) := by
    refine inverts_counted (by norm_num) (by rw [List.length_map]; exact h.params.1)
      (fun p _ => by simp [writeGenericParam]) fun p hp => ?_
    obtain ⟨q, hq, rfl⟩ := List.mem_map.mp hp
    exact inverts_param (h.params.2 q hq)
  obtain ⟨hvariadic, hstate, hforeign, htailcc⟩ :=
    signatureFlags_bits t.isVariadic t.isState t.isForeignC t.usesTailcc
  have hhigh : (signatureFlags t.isVariadic t.isState t.isForeignC t.usesTailcc &&& 0xF0 == 0 &&
      (0 : UInt8) == 0) = true := by
    rw [signatureFlags_high]
    rfl
  intro rest
  simp only [writeTemplate, carried]
  simp only [readTemplate, writeFlag, List.append_assoc, (inverts_u8 _).bind,
    (inverts_u32 _).bind, hparams.bind, (inverts_ids h.paramTypeIds).bind,
    (inverts_ids h.paramNameIds).bind, (inverts_ids h.fieldNameIds).bind,
    (inverts_ids h.fieldTypeIds).bind, (inverts_ids h.canonicalFieldOrder).bind,
    (inverts_ids h.methodDeclIndices).bind, (inverts_ids h.traitTypeIds).bind, ofU8_toU8_kind,
    flagOfU8_flag, lift_some_bind, check_bind hhigh, pure_apply, hvariadic, hstate, hforeign, htailcc]

/-- What is not carried leaves no bytes. -/
theorem encodeTemplates_carried (a : Cache.Artifact) :
    encodeTemplates a = writeCounted writeTemplate (a.templates.map carried) := by
  have hparams : ∀ l : List GenericParamRecord,
      writeCounted writeGenericParam (l.map carriedParam) = writeCounted writeGenericParam l := by
    intro l
    rw [writeCounted, writeCounted, List.length_map, List.flatMap_map]
    rfl
  have htemplate : ∀ t, writeTemplate (carried t) = writeTemplate t := by
    intro t
    simp only [writeTemplate, carried, hparams]
  rw [encodeTemplates, writeCounted, writeCounted, List.length_map, List.flatMap_map]
  simp only [htemplate]

/-- All counts of the section are below `2 ^ 32`. -/
def TemplatesFit (a : Cache.Artifact) : Prop := FitsU32 a.templates ∧ ∀ t ∈ a.templates, TemplateFits t

/-- `decodeTemplates` undoes `encodeTemplates`, up to what is not carried. -/
theorem decodeTemplates_encodeTemplates {a : Cache.Artifact} (h : TemplatesFit a) (out : Cache.Artifact) :
    decodeTemplates out (encodeTemplates a) = some ({ out with templates := a.templates.map carried }, []) := by
  have htemplates : Inverts (writeCounted writeTemplate) (readCounted 4 readTemplate)
      (a.templates.map carried) := by
    refine inverts_counted (by norm_num) (by rw [List.length_map]; exact h.1)
      (fun t _ => by simp [writeTemplate]; omega) fun t ht => ?_
    obtain ⟨u, hu, rfl⟩ := List.mem_map.mp ht
    exact inverts_template (h.2 u hu)
  rw [encodeTemplates_carried, ← List.append_nil (writeCounted _ _)]
  simp only [decodeTemplates, htemplates.bind, pure_apply]

/-! ### What is decoded fits -/

theorem ensures_param : Ensures readGenericParam fun p => FitsU32 p.boundTypeIds :=
  .skip fun _ => .bind (ensures_length _ _) fun _ hbounds => .pure hbounds

theorem ensures_template : Ensures readTemplate TemplateFits := by
  unfold readTemplate
  iterate 11 refine .skip fun _ => ?_
  exact .bind (ensures_counted ensures_param) fun _ hparams =>
    .bind (ensures_length _ _) fun _ htypes => .bind (ensures_length _ _) fun _ hnames =>
    .bind (ensures_length _ _) fun _ hfields => .bind (ensures_length _ _) fun _ hfieldTypes =>
    .bind (ensures_length _ _) fun _ horder => .bind (ensures_length _ _) fun _ hmethods =>
    .bind (ensures_length _ _) fun _ htraits =>
      .pure ⟨hparams, htypes, hnames, hfields, hfieldTypes, horder, hmethods, htraits⟩

theorem ensures_decodeTemplates (out : Cache.Artifact) : Ensures (decodeTemplates out) TemplatesFit :=
  .bind (ensures_counted ensures_template) fun _ h => .pure h

/-- A template fits when what the section carries of it does. -/
theorem fits_of_carried {t : TemplateBlueprint} (h : TemplateFits (carried t)) : TemplateFits t :=
  { h with
    params := ⟨by have := h.params.1; rwa [carried, FitsU32, List.length_map] at this,
      fun p hp => h.params.2 (carriedParam p) (List.mem_map_of_mem hp)⟩ }

end Zith.Zirl
