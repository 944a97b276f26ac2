import Zith.Cache.Artifact

/-! The code section of an artifact: `encodeCode` and `decodeCode`. A list is its count and its elements,
    a vtable the pairs of its two lists; the name of a function is looked up in the strings that the
    metadata section gave. -/

namespace Zith.Zirl
open Zith.Lib Zith.Lib.Reader
open Cache (CompactExpr CompactBasicBlock CompactFunction CompactGlobalConst CompactVTable
  CompactCanonicalMapping CompactSafetyMode)

/-! ### The encoder -/

def writeCompactExpr (e : CompactExpr) : List UInt8 :=
  writeU8 e.kind ++ (writeU8 e.op ++ (writeU8 e.flags ++ (writeU8 e.safety.toU8 ++
    (writeU32 e.typeId ++ (writeU32 e.refA ++ (writeU32 e.refB ++ (writeU32 e.refC ++
    (writeU32 e.refD ++ (writeU32 e.refE ++ (writeU32 e.refF ++ (writeU32 e.nameId ++
    (writeU32 e.resolvedFunctionNameId ++ (writeU32 e.resolvedFunctionSignatureTypeId ++
    (writeU32 e.variadicSliceParam ++ (writeFlag e.isVariadicSlice ++ (writeFlag e.autoCollectTail ++
    (writeU32 e.alignmentBytes ++ (writeI64 e.intVal ++ (writeU64 e.fltVal ++ (writeIds e.args ++
    (writeIds e.argTypes ++ writeCounted writeU64 e.ints)))))))))))))))))))))

def writeBlock (b : CompactBasicBlock) : List UInt8 := writeIds b.insts ++ writeU32 b.terminator

def writeFunction (f : CompactFunction) : List UInt8 :=
  writeU32 f.nameId ++ (writeU32 f.signatureTypeId ++ (writeFlag f.isExtern ++
    (writeFlag f.isForeignC ++ (writeFlag f.isVariadic ++ (writeFlag f.isState ++
    (writeFlag f.usesTailcc ++ (writeFlag f.discardable ++ (writeU32 f.returnTypeId ++
    (writeU32 f.machineReturnTypeId ++ (writeU32 f.machineId ++ (writeU32 f.instanceIndex ++
    (writeU32 f.variadicSliceParam ++ (writeU32 f.foreignAdapterNameId ++ (writeIds f.paramTypeIds ++
    (writeIds f.paramNameIds ++ (writeIds f.paramSlotIds ++ writeCounted writeBlock f.blocks))))))))))))))))

def writeGlobal (g : CompactGlobalConst) : List UInt8 :=
  writeU32 g.nameId ++ (writeU32 g.typeId ++ (writeU32 g.initExpr ++ writeU32 g.alignmentBytes))

def writeSlot (slot : UInt32 × UInt32) : List UInt8 := writeU32 slot.1 ++ writeU32 slot.2

def writeVTable (v : CompactVTable) : List UInt8 :=
  writeU32 v.nameId ++ (writeCount v.slotFunctionNameIds.length ++
    (v.slotFunctionNameIds.zip v.slotFunctionSignatureTypeIds).flatMap writeSlot)

def writeMapping (m : CompactCanonicalMapping) : List UInt8 :=
  writeU64 m.hi ++ (writeU64 m.lo ++ writeU32 m.runtimeId)

/-- Refused when a vtable has more of one id than of the other. -/
def encodeCode (a : Cache.Artifact) : Option (List UInt8) :=
  if a.vtables.any fun v => v.slotFunctionNameIds.length != v.slotFunctionSignatureTypeIds.length then none
  else some (writeCounted writeCompactExpr a.exprs ++ (writeCounted writeFunction a.functions ++
    (writeCounted writeGlobal a.globals ++ (writeCounted writeVTable a.vtables ++
    writeCounted writeMapping a.canonicalMappings))))

/-! ### The decoder -/

def readCompactExpr : Reader CompactExpr := do
  let kind ← readU8
  let op ← readU8
  let flags ← readU8
  let safety ← readEnum CompactSafetyMode.ofU8
  let typeId ← readU32
  let refA ← readU32
  let refB ← readU32
  let refC ← readU32
  let refD ← readU32
  let refE ← readU32
  let refF ← readU32
  let nameId ← readU32
  let resolvedFunctionNameId ← readU32
  let resolvedFunctionSignatureTypeId ← readU32
  let variadicSliceParam ← readU32
  let isVariadicSlice ← readU8
  let autoCollectTail ← readU8
  let isVariadicSlice ← Reader.lift (flagOfU8 isVariadicSlice)
  let autoCollectTail ← Reader.lift (flagOfU8 autoCollectTail)
  let alignmentBytes ← readU32
  let intVal ← readI64
  let fltVal ← readU64
  let args ← readIds
  let argTypes ← readIds
  let ints ← readCounted 4 readU64
  return { kind, op, flags, safety, typeId, refA, refB, refC, refD, refE, refF, nameId,
           resolvedFunctionNameId, resolvedFunctionSignatureTypeId, variadicSliceParam,
           isVariadicSlice, autoCollectTail, alignmentBytes, intVal, fltVal, args, argTypes, ints }

def readBlock : Reader CompactBasicBlock := do
  let insts ← readIds
  let terminator ← readU32
  return { insts, terminator }

/-- The name is the string of the name id, if there is one. -/
def readFunction (strings : List (List UInt8)) : Reader CompactFunction := do
  let nameId ← readU32
  let signatureTypeId ← readU32
  let ext ← readU8
  let foreign ← readU8
  let a ← readU8
  let b ← readU8
  let c ← readU8
  let d ← readU8
  let returnTypeId ← readU32
  let machineReturnTypeId ← readU32
  let machineId ← readU32
  let instanceIndex ← readU32
  let variadicSliceParam ← readU32
  let foreignAdapterNameId ← readU32
  let paramTypeIds ← readIds
  let paramNameIds ← readIds
  let paramSlotIds ← readIds
  let blocks ← readCounted 4 readBlock
  return { name := strings[nameId.toNat]?.getD [], nameId, signatureTypeId, isExtern := ext != 0,
           isForeignC := foreign != 0, isVariadic := a != 0, isState := b != 0, usesTailcc := c != 0,
           discardable := d != 0, returnTypeId, machineReturnTypeId, machineId, instanceIndex,
           variadicSliceParam, foreignAdapterNameId, paramTypeIds, paramNameIds, paramSlotIds, blocks }

def readGlobal : Reader CompactGlobalConst := do
  let nameId ← readU32
  let typeId ← readU32
  let initExpr ← readU32
  let alignmentBytes ← readU32
  return { nameId, typeId, initExpr, alignmentBytes }

def readSlot : Reader (UInt32 × UInt32) := do
  let nameId ← readU32
  let signatureTypeId ← readU32
  return (nameId, signatureTypeId)

def readVTable : Reader CompactVTable := do
  let nameId ← readU32
  let slots ← readCounted 8 readSlot
  return { nameId, slotFunctionNameIds := slots.map Prod.fst,
           slotFunctionSignatureTypeIds := slots.map Prod.snd }

def readMapping : Reader CompactCanonicalMapping := do
  let hi ← readU64
  let lo ← readU64
  let runtimeId ← readU32
  return { hi, lo, runtimeId }

def decodeCode (out : Cache.Artifact) : Reader Cache.Artifact := do
  let exprs ← readCounted 4 readCompactExpr
  let functions ← readCounted 4 (readFunction out.strings)
  let globals ← readCounted 4 readGlobal
  let vtables ← readCounted 4 readVTable
  let canonicalMappings ← readCounted 20 readMapping
  return { out with exprs, functions, globals, vtables, canonicalMappings }

/-! ### The records -/

theorem inverts_safety (m : CompactSafetyMode) :
    Inverts (fun m => writeU8 m.toU8) (readEnum CompactSafetyMode.ofU8) m :=
  inverts_enum (by cases m <;> rfl)

theorem inverts_compactExpr {e : CompactExpr} (h : FitsU32 e.args ∧ FitsU32 e.argTypes ∧ FitsU32 e.ints) :
    Inverts writeCompactExpr readCompactExpr e := by
  obtain ⟨hargs, htypes, hints⟩ := h
  have hwide : Inverts (writeCounted writeU64) (readCounted 4 readU64) e.ints :=
    inverts_counted (by norm_num) hints (fun v _ => by simp) fun v _ => inverts_u64 v
  intro rest
  simp only [readCompactExpr, writeCompactExpr, writeFlag, List.append_assoc, (inverts_u8 _).bind,
    (inverts_u32 _).bind, (inverts_i64 _).bind, (inverts_u64 _).bind, (inverts_ids hargs).bind,
    (inverts_ids htypes).bind, hwide.bind, (inverts_safety _).bind, flagOfU8_flag, lift_some_bind, pure_apply]

theorem inverts_block {b : CompactBasicBlock} (h : FitsU32 b.insts) : Inverts writeBlock readBlock b := by
  intro rest
  simp only [readBlock, writeBlock, List.append_assoc, (inverts_ids h).bind, (inverts_u32 _).bind, pure_apply]

/-- A function whose name is the string of its name id. -/
theorem inverts_function {strings : List (List UInt8)} {f : CompactFunction}
    (hname : strings[f.nameId.toNat]? = some f.name) (htypes : FitsU32 f.paramTypeIds)
    (hnames : FitsU32 f.paramNameIds) (hslots : FitsU32 f.paramSlotIds)
    (hblocks : FitsU32 f.blocks ∧ ∀ b ∈ f.blocks, FitsU32 b.insts) :
    Inverts writeFunction (readFunction strings) f := by
  have hbs : Inverts (writeCounted writeBlock) (readCounted 4 readBlock) f.blocks :=
    inverts_counted (by norm_num) hblocks.1 (fun b _ => by simp [writeBlock, writeIds, writeCounted])
      fun b hb => inverts_block (hblocks.2 b hb)
  intro rest
  simp only [readFunction, writeFunction, writeFlag, List.append_assoc, (inverts_u8 _).bind,
    (inverts_u32 _).bind, (inverts_ids htypes).bind, (inverts_ids hnames).bind,
    (inverts_ids hslots).bind, hbs.bind, flag_ne_zero, hname, Option.getD_some, pure_apply]

theorem inverts_global (g : CompactGlobalConst) : Inverts writeGlobal readGlobal g := by
  intro rest
  simp only [readGlobal, writeGlobal, List.append_assoc, (inverts_u32 _).bind, pure_apply]

theorem inverts_slot (slot : UInt32 × UInt32) : Inverts writeSlot readSlot slot := by
  intro rest
  simp only [readSlot, writeSlot, List.append_assoc, (inverts_u32 _).bind, pure_apply]

/-- A vtable with as many name ids as signatures. -/
theorem inverts_vtable {v : CompactVTable} (h : FitsU32 v.slotFunctionNameIds)
    (hequal : v.slotFunctionNameIds.length = v.slotFunctionSignatureTypeIds.length) :
    Inverts writeVTable readVTable v := by
  have hlength : (v.slotFunctionNameIds.zip v.slotFunctionSignatureTypeIds).length =
      v.slotFunctionNameIds.length := by
    rw [List.length_zip, ← hequal, Nat.min_self]
  have hslots : Inverts (writeCounted writeSlot) (readCounted 8 readSlot)
      (v.slotFunctionNameIds.zip v.slotFunctionSignatureTypeIds) :=
    inverts_counted (by norm_num) (by rwa [hlength]) (fun slot _ => by simp [writeSlot]) fun slot _ => inverts_slot slot
  intro rest
  rw [writeVTable, ← hlength]
  change readVTable ((writeU32 v.nameId ++ writeCounted writeSlot _) ++ rest) = _
  simp only [readVTable, List.append_assoc, (inverts_u32 _).bind, hslots.bind, pure_apply]
  rw [List.map_fst_zip hequal.le, List.map_snd_zip hequal.ge]

theorem inverts_mapping (m : CompactCanonicalMapping) : Inverts writeMapping readMapping m := by
  intro rest
  simp only [readMapping, writeMapping, List.append_assoc, (inverts_u64 _).bind, (inverts_u32 _).bind, pure_apply]

/-! ### The section -/

/-- All counts of the section are below `2 ^ 32`. -/
structure CodeFits (a : Cache.Artifact) : Prop where
  exprs : FitsU32 a.exprs ∧ ∀ e ∈ a.exprs, FitsU32 e.args ∧ FitsU32 e.argTypes ∧ FitsU32 e.ints
  functions : FitsU32 a.functions ∧ ∀ f ∈ a.functions, FitsU32 f.paramTypeIds ∧
    FitsU32 f.paramNameIds ∧ FitsU32 f.paramSlotIds ∧ FitsU32 f.blocks ∧ ∀ b ∈ f.blocks, FitsU32 b.insts
  globals : FitsU32 a.globals
  vtables : FitsU32 a.vtables ∧ ∀ v ∈ a.vtables, FitsU32 v.slotFunctionNameIds
  canonicalMappings : FitsU32 a.canonicalMappings

/-- The slot lists of every vtable are as long as each other. -/
def VTablesPaired (a : Cache.Artifact) : Prop :=
  ∀ v ∈ a.vtables, v.slotFunctionNameIds.length = v.slotFunctionSignatureTypeIds.length

/-- Every function is named by the string of its name id. -/
def FunctionsNamed (a : Cache.Artifact) : Prop := ∀ f ∈ a.functions, a.strings[f.nameId.toNat]? = some f.name

theorem encodeCode_eq {a : Cache.Artifact} (h : VTablesPaired a) :
    encodeCode a = some (writeCounted writeCompactExpr a.exprs ++
      (writeCounted writeFunction a.functions ++ (writeCounted writeGlobal a.globals ++
      (writeCounted writeVTable a.vtables ++ writeCounted writeMapping a.canonicalMappings)))) := by
  rw [encodeCode, if_neg]
  rw [List.any_eq_true]
  rintro ⟨v, hv, hne⟩
  exact bne_iff_ne.mp hne (h v hv)

/-- `decodeCode` undoes `encodeCode`, into an artifact with the same strings. -/
theorem decodeCode_encodeCode {a : Cache.Artifact} (hfits : CodeFits a) (hpaired : VTablesPaired a)
    (hnamed : FunctionsNamed a) {out : Cache.Artifact} (hstrings : out.strings = a.strings) :
    ∃ bytes, encodeCode a = some bytes ∧ decodeCode out bytes = some ({ out with
        exprs := a.exprs, functions := a.functions, globals := a.globals, vtables := a.vtables,
        canonicalMappings := a.canonicalMappings }, []) := by
  have hexprs : Inverts (writeCounted writeCompactExpr) (readCounted 4 readCompactExpr) a.exprs :=
    inverts_counted (by norm_num) hfits.exprs.1 (fun e _ => by simp [writeCompactExpr, writeFlag]; omega)
      fun e he => inverts_compactExpr (hfits.exprs.2 e he)
  have hfunctions : Inverts (writeCounted writeFunction) (readCounted 4 (readFunction out.strings))
      a.functions :=
    inverts_counted (by norm_num) hfits.functions.1 (fun f _ => by simp [writeFunction])
      fun f hf => by
        obtain ⟨htypes, hnames, hslots, hblocks⟩ := hfits.functions.2 f hf
        exact inverts_function (by rw [hstrings]; exact hnamed f hf) htypes hnames hslots hblocks
  have hglobals : Inverts (writeCounted writeGlobal) (readCounted 4 readGlobal) a.globals :=
    inverts_counted (by norm_num) hfits.globals (fun g _ => by simp [writeGlobal]) fun g _ => inverts_global g
  have hvtables : Inverts (writeCounted writeVTable) (readCounted 4 readVTable) a.vtables :=
    inverts_counted (by norm_num) hfits.vtables.1 (fun v _ => by simp [writeVTable])
      fun v hv => inverts_vtable (hfits.vtables.2 v hv) (hpaired v hv)
  have hmappings : Inverts (writeCounted writeMapping) (readCounted 20 readMapping)
      a.canonicalMappings :=
    inverts_counted (by norm_num) hfits.canonicalMappings (fun m _ => by simp [writeMapping])
      fun m _ => inverts_mapping m
  refine ⟨_, encodeCode_eq hpaired, ?_⟩
  rw [← List.append_nil (_ ++ _)]
  simp only [decodeCode, List.append_assoc, hexprs.bind, hfunctions.bind, hglobals.bind, hvtables.bind,
    hmappings.bind, pure_apply]

/-! ### What is decoded fits -/

theorem ensures_compactExpr :
    Ensures readCompactExpr fun e => FitsU32 e.args ∧ FitsU32 e.argTypes ∧ FitsU32 e.ints := by
  unfold readCompactExpr
  iterate 22 refine .skip fun _ => ?_
  exact .bind (ensures_length _ _) fun _ hargs => .bind (ensures_length _ _) fun _ htypes =>
    .bind (ensures_length _ _) fun _ hints => .pure ⟨hargs, htypes, hints⟩

theorem ensures_block : Ensures readBlock fun b => FitsU32 b.insts :=
  .bind (ensures_length _ _) fun _ hinsts => .skip fun _ => .pure hinsts

theorem ensures_function (strings : List (List UInt8)) :
    Ensures (readFunction strings) fun f => FitsU32 f.paramTypeIds ∧ FitsU32 f.paramNameIds ∧
      FitsU32 f.paramSlotIds ∧ FitsU32 f.blocks ∧ ∀ b ∈ f.blocks, FitsU32 b.insts := by
  unfold readFunction
  iterate 14 refine .skip fun _ => ?_
  exact .bind (ensures_length _ _) fun _ htypes => .bind (ensures_length _ _) fun _ hnames =>
    .bind (ensures_length _ _) fun _ hslots => .bind (ensures_counted ensures_block) fun _ hblocks =>
      .pure ⟨htypes, hnames, hslots, hblocks⟩

theorem ensures_vtable : Ensures readVTable fun v => FitsU32 v.slotFunctionNameIds :=
  .skip fun _ => .bind (ensures_length _ _) fun slots hslots => .pure (by
    rw [FitsU32, List.length_map]
    exact hslots)

theorem ensures_decodeCode (out : Cache.Artifact) : Ensures (decodeCode out) CodeFits :=
  .bind (ensures_counted ensures_compactExpr) fun _ hexprs =>
    .bind (ensures_counted (ensures_function _)) fun _ hfunctions =>
      .bind (ensures_length _ _) fun _ hglobals =>
        .bind (ensures_counted ensures_vtable) fun _ hvtables =>
          .bind (ensures_length _ _) fun _ hmappings =>
            .pure ⟨hexprs, hfunctions, hglobals, hvtables, hmappings⟩

end Zith.Zirl
