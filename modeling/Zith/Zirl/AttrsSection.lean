import Zith.Cache.Artifact

/-! The sections behind the code: `encodeAttrs` and `decodeAttrs`, `encodeInstantiations` and
    `decodeInstantiations`, `encodeDebug` and `decodeDebug`. A safety proof refers to an expression of the
    code section, and no two proofs to the same one. -/

namespace Zith.Zirl
open Zith.Lib Zith.Lib.Reader
open Cache (HirSlotAttrsRecord HirCallAttrsRecord HirFnAttrsRecord HirSafetyProofRecord
  CompactSafetyProofKind InstantiationRecord TestFailureLocation)

/-! ### Attributes -/

def writeSlotAttrs (s : HirSlotAttrsRecord) : List UInt8 :=
  writeU32 s.slot ++ (writeU8 s.ownership ++ (writeU8 s.consumed ++ (writeFlag s.nonNull ++ writeFlag s.volatileSlot)))

def writeCallAttrs (c : HirCallAttrsRecord) : List UInt8 :=
  writeU32 c.exprId ++ (writeU32 c.returnsArg ++ writeIds c.argEscapes)

def writeFnAttrs (f : HirFnAttrsRecord) : List UInt8 :=
  writeU32 f.fnIndex ++ (writeU8 f.returnConsumed ++ (writeFlag f.nonNull ++ (writeFlag f.noAlias ++
    (writeFlag f.readOnly ++ (writeFlag f.noCapture ++ (writeFlag f.discardable ++ (writeU8 0 ++
    writeU8 0)))))))

def writeSafetyProof (p : HirSafetyProofRecord) : List UInt8 :=
  writeU32 p.exprId ++ (writeU8 p.kind.toU8 ++ (writeU32 p.operandA ++ (writeU32 p.operandB ++ writeU32 p.operandC)))

def encodeAttrs (a : Cache.Artifact) : List UInt8 :=
  writeCounted writeSlotAttrs a.attrsSlots ++ (writeCounted writeCallAttrs a.attrsCalls ++
    (writeCounted writeFnAttrs a.attrsFns ++ writeCounted writeSafetyProof a.attrsSafetyProofs))

def readSlotAttrs : Reader HirSlotAttrsRecord := do
  let slot ← readU32
  let a ← readU8
  let b ← readU8
  let c ← readU8
  let d ← readU8
  return { slot, ownership := a, consumed := b, nonNull := c != 0, volatileSlot := d != 0 }

def readCallAttrs : Reader HirCallAttrsRecord := do
  let exprId ← readU32
  let returnsArg ← readU32
  let argEscapes ← readIds
  return { exprId, returnsArg, argEscapes }

def readFnAttrs : Reader HirFnAttrsRecord := do
  let fnIndex ← readU32
  let a ← readU8
  let b ← readU8
  let c ← readU8
  let d ← readU8
  let e ← readU8
  let f ← readU8
  let _g ← readU8
  let _h ← readU8
  return { fnIndex, returnConsumed := a, nonNull := b != 0, noAlias := c != 0, readOnly := d != 0,
           noCapture := e != 0, discardable := f != 0 }

def readSafetyProof : Reader HirSafetyProofRecord := do
  let exprId ← readU32
  let kind ← readEnum CompactSafetyProofKind.ofU8
  let operandA ← readU32
  let operandB ← readU32
  let operandC ← readU32
  return { exprId, kind, operandA, operandB, operandC }

/-- What the loop over the proofs checks with `seen`: expressions of the artifact, each at most once. -/
def proofsRefer (exprCount : ℕ) (proofs : List HirSafetyProofRecord) : Bool :=
  (proofs.all fun p => p.exprId.toNat < exprCount) && (proofs.map (·.exprId)).Nodup

def decodeAttrs (out : Cache.Artifact) : Reader Cache.Artifact := do
  let attrsSlots ← readCounted 4 readSlotAttrs
  let attrsCalls ← readCounted 4 readCallAttrs
  let attrsFns ← readCounted 4 readFnAttrs
  let attrsSafetyProofs ← readCounted 4 readSafetyProof
  Reader.check (proofsRefer out.exprs.length attrsSafetyProofs)
  return { out with attrsSlots, attrsCalls, attrsFns, attrsSafetyProofs }

/-! ### Instantiations -/

def writeInstantiation (i : InstantiationRecord) : List UInt8 :=
  writeBlob i.canonicalModule ++ (writeBlob i.mangled ++ (writeBlob i.templateName ++
    writeCounted writeBlob i.argTypes))

def encodeInstantiations (a : Cache.Artifact) : List UInt8 := writeCounted writeInstantiation a.instantiations

def readInstantiation : Reader InstantiationRecord := do
  let canonicalModule ← readBlob
  let mangled ← readBlob
  let templateName ← readBlob
  let argTypes ← readCounted 4 readBlob
  return { canonicalModule, mangled, templateName, argTypes }

def decodeInstantiations (out : Cache.Artifact) : Reader Cache.Artifact := do
  let instantiations ← readCounted 4 readInstantiation
  return { out with instantiations }

/-! ### Debug -/

def writeLocation (l : TestFailureLocation) : List UInt8 :=
  writeBlob l.testName ++ (writeU32 l.failureId ++ (writeBlob l.path ++ (writeU32 l.line ++ writeU32 l.column)))

def encodeDebug (a : Cache.Artifact) : List UInt8 := writeCounted writeLocation a.testFailureLocations

def readLocation : Reader TestFailureLocation := do
  let testName ← readBlob
  let failureId ← readU32
  let path ← readBlob
  let line ← readU32
  let column ← readU32
  return { testName, failureId, path, line, column }

def decodeDebug (out : Cache.Artifact) : Reader Cache.Artifact := do
  let testFailureLocations ← readCounted 4 readLocation
  return { out with testFailureLocations }

/-! ### The round trips -/

theorem inverts_slotAttrs (s : HirSlotAttrsRecord) : Inverts writeSlotAttrs readSlotAttrs s := by
  intro rest
  simp only [readSlotAttrs, writeSlotAttrs, writeFlag, List.append_assoc, (inverts_u32 _).bind,
    (inverts_u8 _).bind, flag_ne_zero, pure_apply]

theorem inverts_callAttrs {c : HirCallAttrsRecord} (h : FitsU32 c.argEscapes) :
    Inverts writeCallAttrs readCallAttrs c := by
  intro rest
  simp only [readCallAttrs, writeCallAttrs, List.append_assoc, (inverts_u32 _).bind, (inverts_ids h).bind, pure_apply]

theorem inverts_fnAttrs (f : HirFnAttrsRecord) : Inverts writeFnAttrs readFnAttrs f := by
  intro rest
  simp only [readFnAttrs, writeFnAttrs, writeFlag, List.append_assoc, (inverts_u32 _).bind,
    (inverts_u8 _).bind, flag_ne_zero, pure_apply]

theorem inverts_proofKind (k : CompactSafetyProofKind) :
    Inverts (fun k => writeU8 k.toU8) (readEnum CompactSafetyProofKind.ofU8) k :=
  inverts_enum (by cases k <;> rfl)

theorem inverts_safetyProof (p : HirSafetyProofRecord) : Inverts writeSafetyProof readSafetyProof p := by
  intro rest
  simp only [readSafetyProof, writeSafetyProof, List.append_assoc, (inverts_u32 _).bind,
    (inverts_proofKind _).bind, pure_apply]

/-- All counts of the attributes are below `2 ^ 32`. -/
structure AttrsFit (a : Cache.Artifact) : Prop where
  attrsSlots : FitsU32 a.attrsSlots
  attrsCalls : FitsU32 a.attrsCalls ∧ ∀ c ∈ a.attrsCalls, FitsU32 c.argEscapes
  attrsFns : FitsU32 a.attrsFns
  attrsSafetyProofs : FitsU32 a.attrsSafetyProofs

/-- The safety proofs refer to expressions of the artifact, and no two to the same one. -/
structure ProofsRefer (a : Cache.Artifact) : Prop where
  existing : ∀ p ∈ a.attrsSafetyProofs, p.exprId.toNat < a.exprs.length
  distinct : (a.attrsSafetyProofs.map (·.exprId)).Nodup

theorem proofsRefer_iff (a : Cache.Artifact) :
    proofsRefer a.exprs.length a.attrsSafetyProofs = true ↔ ProofsRefer a := by
  rw [proofsRefer, Bool.and_eq_true, List.all_eq_true, decide_eq_true_eq]
  simp only [decide_eq_true_eq]
  exact ⟨fun h => ⟨h.1, h.2⟩, fun h => ⟨h.existing, h.distinct⟩⟩

variable {a : Cache.Artifact}

/-- `decodeAttrs` undoes `encodeAttrs`, into an artifact with as many expressions. -/
theorem decodeAttrs_encodeAttrs (hfits : AttrsFit a) (hrefer : ProofsRefer a) {out : Cache.Artifact}
    (hexprs : out.exprs.length = a.exprs.length) : decodeAttrs out (encodeAttrs a) = some ({ out with
      attrsSlots := a.attrsSlots, attrsCalls := a.attrsCalls, attrsFns := a.attrsFns,
      attrsSafetyProofs := a.attrsSafetyProofs }, []) := by
  have hslots : Inverts (writeCounted writeSlotAttrs) (readCounted 4 readSlotAttrs) a.attrsSlots :=
    inverts_counted (by norm_num) hfits.attrsSlots (fun s _ => by simp [writeSlotAttrs]) fun s _ => inverts_slotAttrs s
  have hcalls : Inverts (writeCounted writeCallAttrs) (readCounted 4 readCallAttrs) a.attrsCalls :=
    inverts_counted (by norm_num) hfits.attrsCalls.1 (fun c _ => by simp [writeCallAttrs])
      fun c hc => inverts_callAttrs (hfits.attrsCalls.2 c hc)
  have hfns : Inverts (writeCounted writeFnAttrs) (readCounted 4 readFnAttrs) a.attrsFns :=
    inverts_counted (by norm_num) hfits.attrsFns (fun f _ => by simp [writeFnAttrs]) fun f _ => inverts_fnAttrs f
  have hproofs : Inverts (writeCounted writeSafetyProof) (readCounted 4 readSafetyProof)
      a.attrsSafetyProofs :=
    inverts_counted (by norm_num) hfits.attrsSafetyProofs (fun p _ => by simp [writeSafetyProof])
      fun p _ => inverts_safetyProof p
  have hcheck : proofsRefer out.exprs.length a.attrsSafetyProofs = true := by
    rw [hexprs]
    exact (proofsRefer_iff a).mpr hrefer
  rw [← List.append_nil (encodeAttrs a)]
  simp only [decodeAttrs, encodeAttrs, List.append_assoc, hslots.bind, hcalls.bind, hfns.bind,
    hproofs.bind, check_bind hcheck, pure_apply]

/-- All counts and lengths of the instantiations are below `2 ^ 32`. -/
def InstantiationsFit (a : Cache.Artifact) : Prop :=
  FitsU32 a.instantiations ∧ ∀ i ∈ a.instantiations, FitsU32 i.canonicalModule ∧ FitsU32 i.mangled ∧
    FitsU32 i.templateName ∧ FitsU32 i.argTypes ∧ ∀ s ∈ i.argTypes, FitsU32 s

theorem inverts_instantiation {i : InstantiationRecord} (h : FitsU32 i.canonicalModule ∧
    FitsU32 i.mangled ∧ FitsU32 i.templateName ∧ FitsU32 i.argTypes ∧ ∀ s ∈ i.argTypes, FitsU32 s) :
    Inverts writeInstantiation readInstantiation i := by
  obtain ⟨hmodule, hmangled, htemplate, hargs, hblobs⟩ := h
  have hlist : Inverts (writeCounted writeBlob) (readCounted 4 readBlob) i.argTypes :=
    inverts_counted (by norm_num) hargs (fun s _ => le_writeBlob_length s) fun s hs => inverts_blob (hblobs s hs)
  intro rest
  simp only [readInstantiation, writeInstantiation, List.append_assoc, (inverts_blob hmodule).bind,
    (inverts_blob hmangled).bind, (inverts_blob htemplate).bind, hlist.bind, pure_apply]

/-- `decodeInstantiations` undoes `encodeInstantiations`. -/
theorem decodeInstantiations_encodeInstantiations (h : InstantiationsFit a) (out : Cache.Artifact) :
    decodeInstantiations out (encodeInstantiations a) = some ({ out with instantiations := a.instantiations }, []) := by
  have hlist : Inverts (writeCounted writeInstantiation) (readCounted 4 readInstantiation)
      a.instantiations :=
    inverts_counted (by norm_num) h.1 (fun i _ => by simp [writeInstantiation, writeBlob])
      fun i hi => inverts_instantiation (h.2 i hi)
  rw [encodeInstantiations, ← List.append_nil (writeCounted _ _)]
  simp only [decodeInstantiations, hlist.bind, pure_apply]

/-- All counts and lengths of the test locations are below `2 ^ 32`. -/
def LocationsFit (a : Cache.Artifact) : Prop :=
  FitsU32 a.testFailureLocations ∧ ∀ l ∈ a.testFailureLocations, FitsU32 l.testName ∧ FitsU32 l.path

theorem inverts_location {l : TestFailureLocation} (h : FitsU32 l.testName ∧ FitsU32 l.path) :
    Inverts writeLocation readLocation l := by
  intro rest
  simp only [readLocation, writeLocation, List.append_assoc, (inverts_blob h.1).bind,
    (inverts_blob h.2).bind, (inverts_u32 _).bind, pure_apply]

/-- `decodeDebug` undoes `encodeDebug`. -/
theorem decodeDebug_encodeDebug (h : LocationsFit a) (out : Cache.Artifact) : decodeDebug out (encodeDebug a) =
      some ({ out with testFailureLocations := a.testFailureLocations }, []) := by
  have hlist : Inverts (writeCounted writeLocation) (readCounted 4 readLocation)
      a.testFailureLocations :=
    inverts_counted (by norm_num) h.1 (fun l _ => by simp [writeLocation, writeBlob])
      fun l hl => inverts_location (h.2 l hl)
  rw [encodeDebug, ← List.append_nil (writeCounted _ _)]
  simp only [decodeDebug, hlist.bind, pure_apply]

/-! ### What is decoded fits -/

theorem ensures_callAttrs : Ensures readCallAttrs fun c => FitsU32 c.argEscapes :=
  .skip fun _ => .skip fun _ => .bind (ensures_length _ _) fun _ hescapes => .pure hescapes

theorem ensures_instantiation : Ensures readInstantiation fun i => FitsU32 i.canonicalModule ∧
    FitsU32 i.mangled ∧ FitsU32 i.templateName ∧ FitsU32 i.argTypes ∧ ∀ s ∈ i.argTypes, FitsU32 s :=
  .bind ensures_blob fun _ hmodule => .bind ensures_blob fun _ hmangled =>
    .bind ensures_blob fun _ htemplate => .bind (ensures_counted ensures_blob) fun _ hargs =>
      .pure ⟨hmodule, hmangled, htemplate, hargs⟩

theorem ensures_location : Ensures readLocation fun l => FitsU32 l.testName ∧ FitsU32 l.path :=
  .bind ensures_blob fun _ hname => .skip fun _ => .bind ensures_blob fun _ hpath =>
    .skip fun _ => .skip fun _ => .pure ⟨hname, hpath⟩

theorem ensures_decodeAttrs (out : Cache.Artifact) : Ensures (decodeAttrs out) AttrsFit :=
  .bind (ensures_length _ _) fun _ hslots => .bind (ensures_counted ensures_callAttrs) fun _ hcalls =>
    .bind (ensures_length _ _) fun _ hfns => .bind (ensures_length _ _) fun _ hproofs =>
      .skip fun _ => .pure ⟨hslots, hcalls, hfns, hproofs⟩

theorem ensures_decodeInstantiations (out : Cache.Artifact) : Ensures (decodeInstantiations out) InstantiationsFit :=
  .bind (ensures_counted ensures_instantiation) fun _ h => .pure h

theorem ensures_decodeDebug (out : Cache.Artifact) : Ensures (decodeDebug out) LocationsFit :=
  .bind (ensures_counted ensures_location) fun _ h => .pure h

end Zith.Zirl
