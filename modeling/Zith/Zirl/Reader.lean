import Zith.Zirl.AttrsSection
import Zith.Zirl.CodeSection
import Zith.Zirl.Container
import Zith.Zirl.References
import Zith.Zirl.TemplateSection

/-! `Reader::read`. The front is decoded first; then the sections are put in the order of their offsets,
    their places and the checksum are checked, and only then is a payload decoded. `std::sort` promises no
    order for equal offsets, so the sort is a parameter.

        front ──▶ flags ──▶ places ──▶ checksum ──▶ required sections ──▶ optional sections ──▶ references -/

namespace Zith.Zirl
open Zith.Lib Zith.Lib.Reader
open Cache (FrontendIdentity OptionalSection)

/-- The artifact as far as the front tells. -/
def artifactOf (f : Front) : Cache.Artifact :=
  { hirSchemaVersion := f.header.hirSchemaVersion
    requiredFeatures := f.header.requiredFeatures
    optionalFeatures := f.header.optionalFeatures
    sourceFingerprint := ⟨f.header.sourceFpPrimary, f.header.sourceFpSecondary⟩
    semanticProfile := ⟨f.profileName, f.header.semanticProfileVersion⟩
    publicAbiHi := f.header.publicAbiHi
    publicAbiLo := f.header.publicAbiLo
    canonicalPath := f.canonicalPath
    moduleName := f.moduleName
    moduleIdentity := ⟨f.canonicalPath⟩
    deps := f.deps }

def kRequiredSections : List SectionId := [.metadata, .decls, .templates, .code, .attrs]

def kOptionalKnown : List SectionId := [.instantiations, .frontendProvenance, .vir]

/-- The required flag belongs to the sections the reader requires, and to them only. -/
def flagsAccepted (e : SectionEntry) : Bool :=
  let required := e.flags &&& kSectionFlagRequired != 0
  let knownRequired := kRequiredSections.any (·.toU16 == e.id)
  let knownOptional := kOptionalKnown.any (·.toU16 == e.id)
  !(!knownRequired && !knownOptional && required) && !(knownRequired && !required) && !(knownOptional && required)

/-- Where the sections end that start at `previousEnd` or later, each behind the one before. -/
def placedEnd : ℕ → List SectionView → Option ℕ
  | previousEnd, [] => some previousEnd
  | previousEnd, view :: views =>
    if view.entry.offset.toNat < previousEnd then none
    else placedEnd (view.entry.offset.toNat + view.entry.size.toNat) views

def findSection (views : List SectionView) (id : SectionId) : Option SectionView :=
  views.find? fun view => view.entry.id == id.toU16

/-- A payload decoded to its last byte. -/
def decodeWhole {α : Type} (decode : Reader α) (payload : List UInt8) : Option α := do
  let (value, rest) ← decode payload
  if rest.isEmpty then some value else none

def decodeRequired (views : List SectionView) (id : SectionId) (schemaVersion : UInt16)
    (decode : Cache.Artifact → Reader Cache.Artifact) (a : Cache.Artifact) : Option Cache.Artifact := do
  let view ← findSection views id
  if view.entry.schemaVersion ≠ schemaVersion then none
  else decodeWhole (decode a) view.payload

/-- `decodeTypes` and `decodeDecls`, into the whole artifact. -/
def decodeMetadata (a : Cache.Artifact) : Reader Cache.Artifact := do
  return { a with toArtifact := ← decodeTypes a.toArtifact }

def decodeDeclarations (a : Cache.Artifact) : Reader Cache.Artifact := do
  return { a with decls := ← decodeDecls }

def decodeAllRequired (views : List SectionView) (a : Cache.Artifact) : Option Cache.Artifact := do
  let a ← decodeRequired views .metadata kMetadataSectionSchemaVersion decodeMetadata a
  let a ← decodeRequired views .decls kDeclsSectionSchemaVersion decodeDeclarations a
  let a ← decodeRequired views .templates kTemplatesSectionSchemaVersion decodeTemplates a
  let a ← decodeRequired views .code kCodeSectionSchemaVersion decodeCode a
  decodeRequired views .attrs kAttrsSectionSchemaVersion decodeAttrs a

def readFrontendIdentity (a : Cache.Artifact) : Reader Cache.Artifact := do
  let dialect ← readBlob
  let implementation ← readBlob
  let version ← readBlob
  return { a with frontendIdentity := ⟨dialect, implementation, version⟩ }

/-- One round of the loop over the sections that may be missing. Another schema version is skipped. -/
def decodeOptional (a : Cache.Artifact) (view : SectionView) : Option Cache.Artifact :=
  let known (schemaVersion : UInt16) (decode : Cache.Artifact → Reader Cache.Artifact) :=
    if view.entry.schemaVersion ≠ schemaVersion then some a else decodeWhole (decode a) view.payload
  if view.entry.id = SectionId.instantiations.toU16 then known kSectionSchemaVersion decodeInstantiations
  else if view.entry.id = SectionId.frontendProvenance.toU16 then
    known kSectionSchemaVersion readFrontendIdentity
  else if view.entry.id = SectionId.debug.toU16 then known kDebugSectionSchemaVersion decodeDebug
  else if view.entry.id > SectionId.frontendProvenance.toU16 then
    some { a with optionalSections := a.optionalSections ++ [⟨view.entry.id, view.entry.schemaVersion, view.payload⟩] }
  else some a

def countsAgree (h : FileHeader) (a : Cache.Artifact) : Bool :=
  a.decls.length == h.declCount.toNat && a.templates.length == h.templateCount.toNat &&
    a.functions.length == h.fnCount.toNat

/-- The sections in the order of their offsets, once flags, places and checksum are as they should be. -/
def framedSections (sort : KeySort offsetOf) (bytes : List UInt8) (f : Front) :
    Option (List SectionView) :=
  let views := sort.run (f.entries.map (viewOf bytes))
  if f.entries.all flagsAccepted ∧ placedEnd f.header.headerSize.toNat views = some bytes.length ∧
      checksumDependenciesAndSections f views = f.header.checksum then some views
  else none

/-- `Reader::read`. -/
def Reader.read (sort : KeySort offsetOf) (bytes : List UInt8) : Option Cache.Artifact := do
  if bytes.length < kFixedHeaderSize then none
  let (f, _) ← readFront bytes.length bytes
  let views ← framedSections sort bytes f
  let a ← decodeAllRequired views (artifactOf f)
  if !countsAgree f.header a then none
  let a ← views.foldlM decodeOptional a
  if validateArtifactReferences a then some a else none

/-! ### What an accepted container has passed -/

theorem decodeWhole_some {α : Type} {decode : Reader α} {payload : List UInt8} {value : α}
    (h : decodeWhole decode payload = some value) : ∃ rest, decode payload = some (value, rest) := by
  obtain ⟨⟨value', rest⟩, hdecode, h⟩ := Option.bind_eq_some_iff.mp h
  obtain ⟨-, hvalue⟩ := Option.ite_none_right_eq_some.mp h
  exact ⟨rest, hdecode.trans (by rw [Option.some.inj hvalue])⟩

variable {views : List SectionView} {sort : KeySort offsetOf}

theorem decodeRequired_some {id : SectionId} {version : UInt16}
    {decode : Cache.Artifact → Reader Cache.Artifact} {out out' : Cache.Artifact}
    (h : decodeRequired views id version decode out = some out') :
    ∃ payload rest, decode out payload = some (out', rest) := by
  obtain ⟨view, -, h⟩ := Option.bind_eq_some_iff.mp h
  obtain ⟨-, h⟩ := Option.ite_none_left_eq_some.mp h
  exact ⟨view.payload, decodeWhole_some h⟩

/-- The section of an artifact's own that a view stands for. -/
def optionalOf (v : SectionView) : Option OptionalSection :=
  if SectionId.debug.toU16 < v.entry.id then some ⟨v.entry.id, v.entry.schemaVersion, v.payload⟩ else none

theorem optionalOf_known {v : SectionView} {id : SectionId} (h : v.entry.id = id.toU16)
    (hle : id.toU16 ≤ SectionId.debug.toU16) : optionalOf v = none := by
  rw [optionalOf, h, if_neg (UInt16.not_lt.mpr hle)]

/-- A section that may be missing fills one of three fields, or is one more of the artifact's own. -/
theorem decodeOptional_cases {out out' : Cache.Artifact} {v : SectionView} (h : decodeOptional out v = some out') :
    (optionalOf v = none ∧ ∃ instantiations identity locations, out' =
      { out with instantiations := instantiations, frontendIdentity := identity,
                 testFailureLocations := locations }) ∨
    ∃ o, optionalOf v = some o ∧ out' = { out with optionalSections := out.optionalSections ++ [o] } := by
  have hknown : ∀ {version : UInt16} {decode : Reader Cache.Artifact},
      (if v.entry.schemaVersion ≠ version then some out else decodeWhole decode v.payload) = some out' →
      Ensures decode (fun b => ∃ instantiations identity locations, b =
        { out with instantiations := instantiations, frontendIdentity := identity,
                   testFailureLocations := locations }) →
      ∃ instantiations identity locations, out' =
        { out with instantiations := instantiations, frontendIdentity := identity,
                   testFailureLocations := locations } := by
    intro version decode h hdecode
    split at h
    · obtain rfl := Option.some.inj h
      exact ⟨out.instantiations, out.frontendIdentity, out.testFailureLocations, rfl⟩
    · obtain ⟨rest, hrest⟩ := decodeWhole_some h
      exact hdecode _ _ _ hrest
  rw [decodeOptional] at h
  split at h
  · next hid =>
    exact .inl ⟨optionalOf_known hid (by decide), hknown h (.skip fun l =>
      .pure ⟨l, out.frontendIdentity, out.testFailureLocations, rfl⟩)⟩
  split at h
  · next hid =>
    exact .inl ⟨optionalOf_known hid (by decide), hknown h (.skip fun d => .skip fun i => .skip fun n =>
      .pure ⟨out.instantiations, ⟨d, i, n⟩, out.testFailureLocations, rfl⟩)⟩
  split at h
  · next hid =>
    exact .inl ⟨optionalOf_known hid (by decide), hknown h (.skip fun l =>
      .pure ⟨out.instantiations, out.frontendIdentity, l, rfl⟩)⟩
  next hdebug =>
  split at h
  · next hlt =>
    have hown : SectionId.debug.toU16 < v.entry.id := by
      have hge : 7 < v.entry.id.toNat := UInt16.lt_iff_toNat_lt.mp hlt
      have hne : v.entry.id.toNat ≠ 8 := fun heq => hdebug (UInt16.toNat_inj.mp heq)
      exact UInt16.lt_iff_toNat_lt.mpr (show 8 < v.entry.id.toNat by omega)
    exact .inr ⟨_, if_pos hown, (Option.some.inj h).symm⟩
  · next hlow =>
    have hown : ¬ SectionId.debug.toU16 < v.entry.id := fun hlt =>
      hlow (UInt16.lt_trans (by decide : SectionId.frontendProvenance.toU16 < SectionId.debug.toU16) hlt)
    obtain rfl := Option.some.inj h
    exact .inl ⟨if_neg hown, out.instantiations, out.frontendIdentity, out.testFailureLocations, rfl⟩

theorem framedSections_eq_some {bytes : List UInt8} {f : Front} (h : framedSections sort bytes f = some views) :
    views = sort.run (f.entries.map (viewOf bytes)) ∧ f.entries.all flagsAccepted = true ∧
      placedEnd f.header.headerSize.toNat views = some bytes.length ∧
      checksumDependenciesAndSections f views = f.header.checksum := by
  rw [framedSections] at h
  split at h
  · next hframed =>
    obtain rfl := Option.some.inj h
    exact ⟨rfl, hframed⟩
  · cases h

theorem Reader.read_eq_some {bytes : List UInt8} {a : Cache.Artifact} (h : Reader.read sort bytes = some a) :
    ∃ f rest views declared, readFront bytes.length bytes = some (f, rest) ∧ framedSections sort bytes f = some views ∧
      decodeAllRequired views (artifactOf f) = some declared ∧ countsAgree f.header declared = true ∧
      views.foldlM decodeOptional declared = some a ∧ validateArtifactReferences a = true := by
  rw [Reader.read] at h
  split at h
  · cases h
  obtain ⟨⟨f, rest⟩, hfront, h⟩ := Option.bind_eq_some_iff.mp h
  obtain ⟨views, hviews, h⟩ := Option.bind_eq_some_iff.mp h
  obtain ⟨declared, hdeclared, h⟩ := Option.bind_eq_some_iff.mp h
  split at h
  · cases h
  next hcounts =>
    obtain ⟨whole, hwhole, h⟩ := Option.bind_eq_some_iff.mp h
    split at h
    · next hvalid =>
      obtain rfl := Option.some.inj h
      exact ⟨f, rest, views, declared, hfront, hviews, hdeclared, by simpa using hcounts, hwhole, hvalid⟩
    · cases h

theorem Reader.read_of_passed {bytes rest : List UInt8} {f : Front} {declared a : Cache.Artifact}
    (hlength : kFixedHeaderSize ≤ bytes.length) (hfront : readFront bytes.length bytes = some (f, rest))
    (hviews : framedSections sort bytes f = some views)
    (hdeclared : decodeAllRequired views (artifactOf f) = some declared)
    (hcounts : countsAgree f.header declared = true)
    (hwhole : views.foldlM decodeOptional declared = some a) (hvalid : validateArtifactReferences a = true) :
    Reader.read sort bytes = some a := by
  rw [Reader.read, if_neg (Nat.not_lt.mpr hlength)]
  refine Option.bind_eq_some_iff.mpr ⟨_, hfront, Option.bind_eq_some_iff.mpr ⟨_, hviews,
    Option.bind_eq_some_iff.mpr ⟨_, hdeclared, ?_⟩⟩⟩
  rw [hcounts]
  exact Option.bind_eq_some_iff.mpr ⟨_, hwhole, if_pos hvalid⟩

end Zith.Zirl
