import Zith.Zirl.AttrsSection
import Zith.Zirl.CodeSection
import Zith.Zirl.Container
import Zith.Zirl.TemplateSection

/-! `Writer::write`. The sections are encoded, sorted by their ids and put one behind the other; no two
    may have one id, so it does not matter what the sort does with equal ids. A return of zero is `none`,
    and so is what no `std::vector` can hold. -/

namespace Zith.Zirl
open Cache (OptionalSection)

structure EncodedSection where
  id : UInt16
  flags : UInt16 := 0
  schemaVersion : UInt16 := kSectionSchemaVersion
  payload : List UInt8
  deriving DecidableEq

/-- `support::exceedsU32`. -/
def exceedsU32 (size : ℕ) : Bool := 0xFFFFFFFF < size

def dependencySize (d : DependencyRecord) : ℕ := 8 + d.canonicalPath.length + d.importKey.length + 8

/-- What `write` asks of the artifact first. -/
def writable (a : Cache.Artifact) : Bool :=
  !a.canonicalPath.isEmpty && a.moduleIdentity.path == a.canonicalPath &&
    !a.semanticProfile.name.isEmpty && a.hirSchemaVersion == Cache.kHirSchemaVersion &&
    a.requiredFeatures &&& Cache.kRequiredHirFeatures == Cache.kRequiredHirFeatures &&
    a.requiredFeatures &&& ~~~Cache.kRequiredHirFeatures == 0 &&
    !exceedsU32 a.deps.length && !exceedsU32 a.canonicalPath.length &&
    !exceedsU32 a.moduleName.length && !exceedsU32 a.semanticProfile.name.length

/-- The sections every artifact has. -/
def knownSections (a : Cache.Artifact) : Option (List EncodedSection) := do
  let code ← encodeCode a
  return [
    { id := SectionId.metadata.toU16, flags := kSectionFlagRequired,
      schemaVersion := kMetadataSectionSchemaVersion, payload := encodeTypes a.toArtifact },
    { id := SectionId.decls.toU16, flags := kSectionFlagRequired,
      schemaVersion := kDeclsSectionSchemaVersion, payload := encodeDecls a.decls },
    { id := SectionId.templates.toU16, flags := kSectionFlagRequired,
      schemaVersion := kTemplatesSectionSchemaVersion, payload := encodeTemplates a },
    { id := SectionId.code.toU16, flags := kSectionFlagRequired,
      schemaVersion := kCodeSectionSchemaVersion, payload := code },
    { id := SectionId.attrs.toU16, flags := kSectionFlagRequired,
      schemaVersion := kAttrsSectionSchemaVersion, payload := encodeAttrs a },
    { id := SectionId.instantiations.toU16, payload := encodeInstantiations a }]

def hasFrontendIdentity (a : Cache.Artifact) : Bool :=
  !a.frontendIdentity.dialect.isEmpty || !a.frontendIdentity.implementation.isEmpty ||
    !a.frontendIdentity.version.isEmpty

def writeFrontendIdentity (i : Cache.FrontendIdentity) : List UInt8 :=
  writeBlob i.dialect ++ (writeBlob i.implementation ++ writeBlob i.version)

/-- The section of the producer, when there is one to name. -/
def provenanceSections (a : Cache.Artifact) : Option (List EncodedSection) :=
  if hasFrontendIdentity a then
    if exceedsU32 a.frontendIdentity.dialect.length || exceedsU32 a.frontendIdentity.implementation.length ||
        exceedsU32 a.frontendIdentity.version.length then none
    else some [{ id := SectionId.frontendProvenance.toU16, payload := writeFrontendIdentity a.frontendIdentity }]
  else some []

/-- The section of the test locations, when there are any. -/
def debugSections (a : Cache.Artifact) : List EncodedSection :=
  if a.testFailureLocations.isEmpty then []
  else [{ id := SectionId.debug.toU16, schemaVersion := kDebugSectionSchemaVersion, payload := encodeDebug a }]

def optionalWritable (o : OptionalSection) : Bool :=
  o.id != 0 && SectionId.frontendProvenance.toU16 < o.id && !exceedsU32 o.payload.length

def encodeOptional (o : OptionalSection) : EncodedSection :=
  { id := o.id, schemaVersion := o.schemaVersion, payload := o.payload }

def encodedSections (a : Cache.Artifact) : Option (List EncodedSection) := do
  let known ← knownSections a
  let provenance ← provenanceSections a
  if !a.optionalSections.all optionalWritable then none
  return known ++ (provenance ++ (debugSections a ++ a.optionalSections.map encodeOptional))

def featureIf (b : Bool) (feature : UInt64) : UInt64 := if b then feature else 0

def writtenFeatures (a : Cache.Artifact) : UInt64 :=
  a.optionalFeatures &&& ~~~Cache.kOptionalFeatureDerivedVir |||
    Cache.kOptionalFeatureInstantiationSummary |||
    featureIf (hasFrontendIdentity a) Cache.kOptionalFeatureFrontendProvenance |||
    featureIf (!a.testFailureLocations.isEmpty) Cache.kOptionalFeatureTestDebug |||
    featureIf (a.optionalSections.any (·.id == SectionId.vir.toU16)) Cache.kOptionalFeatureDerivedVir

/-- The sections in the order of their ids. -/
def sortById (sections : List EncodedSection) : List EncodedSection := sections.insertionSort fun s t => s.id ≤ t.id

/-- The entries of sections that start at `offset`. -/
def placeSections : ℕ → List EncodedSection → List SectionEntry
  | _, [] => []
  | offset, s :: sections =>
    { id := s.id, flags := s.flags, schemaVersion := s.schemaVersion, offset := UInt64.ofNat offset,
      size := UInt64.ofNat s.payload.length } :: placeSections (offset + s.payload.length) sections

def headerSizeOf (a : Cache.Artifact) (sectionCount : ℕ) : ℕ :=
  kFixedHeaderSize + a.canonicalPath.length + a.moduleName.length + a.semanticProfile.name.length +
    (a.deps.map dependencySize).sum + sectionCount * kSectionEntrySize

/-- The front of the container of some sorted sections. -/
def frontOf (a : Cache.Artifact) (sections : List EncodedSection) : Front :=
  let headerSize := headerSizeOf a sections.length
  { header := {
      hirSchemaVersion := a.hirSchemaVersion
      sectionCount := UInt16.ofNat sections.length
      headerSize := UInt32.ofNat headerSize
      checksum := checksumOf (checksumParts a.canonicalPath a.moduleName a.semanticProfile.name a.deps
        (sections.map (·.payload)))
      requiredFeatures := a.requiredFeatures
      optionalFeatures := writtenFeatures a
      sourceFpPrimary := a.sourceFingerprint.primary
      sourceFpSecondary := a.sourceFingerprint.secondary
      semanticProfileVersion := a.semanticProfile.version
      publicAbiHi := a.publicAbiHi
      publicAbiLo := a.publicAbiLo
      depCount := UInt32.ofNat a.deps.length
      declCount := UInt32.ofNat a.decls.length
      templateCount := UInt32.ofNat a.templates.length
      fnCount := UInt32.ofNat a.functions.length
      canonicalPathLen := UInt32.ofNat a.canonicalPath.length
      moduleNameLen := UInt32.ofNat a.moduleName.length
      semanticProfileNameLen := UInt32.ofNat a.semanticProfile.name.length }
    canonicalPath := a.canonicalPath
    moduleName := a.moduleName
    profileName := a.semanticProfile.name
    deps := a.deps
    entries := placeSections headerSize sections }

/-- `std::vector<uint8_t>::max_size`. -/
def maxSize : ℕ := 2 ^ 63 - 1

/-- `Writer::write`: the checksum and the bytes. -/
def Writer.write (a : Cache.Artifact) : Option (UInt32 × List UInt8) := do
  if !writable a then none
  let sections ← encodedSections a
  if !decide (sections.map (·.id)).Nodup then none
  let sections := sortById sections
  if a.deps.any fun d => exceedsU32 d.canonicalPath.length || exceedsU32 d.importKey.length then none
  if exceedsU32 (headerSizeOf a sections.length) || 0xFFFF < sections.length then none
  let front := frontOf a sections
  let bytes := writeFront front ++ sections.flatMap (·.payload)
  if maxSize < bytes.length then none
  return (front.header.checksum, bytes)

/-- An artifact with one dependency, a producer and two sections of its own. -/
def smallArtifact : Cache.Artifact :=
  { canonicalPath := [0x6d], moduleIdentity := ⟨[0x6d]⟩, semanticProfile := ⟨[0x70], 1⟩,
    moduleName := [0x6d], deps := [⟨[0x61], [0x62], 1, 2⟩], frontendIdentity := ⟨[1], [2], [3]⟩,
    optionalSections := [⟨12, 1, []⟩, ⟨10, 1, [5]⟩] }

def smallContainer : List UInt8 := ((Writer.write smallArtifact).map (·.2)).getD []

end Zith.Zirl
