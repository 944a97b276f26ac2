import Zith.Lib.Checksum
import Zith.Lib.KeySort
import Zith.Cache.Artifact

/-! The front of a ZIRL container: the fixed header, the identity strings, the dependency records and the
    section table, with the checksum over all that follows the header and is not a table.

        header 96 │ path │ module │ profile │ dependencies │ table │ payloads
                  └────────────── header_size ─────────────┘ -/

namespace Zith.Zirl
open Zith.Lib Zith.Lib.Reader

def kMagic : UInt32 := 0x5A49524C
def kContainerVersion : UInt32 := 22
def kEndianLittle : UInt8 := 1
def kSectionSchemaVersion : UInt16 := 1
def kMetadataSectionSchemaVersion : UInt16 := 4
def kDeclsSectionSchemaVersion : UInt16 := 2
def kTemplatesSectionSchemaVersion : UInt16 := 2
def kCodeSectionSchemaVersion : UInt16 := 3
def kAttrsSectionSchemaVersion : UInt16 := 4
def kDebugSectionSchemaVersion : UInt16 := 1
def kSectionFlagRequired : UInt16 := 1
def kFixedHeaderSize : ℕ := 96
def kSectionEntrySize : ℕ := 24

inductive SectionId where
  | header | metadata | decls | templates | code | attrs | instantiations | frontendProvenance | debug
  | vir
  deriving DecidableEq, Repr

def SectionId.toU16 (id : SectionId) : UInt16 := UInt16.ofNat id.ctorIdx

structure SectionEntry where
  id : UInt16
  flags : UInt16 := 0
  schemaVersion : UInt16 := kSectionSchemaVersion
  reserved : UInt16 := 0
  offset : UInt64 := 0
  size : UInt64 := 0
  deriving DecidableEq

structure FileHeader where
  magic : UInt32 := kMagic
  containerVersion : UInt32 := kContainerVersion
  hirSchemaVersion : UInt32
  endianness : UInt8 := kEndianLittle
  reserved : UInt8 := 0
  sectionCount : UInt16
  headerSize : UInt32
  checksum : UInt32
  requiredFeatures : UInt64
  optionalFeatures : UInt64
  sourceFpPrimary : UInt64
  sourceFpSecondary : UInt64
  semanticProfileVersion : UInt32
  publicAbiHi : UInt32
  publicAbiLo : UInt32
  depCount : UInt32
  declCount : UInt32
  templateCount : UInt32
  fnCount : UInt32
  canonicalPathLen : UInt32
  moduleNameLen : UInt32
  semanticProfileNameLen : UInt32
  deriving DecidableEq

/-- Everything before the payloads. -/
structure Front where
  header : FileHeader
  canonicalPath : List UInt8
  moduleName : List UInt8
  profileName : List UInt8
  deps : List DependencyRecord
  entries : List SectionEntry
  deriving DecidableEq

/-! ### Writing -/

def writeHeader (h : FileHeader) : List UInt8 :=
  writeU32 h.magic ++ (writeU32 h.containerVersion ++ (writeU32 h.hirSchemaVersion ++
    (writeU8 h.endianness ++ (writeU8 h.reserved ++ (writeU16 h.sectionCount ++
    (writeU32 h.headerSize ++ (writeU32 h.checksum ++ (writeU64 h.requiredFeatures ++
    (writeU64 h.optionalFeatures ++ (writeU64 h.sourceFpPrimary ++ (writeU64 h.sourceFpSecondary ++
    (writeU32 h.semanticProfileVersion ++ (writeU32 h.publicAbiHi ++ (writeU32 h.publicAbiLo ++
    (writeU32 h.depCount ++ (writeU32 h.declCount ++ (writeU32 h.templateCount ++
    (writeU32 h.fnCount ++ (writeU32 h.canonicalPathLen ++ (writeU32 h.moduleNameLen ++
    writeU32 h.semanticProfileNameLen))))))))))))))))))))

def writeDependency (d : DependencyRecord) : List UInt8 :=
  writeBlob d.canonicalPath ++ (writeBlob d.importKey ++ (writeU32 d.publicAbiHi ++ writeU32 d.publicAbiLo))

def writeEntry (e : SectionEntry) : List UInt8 :=
  writeU16 e.id ++ (writeU16 e.flags ++ (writeU16 e.schemaVersion ++ (writeU16 e.reserved ++
    (writeU64 e.offset ++ writeU64 e.size))))

def writeFront (f : Front) : List UInt8 :=
  writeHeader f.header ++ (f.canonicalPath ++ (f.moduleName ++ (f.profileName ++
    (f.deps.flatMap writeDependency ++ f.entries.flatMap writeEntry))))

/-! ### Reading -/

def readHeader : Reader FileHeader := do
  let magic ← readU32
  let containerVersion ← readU32
  let hirSchemaVersion ← readU32
  let endianness ← readU8
  let reserved ← readU8
  let sectionCount ← readU16
  let headerSize ← readU32
  let checksum ← readU32
  let requiredFeatures ← readU64
  let optionalFeatures ← readU64
  let sourceFpPrimary ← readU64
  let sourceFpSecondary ← readU64
  let semanticProfileVersion ← readU32
  let publicAbiHi ← readU32
  let publicAbiLo ← readU32
  let depCount ← readU32
  let declCount ← readU32
  let templateCount ← readU32
  let fnCount ← readU32
  let canonicalPathLen ← readU32
  let moduleNameLen ← readU32
  let semanticProfileNameLen ← readU32
  return { magic, containerVersion, hirSchemaVersion, endianness, reserved, sectionCount, headerSize,
           checksum, requiredFeatures, optionalFeatures, sourceFpPrimary, sourceFpSecondary,
           semanticProfileVersion, publicAbiHi, publicAbiLo, depCount, declCount, templateCount,
           fnCount, canonicalPathLen, moduleNameLen, semanticProfileNameLen }

/-- What the reader asks of the header of `size` bytes. -/
def FileHeader.accepted (h : FileHeader) (size : ℕ) : Bool :=
  h.magic == kMagic && h.containerVersion == kContainerVersion &&
    h.hirSchemaVersion == Cache.kHirSchemaVersion && h.endianness == kEndianLittle && h.reserved == 0 &&
    h.headerSize.toNat ≤ size && kFixedHeaderSize ≤ h.headerSize.toNat &&
    h.requiredFeatures &&& Cache.kRequiredHirFeatures == Cache.kRequiredHirFeatures &&
    h.requiredFeatures &&& ~~~Cache.kRequiredHirFeatures == 0

def readDependency : Reader DependencyRecord := do
  let canonicalPath ← readBlob
  let importKey ← readBlob
  let publicAbiHi ← readU32
  let publicAbiLo ← readU32
  return { canonicalPath, importKey, publicAbiHi, publicAbiLo }

def readEntry : Reader SectionEntry := do
  let id ← readU16
  let flags ← readU16
  let schemaVersion ← readU16
  let reserved ← readU16
  let offset ← readU64
  let size ← readU64
  return { id, flags, schemaVersion, reserved, offset, size }

/-- What the reader asks of one entry of a table that ends at `headerSize` of `size` bytes. -/
def SectionEntry.accepted (e : SectionEntry) (headerSize size : ℕ) : Bool :=
  e.id != 0 && e.reserved == 0 && e.flags &&& ~~~kSectionFlagRequired == 0 &&
    headerSize ≤ e.offset.toNat && e.offset.toNat ≤ size && e.size.toNat ≤ size - e.offset.toNat &&
    e.schemaVersion != 0

/-- A test of how many bytes have been read, of `size`. -/
def atPosition (size : ℕ) (test : ℕ → Bool) : Reader Unit := guardLeft fun left => test (size - left.length)

def readFront (size : ℕ) : Reader Front := do
  let header ← readHeader
  Reader.check (header.accepted size)
  let canonicalPath ← Reader.take header.canonicalPathLen.toNat
  let moduleName ← Reader.take header.moduleNameLen.toNat
  let profileName ← Reader.take header.semanticProfileNameLen.toNat
  Reader.check (!canonicalPath.isEmpty && !profileName.isEmpty)
  canReadU32Count header.depCount 16
  let deps ← readDependency.replicate header.depCount.toNat
  atPosition size fun position => position ≤ header.headerSize.toNat &&
    header.sectionCount.toNat * kSectionEntrySize == header.headerSize.toNat - position
  canReadU32Count header.sectionCount.toUInt32 kSectionEntrySize
  let entries ← readEntry.replicate header.sectionCount.toNat
  Reader.check (entries.all (·.accepted header.headerSize.toNat size) && (entries.map (·.id)).Nodup)
  atPosition size fun position => position == header.headerSize.toNat
  return { header, canonicalPath, moduleName, profileName, deps, entries }

/-! ### Sections and the checksum -/

structure SectionView where
  entry : SectionEntry
  payload : List UInt8
  deriving DecidableEq

/-- `bytes.substr(entry.offset, entry.size)`. -/
def viewOf (bytes : List UInt8) (entry : SectionEntry) : SectionView :=
  ⟨entry, (bytes.drop entry.offset.toNat).take entry.size.toNat⟩

/-- Sections are sorted by their offset. -/
abbrev offsetOf (view : SectionView) : ℕ := view.entry.offset.toNat

/-- The two words of the public ABI as they lie in the memory of a little-endian host. -/
def abiBytes (d : DependencyRecord) : List UInt8 := writeU32 d.publicAbiHi ++ writeU32 d.publicAbiLo

def dependencyParts (d : DependencyRecord) : List (List UInt8) := [d.canonicalPath, d.importKey, abiBytes d]

/-- What the checksum covers, part by part. -/
def checksumParts (canonicalPath moduleName profileName : List UInt8) (deps : List DependencyRecord)
    (payloads : List (List UInt8)) : List (List UInt8) :=
  [canonicalPath, moduleName, profileName] ++ (deps.flatMap dependencyParts ++ payloads)

def checksumOf (parts : List (List UInt8)) : UInt32 := combineAll (· ^^^ ·) 0 (parts.map fnv1a32)

/-- `checksumDependenciesAndSections`. -/
def checksumDependenciesAndSections (f : Front) (sections : List SectionView) : UInt32 :=
  checksumOf (checksumParts f.canonicalPath f.moduleName f.profileName f.deps (sections.map (·.payload)))

/-! ### The front, byte by byte -/

theorem inverts_header (h : FileHeader) : Inverts writeHeader readHeader h := by
  intro rest
  simp only [readHeader, writeHeader, List.append_assoc, (inverts_u8 _).bind, (inverts_u16 _).bind,
    (inverts_u32 _).bind, (inverts_u64 _).bind, pure_apply]

theorem fixed_header : Fixed readHeader kFixedHeaderSize :=
  fixed_u32.bind fun _ => fixed_u32.bind fun _ => fixed_u32.bind fun _ => fixed_u8.bind fun _ =>
    fixed_u8.bind fun _ => fixed_u16.bind fun _ => fixed_u32.bind fun _ => fixed_u32.bind fun _ =>
    fixed_u64.bind fun _ => fixed_u64.bind fun _ => fixed_u64.bind fun _ => fixed_u64.bind fun _ =>
    fixed_u32.bind fun _ => fixed_u32.bind fun _ => fixed_u32.bind fun _ => fixed_u32.bind fun _ =>
    fixed_u32.bind fun _ => fixed_u32.bind fun _ => fixed_u32.bind fun _ => fixed_u32.bind fun _ =>
    fixed_u32.bind fun _ => fixed_u32.bind fun _ => fixed_pure _

theorem inverts_dependency {d : DependencyRecord} (h : FitsU32 d.canonicalPath ∧ FitsU32 d.importKey) :
    Inverts writeDependency readDependency d := by
  intro rest
  simp only [readDependency, writeDependency, List.append_assoc, (inverts_blob h.1).bind,
    (inverts_blob h.2).bind, (inverts_u32 _).bind, pure_apply]

theorem canonical_dependency : Canonical writeDependency readDependency := by
  intro bs d rest h
  obtain ⟨path, m₁, h₁, h⟩ := bind_eq_some h
  obtain ⟨key, m₂, h₂, h⟩ := bind_eq_some h
  obtain ⟨hi, m₃, h₃, h⟩ := bind_eq_some h
  obtain ⟨lo, m₄, h₄, h⟩ := bind_eq_some h
  obtain ⟨rfl, rfl⟩ := pure_eq_some h
  rw [canonical_blob _ _ _ h₁, canonical_blob _ _ _ h₂, canonical_u32 _ _ _ h₃, canonical_u32 _ _ _ h₄,
    writeDependency, List.append_assoc, List.append_assoc, List.append_assoc]

theorem ensures_dependency : Ensures readDependency fun d => FitsU32 d.canonicalPath ∧ FitsU32 d.importKey :=
  .bind ensures_blob fun _ hpath => .bind ensures_blob fun _ hkey => .skip fun _ => .skip fun _ =>
    .pure ⟨hpath, hkey⟩

theorem inverts_entry (e : SectionEntry) : Inverts writeEntry readEntry e := by
  intro rest
  simp only [readEntry, writeEntry, List.append_assoc, (inverts_u16 _).bind, (inverts_u64 _).bind, pure_apply]

theorem canonical_entry : Canonical writeEntry readEntry := by
  intro bs e rest h
  obtain ⟨id, m₁, h₁, h⟩ := bind_eq_some h
  obtain ⟨flags, m₂, h₂, h⟩ := bind_eq_some h
  obtain ⟨version, m₃, h₃, h⟩ := bind_eq_some h
  obtain ⟨reserved, m₄, h₄, h⟩ := bind_eq_some h
  obtain ⟨offset, m₅, h₅, h⟩ := bind_eq_some h
  obtain ⟨size, m₆, h₆, h⟩ := bind_eq_some h
  obtain ⟨rfl, rfl⟩ := pure_eq_some h
  rw [canonical_u16 _ _ _ h₁, canonical_u16 _ _ _ h₂, canonical_u16 _ _ _ h₃, canonical_u16 _ _ _ h₄,
    canonical_u64 _ _ _ h₅, canonical_u64 _ _ _ h₆, writeEntry]
  simp only [List.append_assoc]

@[simp] theorem writeHeader_length (h : FileHeader) : (writeHeader h).length = 96 := by
  simp [writeHeader]

@[simp] theorem writeEntry_length (e : SectionEntry) : (writeEntry e).length = 24 := by
  simp [writeEntry]

theorem entries_length (l : List SectionEntry) : (l.flatMap writeEntry).length = l.length * 24 := by
  induction l with
  | nil => rfl
  | cons e l ih => rw [List.flatMap_cons, List.length_append, ih, writeEntry_length, List.length_cons]; omega

theorem le_writeDependency_length (d : DependencyRecord) : 16 ≤ (writeDependency d).length := by
  simp only [writeDependency, writeBlob, List.length_append, writeCount_length, writeU32_length]
  omega

/-- What follows the header. -/
def frontTail (f : Front) : List UInt8 :=
  f.canonicalPath ++ (f.moduleName ++ (f.profileName ++ (f.deps.flatMap writeDependency ++
    f.entries.flatMap writeEntry)))

/-- What `readFront` asks of a front of `size` bytes. -/
structure FrontOk (f : Front) (size : ℕ) : Prop where
  accepted : f.header.accepted size = true
  pathLength : f.canonicalPath.length = f.header.canonicalPathLen.toNat
  moduleLength : f.moduleName.length = f.header.moduleNameLen.toNat
  profileLength : f.profileName.length = f.header.semanticProfileNameLen.toNat
  named : (!f.canonicalPath.isEmpty && !f.profileName.isEmpty) = true
  depCount : f.deps.length = f.header.depCount.toNat
  depsFit : ∀ d ∈ f.deps, FitsU32 d.canonicalPath ∧ FitsU32 d.importKey
  sectionCount : f.entries.length = f.header.sectionCount.toNat
  headerSize : f.header.headerSize.toNat = 96 + (frontTail f).length
  entries : (f.entries.all (·.accepted f.header.headerSize.toNat size) && (f.entries.map (·.id)).Nodup) = true

/-- An accepted front is its header and what `frontTail` says. -/
theorem readFront_eq_some {bytes rest : List UInt8} {f : Front} (h : readFront bytes.length bytes = some (f, rest)) :
    FrontOk f bytes.length ∧ ∃ x, x.length = 96 ∧ bytes = x ++ (frontTail f ++ rest) ∧
      ∀ rest', readHeader (x ++ rest') = some (f.header, rest') := by
  generalize hn : bytes.length = size at h
  obtain ⟨header, m₁, hheader, h⟩ := bind_eq_some h
  obtain ⟨_, m₂, haccepted, h⟩ := bind_eq_some h
  obtain ⟨path, m₃, hpath, h⟩ := bind_eq_some h
  obtain ⟨module, m₄, hmodule, h⟩ := bind_eq_some h
  obtain ⟨profile, m₅, hprofile, h⟩ := bind_eq_some h
  obtain ⟨_, m₆, hnamed, h⟩ := bind_eq_some h
  obtain ⟨_, m₇, hroom, h⟩ := bind_eq_some h
  obtain ⟨deps, m₈, hdeps, h⟩ := bind_eq_some h
  obtain ⟨_, m₉, hat, h⟩ := bind_eq_some h
  obtain ⟨_, m₁₀, hroom', h⟩ := bind_eq_some h
  obtain ⟨entries, m₁₁, hentries, h⟩ := bind_eq_some h
  obtain ⟨_, m₁₂, hall, h⟩ := bind_eq_some h
  obtain ⟨_, m₁₃, hend, h⟩ := bind_eq_some h
  obtain ⟨rfl, rfl⟩ := pure_eq_some h
  obtain ⟨hposition, rfl⟩ := guardLeft_eq_some hend
  obtain ⟨hentriesOk, rfl⟩ := check_eq_some hall
  obtain ⟨rfl, hentryCount⟩ := canonical_entry.replicate hentries
  obtain ⟨-, rfl⟩ := guardLeft_eq_some hroom'
  obtain ⟨-, rfl⟩ := guardLeft_eq_some hat
  obtain ⟨rfl, hdepCount⟩ := canonical_dependency.replicate hdeps
  obtain ⟨-, rfl⟩ := guardLeft_eq_some hroom
  obtain ⟨hnames, rfl⟩ := check_eq_some hnamed
  obtain ⟨rfl, hprofileLen⟩ := take_eq_some hprofile
  obtain ⟨rfl, hmoduleLen⟩ := take_eq_some hmodule
  obtain ⟨rfl, hpathLen⟩ := take_eq_some hpath
  obtain ⟨hheaderOk, rfl⟩ := check_eq_some haccepted
  obtain ⟨x, hx, rfl, hread⟩ := fixed_header _ _ _ hheader
  have htail : frontTail ⟨header, path, module, profile, deps, entries⟩ =
      path ++ (module ++ (profile ++ (deps.flatMap writeDependency ++ entries.flatMap writeEntry))) := rfl
  have hsize : header.headerSize.toNat =
      96 + (frontTail ⟨header, path, module, profile, deps, entries⟩).length := by
    rw [← beq_iff_eq.mp hposition, ← hn, htail]
    simp only [List.length_append, hx, kFixedHeaderSize]
    omega
  refine ⟨⟨hheaderOk, hpathLen, hmoduleLen, hprofileLen, hnames, hdepCount, ?_, hentryCount, hsize,
    hentriesOk⟩,
    x, hx, ?_, hread⟩
  · exact forall_of_replicate ensures_dependency hdeps
  · rw [htail]
    simp only [List.append_assoc]

/-- What is as `FrontOk` says is accepted, after any header that is read as its header. -/
theorem readFront_of_frontOk {f : Front} {x rest : List UInt8} {size : ℕ} (hok : FrontOk f size)
    (hx : x.length = 96) (hsize : (x ++ (frontTail f ++ rest)).length = size)
    (hread : ∀ rest', readHeader (x ++ rest') = some (f.header, rest')) :
    readFront size (x ++ (frontTail f ++ rest)) = some (f, rest) := by
  have hdeps : 16 * f.deps.length ≤ (f.deps.flatMap writeDependency).length :=
    mul_length_le_flatMap fun d _ => le_writeDependency_length d
  have hentries := entries_length f.entries
  have hheader := hok.headerSize
  rw [frontTail] at hheader hsize ⊢
  simp only [List.length_append] at hsize hheader
  have hroom : (decide (16 ≠ 0 ∧ f.header.depCount.toNat ≤ (f.deps.flatMap writeDependency ++
      (f.entries.flatMap writeEntry ++ rest)).length / 16)) = true := by
    refine decide_eq_true ⟨by norm_num, ?_⟩
    rw [← hok.depCount, Nat.le_div_iff_mul_le (by norm_num), List.length_append]
    omega
  have hcount : f.header.sectionCount.toUInt32.toNat = f.entries.length := by
    rw [hok.sectionCount, UInt16.toNat_toUInt32]
  have hroom' : (decide (kSectionEntrySize ≠ 0 ∧ f.header.sectionCount.toUInt32.toNat ≤
      (f.entries.flatMap writeEntry ++ rest).length / kSectionEntrySize)) = true := by
    refine decide_eq_true ⟨by decide, ?_⟩
    rw [hcount, Nat.le_div_iff_mul_le (by decide), List.length_append, hentries, kSectionEntrySize]
    omega
  have hat : (decide (size - (f.entries.flatMap writeEntry ++ rest).length ≤ f.header.headerSize.toNat) &&
      f.header.sectionCount.toNat * kSectionEntrySize == f.header.headerSize.toNat -
        (size - (f.entries.flatMap writeEntry ++ rest).length)) = true := by
    rw [Bool.and_eq_true, decide_eq_true_eq, beq_iff_eq, ← hok.sectionCount, kSectionEntrySize, List.length_append]
    omega
  have hend : (size - rest.length == f.header.headerSize.toNat) = true := by
    rw [beq_iff_eq]
    omega
  simp only [List.append_assoc]
  rw [readFront, bind_apply, hread, Option.bind_some, check_bind hok.accepted,
    take_bind hok.pathLength, take_bind hok.moduleLength, take_bind hok.profileLength,
    check_bind hok.named, canReadU32Count, guardLeft_bind hroom,
    Inverts.replicate_bind (fun d hd => inverts_dependency (hok.depsFit d hd)) hok.depCount,
    atPosition, guardLeft_bind hat, canReadU32Count, guardLeft_bind hroom',
    Inverts.replicate_bind (fun e _ => inverts_entry e) hok.sectionCount, check_bind hok.entries,
    atPosition, guardLeft_bind hend, pure_apply]

end Zith.Zirl
