import Zith.Zirl.Reader
import Zith.Zirl.Writer

/-! Where the sections of a written container lie, and that its front is accepted again. Only the order
    in which a sort puts two sections of one offset is left open here; it is fixed when every section but
    the last has a payload. -/

namespace Zith.Zirl
open Zith.Lib Zith.Lib.Reader
open Cache (OptionalSection)

/-! ### The sections that are written -/

/-- The sections every artifact has, with the payload of the code. -/
def knownWith (a : Cache.Artifact) (code : List UInt8) : List EncodedSection :=
  [{ id := SectionId.metadata.toU16, flags := kSectionFlagRequired,
     schemaVersion := kMetadataSectionSchemaVersion, payload := encodeTypes a.toArtifact },
   { id := SectionId.decls.toU16, flags := kSectionFlagRequired,
     schemaVersion := kDeclsSectionSchemaVersion, payload := encodeDecls a.decls },
   { id := SectionId.templates.toU16, flags := kSectionFlagRequired,
     schemaVersion := kTemplatesSectionSchemaVersion, payload := encodeTemplates a },
   { id := SectionId.code.toU16, flags := kSectionFlagRequired,
     schemaVersion := kCodeSectionSchemaVersion, payload := code },
   { id := SectionId.attrs.toU16, flags := kSectionFlagRequired,
     schemaVersion := kAttrsSectionSchemaVersion, payload := encodeAttrs a },
   { id := SectionId.instantiations.toU16, payload := encodeInstantiations a }]

/-- The optional sections in the order of their ids. -/
def sortedOptional (a : Cache.Artifact) : List OptionalSection :=
  a.optionalSections.insertionSort fun o o' => o.id ≤ o'.id

/-- The sections in the order they are encoded. -/
def allSections (a : Cache.Artifact) (code : List UInt8) (provenance : List EncodedSection) :
    List EncodedSection :=
  knownWith a code ++ (provenance ++ (debugSections a ++ a.optionalSections.map encodeOptional))

/-- The sections in the order they are written. -/
def writtenSections (a : Cache.Artifact) (code : List UInt8) (provenance : List EncodedSection) :
    List EncodedSection :=
  sortById (allSections a code provenance)

/-- What a successful `write` has encoded, checked and written. -/
structure Written (a : Cache.Artifact) (bytes code : List UInt8) (provenance : List EncodedSection) :
    Prop where
  accepted : writable a = true
  encoded : encodeCode a = some code
  producer : provenanceSections a = some provenance
  optional : ∀ o ∈ a.optionalSections, optionalWritable o = true
  ids : ((allSections a code provenance).map (·.id)).Nodup
  deps : ∀ d ∈ a.deps, FitsU32 d.canonicalPath ∧ FitsU32 d.importKey
  header : headerSizeOf a (writtenSections a code provenance).length < 2 ^ 32
  count : (writtenSections a code provenance).length < 2 ^ 16
  size : bytes.length < 2 ^ 63
  written : bytes = writeFront (frontOf a (writtenSections a code provenance)) ++
    (writtenSections a code provenance).flatMap (·.payload)

theorem exceedsU32_eq_false {n : ℕ} (h : exceedsU32 n = false) : n < 2 ^ 32 := by
  simp only [exceedsU32, decide_eq_false_iff_not] at h
  omega

variable {a : Cache.Artifact}

theorem Writer.write_eq_some {checksum : UInt32} {bytes : List UInt8}
    (h : Writer.write a = some (checksum, bytes)) : ∃ code provenance, Written a bytes code provenance := by
  rw [Writer.write] at h
  obtain ⟨hwritable, h⟩ := Option.ite_none_left_eq_some.mp h
  obtain ⟨sections, hsections, h⟩ := Option.bind_eq_some_iff.mp h
  obtain ⟨known, hknown, hsections⟩ := Option.bind_eq_some_iff.mp hsections
  obtain ⟨code, hcode, hknown⟩ := Option.bind_eq_some_iff.mp hknown
  obtain ⟨provenance, hprovenance, hsections⟩ := Option.bind_eq_some_iff.mp hsections
  obtain ⟨hoptional, hsections⟩ := Option.ite_none_left_eq_some.mp hsections
  obtain rfl : knownWith a code = known := Option.some.inj hknown
  obtain rfl : allSections a code provenance = sections := Option.some.inj hsections
  obtain ⟨hids, h⟩ := Option.ite_none_left_eq_some.mp h
  obtain ⟨hdeps, h⟩ := Option.ite_none_left_eq_some.mp h
  obtain ⟨hheader, h⟩ := Option.ite_none_left_eq_some.mp h
  obtain ⟨hsize, h⟩ := Option.ite_none_left_eq_some.mp h
  obtain ⟨rfl, rfl⟩ := Prod.mk.inj (Option.some.inj h)
  simp only [exceedsU32, Bool.or_eq_true, decide_eq_true_eq, not_or, Nat.not_lt] at hheader
  refine ⟨code, provenance, by simpa using hwritable, hcode, hprovenance, by simpa using hoptional,
    by simpa using hids, fun d hd => ?_, ?_, ?_, ?_, rfl⟩
  · have hfits : ¬ (exceedsU32 d.canonicalPath.length || exceedsU32 d.importKey.length) = true :=
      fun hexceeds => hdeps (List.any_eq_true.mpr ⟨d, hd, hexceeds⟩)
    rw [Bool.not_eq_true, Bool.or_eq_false_iff] at hfits
    exact ⟨exceedsU32_eq_false hfits.1, exceedsU32_eq_false hfits.2⟩
  · rw [writtenSections]
    omega
  · rw [writtenSections]
    omega
  · rw [maxSize] at hsize
    omega

/-! ### The place of a section -/

/-- The views of sections that start at `offset`. -/
def placedViews : ℕ → List EncodedSection → List SectionView
  | _, [] => []
  | offset, s :: sections =>
    ⟨{ id := s.id, flags := s.flags, schemaVersion := s.schemaVersion, offset := UInt64.ofNat offset,
       size := UInt64.ofNat s.payload.length }, s.payload⟩ ::
      placedViews (offset + s.payload.length) sections

/-- The length of all payloads. -/
def payloadSize (sections : List EncodedSection) : ℕ := (sections.flatMap (·.payload)).length

@[simp] theorem payloadSize_nil : payloadSize [] = 0 := rfl

@[simp] theorem payloadSize_cons (s : EncodedSection) (sections : List EncodedSection) :
    payloadSize (s :: sections) = s.payload.length + payloadSize sections := by
  rw [payloadSize, payloadSize, List.flatMap_cons, List.length_append]

theorem toNat_ofNat_u64 {n : ℕ} (h : n < 2 ^ 64) : (UInt64.ofNat n).toNat = n := UInt64.toNat_ofNat_of_lt' h

theorem placeSections_length : ∀ (offset : ℕ) (sections : List EncodedSection),
    (placeSections offset sections).length = sections.length
  | _, [] => rfl
  | _, _ :: sections => congrArg (· + 1) (placeSections_length _ sections)

theorem placeSections_ids : ∀ (offset : ℕ) (sections : List EncodedSection),
    (placeSections offset sections).map (·.id) = sections.map (·.id)
  | _, [] => rfl
  | _, s :: sections => congrArg (s.id :: ·) (placeSections_ids _ sections)

theorem placedViews_payloads : ∀ (offset : ℕ) (sections : List EncodedSection),
    (placedViews offset sections).map (·.payload) = sections.map (·.payload)
  | _, [] => rfl
  | _, s :: sections => congrArg (s.payload :: ·) (placedViews_payloads _ sections)

/-- What lies at the place of a section is its payload. -/
theorem map_viewOf : ∀ {sections : List EncodedSection} {x : List UInt8}, x.length + payloadSize sections < 2 ^ 64 →
    (placeSections x.length sections).map (viewOf (x ++ sections.flatMap (·.payload))) = placedViews x.length sections
  | [], _, _ => rfl
  | s :: sections, x, h => by
    rw [payloadSize_cons] at h
    have hoffset : (UInt64.ofNat x.length).toNat = x.length := toNat_ofNat_u64 (by omega)
    have hsize : (UInt64.ofNat s.payload.length).toNat = s.payload.length := toNat_ofNat_u64 (by omega)
    have hfits : (x ++ s.payload).length + payloadSize sections < 2 ^ 64 := by
      rw [List.length_append]
      omega
    have ih := map_viewOf hfits
    rw [List.length_append, List.append_assoc] at ih
    rw [placeSections, placedViews, List.map_cons, List.flatMap_cons, ih, viewOf, hoffset, hsize,
      List.drop_left, List.take_left]

theorem placedEnd_placedViews : ∀ {sections : List EncodedSection} {offset : ℕ},
    offset + payloadSize sections < 2 ^ 64 →
    placedEnd offset (placedViews offset sections) = some (offset + payloadSize sections)
  | [], _, _ => rfl
  | s :: sections, offset, h => by
    rw [payloadSize_cons] at h
    have hoffset : (UInt64.ofNat offset).toNat = offset := toNat_ofNat_u64 (by omega)
    have hsize : (UInt64.ofNat s.payload.length).toNat = s.payload.length := toNat_ofNat_u64 (by omega)
    rw [placedViews, placedEnd, hoffset, hsize, if_neg (lt_irrefl _),
      placedEnd_placedViews (by omega), payloadSize_cons, Nat.add_assoc]

theorem le_offsetOf : ∀ {sections : List EncodedSection} {offset : ℕ},
    offset + payloadSize sections < 2 ^ 64 → ∀ v ∈ placedViews offset sections, offset ≤ offsetOf v
  | [], _, _, _, hv => absurd hv List.not_mem_nil
  | s :: sections, offset, h, v, hv => by
    rw [payloadSize_cons] at h
    rcases List.mem_cons.mp hv with rfl | hv
    · exact (toNat_ofNat_u64 (by omega)).ge
    · have := le_offsetOf (by omega) v hv
      omega

/-- Every section that another one follows has a payload. -/
def Spaced (sections : List EncodedSection) : Prop := sections.Pairwise fun s _ => s.payload ≠ []

/-- The offsets of such sections increase. -/
theorem placedViews_increasing : ∀ {sections : List EncodedSection} {offset : ℕ}, Spaced sections →
    offset + payloadSize sections < 2 ^ 64 → (placedViews offset sections).Pairwise (offsetOf · < offsetOf ·)
  | [], _, _, _ => .nil
  | [s], _, _, _ => List.pairwise_singleton ..
  | s :: t :: sections, offset, hspaced, h => by
    obtain ⟨hs, hspaced⟩ := List.pairwise_cons.mp hspaced
    have hpos : 0 < s.payload.length := List.length_pos_of_ne_nil (hs t (List.mem_cons_self ..))
    rw [payloadSize_cons] at h
    refine List.pairwise_cons.mpr ⟨fun v hv => ?_, placedViews_increasing hspaced (by omega)⟩
    have hv := le_offsetOf (by omega) v hv
    have hoffset : (UInt64.ofNat offset).toNat = offset := toNat_ofNat_u64 (by omega)
    simp only [offsetOf, hoffset] at hv ⊢
    omega

/-! ### The front is accepted -/

theorem mem_sortById {sections : List EncodedSection} {s : EncodedSection} :
    s ∈ sortById sections ↔ s ∈ sections := (List.perm_insertionSort _ sections).mem_iff

theorem writtenSections_perm (a : Cache.Artifact) (code : List UInt8) (provenance : List EncodedSection) :
    (writtenSections a code provenance).Perm (allSections a code provenance) := List.perm_insertionSort _ _

/-- What the reader asks of an entry, wherever its section lies. -/
structure EntryOk (id flags schemaVersion : UInt16) : Prop where
  named : (id != 0) = true
  known : (flags &&& ~~~kSectionFlagRequired == 0) = true
  versioned : (schemaVersion != 0) = true
  flagged : flagsAccepted { id, flags } = true

instance (id flags schemaVersion : UInt16) : Decidable (EntryOk id flags schemaVersion) :=
  decidable_of_iff ((id != 0) = true ∧ (flags &&& ~~~kSectionFlagRequired == 0) = true ∧
      (schemaVersion != 0) = true ∧ flagsAccepted { id, flags } = true)
    ⟨fun ⟨h₁, h₂, h₃, h₄⟩ => ⟨h₁, h₂, h₃, h₄⟩, fun h => ⟨h.named, h.known, h.versioned, h.flagged⟩⟩

def SectionOk (s : EncodedSection) : Prop := EntryOk s.id s.flags s.schemaVersion

/-- The sections of an artifact's own lie above the known ones, in some schema version. -/
def OwnSections (a : Cache.Artifact) : Prop :=
  ∀ o ∈ a.optionalSections, SectionId.debug.toU16 < o.id ∧ o.schemaVersion ≠ 0

instance (a : Cache.Artifact) : Decidable (OwnSections a) := by
  unfold OwnSections
  infer_instance

theorem sectionOk_knownWith (a : Cache.Artifact) (code : List UInt8) : ∀ s ∈ knownWith a code, SectionOk s := by
  simp only [knownWith, List.forall_mem_cons, SectionOk]
  decide

theorem sectionOk_provenance {provenance : List EncodedSection} (h : provenanceSections a = some provenance) :
    ∀ s ∈ provenance, SectionOk s := by
  rw [provenanceSections] at h
  split at h
  · obtain ⟨-, h⟩ := Option.ite_none_left_eq_some.mp h
    obtain rfl := Option.some.inj h
    simp only [List.forall_mem_singleton, SectionOk]
    decide
  · obtain rfl := Option.some.inj h
    exact List.forall_mem_nil _

theorem sectionOk_debug (a : Cache.Artifact) : ∀ s ∈ debugSections a, SectionOk s := by
  rw [debugSections]
  split
  · exact List.forall_mem_nil _
  · simp only [List.forall_mem_singleton, SectionOk]
    decide

theorem ne_of_debug_lt {id : UInt16} (h : SectionId.debug.toU16 < id) {k : SectionId}
    (hk : k.toU16 ≤ SectionId.debug.toU16) : (k.toU16 == id) = false := by
  rw [beq_eq_false_iff_ne]
  rintro rfl
  exact absurd h (UInt16.not_lt.mpr hk)

theorem sectionOk_optional {o : OptionalSection} (hid : SectionId.debug.toU16 < o.id)
    (hversion : o.schemaVersion ≠ 0) : SectionOk (encodeOptional o) where
  named := bne_iff_ne.mpr fun h => absurd (h ▸ hid : SectionId.debug.toU16 < 0) (by decide)
  known := (by decide : ((0 : UInt16) &&& ~~~kSectionFlagRequired == 0) = true)
  versioned := bne_iff_ne.mpr hversion
  flagged := by
    have hknown : (kRequiredSections.any (·.toU16 == o.id)) = false := by
      refine List.any_eq_false.mpr fun k hk => ?_
      have hle : k.toU16 ≤ SectionId.debug.toU16 := by
        revert k
        decide
      simp [ne_of_debug_lt hid hle]
    simp only [flagsAccepted, encodeOptional, hknown]
    simp

theorem sectionOk_written {bytes code : List UInt8} {provenance : List EncodedSection}
    (h : Written a bytes code provenance) (hown : OwnSections a) :
    ∀ s ∈ writtenSections a code provenance, SectionOk s := by
  intro s hs
  rcases List.mem_append.mp (mem_sortById.mp hs) with hs | hs
  · exact sectionOk_knownWith a code s hs
  rcases List.mem_append.mp hs with hs | hs
  · exact sectionOk_provenance h.producer s hs
  rcases List.mem_append.mp hs with hs | hs
  · exact sectionOk_debug a s hs
  · obtain ⟨o, ho, rfl⟩ := List.mem_map.mp hs
    exact sectionOk_optional (hown o ho).1 (hown o ho).2

theorem placed_accepted {headerSize size : ℕ} : ∀ {sections : List EncodedSection} {offset : ℕ},
    headerSize ≤ offset → offset + payloadSize sections ≤ size → size < 2 ^ 64 → (∀ s ∈ sections, SectionOk s) →
    ∀ e ∈ placeSections offset sections, e.accepted headerSize size = true ∧ flagsAccepted e = true
  | [], _, _, _, _, _ => List.forall_mem_nil _
  | s :: sections, offset, hlow, hhigh, hsize, hok => by
    obtain ⟨hs, hok⟩ := List.forall_mem_cons.mp hok
    rw [payloadSize_cons] at hhigh
    refine List.forall_mem_cons.mpr ⟨⟨?_, hs.flagged⟩, placed_accepted (by omega) (by omega) hsize hok⟩
    have hoffset : (UInt64.ofNat offset).toNat = offset := toNat_ofNat_u64 (by omega)
    have hlength : (UInt64.ofNat s.payload.length).toNat = s.payload.length := toNat_ofNat_u64 (by omega)
    simp only [SectionEntry.accepted, hs.named, hs.known, hs.versioned, hoffset, hlength, beq_self_eq_true,
      Bool.and_eq_true, decide_eq_true_eq, and_true, true_and]
    omega

theorem writeDependency_size (d : DependencyRecord) : (writeDependency d).length = dependencySize d := by
  simp only [writeDependency, writeBlob, dependencySize, List.length_append, writeCount_length, writeU32_length]
  omega

theorem headerSizeOf_eq (a : Cache.Artifact) (sections : List EncodedSection) :
    headerSizeOf a sections.length = 96 + (frontTail (frontOf a sections)).length := by
  have hdeps : (a.deps.flatMap writeDependency).length = (a.deps.map dependencySize).sum := by
    rw [List.length_flatMap]
    exact congrArg List.sum (List.map_congr_left fun d _ => writeDependency_size d)
  simp only [frontTail, frontOf, List.length_append, entries_length, placeSections_length, hdeps,
    headerSizeOf, kFixedHeaderSize, kSectionEntrySize]
  omega

section
variable {a : Cache.Artifact} {bytes code : List UInt8} {provenance : List EncodedSection}

/-- A written container up to its payloads. -/
theorem Written.headerSize_eq (h : Written a bytes code provenance) :
    (frontOf a (writtenSections a code provenance)).header.headerSize.toNat =
      96 + (frontTail (frontOf a (writtenSections a code provenance))).length :=
  (UInt32.toNat_ofNat_of_lt' h.header).trans (headerSizeOf_eq a _)

theorem Written.bytes_eq (h : Written a bytes code provenance) :
    bytes = writeHeader (frontOf a (writtenSections a code provenance)).header ++
      (frontTail (frontOf a (writtenSections a code provenance)) ++
        (writtenSections a code provenance).flatMap (·.payload)) := by
  rw [h.written, writeFront, List.append_assoc]
  rfl

theorem Written.length_eq (h : Written a bytes code provenance) :
    bytes.length = headerSizeOf a (writtenSections a code provenance).length +
      payloadSize (writtenSections a code provenance) := by
  rw [headerSizeOf_eq, h.bytes_eq, List.length_append, List.length_append, writeHeader_length, payloadSize,
    Nat.add_assoc]

theorem Written.entries_accepted (h : Written a bytes code provenance) (hown : OwnSections a) :
    ∀ e ∈ placeSections (headerSizeOf a (writtenSections a code provenance).length) (writtenSections a code provenance),
      e.accepted (headerSizeOf a (writtenSections a code provenance).length) bytes.length = true ∧
        flagsAccepted e = true := by
  have hsize := h.size
  exact placed_accepted le_rfl h.length_eq.ge (by omega) (sectionOk_written h hown)

theorem Written.frontOk (h : Written a bytes code provenance) (hown : OwnSections a) :
    FrontOk (frontOf a (writtenSections a code provenance)) bytes.length := by
  have hwritable := h.accepted
  simp only [writable, Bool.and_eq_true, Bool.not_eq_true', beq_iff_eq] at hwritable
  obtain ⟨⟨⟨⟨⟨⟨⟨⟨⟨hpath, -⟩, hprofile⟩, hschema⟩, hrequired⟩, hforeign⟩, hdeps⟩, hpathLen⟩, hmoduleLen⟩,
    hprofileLen⟩ := hwritable
  have hheader := h.headerSize_eq
  have hheader' : (frontOf a (writtenSections a code provenance)).header.headerSize.toNat =
      headerSizeOf a (writtenSections a code provenance).length := UInt32.toNat_ofNat_of_lt' h.header
  have hlength := h.length_eq
  have hsize := h.size
  have hplaced := h.entries_accepted hown
  refine ⟨?_, ?_, ?_, ?_, ?_, ?_, h.deps, ?_, hheader, ?_⟩
  · have hlow : kFixedHeaderSize ≤ headerSizeOf a (writtenSections a code provenance).length := by
      rw [headerSizeOf_eq, kFixedHeaderSize]
      omega
    rw [FileHeader.accepted, hheader']
    simp only [frontOf, hschema, hrequired, hforeign, beq_self_eq_true, Bool.and_eq_true, decide_eq_true_eq,
      and_true, true_and]
    omega
  · exact (UInt32.toNat_ofNat_of_lt' (exceedsU32_eq_false hpathLen)).symm
  · exact (UInt32.toNat_ofNat_of_lt' (exceedsU32_eq_false hmoduleLen)).symm
  · exact (UInt32.toNat_ofNat_of_lt' (exceedsU32_eq_false hprofileLen)).symm
  · simp only [frontOf, hpath, hprofile, Bool.not_false, Bool.and_self]
  · exact (UInt32.toNat_ofNat_of_lt' (exceedsU32_eq_false hdeps)).symm
  · exact (placeSections_length _ _).trans (UInt16.toNat_ofNat_of_lt' h.count).symm
  · have hids : ((placeSections (headerSizeOf a (writtenSections a code provenance).length)
        (writtenSections a code provenance)).map (·.id)).Nodup := by
      rw [placeSections_ids]
      exact ((writtenSections_perm a code provenance).map _).nodup_iff.mpr h.ids
    rw [hheader', Bool.and_eq_true, decide_eq_true_eq, List.all_eq_true]
    exact ⟨fun e he => (hplaced e he).1, hids⟩

theorem Written.readFront_eq (h : Written a bytes code provenance) (hown : OwnSections a) :
    readFront bytes.length bytes = some (frontOf a (writtenSections a code provenance),
      (writtenSections a code provenance).flatMap (·.payload)) := by
  have hread := readFront_of_frontOk (h.frontOk hown) (writeHeader_length _)
    (congrArg List.length h.bytes_eq).symm (inverts_header _)
  rwa [← h.bytes_eq] at hread

/-- The views of the entries are the sections where they were placed. -/
theorem Written.views_eq (h : Written a bytes code provenance) :
    (frontOf a (writtenSections a code provenance)).entries.map (viewOf bytes) =
      placedViews (headerSizeOf a (writtenSections a code provenance).length) (writtenSections a code provenance) := by
  have hlength := h.length_eq
  have hsize := h.size
  have hfront : (writeFront (frontOf a (writtenSections a code provenance))).length =
      headerSizeOf a (writtenSections a code provenance).length := by
    have hwritten := congrArg List.length h.written
    rw [List.length_append, hlength, payloadSize] at hwritten
    omega
  have hfits : (writeFront (frontOf a (writtenSections a code provenance))).length +
      payloadSize (writtenSections a code provenance) < 2 ^ 64 := by omega
  have hviews := map_viewOf hfits
  rwa [hfront, ← h.written] at hviews

/-- With a payload in every section but the last, every sort leaves the sections as they were written, and
    flags, places and checksum are as they should be. -/
theorem Written.framedSections_eq (h : Written a bytes code provenance) (hown : OwnSections a)
    (hspaced : Spaced (writtenSections a code provenance)) (sort : KeySort offsetOf) :
    framedSections sort bytes (frontOf a (writtenSections a code provenance)) =
      some (placedViews (headerSizeOf a (writtenSections a code provenance).length)
        (writtenSections a code provenance)) := by
  have hlength := h.length_eq
  have hsize := h.size
  have hheader : (frontOf a (writtenSections a code provenance)).header.headerSize.toNat =
      headerSizeOf a (writtenSections a code provenance).length := UInt32.toNat_ofNat_of_lt' h.header
  have hplaced := h.entries_accepted hown
  rw [framedSections, h.views_eq, sort.run_of_increasing (placedViews_increasing hspaced (by omega)), if_pos]
  refine ⟨?_, ?_, ?_⟩
  · exact List.all_eq_true.mpr fun e he => (hplaced e he).2
  · rw [hheader, placedEnd_placedViews (by omega), hlength]
  · rw [checksumDependenciesAndSections, placedViews_payloads]
    rfl

end

end Zith.Zirl
