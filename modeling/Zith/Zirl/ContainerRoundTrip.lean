import Zith.Zirl.Layout

/-! The round trip of the sections behind the declarations: code, templates, attributes, instantiations
    and test locations. They come back exactly when every count and length fits its 32 bits, except for
    the names of templates, of which the section has the ids. -/

namespace Zith.Zirl
open Cache (TemplateBlueprint)

/-- What is encoded for a section is decoded again, to its last byte, with `kept t` for a template `t`.
    The code is decoded after the strings, the attributes after the code. -/
structure SectionsRoundTrip (kept : TemplateBlueprint → TemplateBlueprint) (a : Cache.Artifact) :
    Prop where
  code : ∀ out : Cache.Artifact, out.strings = a.strings → ∃ bytes, encodeCode a = some bytes ∧
    decodeCode out bytes = some ({ out with
      exprs := a.exprs, functions := a.functions, globals := a.globals, vtables := a.vtables,
      canonicalMappings := a.canonicalMappings }, [])
  templates : ∀ out : Cache.Artifact, decodeTemplates out (encodeTemplates a) =
    some ({ out with templates := a.templates.map kept }, [])
  attrs : ∀ out : Cache.Artifact, out.exprs = a.exprs → decodeAttrs out (encodeAttrs a) =
    some ({ out with
      attrsSlots := a.attrsSlots, attrsCalls := a.attrsCalls, attrsFns := a.attrsFns,
      attrsSafetyProofs := a.attrsSafetyProofs }, [])
  instantiations : ∀ out : Cache.Artifact, decodeInstantiations out (encodeInstantiations a) =
    some ({ out with instantiations := a.instantiations }, [])
  debug : ∀ out : Cache.Artifact, decodeDebug out (encodeDebug a) =
    some ({ out with testFailureLocations := a.testFailureLocations }, [])

/-- All counts and lengths of the sections are below `2 ^ 32`. -/
structure SectionsFit (a : Cache.Artifact) : Prop where
  code : CodeFits a
  templates : TemplatesFit a
  attrs : AttrsFit a
  instantiations : InstantiationsFit a
  debug : LocationsFit a

theorem roundTrip_of_fits {a : Cache.Artifact} (hpaired : VTablesPaired a) (hnamed : FunctionsNamed a)
    (hrefer : ProofsRefer a) (h : SectionsFit a) : SectionsRoundTrip carried a where
  code _ hstrings := decodeCode_encodeCode h.code hpaired hnamed hstrings
  templates out := decodeTemplates_encodeTemplates h.templates out
  attrs _ hexprs := decodeAttrs_encodeAttrs h.attrs hrefer (congrArg List.length hexprs)
  instantiations out := decodeInstantiations_encodeInstantiations h.instantiations out
  debug out := decodeDebug_encodeDebug h.debug out

/-- What comes back was decoded, so it fits. -/
theorem fits_of_roundTrip {a : Cache.Artifact} (h : SectionsRoundTrip carried a) : SectionsFit a where
  code := by
    obtain ⟨bytes, -, hrun⟩ := h.code a rfl
    exact ensures_decodeCode _ _ _ _ hrun
  templates := by
    have hfit := ensures_decodeTemplates _ _ _ _ (h.templates a)
    refine ⟨by have := hfit.1; rwa [FitsU32, List.length_map] at this, fun t ht => ?_⟩
    exact fits_of_carried (hfit.2 (carried t) (List.mem_map_of_mem ht))
  attrs := ensures_decodeAttrs _ _ _ _ (h.attrs a rfl)
  instantiations := ensures_decodeInstantiations _ _ _ _ (h.instantiations a)
  debug := ensures_decodeDebug _ _ _ _ (h.debug a)

/-- An artifact whose vtables are paired, whose functions are named and whose proofs refer comes back
    exactly when every count and length fits. -/
theorem sections_roundTrip_iff {a : Cache.Artifact} (hpaired : VTablesPaired a)
    (hnamed : FunctionsNamed a) (hrefer : ProofsRefer a) : SectionsRoundTrip carried a ↔ SectionsFit a :=
  ⟨fits_of_roundTrip, roundTrip_of_fits hpaired hnamed hrefer⟩

/-- One function `f` of one block, with an expression that a safety proof refers to, and a template. -/
def oneOfEach : Cache.Artifact :=
  { strings := [[0x66]],
    exprs := [{ kind := 11, refA := 1, safety := .guarded, args := [0, 0] }],
    functions := [{ name := [0x66], nameId := 0, paramTypeIds := [0], paramNameIds := [0],
                    blocks := [{ insts := [0], terminator := 0 }], discardable := true }],
    vtables := [{ nameId := 0, slotFunctionNameIds := [0], slotFunctionSignatureTypeIds := [0] }],
    templates := [{ name := [0x66], params := [{ name := [0x54], nameId := 0 }], isState := true }],
    attrsSafetyProofs := [{ exprId := 0, kind := .opaqueTypeMatches }] }

theorem oneOfEach_fits : SectionsFit oneOfEach := by
  refine ⟨?_, ?_, ?_, ?_, ?_⟩
  · constructor <;> simp [oneOfEach, FitsU32]
  · refine ⟨by simp [oneOfEach, FitsU32], fun t ht => ?_⟩
    rw [List.mem_singleton.mp ht]
    constructor <;> simp [FitsU32]
  · constructor <;> simp [oneOfEach, FitsU32]
  · simp [InstantiationsFit, oneOfEach, FitsU32]
  · simp [LocationsFit, oneOfEach, FitsU32]

theorem oneOfEach_wellFormed : VTablesPaired oneOfEach ∧ FunctionsNamed oneOfEach ∧ ProofsRefer oneOfEach := by
  refine ⟨?_, ?_, ?_, ?_⟩ <;> simp [VTablesPaired, FunctionsNamed, oneOfEach]

theorem sections_roundTrip_oneOfEach : SectionsRoundTrip carried oneOfEach :=
  (sections_roundTrip_iff oneOfEach_wellFormed.1 oneOfEach_wellFormed.2.1 oneOfEach_wellFormed.2.2).mpr oneOfEach_fits

/-- An instantiation whose mangled name is `2 ^ 32` times the letter `a`. -/
def longName : Cache.Artifact :=
  { instantiations := [{ canonicalModule := [], mangled := List.replicate (2 ^ 32) 0x61,
                         templateName := [] }] }

/-- The name of a template does not come back, nor does a string of `2 ^ 32` bytes. -/
theorem sections_roundTrip_fails : (VTablesPaired oneOfEach ∧ FunctionsNamed oneOfEach ∧ ProofsRefer oneOfEach ∧
      ¬SectionsRoundTrip (fun t => { t with methodParams := [] }) oneOfEach) ∧
    (VTablesPaired longName ∧ FunctionsNamed longName ∧ ProofsRefer longName ∧
      ¬SectionsRoundTrip (fun t => { t with methodParams := [] }) longName) := by
  refine ⟨⟨oneOfEach_wellFormed.1, oneOfEach_wellFormed.2.1, oneOfEach_wellFormed.2.2, fun h => ?_⟩,
    nofun, nofun, ⟨nofun, List.nodup_nil⟩, fun h => ?_⟩
  · have hread := decodeTemplates_encodeTemplates oneOfEach_fits.templates {}
    rw [h.templates {}] at hread
    have hname := congrArg (fun r => r.map fun r => r.1.templates.map (·.name)) hread
    exact absurd hname (by decide)
  · have hfit := ensures_decodeInstantiations _ _ _ _ (h.instantiations {})
    have hmangled := (hfit.2 _ (List.mem_singleton_self _)).2.1
    rw [FitsU32, List.length_replicate] at hmangled
    exact lt_irrefl _ hmangled

end Zith.Zirl

/-! The round trip of the container. What is written is read back whatever the sort does exactly when every
    optional section but the last has a payload: an empty section lies at the offset of the one behind it,
    and `std::sort` may swap the two. -/

namespace Zith.Zirl
open Zith.Lib Zith.Lib.Reader
open Cache (OptionalSection)

/-! ### The order of the sections -/

theorem provenance_ids {a : Cache.Artifact} {provenance : List EncodedSection}
    (h : provenanceSections a = some provenance) :
    provenance.map (·.id) = [] ∨ provenance.map (·.id) = [SectionId.frontendProvenance.toU16] := by
  rw [provenanceSections] at h
  split at h
  · obtain ⟨-, h⟩ := Option.ite_none_left_eq_some.mp h
    obtain rfl := Option.some.inj h
    exact .inr rfl
  · obtain rfl := Option.some.inj h
    exact .inl rfl

theorem debug_ids (a : Cache.Artifact) :
    (debugSections a).map (·.id) = [] ∨ (debugSections a).map (·.id) = [SectionId.debug.toU16] := by
  rw [debugSections]
  split
  · exact .inl rfl
  · exact .inr rfl

/-- The known sections are encoded in the order of their ids. -/
theorem known_ids {a : Cache.Artifact} {provenance : List EncodedSection}
    (h : provenanceSections a = some provenance) (code : List UInt8) :
    ((knownWith a code ++ (provenance ++ debugSections a)).map (·.id)).Pairwise (· ≤ ·) ∧
      ∀ id ∈ (knownWith a code ++ (provenance ++ debugSections a)).map (·.id), id ≤ SectionId.debug.toU16 := by
  have hknown : (knownWith a code).map (·.id) = [1, 2, 3, 4, 5, 6] := rfl
  rw [List.map_append, List.map_append, hknown]
  rcases provenance_ids h with hp | hp <;> rcases debug_ids a with hd | hd <;> rw [hp, hd] <;> decide

theorem sortedOptional_ordered (a : Cache.Artifact) : (sortedOptional a).Pairwise fun o o' => o.id ≤ o'.id := by
  have : Std.Total fun o o' : OptionalSection => o.id ≤ o'.id := ⟨fun o o' => UInt16.le_total _ _⟩
  have : IsTrans OptionalSection fun o o' => o.id ≤ o'.id := ⟨fun _ _ _ => UInt16.le_trans⟩
  exact List.pairwise_insertionSort _ _

section
variable {a : Cache.Artifact} {bytes code : List UInt8} {provenance : List EncodedSection}

/-- The sections are written as they were encoded, with the optional ones sorted. -/
theorem Written.sections_eq (h : Written a bytes code provenance) (hown : OwnSections a) :
    writtenSections a code provenance = (knownWith a code ++ (provenance ++ debugSections a)) ++
      (sortedOptional a).map encodeOptional := by
  have hperm : (writtenSections a code provenance).Perm ((knownWith a code ++ (provenance ++ debugSections a)) ++
      (sortedOptional a).map encodeOptional) := by
    refine (writtenSections_perm a code provenance).trans ?_
    rw [allSections, List.append_assoc, List.append_assoc]
    refine (((List.Perm.map _ ?_).append_left _).append_left _).append_left _
    exact (List.perm_insertionSort _ _).symm
  have hnodup : ((writtenSections a code provenance).map (·.id)).Nodup :=
    ((writtenSections_perm a code provenance).map _).nodup_iff.mpr h.ids
  have hsorted : (writtenSections a code provenance).Pairwise fun s t => s.id ≤ t.id := by
    have : Std.Total fun s t : EncodedSection => s.id ≤ t.id := ⟨fun s t => UInt16.le_total _ _⟩
    have : IsTrans EncodedSection fun s t => s.id ≤ t.id := ⟨fun _ _ _ => UInt16.le_trans⟩
    exact List.pairwise_insertionSort _ _
  refine List.Perm.eq_of_pairwise (fun s t hs ht hle hge => ?_) hsorted ?_ hperm
  · exact List.inj_on_of_nodup_map hnodup hs (hperm.symm.subset ht) (UInt16.le_antisymm hle hge)
  · obtain ⟨hordered, hlow⟩ := known_ids h.producer code
    refine List.pairwise_append.mpr ⟨List.pairwise_map.mp hordered,
      List.pairwise_map.mpr (sortedOptional_ordered a), fun s hs t ht => ?_⟩
    obtain ⟨o, ho, rfl⟩ := List.mem_map.mp ht
    have hle := hlow _ (List.mem_map_of_mem hs)
    have hlt := (hown o ((List.perm_insertionSort _ _).subset ho)).1
    exact UInt16.le_trans hle (UInt16.le_of_lt hlt)

/-- The optional sections have ids of their own. -/
theorem Written.optional_strict (h : Written a bytes code provenance) :
    (sortedOptional a).Pairwise fun o o' => o.id < o'.id := by
  have hids : (a.optionalSections.map (·.id)).Nodup := by
    have hsub : (a.optionalSections.map encodeOptional).Sublist (allSections a code provenance) :=
      ((List.sublist_append_right _ _).trans (List.sublist_append_right _ _)).trans (List.sublist_append_right _ _)
    have hnodup := h.ids.sublist (hsub.map (·.id))
    rwa [List.map_map] at hnodup
  have hsorted : ((sortedOptional a).map (·.id)).Nodup :=
    ((List.perm_insertionSort _ a.optionalSections).map _).nodup_iff.mpr hids
  rw [List.Nodup, List.pairwise_map] at hsorted
  exact ((sortedOptional_ordered a).and hsorted).imp fun hle =>
    UInt16.lt_of_le_of_ne hle.1 hle.2

end

/-! ### Payloads -/

/-- Every optional section without a payload has the greatest id. -/
def EmptyPayloadLast (a : Cache.Artifact) : Prop :=
  ∀ o ∈ a.optionalSections, o.payload = [] → ∀ o' ∈ a.optionalSections, o'.id ≤ o.id

instance (a : Cache.Artifact) : Decidable (EmptyPayloadLast a) := by
  unfold EmptyPayloadLast
  infer_instance

theorem payload_ne_nil_known (a : Cache.Artifact) {code : List UInt8} (h : encodeCode a = some code) :
    ∀ s ∈ knownWith a code, s.payload ≠ [] := by
  rw [encodeCode] at h
  obtain ⟨-, h⟩ := Option.ite_none_left_eq_some.mp h
  obtain rfl := Option.some.inj h
  simp only [knownWith, List.forall_mem_cons]
  exact ⟨List.cons_ne_nil _ _, List.cons_ne_nil _ _, List.cons_ne_nil _ _, List.cons_ne_nil _ _,
    List.cons_ne_nil _ _, List.cons_ne_nil _ _, List.forall_mem_nil _⟩

variable {provenance : List EncodedSection} {a : Cache.Artifact} {bytes code : List UInt8}

theorem payload_ne_nil_provenance (h : provenanceSections a = some provenance) : ∀ s ∈ provenance, s.payload ≠ [] := by
  rw [provenanceSections] at h
  split at h
  · obtain ⟨-, h⟩ := Option.ite_none_left_eq_some.mp h
    obtain rfl := Option.some.inj h
    exact List.forall_mem_singleton.mpr (List.cons_ne_nil _ _)
  · obtain rfl := Option.some.inj h
    exact List.forall_mem_nil _

theorem payload_ne_nil_debug (a : Cache.Artifact) : ∀ s ∈ debugSections a, s.payload ≠ [] := by
  rw [debugSections]
  split
  · exact List.forall_mem_nil _
  · exact List.forall_mem_singleton.mpr (List.cons_ne_nil _ _)

theorem Written.spaced (h : Written a bytes code provenance) (hown : OwnSections a)
    (hempty : EmptyPayloadLast a) : Spaced (writtenSections a code provenance) := by
  have hknown : ∀ s ∈ knownWith a code ++ (provenance ++ debugSections a), s.payload ≠ [] := by
    intro s hs
    rcases List.mem_append.mp hs with hs | hs
    · exact payload_ne_nil_known a h.encoded s hs
    rcases List.mem_append.mp hs with hs | hs
    · exact payload_ne_nil_provenance h.producer s hs
    · exact payload_ne_nil_debug a s hs
  rw [Spaced, h.sections_eq hown]
  refine List.pairwise_append.mpr ⟨?_, ?_, fun s hs t _ => hknown s hs⟩
  · exact List.pairwise_of_forall_mem_list fun s hs t _ => hknown s hs
  · refine List.pairwise_map.mpr (h.optional_strict.imp_of_mem fun {o o'} ho ho' hlt hnil => ?_)
    have hmem : ∀ {o}, o ∈ sortedOptional a → o ∈ a.optionalSections :=
      fun ho => (List.perm_insertionSort _ _).subset ho
    exact absurd hlt (UInt16.not_lt.mpr (hempty o (hmem ho) hnil o' (hmem ho')))

/-! ### The sections are decoded -/

theorem placedViews_append : ∀ (offset : ℕ) (l l' : List EncodedSection),
    placedViews offset (l ++ l') = placedViews offset l ++ placedViews (offset + payloadSize l) l'
  | offset, [], l' => by rw [List.nil_append, payloadSize_nil, Nat.add_zero, placedViews, List.nil_append]
  | offset, s :: l, l' => by
    rw [List.cons_append, placedViews, placedViews, placedViews_append, payloadSize_cons, Nat.add_assoc,
      List.cons_append]

theorem decodeWhole_eq_some {α : Type} {decode : Reader α} {payload : List UInt8} {value : α}
    (h : decode payload = some (value, [])) : decodeWhole decode payload = some value := by
  rw [decodeWhole, h]
  rfl

/-- What a container of `a` is decoded to, before the sections that may be missing. -/
def declaredOf (a : Cache.Artifact) : Cache.Artifact :=
  { a with
    optionalFeatures := writtenFeatures a
    templates := a.templates.map carried
    instantiations := []
    frontendIdentity := {}
    testFailureLocations := []
    optionalSections := [] }

/-- What a container of `a` is decoded to. -/
def returned (a : Cache.Artifact) : Cache.Artifact :=
  { a with
    optionalFeatures := writtenFeatures a
    templates := a.templates.map carried
    optionalSections := sortedOptional a }

/-- The payloads of the sections are inverted by their decoders. -/
structure PayloadsInverted (a : Cache.Artifact) : Prop where
  types : TypesRoundTrip a.toArtifact
  decls : DeclsRoundTrip a.decls
  sections : SectionsRoundTrip carried a

/-- The sections have one whose payload a decoder is for. -/
def Holds (views : List SectionView) (id : SectionId) (version : UInt16) (payload : List UInt8) : Prop :=
  ∃ view, findSection views id = some view ∧ view.entry.schemaVersion = version ∧ view.payload = payload

theorem decodeRequired_eq {views : List SectionView} {id : SectionId} {version : UInt16}
    {decode : Cache.Artifact → Reader Cache.Artifact} {payload : List UInt8} {out out' : Cache.Artifact}
    (hdecode : decode out payload = some (out', [])) (hholds : Holds views id version payload) :
    decodeRequired views id version decode out = some out' := by
  obtain ⟨view, hfind, hversion, hpayload⟩ := hholds
  subst hpayload
  rw [decodeRequired, hfind]
  exact (if_neg fun hne => hne hversion).trans (decodeWhole_eq_some hdecode)

theorem decodeAllRequired_known {code : List UInt8} (hcode : encodeCode a = some code)
    (hpath : a.moduleIdentity.path = a.canonicalPath) (hinv : PayloadsInverted a) (offset : ℕ)
    (sections rest : List EncodedSection) :
    decodeAllRequired (placedViews offset (knownWith a code ++ rest)) (artifactOf (frontOf a sections)) =
      some (declaredOf a) := by
  have hmetadata : decodeMetadata (artifactOf (frontOf a sections)) (encodeTypes a.toArtifact) =
      some ({ artifactOf (frontOf a sections) with toArtifact := a.toArtifact }, []) := by
    have htypes : decodeTypes (artifactOf (frontOf a sections)).toArtifact (encodeTypes a.toArtifact) =
        some (a.toArtifact, []) := hinv.types
    rw [decodeMetadata, bind_apply, htypes]
    rfl
  have hdecls : ∀ out : Cache.Artifact, decodeDeclarations out (encodeDecls a.decls) =
      some ({ out with decls := a.decls }, []) := by
    intro out
    rw [decodeDeclarations, bind_apply, hinv.decls]
    rfl
  obtain ⟨bytes, hbytes, hdecode⟩ := hinv.sections.code { artifactOf (frontOf a sections) with
    toArtifact := a.toArtifact, decls := a.decls, templates := a.templates.map carried } rfl
  obtain rfl : bytes = code := Option.some.inj (hbytes.symm.trans hcode)
  have hidentity : a.moduleIdentity = ⟨a.canonicalPath⟩ := by rw [← hpath]
  refine Option.bind_eq_some_iff.mpr ⟨_, decodeRequired_eq hmetadata ⟨_, rfl, rfl, rfl⟩, ?_⟩
  refine Option.bind_eq_some_iff.mpr ⟨_, decodeRequired_eq (hdecls _) ⟨_, rfl, rfl, rfl⟩, ?_⟩
  refine Option.bind_eq_some_iff.mpr ⟨_, decodeRequired_eq (hinv.sections.templates _) ⟨_, rfl, rfl, rfl⟩, ?_⟩
  refine Option.bind_eq_some_iff.mpr ⟨_, decodeRequired_eq hdecode ⟨_, rfl, rfl, rfl⟩, ?_⟩
  refine Eq.trans (decodeRequired_eq (hinv.sections.attrs _ rfl) ?_) ?_
  · exact ⟨_, rfl, rfl, rfl⟩
  · rw [declaredOf, hidentity]
    rfl

/-! ### The sections that may be missing -/

theorem foldlM_cons_eq {v : SectionView} {views : List SectionView} {out out' last : Cache.Artifact}
    (h : decodeOptional out v = some out') (hs : views.foldlM decodeOptional out' = some last) :
    (v :: views).foldlM decodeOptional out = some last := by
  rw [List.foldlM_cons, h]
  exact hs

theorem foldlM_append_eq {l l' : List SectionView} {out out' last : Cache.Artifact}
    (h : l.foldlM decodeOptional out = some out') (h' : l'.foldlM decodeOptional out' = some last) :
    (l ++ l').foldlM decodeOptional out = some last := by
  rw [List.foldlM_append, h]
  exact h'

theorem foldlM_known {a out : Cache.Artifact} {code : List UInt8} (hinv : PayloadsInverted a) (offset : ℕ) :
    (placedViews offset (knownWith a code)).foldlM decodeOptional out =
      some { out with instantiations := a.instantiations } := by
  -- the five required sections are left alone
  have hread := decodeWhole_eq_some (hinv.sections.instantiations out)
  exact foldlM_cons_eq rfl (foldlM_cons_eq rfl (foldlM_cons_eq rfl (foldlM_cons_eq rfl (foldlM_cons_eq rfl
    (foldlM_cons_eq hread rfl)))))

theorem foldlM_provenance {a out : Cache.Artifact} (h : provenanceSections a = some provenance)
    (hout : out.frontendIdentity = {}) (offset : ℕ) : (placedViews offset provenance).foldlM decodeOptional out =
      some { out with frontendIdentity := a.frontendIdentity } := by
  rw [provenanceSections] at h
  split at h
  · obtain ⟨hfits, h⟩ := Option.ite_none_left_eq_some.mp h
    obtain rfl := Option.some.inj h
    simp only [Bool.or_eq_true, not_or, Bool.not_eq_true] at hfits
    obtain ⟨⟨hdialect, himplementation⟩, hversion⟩ := hfits
    have hread : readFrontendIdentity out (writeFrontendIdentity a.frontendIdentity) =
        some ({ out with frontendIdentity := a.frontendIdentity }, []) := by
      rw [← List.append_nil (writeFrontendIdentity a.frontendIdentity)]
      simp only [readFrontendIdentity, writeFrontendIdentity, List.append_assoc,
        (inverts_blob (exceedsU32_eq_false hdialect)).bind,
        (inverts_blob (exceedsU32_eq_false himplementation)).bind,
        (inverts_blob (exceedsU32_eq_false hversion)).bind, pure_apply]
    exact foldlM_cons_eq (decodeWhole_eq_some hread) rfl
  · next hnone =>
    obtain rfl := Option.some.inj h
    simp only [hasFrontendIdentity, Bool.or_eq_true, Bool.not_eq_true', not_or, Bool.not_eq_false,
      List.isEmpty_iff] at hnone
    obtain ⟨⟨hdialect, himplementation⟩, hversion⟩ := hnone
    have hsame : out.frontendIdentity = a.frontendIdentity := by
      rw [hout]
      exact (congr (congr (congrArg Cache.FrontendIdentity.mk hdialect) himplementation) hversion).symm
    rw [← hsame]
    rfl

theorem foldlM_debug {a out : Cache.Artifact} (hinv : PayloadsInverted a)
    (hout : out.testFailureLocations = []) (offset : ℕ) :
    (placedViews offset (debugSections a)).foldlM decodeOptional out =
      some { out with testFailureLocations := a.testFailureLocations } := by
  rw [debugSections]
  split
  · next hempty =>
    have hsame : out.testFailureLocations = a.testFailureLocations := hout.trans (List.isEmpty_iff.mp hempty).symm
    rw [← hsame]
    rfl
  · exact foldlM_cons_eq (decodeWhole_eq_some (hinv.sections.debug out)) rfl

theorem decodeOptional_own {v : SectionView} {o : OptionalSection} (h : optionalOf v = some o) (out : Cache.Artifact) :
    decodeOptional out v = some { out with optionalSections := out.optionalSections ++ [o] } := by
  obtain ⟨hid, hsome⟩ := Option.ite_none_right_eq_some.mp h
  obtain rfl := Option.some.inj hsome
  have hne : ∀ k : SectionId, k.toU16 ≤ SectionId.debug.toU16 → v.entry.id ≠ k.toU16 := fun k hk heq =>
    absurd (heq ▸ hid) (UInt16.not_lt.mpr hk)
  have hlt : v.entry.id > SectionId.frontendProvenance.toU16 :=
    UInt16.lt_trans (by decide : SectionId.frontendProvenance.toU16 < SectionId.debug.toU16) hid
  rw [decodeOptional, if_neg (hne .instantiations (by decide)),
    if_neg (hne .frontendProvenance (by decide)), if_neg (hne .debug (by decide)), if_pos hlt]

theorem foldlM_own : ∀ {os : List OptionalSection} {out : Cache.Artifact} {offset : ℕ},
    (∀ o ∈ os, SectionId.debug.toU16 < o.id) → (placedViews offset (os.map encodeOptional)).foldlM decodeOptional out =
      some { out with optionalSections := out.optionalSections ++ os }
  | [], out, _, _ => by rw [List.append_nil]; rfl
  | o :: os, out, offset, h => by
    obtain ⟨ho, hos⟩ := List.forall_mem_cons.mp h
    have hown : ∀ entry : SectionEntry, entry.id = o.id → entry.schemaVersion = o.schemaVersion →
        optionalOf ⟨entry, o.payload⟩ = some o := by
      rintro entry hid hversion
      rw [optionalOf, hid, hversion]
      exact if_pos ho
    refine foldlM_cons_eq (decodeOptional_own (hown _ rfl rfl) out) ((foldlM_own hos).trans ?_)
    rw [List.append_assoc]
    rfl

/-! ### The artifact that is read -/

/-- The references of the artifact that comes back are those of the artifact. -/
theorem validReferences_returned (h : ValidReferences a) : ValidReferences (returned a) where
  types := h.types
  structDefs := h.structDefs
  enumDefs := h.enumDefs
  unionDefs := h.unionDefs
  exprs := h.exprs
  functions := h.functions
  slots := h.slots
  callees := h.callees
  attrsSlots := h.attrsSlots
  attrsCalls := h.attrsCalls
  attrsFns := h.attrsFns
  vtables := h.vtables
  globals := h.globals
  decls := by
    intro d hd
    obtain ⟨hname, htype, htemplate, hbody, hfields, hindex, hrest⟩ := h.decls d hd
    refine ⟨hname, htype, fun hne => ?_, hbody, hfields, fun hne t ht => ?_, hrest⟩
    · exact (htemplate hne).trans_eq (List.length_map _).symm
    · have hmap := (List.getElem?_map ..).symm.trans ht
      obtain ⟨t', ht', rfl⟩ := Option.map_eq_some_iff.mp hmap
      exact hindex hne t' ht'
  templates := by
    intro t ht
    have hmap : (a.templates.map carried).zipIdx = a.templates.zipIdx.map (Prod.map carried id) := List.zipIdx_map ..
    obtain ⟨t', ht', rfl⟩ := List.mem_map.mp (hmap ▸ ht)
    obtain ⟨hname, hdecl, hfn, hret, hparams, hfields, hindex, hvalid, hrest⟩ := h.templates t' ht'
    refine ⟨hname, hdecl, hfn, hret, hparams, hfields, hindex, fun p hp => ?_, hrest⟩
    obtain ⟨p', hp', rfl⟩ := List.mem_map.mp hp
    exact hvalid p' hp'

theorem countsAgree_written (hinv : PayloadsInverted a) (sections : List EncodedSection) :
    countsAgree (frontOf a sections).header (declaredOf a) = true := by
  have hfits := fits_of_roundTrip hinv.sections
  have hdecls := ((decodeDecls_undoes_encodeDecls_iff _).mp hinv.decls).1
  have htemplates : (a.templates.map carried).length < 2 ^ 32 := by
    rw [List.length_map]
    exact hfits.templates.1
  simp only [countsAgree, frontOf, declaredOf, Bool.and_eq_true, beq_iff_eq]
  refine ⟨⟨?_, ?_⟩, ?_⟩
  · exact (UInt32.toNat_ofNat_of_lt' hdecls).symm
  · rw [List.length_map]
    exact (UInt32.toNat_ofNat_of_lt' hfits.templates.1).symm
  · exact (UInt32.toNat_ofNat_of_lt' hfits.code.functions.1).symm

/-- With a payload in every optional section but the last, every sort gives the artifact back. -/
theorem Written.read_eq (h : Written a bytes code provenance) (hown : OwnSections a)
    (hinv : PayloadsInverted a) (hvalid : validateArtifactReferences a = true) (hempty : EmptyPayloadLast a)
    (sort : KeySort offsetOf) : Reader.read sort bytes = some (returned a) := by
  have hpath : a.moduleIdentity.path = a.canonicalPath := by
    have hwritable := h.accepted
    simp only [writable, Bool.and_eq_true, beq_iff_eq] at hwritable
    exact hwritable.1.1.1.1.1.1.1.1.2
  have hlength : kFixedHeaderSize ≤ bytes.length := by
    rw [h.length_eq, headerSizeOf_eq, kFixedHeaderSize]
    omega
  have hviews := h.framedSections_eq hown (h.spaced hown hempty) sort
  have hsections := h.sections_eq hown
  refine Reader.read_of_passed hlength (h.readFront_eq hown) hviews ?_ (countsAgree_written hinv _) ?_
    (decide_eq_true (validReferences_returned (of_decide_eq_true hvalid)))
  · conv_lhs => rw [hsections, List.append_assoc]
    exact decodeAllRequired_known h.encoded hpath hinv _ _ _
  · have hids : ∀ o ∈ sortedOptional a, SectionId.debug.toU16 < o.id := fun o ho =>
      (hown o ((List.perm_insertionSort _ _).subset ho)).1
    rw [hsections]
    simp only [placedViews_append]
    refine foldlM_append_eq (foldlM_append_eq (foldlM_known hinv _) (foldlM_append_eq
      (foldlM_provenance h.producer rfl _) (foldlM_debug hinv rfl _))) ?_
    exact (foldlM_own hids).trans rfl

/-! ### An empty section in front of another -/

theorem decodeOptional_optionalSections {out out' : Cache.Artifact} {v : SectionView}
    (h : decodeOptional out v = some out') : out'.optionalSections = out.optionalSections ++ (optionalOf v).toList := by
  rcases decodeOptional_cases h with ⟨hnone, instantiations, identity, locations, rfl⟩ | ⟨o, hsome, rfl⟩
  · rw [hnone, Option.toList_none, List.append_nil]
  · rw [hsome, Option.toList_some]

theorem foldlM_optionalSections : ∀ {views : List SectionView} {out b : Cache.Artifact},
    views.foldlM decodeOptional out = some b → b.optionalSections = out.optionalSections ++ views.filterMap optionalOf
  | [], out, b, h => by
    obtain rfl := Option.some.inj h
    rw [List.filterMap_nil, List.append_nil]
  | v :: views, out, b, h => by
    rw [List.foldlM_cons] at h
    obtain ⟨out', hstep, h⟩ := Option.bind_eq_some_iff.mp h
    rw [foldlM_optionalSections h, decodeOptional_optionalSections hstep, List.append_assoc]
    cases hv : optionalOf v with
    | none => rw [List.filterMap_cons_none hv, Option.toList_none, List.nil_append]
    | some o => rw [List.filterMap_cons_some hv, Option.toList_some, List.singleton_append]

/-- An empty section and the next one start at one offset. -/
theorem placedViews_empty (offset : ℕ) {o : OptionalSection} (s : OptionalSection) (hempty : o.payload = [])
    (l rest : List EncodedSection) : ∃ v w, offsetOf v = offsetOf w ∧
      (optionalOf v = if SectionId.debug.toU16 < o.id then some o else none) ∧
      (optionalOf w = if SectionId.debug.toU16 < s.id then some s else none) ∧
      [v, w].Sublist (placedViews offset (l ++ encodeOptional o :: encodeOptional s :: rest)) := by
  rw [placedViews_append, placedViews, placedViews]
  refine ⟨_, _, ?_, rfl, rfl, .trans (((List.nil_sublist _).cons_cons _).cons_cons _) (List.sublist_append_right _ _)⟩
  have hlength : (encodeOptional o).payload.length = 0 := by rw [encodeOptional, hempty, List.length_nil]
  rw [hlength, Nat.add_zero]

/-- What a container of `a` should be decoded to, as far as the container itself goes. -/
structure Returned (a b : Cache.Artifact) : Prop where
  canonicalPath : b.canonicalPath = a.canonicalPath
  semanticProfile : b.semanticProfile = a.semanticProfile
  sourceFingerprint : b.sourceFingerprint = a.sourceFingerprint
  publicAbiHi : b.publicAbiHi = a.publicAbiHi
  publicAbiLo : b.publicAbiLo = a.publicAbiLo
  deps : b.deps = a.deps
  frontendIdentity : b.frontendIdentity = a.frontendIdentity
  optionalSections : b.optionalSections.Perm a.optionalSections
  increasing : b.optionalSections.Pairwise fun o o' => o.id < o'.id

/-- The sort that reverses sections of one offset puts an empty section behind the next one. -/
theorem Written.emptyPayloadLast {a b : Cache.Artifact} (h : Written a bytes code provenance)
    (hown : OwnSections a) (hread : Reader.read (reversingSort offsetOf) bytes = some b)
    (hincreasing : b.optionalSections.Pairwise fun o o' => o.id < o'.id) : EmptyPayloadLast a := by
  intro o ho hempty o' ho'
  by_contra hlt
  have hmem : ∀ {o}, o ∈ a.optionalSections → o ∈ sortedOptional a := fun ho =>
    (List.perm_insertionSort _ _).symm.subset ho
  have hids : ∀ {o}, o ∈ sortedOptional a → SectionId.debug.toU16 < o.id := fun ho =>
    (hown _ ((List.perm_insertionSort _ _).subset ho)).1
  obtain ⟨p, q, hsplit⟩ := List.append_of_mem (hmem ho)
  have hstrict := h.optional_strict
  rw [hsplit] at hstrict
  obtain ⟨-, htail, hcross⟩ := List.pairwise_append.mp hstrict
  -- the section behind the empty one
  obtain ⟨s, q, rfl⟩ : ∃ s q', q = s :: q' := by
    refine List.exists_cons_of_ne_nil ?_
    rintro rfl
    have hmem' := hmem ho'
    rw [hsplit] at hmem'
    rcases List.mem_append.mp hmem' with hp | hp
    · exact hlt (UInt16.le_of_lt (hcross o' hp o (List.mem_singleton_self o)))
    · exact hlt (List.mem_singleton.mp hp ▸ UInt16.le_refl _)
  have hsid : o.id < s.id := (List.pairwise_cons.mp htail).1 s (List.mem_cons_self ..)
  have hsmem : s ∈ sortedOptional a := by
    rw [hsplit]
    exact List.mem_append_right _ (List.mem_cons_of_mem _ (List.mem_cons_self ..))
  have hsections : writtenSections a code provenance = (knownWith a code ++ (provenance ++ debugSections a) ++
      p.map encodeOptional) ++ encodeOptional o :: encodeOptional s :: q.map encodeOptional := by
    rw [h.sections_eq hown, hsplit, List.map_append, ← List.append_assoc]
    rfl
  obtain ⟨v, w, hoffset, hv, hw, hsub⟩ := placedViews_empty
    (headerSizeOf a (writtenSections a code provenance).length) s hempty
    (knownWith a code ++ (provenance ++ debugSections a) ++ p.map encodeOptional) (q.map encodeOptional)
  rw [← hsections] at hsub
  have hswapped := reversingSort_swaps hsub hoffset
  obtain ⟨f, rest, views, declared, hfront, hviews, -, -, hwhole, -⟩ := Reader.read_eq_some hread
  obtain ⟨rfl, -⟩ := Prod.mk.inj (Option.some.inj (hfront.symm.trans (h.readFront_eq hown)))
  obtain ⟨rfl, -⟩ := framedSections_eq_some hviews
  rw [h.views_eq] at hwhole
  have hout := hswapped.filterMap optionalOf
  rw [List.filterMap_cons_some (hw.trans (if_pos (hids hsmem))),
    List.filterMap_cons_some (hv.trans (if_pos (hids (hmem ho)))), List.filterMap_nil] at hout
  rw [foldlM_optionalSections hwhole] at hincreasing
  have hpair := hincreasing.sublist (hout.trans (List.sublist_append_right _ _))
  have hback : s.id < o.id := (List.pairwise_cons.mp hpair).1 o (List.mem_singleton_self o)
  exact absurd hback (UInt16.not_lt.mpr (UInt16.le_of_lt hsid))

/-- A container that `write` accepts is read back by every sort exactly when every optional section without
    a payload has the greatest id. -/
theorem container_roundTrip_iff {a : Cache.Artifact} {checksum : UInt32} {bytes : List UInt8}
    (hwrite : Writer.write a = some (checksum, bytes)) (hinv : PayloadsInverted a)
    (hvalid : validateArtifactReferences a = true) (hown : OwnSections a) :
    (∀ sort : KeySort offsetOf, ∃ b, Reader.read sort bytes = some b ∧ Returned a b) ↔ EmptyPayloadLast a := by
  obtain ⟨code, provenance, h⟩ := Writer.write_eq_some hwrite
  constructor
  · intro hall
    obtain ⟨b, hread, hreturned⟩ := hall (reversingSort offsetOf)
    exact h.emptyPayloadLast hown hread hreturned.increasing
  · intro hempty sort
    exact ⟨returned a, h.read_eq hown hinv hvalid hempty sort, rfl, rfl, rfl, rfl, rfl, rfl, rfl,
      List.perm_insertionSort _ _, h.optional_strict⟩

theorem payloadsInverted_small (sections : List OptionalSection) :
    PayloadsInverted { smallArtifact with optionalSections := sections } where
  types := (by decide +kernel : decodeTypes {} (encodeTypes smallArtifact.toArtifact) =
    some (smallArtifact.toArtifact, []))
  decls := (by decide +kernel : decodeDecls (encodeDecls smallArtifact.decls) = some (smallArtifact.decls, []))
  sections := by
    refine roundTrip_of_fits nofun nofun ⟨nofun, List.nodup_nil⟩ ⟨?_, ?_, ?_, ?_, ?_⟩
    · constructor <;> simp [smallArtifact, FitsU32]
    · simp [TemplatesFit, smallArtifact, FitsU32]
    · constructor <;> simp [smallArtifact, FitsU32]
    · simp [InstantiationsFit, smallArtifact, FitsU32]
    · simp [LocationsFit, smallArtifact, FitsU32]

theorem container_roundTrip_small : ∃ checksum bytes, Writer.write smallArtifact = some (checksum, bytes) ∧
    ∀ sort : KeySort offsetOf, ∃ b, Reader.read sort bytes = some b ∧ Returned smallArtifact b := by
  have hwritten : (Writer.write smallArtifact).isSome = true := by decide +kernel
  obtain ⟨⟨checksum, bytes⟩, hwrite⟩ := Option.isSome_iff_exists.mp hwritten
  exact ⟨checksum, bytes, hwrite, (container_roundTrip_iff hwrite (payloadsInverted_small _)
    (by decide +kernel) (by decide +kernel)).mpr (by decide +kernel)⟩

/-- Ten empty sections behind the seven that have payloads. -/
def manyEmpty : Cache.Artifact :=
  { smallArtifact with optionalSections := (List.range 10).map fun i => ⟨UInt16.ofNat (9 + i), 1, []⟩ }

/-- They come back in the reverse order. -/
theorem container_roundTrip_fails : ∃ checksum bytes, Writer.write manyEmpty = some (checksum, bytes) ∧
    PayloadsInverted manyEmpty ∧ validateArtifactReferences manyEmpty = true ∧ OwnSections manyEmpty ∧
    ((Reader.read (reversingSort offsetOf) bytes).map fun b => b.optionalSections.map (·.id)) =
      some [18, 17, 16, 15, 14, 13, 12, 11, 10, 9] ∧
    ¬∃ b, Reader.read (reversingSort offsetOf) bytes = some b ∧ Returned manyEmpty b := by
  have hrun : ((Writer.write manyEmpty).bind fun r => (Reader.read (reversingSort offsetOf) r.2).map fun b =>
      b.optionalSections.map (·.id)) = some [18, 17, 16, 15, 14, 13, 12, 11, 10, 9] := by decide +kernel
  obtain ⟨⟨checksum, bytes⟩, hwrite, hread⟩ := Option.bind_eq_some_iff.mp hrun
  refine ⟨checksum, bytes, hwrite, payloadsInverted_small _, by decide +kernel, by decide +kernel, hread, ?_⟩
  rintro ⟨b, hb, hreturned⟩
  rw [hb, Option.map_some, Option.some.injEq] at hread
  have hincreasing : (b.optionalSections.map (·.id)).Pairwise (· < ·) := List.pairwise_map.mpr hreturned.increasing
  rw [hread] at hincreasing
  exact absurd hincreasing (by decide)

end Zith.Zirl
