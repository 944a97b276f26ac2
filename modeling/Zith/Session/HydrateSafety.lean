import Zith.Session.Hydrate
import Zith.Zirl.ContainerRoundTrip

/-! No lookup of the hydration is out of range, for an artifact that was read: what the validator and the
    decoders have checked is what the lookups need. -/

namespace Zith.Session
open Zith.Lib Zith.Hir
open Zirl (CompactType CompactStructDef CompactEnumDef CompactUnionDef DeclRecord ValidReferences
  ValidStringId ValidType ValidStructDef ValidExpr ValidFunction ValidTemplate ValidVTable FitsU32 ProofsRefer)
open Zith.Cache (CompactExpr CompactExprKind CompactFunction CompactVTable TemplateBlueprint)

theorem isSome_getElem {α : Type} {l : List α} {i : ℕ} (h : i < l.length) : l[i]?.isSome = true := by
  rw [List.getElem?_eq_getElem h]
  rfl

theorem lt_of_mem_zipIdx {α : Type} {l : List α} {a : α × ℕ} (h : a ∈ l.zipIdx) : a.2 < l.length := by
  have hlt := (List.mem_zipIdx (x := a.1) (i := a.2) h).2.1
  omega

theorem exists_mem_zipIdx {α : Type} {l : List α} {a : α} (h : a ∈ l) : ∃ i, (a, i) ∈ l.zipIdx := by
  obtain ⟨i, hi⟩ := List.mem_iff_getElem?.mp h
  exact ⟨i, List.mk_mem_zipIdx_iff_getElem?.mpr hi⟩

/-! ### Symbols -/

theorem linkMembers_some {declSymIds : List ℕ} {symbols : List Symbol} {d : DeclRecord × ℕ}
    (hd : d.2 < declSymIds.length) (hids : ∀ id ∈ declSymIds, id < symbols.length) :
    ∃ symbols', linkMembers declSymIds symbols d = some symbols' ∧ symbols'.length = symbols.length := by
  rw [linkMembers]
  split
  · have hid := hids _ (List.getElem_mem hd)
    rw [List.getElem?_eq_getElem hd, Option.bind_eq_bind, Option.bind_some, List.getElem?_eq_getElem hid]
    exact ⟨_, rfl, List.length_set ..⟩
  · exact ⟨_, rfl, rfl⟩

theorem declareSymbols_some (art : Cache.Artifact) (symbols : List Symbol) :
    (declareSymbols art symbols).isSome = true := by
  have hrun : ∃ symbols', declareSymbols art symbols = some symbols' ∧
      symbols'.length = symbols.length + art.decls.length := by
    refine exists_foldlM (fun d hd s hs => ?_) (by rw [List.length_append, List.length_map])
    have hlen : d.2 < ((List.range art.decls.length).map (symbols.length + ·)).length := by
      rw [List.length_map, List.length_range]
      exact lt_of_mem_zipIdx hd
    have hids : ∀ id ∈ (List.range art.decls.length).map (symbols.length + ·), id < s.length := fun id hid => by
      obtain ⟨i, hi, rfl⟩ := List.mem_map.mp hid
      have := List.mem_range.mp hi
      omega
    obtain ⟨s', hlink, hs'⟩ := linkMembers_some hlen hids
    exact ⟨s', hlink, hs'.trans hs⟩
  obtain ⟨symbols', hrun, -⟩ := hrun
  rw [hrun]
  rfl

/-! ### Types -/

section
variable {σ : Type} (table : TypeTable σ) {art : Cache.Artifact}

theorem run_succeeds (call : TypeCall) : Succeeds (run table call) fun _ => True :=
  fun _ => ⟨_, _, rfl, trivial⟩

theorem tell_succeeds (call : TypeCall) : Succeeds (tell table call) fun _ => True :=
  (run_succeeds table call).bind fun _ _ => .pure trivial

theorem tellIf_succeeds (b : Bool) (call : TypeCall) : Succeeds (tellIf table b call) fun _ => True := by
  cases b with
  | true => exact tell_succeeds table call
  | false => exact .pure trivial

theorem string_succeeds {id : UInt32} (h : ValidStringId art id) :
    Succeeds (string art id : StateT σ Option Text) fun _ => True :=
  (Succeeds.ofOption (isSome_getElem h)).any

theorem strings_succeed {ids : List UInt32} (h : ∀ id ∈ ids, ValidStringId art id) :
    Succeeds (ids.mapM (string art) : StateT σ Option (List Text)) fun _ => True :=
  (Succeeds.mapM fun id hid => string_succeeds (h id hid)).any

/-- The composite definitions have their types. -/
def Defined (art : Cache.Artifact) (c : Composites) : Prop :=
  c.structTids.length = art.structDefs.length ∧ c.enumTids.length = art.enumDefs.length ∧
    c.unionTids.length = art.unionDefs.length

theorem defineComposites_succeeds : Succeeds (defineComposites table art) (Defined art) :=
  (Succeeds.mapM fun _ _ => run_succeeds table _).bind fun _ hs =>
    (Succeeds.mapM fun _ _ => run_succeeds table _).bind fun _ he =>
    (Succeeds.mapM fun _ _ => run_succeeds table _).bind fun _ hu => .pure ⟨hs, he, hu⟩

theorem hydrateType_succeeds (c : Composites) (ids : List TypeId) {t : CompactType} (h : ValidType art t) :
    Succeeds (hydrateType table art c ids t) fun _ => True := by
  rw [hydrateType]
  split
  case h_20 hkind =>
    -- a pack: the validator has checked the names of the members
    have hval : t.kind.val = 20 := UInt8.toNat_inj.mp hkind
    have hpack : t.kind = .pack := congrArg Zirl.CompactTypeKind.mk hval
    exact (strings_succeed (h.2.2 hpack).2).bind fun _ _ => run_succeeds table _
  case h_17 => split <;> [exact run_succeeds table _; exact .pure trivial]
  case h_23 => split <;> [exact run_succeeds table _; exact .pure trivial]
  all_goals first
    | exact run_succeeds table _
    | exact .pure trivial

theorem hydrateStructDef_succeeds {c : Composites} (hc : Defined art c) (ids : List TypeId)
    {d : CompactStructDef × ℕ} (hd : d ∈ art.structDefs.zipIdx) (h : ValidStructDef art d.1) :
    Succeeds (hydrateStructDef table art c ids d) fun _ => True := by
  obtain ⟨-, -, -, -, hnames, -⟩ := h
  have htid : d.2 < c.structTids.length := hc.1 ▸ lt_of_mem_zipIdx hd
  refine (Succeeds.ofOption (isSome_getElem htid)).bind fun _ _ => (tellIf_succeeds table _ _).bind fun _ _ =>
    (tellIf_succeeds table _ _).bind fun _ _ => (tellIf_succeeds table _ _).bind fun _ _ =>
    .forM fun field hfield => ?_
  have hname : field.1.1 ∈ d.1.fieldNameIds := (List.of_mem_zip (List.fst_mem_of_mem_zipIdx hfield)).1
  exact (string_succeeds (hnames _ hname)).bind fun _ _ => tell_succeeds table _

theorem hydrateEnumDef_succeeds {c : Composites} (hc : Defined art c) (ids : List TypeId)
    {d : CompactEnumDef × ℕ} (hd : d ∈ art.enumDefs.zipIdx) :
    Succeeds (hydrateEnumDef table c ids d) fun _ => True := by
  have htid : d.2 < c.enumTids.length := hc.2.1 ▸ lt_of_mem_zipIdx hd
  exact (Succeeds.ofOption (isSome_getElem htid)).bind fun _ _ => (tellIf_succeeds table _ _).bind fun _ _ =>
    .forM fun _ _ => tell_succeeds table _

theorem hydrateUnionDef_succeeds {c : Composites} (hc : Defined art c) (ids : List TypeId)
    {d : CompactUnionDef × ℕ} (hd : d ∈ art.unionDefs.zipIdx) :
    Succeeds (hydrateUnionDef table c ids d) fun _ => True := by
  have htid : d.2 < c.unionTids.length := hc.2.2 ▸ lt_of_mem_zipIdx hd
  exact (Succeeds.ofOption (isSome_getElem htid)).bind fun _ _ => .forM fun _ _ => tell_succeeds table _

theorem hydrateTypes_succeeds (h : ValidReferences art) : Succeeds (hydrateTypes table art) fun _ => True := by
  refine (tell_succeeds table _).bind fun _ _ => (Succeeds.forM fun _ _ => tell_succeeds table _).bind fun _ _ =>
    (defineComposites_succeeds table).bind fun c hc => ?_
  have htypes : Succeeds (art.types.foldlM (fun ids t => do return ids ++ [← hydrateType table art c ids t]) [])
      fun _ => True := Succeeds.foldlM (fun t ht ids _ =>
        (hydrateType_succeeds table c ids (h.types t ht)).bind fun _ _ => .pure trivial) trivial
  refine htypes.bind fun ids _ => (Succeeds.forM fun d hd => ?_).bind fun _ _ =>
    (Succeeds.forM fun d hd => hydrateEnumDef_succeeds table hc ids hd).bind fun _ _ =>
    (Succeeds.forM fun d hd => hydrateUnionDef_succeeds table hc ids hd).bind fun _ _ => .pure trivial
  exact hydrateStructDef_succeeds table hc ids hd (h.structDefs d.1 (List.fst_mem_of_mem_zipIdx hd))

/-! ### Templates, expressions and functions -/

theorem hydrateTemplate_succeeds (ids : List TypeId) {t : TemplateBlueprint} {index : ℕ}
    (h : ValidTemplate art t index) :
    Succeeds (hydrateTemplate art ids t : StateT σ Option HirTemplate) fun _ => True := by
  obtain ⟨-, -, -, -, -, -, -, -, -, hparams, hfields, -⟩ := h
  exact (strings_succeed hparams).bind fun _ _ => (strings_succeed hfields).bind fun _ _ => .pure trivial

theorem hydrateLiteral_succeeds (ids : List TypeId) {e : CompactExpr} (h : e.flags = 3 → ValidStringId art e.nameId) :
    Succeeds (hydrateLiteral art ids e : StateT σ Option HirExpr) fun _ => True := by
  rw [hydrateLiteral]
  split
  · exact .pure trivial
  split
  · exact .pure trivial
  split
  · next hflags => exact (string_succeeds (h hflags)).bind fun _ _ => .pure trivial
  · exact .pure trivial

theorem hydrateCast_succeeds (ids : List TypeId) (e : CompactExpr) :
    Succeeds (hydrateCast table ids e) fun _ => True := by
  intro types
  rw [hydrateCast]
  split
  · exact ⟨_, _, rfl, trivial⟩
  · split <;> exact ⟨_, _, rfl, trivial⟩

/-- The kinds that carry a name are those whose name the validator has checked. -/
theorem hydrateExpr_succeeds (ids : List TypeId) {e : CompactExpr} (h : ValidExpr art e) :
    Succeeds (hydrateExpr table art ids e) fun _ => True := by
  have hname := h.2
  rw [Zirl.NeedsName] at hname
  rw [hydrateExpr]
  cases hkind : CompactExprKind.ofU8 e.kind with
  | none => exact .pure trivial
  | some kind =>
    rw [hkind] at hname
    cases kind
    case literal => exact hydrateLiteral_succeeds ids hname
    case cast => exact hydrateCast_succeeds table ids e
    all_goals first
      | exact .pure trivial
      | exact (string_succeeds (hname trivial)).bind fun _ _ => .pure trivial

theorem hydrateFn_succeeds (ids : List TypeId) {f : CompactFunction} {index : ℕ} (h : ValidFunction art f index) :
    Succeeds (hydrateFn art ids f : StateT σ Option HirFunction) fun _ => True := by
  obtain ⟨-, hadapter, -, -, hparams, -⟩ := h
  have hforeign : Succeeds (hydrateForeignAdapter art f : StateT σ Option (Option Text)) fun _ => True := by
    rw [hydrateForeignAdapter]
    split
    · exact .pure trivial
    · next hne => exact (string_succeeds (hadapter hne)).bind fun _ _ => .pure trivial
  refine hforeign.bind fun _ _ => (Succeeds.mapM fun p hp => ?_).bind fun _ _ => .pure trivial
  exact string_succeeds (hparams _ (List.of_mem_zip hp).2)

end

/-! ### Calls, vtables and attributes -/

section
variable {art : Cache.Artifact}

theorem HirAttrs.fn_some (attrs : HirAttrs) (index : ℕ) (f : HirFnAttrs → HirFnAttrs) :
    ∃ attrs', attrs.fn index f = some attrs' := by
  obtain ⟨l, hl⟩ := Option.isSome_iff_exists.mp (recordAt_isSome attrs.fns {} f (Nat.lt_succ_self index))
  exact ⟨_, by rw [HirAttrs.fn, hl]; rfl⟩

theorem markDiscardable_some (attrs : HirAttrs) (f : CompactFunction × ℕ) :
    ∃ attrs', markDiscardable attrs f = some attrs' := by
  rw [markDiscardable]
  split
  · exact HirAttrs.fn_some ..
  · exact ⟨attrs, rfl⟩

theorem resolveCall_some {exprs : List HirExpr} {e : CompactExpr × ℕ} (he : e ∈ art.exprs.zipIdx)
    (hfits : FitsU32 art.exprs) (hlen : art.exprs.length ≤ exprs.length) :
    ∃ exprs', resolveCall art exprs e = some exprs' ∧ art.exprs.length ≤ exprs'.length := by
  rw [resolveCall]
  split
  · exact ⟨exprs, rfl, hlen⟩
  · have hlt := lt_of_mem_zipIdx he
    have hid : (UInt32.ofNat e.2).toNat = e.2 := UInt32.toNat_ofNat_of_lt' (lt_trans hlt hfits)
    have hin : e.2 < exprs.length := lt_of_lt_of_le hlt hlen
    have hget : exprs[(UInt32.ofNat e.2).toNat]? = some exprs[e.2] := by
      rw [hid, List.getElem?_eq_getElem hin]
    exact ⟨_, Option.bind_eq_some_iff.mpr ⟨_, hget, rfl⟩, hlen.trans_eq (List.length_set ..).symm⟩

theorem hydrateVTable_some {vtables : List HirVTable} {v : CompactVTable} (h : ValidVTable art v) :
    ∃ vtables', hydrateVTable art vtables v = some vtables' := by
  rw [hydrateVTable]
  split
  · exact ⟨vtables, rfl⟩
  · have hslots : (hydrateSlots art v).isSome = true := isSome_mapM fun slot hslot => by
      have hlt : slot.2 < v.slotFunctionSignatureTypeIds.length := h.2.1 ▸ lt_of_mem_zipIdx hslot
      rw [List.getElem?_eq_getElem hlt]
      rfl
    obtain ⟨slots, hslots⟩ := Option.isSome_iff_exists.mp hslots
    exact ⟨_, by rw [hslots]; rfl⟩

/-- Every slot a record of attributes names is one the module has, and not the invalid one. -/
theorem hydrateSlotAttrs_some (h : ValidReferences art) {s : Cache.HirSlotAttrsRecord} (hs : s ∈ art.attrsSlots)
    (attrs : HirAttrs) : ∃ attrs', hydrateSlotAttrs attrs s = some attrs' := by
  have hslot := (h.slots _ (h.attrsSlots.1 s hs)).1
  have hne : s.slot.toNat ≠ 2 ^ 32 - 1 := fun heq => hslot (UInt32.toNat_inj.mp heq)
  have hlt := s.slot.toNat_lt
  obtain ⟨l, hl⟩ := Option.isSome_iff_exists.mp (recordAt_isSome attrs.slots {}
    (fun _ => ⟨s.ownership, s.consumed, s.nonNull, s.volatileSlot⟩) (lt_toNat_add_one (show s.slot.toNat < 2 ^ 32 - 1 by omega)))
  exact ⟨_, by rw [hydrateSlotAttrs, HirAttrs.slot, hl]; rfl⟩

theorem hydrateCallAttrs_some (h : ValidReferences art) (hfits : FitsU32 art.exprs)
    {c : Cache.HirCallAttrsRecord} (hc : c ∈ art.attrsCalls) (attrs : HirAttrs) :
    ∃ attrs', hydrateCallAttrs attrs c = some attrs' := by
  obtain ⟨e, he, -⟩ := h.attrsCalls.1 c hc
  have hlt := (List.getElem?_eq_some_iff.mp he).1
  rw [FitsU32] at hfits
  obtain ⟨l, hl⟩ := Option.isSome_iff_exists.mp (recordAt_isSome attrs.calls {}
    (fun a => ⟨a.args ++ c.argEscapes.map (·.toUInt8), c.returnsArg⟩)
    (lt_toNat_add_one (show c.exprId.toNat < 2 ^ 32 - 1 by omega)))
  exact ⟨_, by rw [hydrateCallAttrs, HirAttrs.call, hl]; rfl⟩

theorem hydrateSafetyProof_some (hfits : FitsU32 art.exprs) {p : Cache.HirSafetyProofRecord}
    (hp : p.exprId.toNat < art.exprs.length) (attrs : HirAttrs) :
    ∃ attrs', hydrateSafetyProof attrs p = some attrs' := by
  rw [FitsU32] at hfits
  obtain ⟨l, hl⟩ := Option.isSome_iff_exists.mp (recordAt_isSome attrs.safetyProofs {}
    (fun _ => ⟨p.kind, p.operandA, p.operandB, p.operandC, true⟩)
    (lt_toNat_add_one (show p.exprId.toNat < 2 ^ 32 - 1 by omega)))
  exact ⟨_, by rw [hydrateSafetyProof, HirAttrs.safetyProof, hl]; rfl⟩

/-- What the decoders have checked, beside the references. -/
structure Decoded (art : Cache.Artifact) : Prop where
  exprs : FitsU32 art.exprs
  proofs : ProofsRefer art

theorem exists_fold {α β : Type} {f : β → α → Option β} {l : List α}
    (h : ∀ a ∈ l, ∀ b, ∃ b', f b a = some b') (b : β) : ∃ b', l.foldlM f b = some b' := by
  obtain ⟨b', hrun, -⟩ := exists_foldlM (P := fun _ => True)
    (fun a ha b _ => let ⟨b', hb'⟩ := h a ha b; ⟨b', hb', trivial⟩) (b := b) trivial
  exact ⟨b', hrun⟩

theorem hydrateAttrs_some (h : ValidReferences art) (hdecoded : Decoded art) (attrs : HirAttrs) :
    (hydrateAttrs art attrs).isSome = true := by
  obtain ⟨a₁, h₁⟩ := exists_fold (fun s hs => hydrateSlotAttrs_some h hs) attrs
  obtain ⟨a₂, h₂⟩ := exists_fold (fun c hc => hydrateCallAttrs_some h hdecoded.exprs hc) a₁
  obtain ⟨a₃, h₃⟩ := exists_fold (l := art.attrsFns) (f := hydrateFnAttrs)
    (fun f _ attrs => HirAttrs.fn_some attrs f.fnIndex.toNat _) a₂
  obtain ⟨a₄, h₄⟩ := exists_fold (fun p hp =>
    hydrateSafetyProof_some hdecoded.exprs (hdecoded.proofs.existing p hp)) a₃
  exact Option.isSome_iff_exists.mpr ⟨a₄, Option.bind_eq_some_iff.mpr ⟨a₁, h₁, Option.bind_eq_some_iff.mpr
    ⟨a₂, h₂, Option.bind_eq_some_iff.mpr ⟨a₃, h₃, h₄⟩⟩⟩⟩

end

/-! ### The whole artifact -/

section
variable {σ : Type} (table : TypeTable σ) {art : Cache.Artifact}

theorem hydrateModule_succeeds (h : ValidReferences art) (hdecoded : Decoded art) (hir : HirModule) :
    Succeeds (hydrateModule table art hir) fun _ => True := by
  refine (hydrateTypes_succeeds table h).bind fun ids _ => ?_
  have htemplates : Succeeds (art.templates.mapM (hydrateTemplate art ids) : StateT σ Option (List HirTemplate))
      fun _ => True := (Succeeds.mapM fun t ht =>
        let ⟨index, hindex⟩ := exists_mem_zipIdx ht
        hydrateTemplate_succeeds ids (h.templates (t, index) hindex)).any
  have hfns : Succeeds (art.functions.mapM (hydrateFn art ids) : StateT σ Option (List HirFunction))
      fun _ => True := (Succeeds.mapM fun f hf =>
        let ⟨index, hindex⟩ := exists_mem_zipIdx hf
        hydrateFn_succeeds ids (h.functions (f, index) hindex)).any
  refine htemplates.bind fun templates _ =>
    (Succeeds.mapM fun e he => hydrateExpr_succeeds table ids (h.exprs e he)).bind fun exprs hexprs =>
    hfns.bind fun fns _ => ?_
  obtain ⟨attrs, hattrs⟩ := exists_fold (fun f (_ : f ∈ art.functions.zipIdx) attrs =>
    markDiscardable_some attrs f) hir.attrs
  have hlen : art.exprs.length ≤ (hir.exprs ++ exprs).length := by
    rw [List.length_append]
    omega
  obtain ⟨exprs', hcalls, -⟩ := exists_foldlM (fun e he _ hlen => resolveCall_some he hdecoded.exprs hlen) hlen
  obtain ⟨vtables, hvtables⟩ := exists_fold (fun v hv _ => hydrateVTable_some (h.vtables v hv)) hir.vtables
  refine (Succeeds.ofOption (Option.isSome_of_eq_some hattrs)).bind fun attrs' _ =>
    (Succeeds.ofOption (Option.isSome_of_eq_some hcalls)).bind fun _ _ =>
    (Succeeds.ofOption (Option.isSome_of_eq_some hvtables)).bind fun _ _ =>
    (Succeeds.ofOption (hydrateAttrs_some h hdecoded attrs')).bind fun _ _ => .pure trivial

/-- An artifact whose references are valid is hydrated. -/
theorem hydrate_isSome (h : ValidReferences art) (hdecoded : Decoded art) (session : CompilationSession σ) :
    (session.hydrateFromArtifact table art).isSome = true := by
  obtain ⟨symbols, hsymbols⟩ := Option.isSome_iff_exists.mp (declareSymbols_some art session.symbols)
  obtain ⟨hir, types, hhir, -⟩ := hydrateModule_succeeds table h hdecoded session.hir session.types
  rw [CompilationSession.hydrateFromArtifact, hsymbols, Option.bind_eq_bind, Option.bind_some, hhir]
  rfl

end

/-! ### The artifacts that are read -/

theorem proofsRefer_of_decodeAttrs {out art : Cache.Artifact} {payload rest : List UInt8}
    (h : Zirl.decodeAttrs out payload = some (art, rest)) : art.exprs = out.exprs ∧ ProofsRefer art := by
  obtain ⟨slots, _, -, h⟩ := Reader.bind_eq_some h
  obtain ⟨calls, _, -, h⟩ := Reader.bind_eq_some h
  obtain ⟨fns, _, -, h⟩ := Reader.bind_eq_some h
  obtain ⟨proofs, _, -, h⟩ := Reader.bind_eq_some h
  obtain ⟨_, _, hcheck, h⟩ := Reader.bind_eq_some h
  obtain ⟨rfl, -⟩ := Reader.pure_eq_some h
  exact ⟨rfl, (Zirl.proofsRefer_iff _).mp (Reader.check_eq_some hcheck).1⟩

theorem decoded_of_required {views : List Zirl.SectionView} {out declared : Cache.Artifact}
    (h : Zirl.decodeAllRequired views out = some declared) : Decoded declared := by
  obtain ⟨_, -, h⟩ := Option.bind_eq_some_iff.mp h
  obtain ⟨_, -, h⟩ := Option.bind_eq_some_iff.mp h
  obtain ⟨_, -, h⟩ := Option.bind_eq_some_iff.mp h
  obtain ⟨coded, hcode, hattrs⟩ := Option.bind_eq_some_iff.mp h
  obtain ⟨_, _, hcode⟩ := Zirl.decodeRequired_some hcode
  obtain ⟨_, _, hattrs⟩ := Zirl.decodeRequired_some hattrs
  obtain ⟨hexprs, hproofs⟩ := proofsRefer_of_decodeAttrs hattrs
  exact ⟨hexprs ▸ (Zirl.ensures_decodeCode _ _ _ _ hcode).exprs.1, hproofs⟩

/-- The sections that may be missing change neither the expressions nor the proofs. -/
theorem decoded_of_optional : ∀ {views : List Zirl.SectionView} {out art : Cache.Artifact},
    views.foldlM Zirl.decodeOptional out = some art → Decoded out → Decoded art
  | [], _, _, h, hout => Option.some.inj h ▸ hout
  | _ :: views, _, _, h, hout => by
    rw [List.foldlM_cons] at h
    obtain ⟨next, hstep, h⟩ := Option.bind_eq_some_iff.mp h
    refine decoded_of_optional h ?_
    rcases Zirl.decodeOptional_cases hstep with ⟨-, _, _, _, rfl⟩ | ⟨_, -, rfl⟩
    · exact ⟨hout.exprs, hout.proofs.existing, hout.proofs.distinct⟩
    · exact ⟨hout.exprs, hout.proofs.existing, hout.proofs.distinct⟩

/-- The ids that are stored, or handed to a table that grows, refer to something all the same. -/
structure IdsRefer (art : Cache.Artifact) : Prop where
  methods : ∀ t ∈ art.templates, ∀ method ∈ t.methodDeclIndices, method.toNat < art.decls.length
  slots : ∀ s ∈ art.attrsSlots, s.slot.toNat < Zirl.slotCapacity art
  calls : ∀ c ∈ art.attrsCalls, c.exprId.toNat < art.exprs.length
  fns : ∀ f ∈ art.attrsFns, f.fnIndex.toNat < art.functions.length
  proofs : ∀ p ∈ art.attrsSafetyProofs, p.exprId.toNat < art.exprs.length

theorem idsRefer_of_valid {art : Cache.Artifact} (h : ValidReferences art) (hdecoded : Decoded art) : IdsRefer art where
  methods t ht method hmethod := by
    obtain ⟨index, hindex⟩ := exists_mem_zipIdx ht
    obtain ⟨-, -, -, -, -, -, -, -, -, -, -, -, -, hmethods, -⟩ := h.templates _ hindex
    exact hmethods method hmethod
  slots s hs := (h.slots _ (h.attrsSlots.1 s hs)).2
  calls c hc := by
    obtain ⟨e, he, -⟩ := h.attrsCalls.1 c hc
    exact (List.getElem?_eq_some_iff.mp he).1
  fns := h.attrsFns.1
  proofs := hdecoded.proofs.existing

/-- An artifact that was read is hydrated without a lookup out of range. -/
theorem hydrate_read {sort : KeySort Zirl.offsetOf} {bytes : List UInt8} {art : Cache.Artifact}
    (h : Zirl.Reader.read sort bytes = some art) : IdsRefer art ∧
      ∀ (σ : Type) (table : TypeTable σ) (session : CompilationSession σ),
        (session.hydrateFromArtifact table art).isSome = true := by
  obtain ⟨_, _, _, declared, -, -, hdeclared, -, hwhole, hvalid⟩ := Zirl.Reader.read_eq_some h
  have hvalid : ValidReferences art := of_decide_eq_true hvalid
  have hdecoded := decoded_of_optional hwhole (decoded_of_required hdeclared)
  exact ⟨idsRefer_of_valid hvalid hdecoded, fun _ table => hydrate_isSome table hvalid hdecoded⟩

/-- A function `f` that calls itself, with a struct, a binding and an attribute of each kind but slots. -/
def selfCall : Cache.Artifact :=
  { canonicalPath := [0x6d], moduleIdentity := ⟨[0x6d]⟩, semanticProfile := ⟨[0x70], 1⟩
    strings := [[0x66], [0x78]]
    types := [⟨⟨2⟩, 0, 0, 0, 0, [], []⟩, ⟨⟨10⟩, 0, 0, 0, 0, [], []⟩, ⟨⟨20⟩, 0, 0, 0, 0, [0], [1]⟩]
    structDefs := [⟨[0x66], 0, [1], [0], [], [], false, false, 0, 0, 0⟩]
    functions := [{ name := [0x66], nameId := 0, signatureTypeId := 1, discardable := true,
                    blocks := [{ insts := [0, 1] }] }]
    exprs := [{ kind := 3, nameId := 1 },
              { kind := 5, resolvedFunctionNameId := 0, resolvedFunctionSignatureTypeId := 1 }]
    vtables := [{ nameId := 0, slotFunctionNameIds := [0], slotFunctionSignatureTypeIds := [1] }]
    attrsCalls := [{ exprId := 1, argEscapes := [1] }]
    attrsFns := [{ fnIndex := 0, readOnly := true }]
    attrsSafetyProofs := [{ exprId := 0 }] }

def selfCallContainer : List UInt8 := ((Zirl.Writer.write selfCall).map (·.2)).getD []

theorem hydrate_read_selfCall : ∃ art, Zirl.Reader.read (stableSort Zirl.offsetOf) selfCallContainer = some art ∧
    art.exprs.length = 2 ∧ (CompilationSession.hydrateFromArtifact (σ := ℕ)
      ⟨fun _ count => (UInt32.ofNat count, count + 1), fun _ _ => false⟩ { types := 5 } art).isSome = true := by
  have hread : ((Zirl.Reader.read (stableSort Zirl.offsetOf) selfCallContainer).map (·.exprs.length)) = some 2 := by
    decide +kernel
  obtain ⟨art, hart, hlen⟩ := Option.map_eq_some_iff.mp hread
  exact ⟨art, hart, hlen, (hydrate_read hart).2 ℕ _ _⟩

end Zith.Session
