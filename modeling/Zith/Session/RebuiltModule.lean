import Zith.Session.BuildReturns
import Zith.Session.ModuleTypes
import Zith.Session.HydrateSafety

/-! A module through its artifact and back: `build`, then `hydrateFromArtifact` into a session that has no
    types and no HIR. An expression comes back the same exactly when its names are not empty, its types are
    plain, and it is of a kind that the compact form can tell apart.

        B ──buildTables──▶ last tables f, artifact ──hydrateModule──▶ session -/

namespace Zith.Session
open Zith.Lib Zith.Lib.Foretold Zith.Hir
open Zith.Lib.Growing (bind_eq_some)
open Types (TypeIntern TypeData)
open Zith.Cache (ArtifactBuilder BuilderState Stands CompactExpr CompactFunction BuiltDecl BuildsDecl BuildsFunction Earlier Known
  building finishing interns_building interns_finishing stringId noId)

/-! ### What was built -/

/-- An artifact and its declarations, told by the last tables. -/
structure Built (B : ArtifactBuilder) (f : BuilderState) (decls : List BuiltDecl) (art : Cache.Artifact) : Prop where
  inv : f.Inv B.types f
  strings : art.strings = f.strings
  types : art.types = f.compactTypes
  built : List.Forall₂ (BuildsDecl B f) B.hir.declarations decls
  decls : art.decls = decls.map (·.toDeclRecord)
  exprs : List.Forall₂ (fun e ce => Encodes B f e ce ∧ ∀ t ∈ e.types, Known f t.toNat) B.hir.exprs art.exprs
  functions : List.Forall₂ (fun fn cfn => BuildsFunction f fn cfn) B.hir.fns art.functions
  signatures : f.functionSignatureTypeIds = art.functions.map (·.signatureTypeId)
  structDefs : art.structDefs.map (·.name) = B.types.structDefs.map (·.name)
  enumDefs : art.enumDefs.map (·.name) = B.types.enumDefs.map (·.name)
  unionDefs : art.unionDefs.map (·.name) = B.types.unionDefs.map (·.name)

theorem inv_empty (T : TypeIntern) (f : BuilderState) : BuilderState.Inv T {} f :=
  ⟨List.nodup_nil, by simp, by simp, by simp⟩

theorem map_names {α β γ : Type} {nameOf : α → γ} {nameOf' : β → γ} {l : List α} {l' : List β}
    (h : List.Forall₂ (fun a b => nameOf' b = nameOf a) l l') : l'.map nameOf' = l.map nameOf := by
  induction h with
  | nil => rfl
  | cons hab _ ih => rw [List.map_cons, List.map_cons, hab, ih]

theorem build_built {B : ArtifactBuilder} {depth : ℕ} {canonicalPath moduleName : Text}
    {deps : List Zirl.DependencyRecord} {decls : List BuiltDecl} {art : Cache.Artifact} (hT : Earlier B.types)
    (hstrings : art.strings.length < 2 ^ 32) (htypes : art.types.length < 2 ^ 32)
    (h : Cache.build B depth canonicalPath moduleName deps = some (decls, art)) :
    ∃ f : BuilderState, f.Fits ∧ Built B f decls art := by
  obtain ⟨⟨⟨decls', art'⟩, f⟩, hrun, hpair⟩ := Option.bind_eq_some_iff.mp h
  obtain ⟨rfl, rfl⟩ := Prod.mk.inj (Option.some.inj hpair)
  have hf : f.Fits := ⟨hstrings, htypes⟩
  refine ⟨f, hf, ?_⟩
  obtain ⟨_, s₁, hdecls, hrun⟩ := bind_eq_some hrun
  obtain ⟨_, s₂, htemplates, hrun⟩ := bind_eq_some hrun
  obtain ⟨fns, s₃, hfns, hrun⟩ := bind_eq_some hrun
  obtain ⟨_, s₄, hexprs, hrun⟩ := bind_eq_some hrun
  obtain ⟨_, s₅, hglobals, hrun⟩ := bind_eq_some hrun
  obtain ⟨_, s₆, hvtables, hrun⟩ := bind_eq_some hrun
  obtain ⟨_, s₇, hstructs, hrun⟩ := bind_eq_some hrun
  obtain ⟨_, s₈, henums, hrun⟩ := bind_eq_some hrun
  obtain ⟨_, s₉, hunions, hrun⟩ := bind_eq_some hrun
  obtain ⟨hmade, rfl⟩ := Prod.mk.inj (Option.some.inj hrun)
  obtain ⟨rfl, rfl⟩ := Prod.mk.inj hmade
  have hb := interns_building depth hT hf
  have he := interns_finishing depth hT hf
  have rdecls := Makes.mapM (fun d _ => Cache.buildDecl_makes hb d) _ _ _ hdecls
  have rtemplates := Makes.mapM_any (fun t _ => Cache.buildTemplate_makes hb t) _ _ _ htemplates
  have rfns := Cache.buildFunctions_makes hT hf canonicalPath _ _ _ _ _ hfns
  have rexprs := Makes.mapM (fun e _ => (convertExpr_makes hT hf e).and (convertExpr_known hT hf e)) _ _ _ hexprs
  have rglobals := Makes.mapM_any (fun g _ => (Cache.buildGlobal_makes he g)) _ _ _ hglobals
  have rvtables := Makes.mapM_any (fun v _ => (Cache.buildVTable_makes hT hf v)) _ _ _ hvtables
  have rstructs := Makes.mapM (fun d _ => Cache.buildStructDef_makes he d) _ _ _ hstructs
  have renums := Makes.mapM (fun d _ => Cache.buildEnumDef_makes he d) _ _ _ henums
  have runions := Makes.mapM (fun d _ => Cache.buildUnionDef_makes he d) _ _ _ hunions
  -- every state comes before the last one
  have b₈ := (finishing B.types s₉).back runions.1 ⟨.refl _, rfl⟩
  have b₇ := (finishing B.types s₉).back renums.1 b₈
  have b₆ := (finishing B.types s₉).back rstructs.1 b₇
  have b₅ := (finishing B.types s₉).back rvtables.1 b₆
  have b₄ := (finishing B.types s₉).back rglobals.1 b₅
  have b₃ := (finishing B.types s₉).back rexprs.1 b₄
  have b₂ := (building B.types s₉).back rfns.1 b₃.1
  have b₁ := (building B.types s₉).back rtemplates.1 b₂
  -- and keeps the invariant
  obtain ⟨i₁, hdecls'⟩ := rdecls.2 b₁ (inv_empty B.types s₉)
  obtain ⟨i₂, -⟩ := rtemplates.2 b₂ i₁
  obtain ⟨i₃, hfns'⟩ := rfns.2 b₃.1 i₂
  obtain ⟨i₄, hexprs'⟩ := rexprs.2 b₄ i₃
  obtain ⟨i₅, -⟩ := rglobals.2 b₅ i₄
  obtain ⟨i₆, -⟩ := rvtables.2 b₆ i₅
  obtain ⟨i₇, hstructs'⟩ := rstructs.2 b₇ i₆
  obtain ⟨i₈, henums'⟩ := renums.2 b₈ i₇
  obtain ⟨i₉, hunions'⟩ := runions.2 ⟨.refl _, rfl⟩ i₈
  have hsignatures : s₂.functionSignatureTypeIds = [] :=
    ((Makes.mapM_any fun t _ => Cache.buildTemplate_makes he t) _ _ _ htemplates).1.2.trans
      ((Makes.mapM_any fun d _ => (Cache.buildDecl_makes he d).any) _ _ _ hdecls).1.2
  refine ⟨i₉, rfl, rfl, hdecls', rfl, hexprs', ?_, ?_, ?_, map_names henums', map_names hunions'⟩
  · rwa [← List.zipIdx_map_fst 0 B.hir.fns, List.forall₂_map_left_iff]
  · rw [← b₃.2, Cache.buildFunctions_signatures hT hf canonicalPath hfns, hsignatures]
    rfl
  · rw [← List.zipIdx_map_fst 0 B.types.structDefs, List.map_map]
    exact map_names hstructs'

/-! ### What was hydrated -/

/-- Programs that leave the session as it is, at one session. -/
def unchanged (s₀ : SessionTypes) : Foretold SessionTypes where
  grows s t := t = s
  below s := s = s₀
  inv _ := True
  refl _ := rfl
  trans h h' := h'.trans h
  back h h' := h.symm.trans h'

section
variable {art : Cache.Artifact} {ids : List TypeId} {s₀ : SessionTypes}

theorem ofOption_unchanged {α : Type} (o : Option α) : (unchanged s₀).Makes (ofOption o) fun _ => True :=
  Makes.ofOption fun _ _ => trivial

theorem strings_unchanged (names : List UInt32) : (unchanged s₀).Makes (names.mapM (string art)) fun _ => True :=
  Makes.mapM_any fun _ _ => ofOption_unchanged _

theorem hydrateTemplate_unchanged (t : Cache.TemplateBlueprint) :
    (unchanged s₀).Makes (hydrateTemplate art ids t) fun _ => True :=
  (strings_unchanged _).bind fun _ => (strings_unchanged _).bind fun _ => Makes.pure fun _ _ => trivial

theorem hydrateFn_unchanged (fn : CompactFunction) : (unchanged s₀).Makes (hydrateFn art ids fn) fun _ => True := by
  have hadapter : (unchanged s₀).Makes (hydrateForeignAdapter art fn) fun _ => True :=
    Makes.ite (fun _ => Makes.pure trivial) fun _ => (ofOption_unchanged _).bind fun _ => Makes.pure fun _ => trivial
  exact hadapter.bind fun _ => (Makes.mapM_any fun _ _ => ofOption_unchanged _).bind fun _ =>
    Makes.pure fun _ _ => trivial

theorem hydrateExpr_makes {B : ArtifactBuilder} {f : BuilderState} (hart : art.strings = f.strings)
    (hids : ∀ t, compactType ids t ≠ kInvalidType) {ce : CompactExpr} (hce : ∃ e, Encodes B f e ce) :
    (unchanged s₀).Makes (hydrateExpr typeTable art ids ce) fun x => ∀ e, Encodes B f e ce →
      x = exprBack B (textBack f.strings) (typeBack f ids) (typeTable.isUnion s₀) (fun _ => kInvalidHirFunction) e := by
  intro s x t hrun
  obtain ⟨e, he⟩ := hce
  obtain ⟨rfl, -⟩ := he.hydrated hart hids hrun
  refine ⟨rfl, fun hbelow _ => ⟨trivial, fun e' he' => ?_⟩⟩
  obtain rfl : t = s₀ := hbelow
  exact (he'.hydrated hart hids hrun).2

end

/-- The expression with the function that its call resolves to. -/
def resolvedBy (art : Cache.Artifact) (ce : CompactExpr) (x : HirExpr) : HirExpr :=
  let fn := resolveFunction art ce.resolvedFunctionNameId ce.resolvedFunctionSignatureTypeId
  if fn = kInvalidHirFunction then x else resolved fn x

theorem resolveCalls {art : Cache.Artifact} : ∀ {ces : List CompactExpr} {xs ys : List HirExpr} (done : List HirExpr),
    ces.length = xs.length → done.length + ces.length < 2 ^ 32 →
    (ces.zipIdx done.length).foldlM (resolveCall art) (done ++ xs) = some ys →
      ys = done ++ List.zipWith (resolvedBy art) ces xs := by
  intro ces
  induction ces with
  | nil =>
    intro xs ys done hlen _ hrun
    obtain rfl := List.length_eq_zero_iff.mp hlen.symm
    exact (Option.some.inj hrun).symm
  | cons ce ces ih =>
    intro xs ys done hlen hsize hrun
    cases xs with
    | nil => simp at hlen
    | cons x xs =>
      rw [List.zipIdx_cons, List.foldlM_cons] at hrun
      obtain ⟨next, hone, hrun⟩ := Option.bind_eq_some_iff.mp hrun
      have hnext : next = (done ++ [resolvedBy art ce x]) ++ xs := by
        have hid : (UInt32.ofNat done.length).toNat = done.length := by
          rw [UInt32.toNat_ofNat', Nat.mod_eq_of_lt (by omega)]
        simp only [resolveCall, hid] at hone
        rw [resolvedBy]
        split at hone
        · next hfn =>
          rw [if_pos hfn, ← Option.some.inj hone, List.append_assoc]
          rfl
        · next hfn =>
          rw [if_neg hfn]
          simpa using hone.symm
      subst hnext
      have := ih (done ++ [resolvedBy art ce x]) (by simpa using hlen) (by simp at hsize ⊢; omega) (by simpa using hrun)
      simpa using this

section
variable {B : ArtifactBuilder} {f : BuilderState} {art : Cache.Artifact} {decls : List BuiltDecl}

/-- The function that a reference to `r` resolves to. -/
def functionBack (B : ArtifactBuilder) (f : BuilderState) (art : Cache.Artifact) (r : HirFunctionId) : HirFunctionId :=
  resolveFunction art (functionIds B f r).1 (functionIds B f r).2

theorem resolvedBy_exprBack {onText : Text → Text} {onType : TypeId → TypeId} {isUnion : TypeId → Bool} {e : HirExpr}
    {ce : CompactExpr} (he : (ce.resolvedFunctionNameId, ce.resolvedFunctionSignatureTypeId) =
      (calledFn e).elim (noId, noId) (functionIds B f)) :
    resolvedBy art ce (exprBack B onText onType isUnion (fun _ => kInvalidHirFunction) e) =
      exprBack B onText onType isUnion (functionBack B f art) e := by
  have hother : ∀ x : HirExpr, (∀ fn, resolved fn x = x) → resolvedBy art ce x = x := fun x hx => by
    rw [resolvedBy, hx, ite_self]
  have hcall : ∀ {r : HirFunctionId} {x : HirFunctionId → HirExpr}, calledFn e = some r →
      (∀ fn, resolved fn (x kInvalidHirFunction) = x fn) →
      resolvedBy art ce (x kInvalidHirFunction) = x (functionBack B f art r) := by
    intro r x hr hx
    rw [hr] at he
    have hids : functionIds B f r = (ce.resolvedFunctionNameId, ce.resolvedFunctionSignatureTypeId) := he.symm
    have hback : resolveFunction art ce.resolvedFunctionNameId ce.resolvedFunctionSignatureTypeId =
        functionBack B f art r := by rw [functionBack, hids]
    simp only [resolvedBy, hback, hx]
    split
    · next hinvalid => rw [hinvalid]
    · rfl
  cases e with
  | call c => exact hcall (x := fun fn => .call { HirExpr.mapCall onType c with resolvedFn := fn }) rfl fun _ => rfl
  | stateTailCall c =>
    exact hcall (x := fun fn => .stateTailCall { HirExpr.mapCall onType c with resolvedFn := fn, musttail := true })
      rfl fun _ => rfl
  | cast | unionCast =>
    refine hother _ fun fn => ?_
    simp only [exprBack, castBack]
    split <;> rfl
  | _ => exact hother _ fun _ => rfl

/-- A reference comes back when it refers to a function, or to none. -/
theorem functionBack_eq_iff (hf : f.Fits) (hb : Built B f decls art) (hvalid : Zirl.ValidReferences art)
    (r : HirFunctionId) : functionBack B f art r = r ↔ r = kInvalidHirFunction ∨ r.toNat < B.hir.fns.length := by
  rw [functionBack]
  cases hfn : B.hir.fns[r.toNat]? with
  | none =>
    have hlen := List.getElem?_eq_none_iff.mp hfn
    have hnone : resolveFunction art noId noId = kInvalidHirFunction := by
      have hname : art.strings[noId.toNat]? = none := by
        rw [hb.strings]
        exact List.getElem?_eq_none (Nat.lt_succ_iff.mp hf.strings)
      simp [resolveFunction, Zirl.resolveFunctionReference, hname]
    simp only [functionIds, hfn, hnone]
    constructor
    · exact fun h => .inl h.symm
    · rintro (h | h)
      · exact h.symm
      · omega
  | some fn =>
    have hlt := lt_of_getElem? hfn
    simp only [hlt, or_true, iff_true]
    have hlt' : r.toNat < art.functions.length := hb.functions.length_eq ▸ hlt
    have hcfn : art.functions[r.toNat]? = some art.functions[r.toNat] := List.getElem?_eq_getElem hlt'
    have hbuilds : BuildsFunction f fn art.functions[r.toNat] := by
      have := hb.functions.get hlt hlt'
      rwa [List.get_eq_getElem, (List.getElem?_eq_some_iff.mp hfn).2] at this
    have hresolve := (hvalid.functions _ (List.mk_mem_zipIdx_iff_getElem?.mpr hcfn)).2.2.2.2.2
    have hids : functionIds B f r = (art.functions[r.toNat].nameId, art.functions[r.toNat].signatureTypeId) := by
      simp only [functionIds, hfn, hbuilds.nameId, hb.signatures, List.getElem?_map, hcfn, Option.map_some,
        Option.getD_some]
    rw [hids, resolveFunction, hresolve]
    exact UInt32.ofNat_toNat

end

/-! ### The same expressions -/

/-- The same constructor with the same operands, names and literal, of the same types. -/
structure SameExpr (T T' : TypeIntern) (e x : HirExpr) : Prop where
  outline : e.outline = x.outline
  literal : ∀ v ∈ e.literalOf, ∀ w ∈ x.literalOf, SameLiteral v w
  types : List.Forall₂ (fun t t' : TypeId => SameType T T' t.toNat t'.toNat) e.types x.types

def StandsForUnion (T : TypeIntern) (t : TypeId) : Prop := ∃ defId, Stands T t.toNat (.union defId)

/-- What the compact form carries: names that are not empty, types that are plain, a literal that fits its type,
    a cast that is one of a union by its types, and a call of a function of the module or of none. -/
structure CarriedExpr (B : ArtifactBuilder) (e : HirExpr) : Prop where
  names : ∀ s ∈ e.texts, s ≠ []
  types : ∀ t ∈ e.types, PlainType B.types t.toNat
  kind : KindKept (StandsForUnion B.types) (fun r => r = kInvalidHirFunction ∨ r.toNat < B.hir.fns.length) e
  literal : ∀ v ∈ e.literalOf, ∀ t ∈ e.types, LiteralKept (· ≠ []) (B.types.kindOf t.toNat) v

theorem kind_outline (data : TypeData) : (outline data).kind = data.kind := by cases data <;> rfl

theorem union_of_kind {data : TypeData} : data.kind = (TypeData.union 0).kind ↔ ∃ defId, data = .union defId := by
  cases data <;> simp [TypeData.kind]

section
variable {B : ArtifactBuilder} {f : BuilderState} {art : Cache.Artifact} {decls : List BuiltDecl}
  {ids : List TypeId} {s : SessionTypes}

/-- A plain type is a union in the session when it stands for one. -/
theorem isUnion_back_iff (h : Rehydrated B.types f art ids s.types) {t : TypeId} (hknown : Known f t.toNat)
    (hplain : PlainType B.types t.toNat) :
    typeTable.isUnion s (typeBack f ids t) = true ↔ StandsForUnion B.types t := by
  obtain ⟨R, hR, ht⟩ := h.sameType_of_plain hknown hplain
  have hvalid : t.toNat ≠ kInvalidType.toNat := by
    cases hplain
    assumption
  obtain ⟨a, b, ha, hb, hsame⟩ := hR.data ht hvalid
  obtain ⟨k, hk⟩ := hknown.resolve_left hvalid
  obtain ⟨data, d, -, hd, hcompared⟩ := h.row hvalid hk
  have htarget : Cache.target? d = none := by rw [← target?_compared, hcompared, target?_compared, target?_dataBack]
  obtain rfl := hb.unique (.itself hd htarget)
  have hkind : s.types.kindOf (typeBack f ids t).toNat = a.kind := by
    have hlookup : s.types.lookup (typeBack f ids t).toNat = some b := hd
    rw [TypeIntern.kindOf, hlookup, ← kind_outline a, hsame.outline, kind_outline]
  change (s.types.kindOf (typeBack f ids t).toNat == (TypeData.union 0).kind) = true ↔ _
  rw [hkind, beq_iff_eq, union_of_kind]
  constructor
  · rintro ⟨defId, rfl⟩
    exact ⟨defId, ha⟩
  · rintro ⟨defId, hunion⟩
    exact ⟨defId, ha.unique hunion⟩

theorem sameExpr_back_iff (h : Rehydrated B.types f art ids s.types) (hb : Built B f decls art)
    (hvalid : Zirl.ValidReferences art) {e : HirExpr} (hknown : ∀ t ∈ e.types, Known f t.toNat) :
    SameExpr B.types s.types e (exprBack B (textBack f.strings) (typeBack f ids) (typeTable.isUnion s)
      (functionBack B f art) e) ↔ CarriedExpr B e := by
  have htypes : List.Forall₂ (fun t t' : TypeId => SameType B.types s.types t.toNat t'.toNat) e.types
      (exprBack B (textBack f.strings) (typeBack f ids) (typeTable.isUnion s) (functionBack B f art) e).types ↔
      ∀ t ∈ e.types, PlainType B.types t.toNat := by
    rw [types_exprBack, List.forall₂_map_right_iff, List.forall₂_same]
    exact forall₂_congr fun t ht => h.sameType_iff (hknown t ht)
  have htext : ∀ text, textBack f.strings text = text ↔ text ≠ [] := fun text => textBack_eq_iff h.inv.nonempty
  have hkind : (∀ t ∈ e.types, PlainType B.types t.toNat) →
      (KindKept (fun t => typeTable.isUnion s (typeBack f ids t) = true) (fun r => functionBack B f art r = r) e ↔
        KindKept (StandsForUnion B.types) (fun r => r = kInvalidHirFunction ∨ r.toNat < B.hir.fns.length) e) :=
    fun hplain => kindKept_congr (fun t ht => isUnion_back_iff h (hknown t ht) (hplain t ht))
      (functionBack_eq_iff h.fits hb hvalid)
  have hliteral : (∀ v ∈ e.literalOf, ∀ w ∈ (exprBack B (textBack f.strings) (typeBack f ids) (typeTable.isUnion s)
      (functionBack B f art) e).literalOf, SameLiteral v w) ↔
      ∀ v ∈ e.literalOf, ∀ t ∈ e.types, LiteralKept (· ≠ []) (B.types.kindOf t.toNat) v := by
    have hkept : (fun text => textBack f.strings text = text) = (· ≠ []) := funext fun text => propext (htext text)
    cases e with
    | literal value t =>
      simp only [HirExpr.literalOf, HirExpr.types, exprBack, Option.mem_def, Option.some.injEq, forall_eq',
        List.mem_singleton, forall_eq, sameLiteral_back_iff, hkept]
    | _ => simp [HirExpr.literalOf]
  constructor
  · rintro ⟨h₁, h₂, h₃⟩
    obtain ⟨hnames, hkept⟩ := outline_exprBack_iff e |>.mp h₁
    have hplain := htypes.mp h₃
    exact ⟨fun text hmem => (htext text).mp (hnames text hmem), hplain, (hkind hplain).mp hkept, hliteral.mp h₂⟩
  · rintro ⟨hnames, hplain, hkept, hlit⟩
    exact ⟨outline_exprBack_iff e |>.mpr ⟨fun text hmem => (htext text).mpr (hnames text hmem), (hkind hplain).mpr hkept⟩,
      hliteral.mpr hlit, htypes.mpr hplain⟩

end

/-! ### The whole way -/

/-- The ids of an artifact are of 32 bits. -/
structure Addressable (art : Cache.Artifact) : Prop where
  strings : art.strings.length < 2 ^ 32
  rows : Capacity art

section
variable {B : ArtifactBuilder} {depth : ℕ} {canonicalPath moduleName : Text} {deps : List Zirl.DependencyRecord}
  {decls : List BuiltDecl} {art : Cache.Artifact}

theorem Built.compositeNames {f : BuilderState} (h : Built B f decls art) :
    compositeNames art = moduleNames B.types := by
  rw [Session.compositeNames, moduleNames, h.structDefs, h.enumDefs, h.unionDefs]

theorem rehydrated {f : BuilderState} {ids : List TypeId} {T' : TypeIntern} (hT : Earlier B.types) (hf : f.Fits)
    (hb : Built B f decls art) (hcap : Capacity art) (hrebuilt : TypesRebuilt art ids T') :
    Rehydrated B.types f art ids T' where
  earlier := hT
  fits := hf
  inv := hb.inv
  strings := hb.strings
  types := hb.types
  definitions := {
    names := by rw [hrebuilt.names, definitionNames, hb.structDefs, hb.enumDefs, hb.unionDefs]
    structs := by simpa using congrArg List.length hb.structDefs
    enums := by simpa using congrArg List.length hb.enumDefs
    unions := by simpa using congrArg List.length hb.unionDefs
    capacity := hcap }
  rebuilt := hrebuilt

theorem zipWith_back {g g' : HirExpr → HirExpr} {combine : CompactExpr → HirExpr → HirExpr} {R : HirExpr → CompactExpr → Prop}
    (hstep : ∀ e ce, R e ce → combine ce (g e) = g' e) : ∀ {es : List HirExpr} {ces : List CompactExpr} {xs : List HirExpr},
    List.Forall₂ R es ces → List.Forall₂ (fun ce x => ∀ e, R e ce → x = g e) ces xs →
      List.zipWith combine ces xs = es.map g' := by
  intro es ces xs hes
  induction hes generalizing xs with
  | nil =>
    rintro ⟨⟩
    rfl
  | cons he _ ih =>
    intro hxs
    cases hxs with
    | cons hx hxs => rw [List.zipWith_cons_cons, hx _ he, hstep _ _ he, ih hxs, List.map_cons]

/-- What the session has after a module was built and hydrated. -/
theorem hydrated_back (hT : Earlier B.types) (hnames : (moduleNames B.types).Nodup) (haddressable : Addressable art)
    (hbuild : Cache.build B depth canonicalPath moduleName deps = some (decls, art))
    (hvalid : Zirl.ValidReferences art) (hdecoded : Decoded art) :
    ∃ (f : BuilderState) (ids : List TypeId) (session : CompilationSession SessionTypes),
      CompilationSession.hydrateFromArtifact typeTable { types := {} } art = some session ∧
      Built B f decls art ∧ Rehydrated B.types f art ids session.types.types ∧
      session.hir.exprs = B.hir.exprs.map (exprBack B (textBack f.strings) (typeBack f ids)
        (typeTable.isUnion session.types) (functionBack B f art)) ∧
      session.hir.declarations = art.decls.map (hydrateDecl art ids) := by
  have hrows := haddressable.rows
  rw [Capacity] at hrows
  obtain ⟨f, hf, hb⟩ := build_built hT haddressable.strings (by omega) hbuild
  obtain ⟨session, hsession⟩ := Option.isSome_iff_exists.mp (hydrate_isSome typeTable hvalid hdecoded { types := {} })
  obtain ⟨symbols, -, hhydrate⟩ := Option.bind_eq_some_iff.mp hsession
  obtain ⟨⟨hir, types⟩, hrun, hpair⟩ := Option.bind_eq_some_iff.mp hhydrate
  obtain rfl := Option.some.inj hpair
  obtain ⟨ids, s₁, htypes, hrun⟩ := bind_eq_some hrun
  obtain ⟨_, s₂, htemplates, hrun⟩ := bind_eq_some hrun
  obtain ⟨xs, s₃, hexprs, hrun⟩ := bind_eq_some hrun
  obtain ⟨_, s₄, hfns, hrun⟩ := bind_eq_some hrun
  obtain ⟨_, s₅, hmarks, hrun⟩ := bind_eq_some hrun
  obtain ⟨ys, s₆, hcalls, hrun⟩ := bind_eq_some hrun
  obtain ⟨_, s₇, hvtables, hrun⟩ := bind_eq_some hrun
  obtain ⟨_, s₈, hattrs, hrun⟩ := bind_eq_some hrun
  obtain ⟨rfl, rfl⟩ := Prod.mk.inj (Option.some.inj hrun)
  obtain ⟨-, rfl⟩ := run_ofOption hmarks
  obtain ⟨hfold, rfl⟩ := run_ofOption hcalls
  obtain ⟨-, rfl⟩ := run_ofOption hvtables
  obtain ⟨-, rfl⟩ := run_ofOption hattrs
  have h := rehydrated hT hf hb haddressable.rows
    (hydrateTypes_rebuilds (hb.compositeNames ▸ hnames) haddressable.rows rfl htypes)
  obtain rfl := ((Makes.mapM_any fun t _ => show (unchanged s₁).Makes _ _ from hydrateTemplate_unchanged t) _ _ _ htemplates).1
  have hencodes : List.Forall₂ (Encodes B f) B.hir.exprs art.exprs := hb.exprs.imp fun _ _ he => he.1
  have hexists : ∀ ce ∈ art.exprs, ∃ e, Encodes B f e ce := fun ce hce => by
    obtain ⟨i, hi, rfl⟩ := List.mem_iff_getElem.mp hce
    exact ⟨_, hencodes.get (by rw [hencodes.length_eq]; exact hi) hi⟩
  obtain ⟨rfl, hxs⟩ := Makes.mapM (fun ce hce => show (unchanged s₂).Makes _ _ from
    hydrateExpr_makes hb.strings h.valid (hexists ce hce)) _ _ _ hexprs
  obtain ⟨-, hxs⟩ := hxs rfl trivial
  obtain rfl := ((Makes.mapM_any fun fn _ => show (unchanged s₃).Makes _ _ from hydrateFn_unchanged fn) _ _ _ hfns).1
  refine ⟨f, ids, _, hsession, hb, h, ?_, rfl⟩
  have hys := resolveCalls [] hxs.length_eq (by
    rw [List.length_nil, Nat.zero_add]
    exact hdecoded.exprs) hfold
  refine hys.trans ?_
  exact zipWith_back (fun e ce he => resolvedBy_exprBack he.function) hencodes hxs

/-- The expressions of a module come back the same exactly when each of them is carried. -/
theorem hydrated_exprs_iff (hT : ModuleTypes B.types) (hsize : B.types.types.length ≤ kInvalidType.toNat)
    (hB : InTables B) (hdepth : B.types.types.length + 2 ≤ depth) (canonicalPath moduleName : Text)
    (deps : List Zirl.DependencyRecord) :
    ∃ decls art, Cache.build B depth canonicalPath moduleName deps = some (decls, art) ∧
      (Addressable art → Zirl.ValidReferences art → Decoded art → ∃ session,
        CompilationSession.hydrateFromArtifact typeTable { types := {} } art = some session ∧
        (List.Forall₂ (SameExpr B.types session.types.types) B.hir.exprs session.hir.exprs ↔
          ∀ e ∈ B.hir.exprs, CarriedExpr B e)) := by
  have hearlier := hT.earlier hsize
  obtain ⟨⟨decls, art⟩, hbuild⟩ := Option.isSome_iff_exists.mp
    (build_isSome hearlier hB hdepth canonicalPath moduleName deps)
  refine ⟨decls, art, hbuild, fun haddressable hvalid hdecoded => ?_⟩
  obtain ⟨f, ids, session, hsession, hb, h, hexprs, -⟩ :=
    hydrated_back hearlier hT.nodup haddressable hbuild hvalid hdecoded
  refine ⟨session, hsession, ?_⟩
  rw [hexprs, List.forall₂_map_right_iff, List.forall₂_same]
  refine forall₂_congr fun e he => ?_
  obtain ⟨i, hi, rfl⟩ := List.mem_iff_getElem.mp he
  have hknown := (hb.exprs.get hi (by rw [← hb.exprs.length_eq]; exact hi)).2
  exact sameExpr_back_iff h hb hvalid hknown

end

/-! ### Strings -/

/-- The function `f`, with a string, a number, a binding and a call of itself. -/
def greeting (text : Text) : ArtifactBuilder :=
  { types := TypeIntern.build [.intern (.ptr 4 false .default), .intern (.int .i32), .intern (.fn [6] 6)]
    hir := { exprs := [.literal (.strVal text) 5, .literal (.i 7) 6, .let [0x78] 6 1,
               .call { callee := 0, args := [1], argumentTypes := [6], fnType := 7, resolvedFn := 0 }]
             fns := [⟨[0x66], [6], [[0x78]], [], 6, false, false, kInvalidType, 0, false, none, false, true, none, []⟩] } }

def greetingArtifact (text : Text) : Cache.Artifact :=
  ((Cache.build (greeting text) 10 [0x6d] [] []).map (·.2)).getD { canonicalPath := [] }

theorem build_greeting {text : Text} (h : (Cache.build (greeting text) 10 [0x6d] [] []).isSome = true) :
    ∃ decls, Cache.build (greeting text) 10 [0x6d] [] [] = some (decls, greetingArtifact text) := by
  obtain ⟨⟨decls, art⟩, hbuild⟩ := Option.isSome_iff_exists.mp h
  exact ⟨decls, by rw [greetingArtifact, hbuild]; rfl⟩

/-- The greeting `hi` is carried. -/
theorem hydrated_exprs_hi : ∃ session,
    CompilationSession.hydrateFromArtifact typeTable { types := {} } (greetingArtifact [0x68, 0x69]) = some session ∧
      List.Forall₂ (SameExpr (greeting [0x68, 0x69]).types session.types.types) (greeting [0x68, 0x69]).hir.exprs
        session.hir.exprs := by
  have hT : ModuleTypes (greeting [0x68, 0x69]).types := moduleTypes_build (by simp [AllRefer, Refers]; decide)
  have hrows : (greeting [0x68, 0x69]).types.types.length = 8 := by decide
  have hfn : FunctionInTable (greeting [0x68, 0x69]).types
      ⟨[0x66], [6], [[0x78]], [], 6, false, false, kInvalidType, 0, false, none, false, true, none, []⟩ :=
    ⟨.inl (by decide), .inr rfl, by simp [InTable, hrows], by decide⟩
  have hB : InTables (greeting [0x68, 0x69]) := by
    have hdefs : (greeting [0x68, 0x69]).types.structDefs.length = 0 ∧ (greeting [0x68, 0x69]).types.enumDefs.length = 0 ∧
        (greeting [0x68, 0x69]).types.unionDefs.length = 0 := by decide
    simp only [List.length_eq_zero_iff] at hdefs
    refine ⟨by decide, by simp [greeting], by simp [greeting], by simpa [greeting] using hfn, ?_, by simp [greeting],
      by simp [hdefs.1], by simp [greeting], by simp [hdefs.2.1], by simp [hdefs.2.2]⟩
    have hexprs : ∀ e ∈ (greeting [0x68, 0x69]).hir.exprs, ∀ t ∈ e.types, t.toNat < 8 := by decide
    exact fun e he t ht => .inl (hrows ▸ hexprs e he t ht)
  obtain ⟨decls, art, hbuild, h⟩ := hydrated_exprs_iff hT (by decide) hB
    (show (greeting [0x68, 0x69]).types.types.length + 2 ≤ 10 by decide) [0x6d] [] []
  obtain rfl : greetingArtifact [0x68, 0x69] = art := by rw [greetingArtifact, hbuild]; rfl
  have haddressable : Addressable (greetingArtifact [0x68, 0x69]) :=
    ⟨by decide +kernel, by rw [Capacity]; decide +kernel⟩
  have hdecoded : Decoded (greetingArtifact [0x68, 0x69]) :=
    ⟨by rw [Zirl.FitsU32]; decide +kernel, (Zirl.proofsRefer_iff _).mp (by decide +kernel)⟩
  obtain ⟨session, hsession, hiff⟩ := h haddressable (by decide +kernel) hdecoded
  refine ⟨session, hsession, hiff.mpr ?_⟩
  have h4 : PlainType (greeting [0x68, 0x69]).types 4 :=
    .intro (by decide) (show Stands _ 4 (.char) from .itself (by decide) rfl) trivial (by simp [Zith.Cache.dependencies])
  have h5 : PlainType (greeting [0x68, 0x69]).types 5 :=
    .intro (by decide) (show Stands _ 5 (.ptr 4 false .default) from .itself (by decide) rfl) rfl (by simpa [Zith.Cache.dependencies] using h4)
  have h6 : PlainType (greeting [0x68, 0x69]).types 6 :=
    .intro (by decide) (show Stands _ 6 (.int .i32) from .itself (by decide) rfl) trivial (by simp [Zith.Cache.dependencies])
  have h7 : PlainType (greeting [0x68, 0x69]).types 7 :=
    .intro (by decide) (show Stands _ 7 (.fn [6] 6) from .itself (by decide) rfl) trivial (by simpa [Zith.Cache.dependencies] using h6)
  have hkinds : (greeting [0x68, 0x69]).types.kindOf 5 = (TypeData.ptr 0 false .default).kind ∧
      (greeting [0x68, 0x69]).types.kindOf 6 = (TypeData.int .i32).kind := by decide
  simp only [greeting, List.forall_mem_cons, List.not_mem_nil, false_implies, implies_true, and_true] at *
  refine ⟨⟨by simp [HirExpr.texts], by simpa [HirExpr.types] using h5, trivial, ?_⟩,
    ⟨by simp [HirExpr.texts], by simpa [HirExpr.types] using h6, trivial, ?_⟩,
    ⟨by simp [HirExpr.texts], by simpa [HirExpr.types] using h6, trivial, by simp [HirExpr.literalOf]⟩,
    ⟨by simp [HirExpr.texts], by simpa [HirExpr.types] using ⟨h7, h6⟩, .inr (by decide), by simp [HirExpr.literalOf]⟩⟩
  · simp [HirExpr.literalOf, HirExpr.types, LiteralKept, hkinds.1, TypeData.kind]
  · simp [HirExpr.literalOf, HirExpr.types, LiteralKept, hkinds.2, TypeData.kind, isText]

/-- The empty string comes back as the first text of the artifact, the name of the function. -/
theorem hydrated_exprs_empty : ∃ decls session,
    Cache.build (greeting []) 10 [0x6d] [] [] = some (decls, greetingArtifact []) ∧
      Zirl.ValidReferences (greetingArtifact []) ∧
      CompilationSession.hydrateFromArtifact typeTable { types := {} } (greetingArtifact []) = some session ∧
      session.hir.exprs[0]? = some (.literal (.strVal [0x66]) 7) ∧
      ¬List.Forall₂ (SameExpr (greeting []).types session.types.types) (greeting []).hir.exprs session.hir.exprs := by
  obtain ⟨decls, hbuild⟩ := (show ∃ decls, Cache.build (greeting []) 10 [0x6d] [] [] = some (decls, greetingArtifact []) from
    build_greeting (by decide +kernel))
  have hrun : ((CompilationSession.hydrateFromArtifact typeTable { types := {} } (greetingArtifact [])).map
      fun s => s.hir.exprs[0]?) = some (some (.literal (.strVal [0x66]) 7)) := by decide +kernel
  obtain ⟨session, hsession, hfirst⟩ := Option.map_eq_some_iff.mp hrun
  refine ⟨decls, session, hbuild, by decide +kernel, hsession, hfirst, fun h => ?_⟩
  obtain ⟨x, xs, hx, -, hxs⟩ := List.forall₂_cons_left_iff.mp h
  rw [hxs] at hfirst
  obtain rfl : x = .literal (.strVal [0x66]) 7 := by simpa using hfirst
  exact absurd (hx.literal _ rfl _ rfl) (by simp [SameLiteral])

end Zith.Session
