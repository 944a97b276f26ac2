import Zith.Cache.BuiltModule
import Zith.Hir.ExprParts
import Zith.Session.RebuiltTypes

/-! The expressions of a module through an artifact and back. `convertExpr` writes down what `hydrateExpr`
    reads as `exprBack`: the names and the types replaced by those of their ids, the member of a literal's
    union chosen by the type, and a cast that is one of a union by its types. -/

namespace Zith.Session
open Zith.Lib Zith.Lib.Foretold Zith.Hir
open Zith.Lib.Growing (bind_eq_some)
open Types (TypeIntern TypeData)
open Zith.Cache (ArtifactBuilder BuilderState CompactExpr CompactExprKind Build CompactSafetyMode Interns finishing
  hirTypeId stringId literalWord literalText noId)

/-! ### What comes back -/

/-- What the id of a name is read as: the empty one has the id of the first text. Where there is none the
    lookup ends the run, and the value here does not matter. -/
def textBack (strings : List Text) (s : Text) : Text := if s = [] then strings[0]?.getD [0] else s

/-- What the compact id of a type is rebuilt as. -/
def typeBack (f : BuilderState) (ids : List TypeId) (t : TypeId) : TypeId := compactType ids (hirTypeId f t)

/-- The literal that is read, by the kind of its type. -/
def literalBack (pool : List Text) (onText : Text → Text) (kind : UInt64) (value : HirLiteralValue) :
    HirLiteralValue :=
  if kind = TypeData.bool.kind then .b (literalWord pool value &&& 0xFF != 0)
  else if kind = (TypeData.float .f32).kind then .f (literalWord pool value)
  else if kind = (TypeData.ptr 0 false .default).kind then .strVal (onText (literalText pool value))
  else .i (literalWord pool value).toInt64

section
variable (B : ArtifactBuilder) (onText : Text → Text) (onType : TypeId → TypeId) (isUnion : TypeId → Bool)
  (onFunction : HirFunctionId → HirFunctionId)

def castBack (value : HirExprId) (source target : TypeId) (memberIndex : UInt32) (safety : CompactSafetyMode) :
    HirExpr :=
  if isUnion (onType source) || isUnion (onType target) then
    .unionCast value (onType source) (onType target) memberIndex safety
  else .cast value (onType source) (onType target)

def callBack (c : HirCall) (musttail : Bool) : HirCall :=
  { HirExpr.mapCall onType c with resolvedFn := onFunction c.resolvedFn, musttail }

def exprBack : HirExpr → HirExpr
  | .literal value type =>
    .literal (literalBack B.pool onText (B.types.kindOf type.toNat) value) (onType type)
  | .cast value source target => castBack onType isUnion value source target noId .requiredCheck
  | .unionCast value source target memberIndex safety =>
    castBack onType isUnion value source target memberIndex safety
  | .call c => .call (callBack onType onFunction c c.musttail)
  | .stateTailCall c => .stateTailCall (callBack onType onFunction c true)
  | e => e.map onText onType

end

/-! ### What is kept -/

theorem textBack_eq_iff {strings : List Text} (hempty : [] ∉ strings) {s : Text} : textBack strings s = s ↔ s ≠ [] := by
  rw [textBack]
  split
  · next hs =>
    subst hs
    simp only [ne_eq, not_true_eq_false, iff_false]
    cases hfirst : strings[0]? with
    | none => simp
    | some text =>
      rw [Option.getD_some]
      rintro rfl
      exact hempty (List.mem_of_getElem? hfirst)
  · next hs => simp [hs]

def isText : HirLiteralValue → Bool
  | .strVal _ => true
  | _ => false

/-- The same text, or the same eight bytes. -/
def SameLiteral : HirLiteralValue → HirLiteralValue → Prop
  | .strVal s, .strVal t => s = t
  | v, w => isText v = false ∧ isText w = false ∧ literalWord [] v = literalWord [] w

/-- The literals of a kind that come back, when the texts that do are given. -/
def LiteralKept (kept : Text → Prop) (kind : UInt64) (value : HirLiteralValue) : Prop :=
  if kind = TypeData.bool.kind then isText value = false ∧ (literalWord [] value = 0 ∨ literalWord [] value = 1)
  else if kind = (TypeData.ptr 0 false .default).kind then ∃ s, value = .strVal s ∧ kept s
  else isText value = false

theorem literalWord_pool {value : HirLiteralValue} (h : isText value = false) (pool : List Text) :
    literalWord pool value = literalWord [] value := by
  cases value with
  | strVal => simp [isText] at h
  | _ => rfl

theorem sameLiteral_of_not_text {v w : HirLiteralValue} (hw : isText w = false) :
    SameLiteral v w ↔ isText v = false ∧ literalWord [] v = literalWord [] w := by
  cases v <;> cases w <;> simp_all [SameLiteral, isText]

theorem sameLiteral_back_iff {pool : List Text} {onText : Text → Text} {kind : UInt64} {value : HirLiteralValue} :
    SameLiteral value (literalBack pool onText kind value) ↔ LiteralKept (fun s => onText s = s) kind value := by
  rw [literalBack, LiteralKept]
  by_cases hbool : kind = TypeData.bool.kind
  · rw [if_pos hbool, if_pos hbool, sameLiteral_of_not_text rfl]
    refine and_congr_right fun hv => ?_
    rw [literalWord_pool hv pool]
    generalize literalWord [] value = word
    by_cases hword : word &&& 0xFF = 0
    · have hb : (word &&& 0xFF != 0) = false := by simp [hword]
      rw [hb]
      refine ⟨.inl, ?_⟩
      rintro (rfl | rfl)
      · rfl
      · exact absurd hword (by decide)
    · rw [bne_iff_ne.mpr hword]
      refine ⟨.inr, ?_⟩
      rintro (rfl | rfl)
      · exact absurd rfl hword
      · rfl
  · rw [if_neg hbool, if_neg hbool]
    by_cases hfloat : kind = (TypeData.float .f32).kind
    · rw [if_pos hfloat, if_neg (by rw [hfloat]; decide), sameLiteral_of_not_text rfl]
      exact and_iff_left_of_imp fun hv => (literalWord_pool hv pool).symm
    · rw [if_neg hfloat]
      by_cases hptr : kind = (TypeData.ptr 0 false .default).kind
      · rw [if_pos hptr, if_pos hptr]
        cases value <;> simp [SameLiteral, isText, literalText, eq_comm]
      · rw [if_neg hptr, if_neg hptr, sameLiteral_of_not_text rfl]
        refine and_iff_left_of_imp fun hv => ?_
        rw [literalWord_pool hv pool]
        simp [literalWord]

section
variable {B : ArtifactBuilder} {onText : Text → Text} {onType : TypeId → TypeId} {isUnion : TypeId → Bool}
  {onFunction : HirFunctionId → HirFunctionId}

/-- The casts and the calls that come back, when the types that come back as unions are given, and the
    functions that come back. -/
def KindKept (union : TypeId → Prop) (kept : HirFunctionId → Prop) : HirExpr → Prop
  | .cast _ source target => ¬(union source ∨ union target)
  | .unionCast _ source target _ _ => union source ∨ union target
  | .call c => kept c.resolvedFn
  | .stateTailCall c => kept c.resolvedFn ∧ c.musttail = true
  | _ => True

theorem kindKept_congr {union union' : TypeId → Prop} {kept kept' : HirFunctionId → Prop} {e : HirExpr}
    (hunion : ∀ t ∈ e.types, (union t ↔ union' t)) (hkept : ∀ r, kept r ↔ kept' r) :
    KindKept union kept e ↔ KindKept union' kept' e := by
  cases e with
  | cast | unionCast => simp_all [KindKept, HirExpr.types]
  | call | stateTailCall => simp [KindKept, hkept]
  | _ => rfl

theorem types_exprBack (e : HirExpr) : (exprBack B onText onType isUnion onFunction e).types = e.types.map onType := by
  cases e with
  | cast | unionCast =>
    simp only [exprBack, castBack]
    split <;> rfl
  | _ => rfl

theorem outline_exprBack_iff (e : HirExpr) : e.outline = (exprBack B onText onType isUnion onFunction e).outline ↔
    (∀ s ∈ e.texts, onText s = s) ∧ KindKept (fun t => isUnion (onType t) = true) (fun r => onFunction r = r) e := by
  cases e with
  | literal => simp [exprBack, HirExpr.outline, HirExpr.texts, KindKept]
  | cast value source target =>
    simp only [exprBack, castBack, KindKept]
    split <;> simp_all [HirExpr.outline, HirExpr.map, HirExpr.texts]
  | unionCast value source target memberIndex safety =>
    simp only [exprBack, castBack, KindKept]
    split <;> simp_all [HirExpr.outline, HirExpr.map, HirExpr.texts]
  | call c =>
    simp only [exprBack, callBack, HirExpr.outline, HirExpr.map, HirExpr.mapCall, HirExpr.texts, KindKept,
      List.map_map, HirExpr.call.injEq, HirCall.mk.injEq]
    simp [Function.comp_def, eq_comm]
  | stateTailCall c =>
    simp only [exprBack, callBack, HirExpr.outline, HirExpr.map, HirExpr.mapCall, HirExpr.texts, KindKept,
      List.map_map, HirExpr.stateTailCall.injEq, HirCall.mk.injEq]
    simp [Function.comp_def, eq_comm (a := c.resolvedFn)]
  | dynCall => simp [exprBack, HirExpr.outline, HirExpr.map, HirExpr.texts, KindKept, eq_comm, Function.comp_def]
  | _ => simp [exprBack, HirExpr.outline, HirExpr.map, HirExpr.texts, KindKept, eq_comm]

end

/-- The function that a call goes to. -/
def calledFn : HirExpr → Option HirFunctionId
  | .call c | .stateTailCall c => some c.resolvedFn
  | _ => none

/-! ### What is written down -/

@[simp] theorem ofU8_toU8_exprKind (k : CompactExprKind) : CompactExprKind.ofU8 k.toU8 = some k := by
  cases k <;> rfl

/-- The two ids that say which function a call goes to. -/
def functionIds (B : ArtifactBuilder) (f : BuilderState) (r : HirFunctionId) : UInt32 × UInt32 :=
  match B.hir.fns[r.toNat]? with
  | none => (noId, noId)
  | some fn => (stringId f fn.name, f.functionSignatureTypeIds[r.toNat]?.getD noId)

/-- How an expression is written down, told by the last tables. -/
structure Encodes (B : ArtifactBuilder) (f : BuilderState) (e : HirExpr) (ce : CompactExpr) : Prop where
  hydrated : ∀ {art : Cache.Artifact} {ids : List TypeId} {s s' : SessionTypes} {x : HirExpr},
    art.strings = f.strings → (∀ t, compactType ids t ≠ kInvalidType) →
    hydrateExpr typeTable art ids ce s = some (x, s') → s' = s ∧
      x = exprBack B (textBack f.strings) (typeBack f ids) (typeTable.isUnion s) (fun _ => kInvalidHirFunction) e
  function : (ce.resolvedFunctionNameId, ce.resolvedFunctionSignatureTypeId) =
    (calledFn e).elim (noId, noId) (functionIds B f)

section
variable {B : ArtifactBuilder} {f : BuilderState} {depth : ℕ} {F : Foretold BuilderState} {e : HirExpr}
  {ce : CompactExpr}

/-- A kind that is read without a lookup. -/
theorem encodes_pure (h : ∀ (art : Cache.Artifact) (ids : List TypeId) (isUnion : TypeId → Bool),
      hydrateExpr typeTable art ids ce = pure (exprBack B (textBack f.strings) (typeBack f ids) isUnion
        (fun _ => kInvalidHirFunction) e))
    (hfunction : (ce.resolvedFunctionNameId, ce.resolvedFunctionSignatureTypeId) =
      (calledFn e).elim (noId, noId) (functionIds B f)) : Encodes B f e ce := by
  refine ⟨?_, hfunction⟩
  intro art ids s s' x _ _ hrun
  rw [h art ids (typeTable.isUnion s)] at hrun
  obtain ⟨rfl, rfl⟩ := Prod.mk.inj (Option.some.inj hrun)
  exact ⟨rfl, rfl⟩

/-- A name is read back, up to the empty one. -/
theorem string_told {art : Cache.Artifact} {s s' : SessionTypes} {name x : Text} (hf : f.Fits)
    (hart : art.strings = f.strings) (hrun : string art (stringId f name) s = some (x, s')) :
    s' = s ∧ x = textBack f.strings name := by
  obtain ⟨text, htext, hpair⟩ := Option.map_eq_some_iff.mp hrun
  obtain ⟨rfl, rfl⟩ := Prod.mk.inj hpair
  rw [hart] at htext
  refine ⟨rfl, ?_⟩
  rw [textBack]
  split
  · next hname =>
    rw [stringId, if_pos hname] at htext
    rw [show f.strings[0]? = some text from htext, Option.getD_some]
  · next hname =>
    rw [stringId, if_neg hname] at htext
    have hle : (UInt32.ofNat (f.strings.idxOf name)).toNat = f.strings.idxOf name := by
      rw [UInt32.toNat_ofNat', Nat.mod_eq_of_lt (lt_of_le_of_lt List.idxOf_le_length hf.strings)]
    rw [hle] at htext
    obtain ⟨hlt, hget⟩ := List.getElem?_eq_some_iff.mp htext
    exact hget.symm.trans (List.getElem_idxOf hlt)

/-- A kind that is read with one name. -/
theorem encodes_named (hf : f.Fits) (name : Text) (read : List TypeId → Text → HirExpr)
    (h : ∀ (art : Cache.Artifact) (ids : List TypeId), hydrateExpr typeTable art ids ce =
      string art (stringId f name) >>= fun text => pure (read ids text))
    (hread : ∀ (ids : List TypeId) (isUnion : TypeId → Bool), read ids (textBack f.strings name) =
      exprBack B (textBack f.strings) (typeBack f ids) isUnion (fun _ => kInvalidHirFunction) e)
    (hfunction : (ce.resolvedFunctionNameId, ce.resolvedFunctionSignatureTypeId) =
      (calledFn e).elim (noId, noId) (functionIds B f)) : Encodes B f e ce := by
  refine ⟨fun hart _ hrun => ?_, hfunction⟩
  rw [h] at hrun
  obtain ⟨text, s₁, htext, hrun⟩ := bind_eq_some hrun
  obtain ⟨rfl, rfl⟩ := string_told hf hart htext
  obtain ⟨rfl, rfl⟩ := Prod.mk.inj (Option.some.inj hrun)
  exact ⟨rfl, hread _ _⟩

/-! ### Literals, casts and calls -/

theorem flag_and (b : Bool) : ((if b then 1 else 0 : UInt8) &&& 1 != 0) = b := by cases b <;> rfl

theorem convertLiteral_makes (h : Interns B.types f depth F) (hf : f.Fits) (value : HirLiteralValue) (id : TypeId) :
    F.Makes (Cache.convertLiteral B depth value id) (Encodes B f (.literal value id)) := by
  refine (h.type' id).bind fun k => ?_
  refine Makes.ite (fun hbool => Makes.pure ?_) fun hbool => Makes.ite (fun hfloat => Makes.pure ?_) fun hfloat =>
    Makes.ite (fun hptr => (h.string _).bind fun nameId => Makes.pure ?_) fun hptr => Makes.pure ?_
  · rintro rfl
    refine encodes_pure (fun art ids isUnion => ?_) rfl
    rw [exprBack, literalBack, if_pos hbool]
    simp only [hydrateExpr, ofU8_toU8_exprKind, hydrateLiteral]
    by_cases hword : literalWord B.pool value &&& 0xFF = 0
    · simp [hword, typeBack]
    · simp [hword, typeBack, bne_iff_ne.mpr hword]
  · rintro rfl
    refine encodes_pure (fun art ids isUnion => ?_) rfl
    rw [exprBack, literalBack, if_neg hbool, if_pos hfloat]
    simp only [hydrateExpr, ofU8_toU8_exprKind, hydrateLiteral]
    simp [typeBack]
  · rintro rfl rfl
    refine encodes_named hf (literalText B.pool value) (fun ids text => .literal (.strVal text) (typeBack f ids id))
      (fun art ids => ?_) (fun ids isUnion => ?_) rfl
    · simp only [hydrateExpr, ofU8_toU8_exprKind, hydrateLiteral]
      simp [typeBack]
    · rw [exprBack, literalBack, if_neg hbool, if_neg hfloat, if_pos hptr]
  · rintro rfl
    refine encodes_pure (fun art ids isUnion => ?_) rfl
    rw [exprBack, literalBack, if_neg hbool, if_neg hfloat, if_neg hptr]
    simp only [hydrateExpr, ofU8_toU8_exprKind, hydrateLiteral]
    simp [typeBack]

theorem withResolved_makes (hT : Cache.Earlier B.types) (hf : f.Fits) (fn : HirFunctionId) (ce : CompactExpr)
    (hname : ce.resolvedFunctionNameId = noId) (hsignature : ce.resolvedFunctionSignatureTypeId = noId) :
    (finishing B.types f).Makes (Cache.withResolved B fn ce) (· =
      { ce with resolvedFunctionNameId := (functionIds B f fn).1
                resolvedFunctionSignatureTypeId := (functionIds B f fn).2 }) := by
  rw [Cache.withResolved]
  cases hfn : B.hir.fns[fn.toNat]? with
  | none =>
    refine Makes.pure ?_
    simp only [functionIds, hfn]
    rw [← hname]
    nth_rewrite 2 [hname]
    rw [← hsignature]
  | some g =>
    refine ((Cache.interns_finishing 0 hT hf).string g.name).bind fun nameId => Cache.Makes.get_finishing fun s =>
      Makes.pure ?_
    rintro hs rfl
    simp only [functionIds, hfn, hs, hsignature]

/-- A call of either kind, with its flags. -/
theorem convertCall_makes (hT : Cache.Earlier B.types) (hf : f.Fits) (kind : CompactExprKind) (flags : UInt8)
    (c : HirCall) : (finishing B.types f).Makes (Cache.convertCall B depth kind flags c) fun ce =>
      ce.kind = kind.toU8 ∧ (ce.resolvedFunctionNameId, ce.resolvedFunctionSignatureTypeId) =
        functionIds B f c.resolvedFn ∧
      ∀ (ids : List TypeId) (musttail : Bool), (flags &&& 2 != 0) = c.usesTailCC → hydrateCall ids ce musttail =
        callBack (typeBack f ids) (fun _ => kInvalidHirFunction) c musttail ∧ ce.flags = flags := by
  have h := Cache.interns_finishing depth hT hf
  refine (withResolved_makes hT hf _ { kind := kind.toU8, refA := c.callee } rfl rfl).bind fun e => (h.type' _).bind fun refE =>
    (h.types _).bind fun argTypes => Makes.pure ?_
  rintro rfl rfl rfl
  refine ⟨rfl, rfl, fun ids musttail hflags => ⟨?_, rfl⟩⟩
  simp only [hydrateCall, callBack, HirExpr.mapCall, hflags, List.map_map]
  rfl

theorem tail_flags (a b : Bool) : ((((if a then 1 else 0 : UInt8) ||| if b then 2 else 0) &&& 1 != 0) = a) ∧
    ((((if a then 1 else 0 : UInt8) ||| if b then 2 else 0) &&& 2 != 0) = b) := by
  cases a <;> cases b <;> decide

theorem slice_flags (a b : Bool) : ((((if a then 1 else 0 : UInt8) ||| if b then 4 else 0) &&& 1 != 0) = a) ∧
    ((((if a then 1 else 0 : UInt8) ||| if b then 4 else 0) &&& 4 != 0) = b) := by
  cases a <;> cases b <;> decide

theorem flag_two (b : Bool) : ((if b then 2 else 0 : UInt8) &&& 2 != 0) = b := by cases b <;> decide

/-- A cast of either kind, by the types that come back. -/
theorem encodes_cast {value : HirExprId} {source target : TypeId} {memberIndex : UInt32} {safety : CompactSafetyMode}
    (hkind : ce.kind = CompactExprKind.cast.toU8) (hvalue : ce.refA = value) (hsource : ce.refE = hirTypeId f source)
    (htarget : ce.refB = hirTypeId f target) (hmember : ce.refC = memberIndex) (hsafety : ce.safety = safety)
    (hback : ∀ (onText : Text → Text) (onType : TypeId → TypeId) (isUnion : TypeId → Bool)
      (onFunction : HirFunctionId → HirFunctionId), exprBack B onText onType isUnion onFunction e =
        castBack onType isUnion value source target memberIndex safety)
    (hfunction : (ce.resolvedFunctionNameId, ce.resolvedFunctionSignatureTypeId) =
      (calledFn e).elim (noId, noId) (functionIds B f)) : Encodes B f e ce := by
  refine ⟨?_, hfunction⟩
  intro art ids s s' x _ hids hrun
  rw [hydrateExpr, hkind, ofU8_toU8_exprKind] at hrun
  simp only [hydrateCast, hsource, htarget, hvalue, hmember, hsafety] at hrun
  rw [if_neg (not_or.mpr ⟨hids _, hids _⟩)] at hrun
  rw [hback, castBack]
  change _ ∧ x = if typeTable.isUnion s (compactType ids (hirTypeId f source)) ||
    typeTable.isUnion s (compactType ids (hirTypeId f target)) then _ else _
  split at hrun <;> obtain ⟨rfl, rfl⟩ := Prod.mk.inj (Option.some.inj hrun)
  · next hunion => exact ⟨rfl, (if_pos hunion).symm⟩
  · next hunion => exact ⟨rfl, (if_neg hunion).symm⟩

theorem convertExpr_makes (hT : Cache.Earlier B.types) (hf : f.Fits) (e : HirExpr) :
    (finishing B.types f).Makes (Cache.convertExpr B depth e) (Encodes B f e) := by
  have h := Cache.interns_finishing depth hT hf
  cases e with
  | literal value id => exact convertLiteral_makes h hf value id
  | ret | branch | jump | phi | assign | slotStore | cleanup =>
    exact Makes.pure (encodes_pure (fun art ids isUnion => by simp [hydrateExpr, exprBack, HirExpr.map]) rfl)
  | runtimePanic code =>
    exact Makes.pure (encodes_pure (fun art ids isUnion => by simp [hydrateExpr, exprBack, HirExpr.map]) rfl)
  | unary | structLiteral | arrayLiteral | enumValue | slotAlloca | slotLoad | slotAddr | makeNone | makeSome
  | canonicalType | opaqueCheck | pipeCurrent =>
    refine (h.type' _).bind fun _ => Makes.pure ?_
    rintro rfl
    exact encodes_pure (fun art ids isUnion => by
      simp [hydrateExpr, exprBack, HirExpr.map, typeBack, canonicalIdOf]) rfl
  | binary | field | layoutIntrinsic | makeOpaque =>
    refine (h.type' _).bind fun _ => (h.type' _).bind fun _ => Makes.pure ?_
    rintro rfl rfl
    exact encodes_pure (fun art ids isUnion => by
      simp [hydrateExpr, exprBack, HirExpr.map, typeBack, canonicalIdOf]) rfl
  | index object position id objType isArray safety =>
    refine (h.type' _).bind fun _ => (h.type' _).bind fun _ => Makes.pure ?_
    rintro rfl rfl
    exact encodes_pure (fun art ids isUnion => by
      simp only [hydrateExpr, exprBack, HirExpr.map, typeBack, ofU8_toU8_exprKind, flag_and]) rfl
  | makeSlice object lo hi id objectType boundType isArray isPointer safety =>
    refine (h.type' _).bind fun _ => (h.type' _).bind fun _ => (h.type' _).bind fun _ => Makes.pure ?_
    rintro rfl rfl rfl
    exact encodes_pure (fun art ids isUnion => by
      simp only [hydrateExpr, exprBack, HirExpr.map, typeBack, ofU8_toU8_exprKind, slice_flags]) rfl
  | unionCheck value unionType memberIndex =>
    refine (h.type 3).bind fun _ => (h.type' _).bind fun _ => Makes.pure ?_
    rintro rfl rfl
    exact encodes_pure (fun art ids isUnion => by simp [hydrateExpr, exprBack, HirExpr.map, typeBack]) rfl
  | pipe sourceSlot sourceType stage id isEffect =>
    refine (h.type' _).bind fun _ => (h.type' _).bind fun _ => Makes.pure ?_
    rintro rfl rfl
    refine encodes_pure (fun art ids isUnion => ?_) rfl
    cases isEffect <;> simp [hydrateExpr, exprBack, HirExpr.map, typeBack]
  | opaqueCast =>
    refine (h.type' _).bind fun _ => (h.type' _).bind fun _ => (h.type' _).bind fun _ => (h.type' _).bind fun _ =>
      Makes.pure ?_
    rintro rfl rfl rfl rfl
    exact encodes_pure (fun art ids isUnion => by
      simp only [hydrateExpr, exprBack, HirExpr.map, typeBack, ofU8_toU8_exprKind, flag_two, canonicalIdOf]) rfl
  | «let» name id init =>
    refine (h.string name).bind fun _ => (h.type' id).bind fun _ => Makes.pure ?_
    rintro rfl rfl
    exact encodes_named hf name (fun ids text => .let text (typeBack f ids id) init)
      (fun art ids => by simp [hydrateExpr, typeBack]) (fun _ _ => rfl) rfl
  | var name version =>
    refine (h.string name).bind fun _ => Makes.pure ?_
    rintro rfl
    exact encodes_named hf name (fun ids text => .var text version) (fun art ids => by simp [hydrateExpr])
      (fun _ _ => rfl) rfl
  | globalConstLoad name id =>
    refine (h.string name).bind fun _ => (h.type' id).bind fun _ => Makes.pure ?_
    rintro rfl rfl
    exact encodes_named hf name (fun ids text => .globalConstLoad text (typeBack f ids id))
      (fun art ids => by simp [hydrateExpr, typeBack]) (fun _ _ => rfl) rfl
  | externalGlobalAddr name id =>
    refine (h.string name).bind fun _ => (h.type' id).bind fun _ => Makes.pure ?_
    rintro rfl rfl
    exact encodes_named hf name (fun ids text => .externalGlobalAddr text (typeBack f ids id))
      (fun art ids => by simp [hydrateExpr, typeBack]) (fun _ _ => rfl) rfl
  | makeDyn value sourceType dynType vtableName valueIsPlace =>
    refine (h.type' _).bind fun _ => (h.type' _).bind fun _ => (h.string vtableName).bind fun _ => Makes.pure ?_
    rintro rfl rfl rfl
    exact encodes_named hf vtableName
      (fun ids text => .makeDyn value (typeBack f ids sourceType) (typeBack f ids dynType) text valueIsPlace)
      (fun art ids => by simp only [hydrateExpr, typeBack, ofU8_toU8_exprKind, flag_and]) (fun _ _ => rfl) rfl
  | dynCall receiver vtableName slotIndex hasReceiver resultType fnType args argTypes =>
    refine (h.string vtableName).bind fun _ => (h.type' _).bind fun _ => (h.type' _).bind fun _ =>
      (h.types argTypes).bind fun _ => Makes.pure ?_
    rintro rfl rfl rfl rfl
    exact encodes_named hf vtableName
      (fun ids text => .dynCall receiver text slotIndex hasReceiver (typeBack f ids resultType)
        (typeBack f ids fnType) args (argTypes.map (typeBack f ids)))
      (fun art ids => by
        simp only [hydrateExpr, typeBack, ofU8_toU8_exprKind, flag_and, List.map_map]
        rfl) (fun _ _ => rfl) rfl
  | cast value source target =>
    refine (h.type' _).bind fun _ => (h.type' _).bind fun _ => Makes.pure ?_
    rintro rfl rfl
    exact encodes_cast rfl rfl rfl rfl rfl rfl (fun _ _ _ _ => rfl) rfl
  | unionCast value source target memberIndex safety =>
    refine (h.type' _).bind fun _ => (h.type' _).bind fun _ => Makes.pure ?_
    rintro rfl rfl
    exact encodes_cast rfl rfl rfl rfl rfl rfl (fun _ _ _ _ => rfl) rfl
  | call c =>
    refine (convertCall_makes hT hf .call _ c).mono fun ce ⟨hkind, hfunction, hcall⟩ => encodes_pure (fun art ids isUnion => ?_) hfunction
    obtain ⟨hback, hflags⟩ := hcall ids c.musttail (tail_flags _ _).2
    rw [hydrateExpr, hkind, ofU8_toU8_exprKind]
    simp only [hflags, (tail_flags _ _).1, hback, exprBack]
  | stateTailCall c =>
    refine (convertCall_makes hT hf .stateTailCall _ c).mono fun ce ⟨hkind, hfunction, hcall⟩ => encodes_pure (fun art ids isUnion => ?_) hfunction
    obtain ⟨hback, -⟩ := hcall ids true (flag_two _)
    rw [hydrateExpr, hkind, ofU8_toU8_exprKind]
    simp only [hback, exprBack]

theorem convertCall_known (hT : Cache.Earlier B.types) (hf : f.Fits) (kind : CompactExprKind) (flags : UInt8)
    (c : HirCall) : (finishing B.types f).Makes (Cache.convertCall B depth kind flags c) fun _ =>
      ∀ t ∈ c.fnType :: c.argumentTypes, Cache.Known f t.toNat := by
  have h := Cache.interns_finishing depth hT hf
  refine (withResolved_makes hT hf _ { kind := kind.toU8, refA := c.callee } rfl rfl).bind fun _ =>
    (h.known _).bind fun _ => (h.allKnown _).bind fun _ => Makes.pure fun hargs hfn _ => ?_
  exact List.forall_mem_cons.mpr ⟨hfn, hargs⟩

/-- The types of an expression have entries. -/
theorem convertExpr_known (hT : Cache.Earlier B.types) (hf : f.Fits) (e : HirExpr) :
    (finishing B.types f).Makes (Cache.convertExpr B depth e) fun _ => ∀ t ∈ e.types, Cache.Known f t.toNat := by
  have h := Cache.interns_finishing depth hT hf
  cases e with
  | literal value id =>
    refine (h.known id).bind fun _ => Makes.ite (fun _ => Makes.pure fun hid => ?_) fun _ =>
      Makes.ite (fun _ => Makes.pure fun hid => ?_) fun _ =>
      Makes.ite (fun _ => (h.string _).bind fun _ => Makes.pure fun _ hid => ?_) fun _ => Makes.pure fun hid => ?_
    all_goals simpa [HirExpr.types] using hid
  | ret | branch | jump | phi | assign | slotStore | cleanup | runtimePanic =>
    exact Makes.pure (by simp [HirExpr.types])
  | unary | structLiteral | arrayLiteral | enumValue | slotAlloca | slotLoad | slotAddr | makeNone | makeSome
  | canonicalType | opaqueCheck | pipeCurrent =>
    refine (h.known _).bind fun _ => Makes.pure fun hid => ?_
    simpa [HirExpr.types] using hid
  | binary | field | index | layoutIntrinsic | makeOpaque | cast | unionCast | pipe =>
    refine (h.known _).bind fun _ => (h.known _).bind fun _ => Makes.pure fun hid hid' => ?_
    simp_all [HirExpr.types]
  | makeSlice =>
    refine (h.known _).bind fun _ => (h.known _).bind fun _ => (h.known _).bind fun _ => Makes.pure fun _ _ _ => ?_
    simp_all [HirExpr.types]
  | opaqueCast =>
    refine (h.known _).bind fun _ => (h.known _).bind fun _ => (h.known _).bind fun _ => (h.known _).bind fun _ =>
      Makes.pure fun _ _ _ _ => ?_
    simp_all [HirExpr.types]
  | unionCheck value unionType memberIndex =>
    refine (h.type 3).bind fun _ => (h.known _).bind fun _ => Makes.pure fun hid _ => ?_
    simpa [HirExpr.types] using hid
  | «let» | globalConstLoad | externalGlobalAddr =>
    refine (h.string _).bind fun _ => (h.known _).bind fun _ => Makes.pure fun hid _ => ?_
    simpa [HirExpr.types] using hid
  | var name version => exact (h.string _).bind fun _ => Makes.pure fun _ => by simp [HirExpr.types]
  | makeDyn =>
    refine (h.known _).bind fun _ => (h.known _).bind fun _ => (h.string _).bind fun _ => Makes.pure fun _ _ _ => ?_
    simp_all [HirExpr.types]
  | dynCall =>
    refine (h.string _).bind fun _ => (h.known _).bind fun _ => (h.known _).bind fun _ => (h.allKnown _).bind fun _ =>
      Makes.pure fun _ _ _ _ => ?_
    simp_all [HirExpr.types]
  | call c | stateTailCall c => exact convertCall_known hT hf _ _ c

end

end Zith.Session
