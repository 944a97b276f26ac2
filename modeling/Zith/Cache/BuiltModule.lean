import Zith.Cache.BuilderSteps

/-! What `build` makes of a module, told by the last tables. Up to the functions each step may add a signature;
    after them none does, so that an expression sees every signature there is.

        declarations, templates, functions ──▶ expressions, globals, vtables, definitions -/

namespace Zith.Cache
open Zith.Lib Zith.Lib.Foretold Zith.Hir
open Growing (bind_eq_some)
open Types (TypeIntern TypeData)
open Zirl (CompactType CompactTypeKind CompactStructDef CompactEnumDef CompactUnionDef)

/-! ### Two stages -/

/-- Up to the functions. -/
def building (T : TypeIntern) (f : BuilderState) : Foretold BuilderState where
  grows s t := s.Le t
  below s := s.Le f
  inv s := s.Inv T f
  refl := .refl
  trans := .trans
  back := .trans

/-- After the functions. -/
def finishing (T : TypeIntern) (f : BuilderState) : Foretold BuilderState where
  grows s t := s.Le t ∧ t.functionSignatureTypeIds = s.functionSignatureTypeIds
  below s := s.Le f ∧ s.functionSignatureTypeIds = f.functionSignatureTypeIds
  inv s := s.Inv T f
  refl s := ⟨.refl s, rfl⟩
  trans h h' := ⟨h.1.trans h'.1, h'.2.trans h.2⟩
  back h h' := ⟨h.1.trans h'.1, h.2.symm.trans h'.2⟩

section
variable {T : TypeIntern} {f : BuilderState} {depth : ℕ} {α : Type} {m : Build α} {R : α → Prop}

theorem building_of_interning {n : ℕ} (h : (interning T f n).Makes m R) : (building T f).Makes m R :=
  h.lift (fun _ _ h => h.1) (fun _ h => h) rfl

theorem finishing_of_interning {n : ℕ} (h : (interning T f n).Makes m R) : (finishing T f).Makes m R :=
  h.lift (fun _ _ h => ⟨h.1, h.2.1⟩) (fun _ h => h.1) rfl

theorem internType_told (hT : Earlier T) (hf : f.Fits) (id : ℕ) :
    (interning T f (id + 1)).Makes (internType T depth id) fun k => k = typeId f id ∧ Known f id :=
  internType_enters hT hf (.inl (Nat.lt_succ_self id))

/-- The facts the stages share: what interning a text and a type makes. -/
structure Interns (T : TypeIntern) (f : BuilderState) (depth : ℕ) (F : Foretold BuilderState) : Prop where
  string : ∀ s, F.Makes (internString s) (· = stringId f s)
  enters : ∀ id, F.Makes (internType T depth id) fun k => k = typeId f id ∧ Known f id

theorem interns_building (depth : ℕ) (hT : Earlier T) (hf : f.Fits) : Interns T f depth (building T f) :=
  ⟨fun s => building_of_interning (n := 0) (internString_makes s), fun id => building_of_interning (internType_told hT hf id)⟩

theorem interns_finishing (depth : ℕ) (hT : Earlier T) (hf : f.Fits) : Interns T f depth (finishing T f) :=
  ⟨fun s => finishing_of_interning (n := 0) (internString_makes s), fun id => finishing_of_interning (internType_told hT hf id)⟩

theorem Interns.type {F : Foretold BuilderState} (h : Interns T f depth F) (id : ℕ) :
    F.Makes (internType T depth id) (· = typeId f id) := (h.enters id).mono fun _ hk => hk.1

end

/-- The id of a type of the module. -/
def hirTypeId (f : BuilderState) (id : TypeId) : UInt32 := typeId f id.toNat

section
variable {B : ArtifactBuilder} {f : BuilderState} {depth : ℕ} {F : Foretold BuilderState}

theorem Interns.type' (h : Interns B.types f depth F) (id : TypeId) :
    F.Makes (Cache.type B depth id) (· = hirTypeId f id) := h.type id.toNat

theorem Interns.types (h : Interns B.types f depth F) (ids : List TypeId) :
    F.Makes (ids.mapM (Cache.type B depth)) (· = ids.map (hirTypeId f)) :=
  (Makes.mapM fun id _ => h.type' id).mono fun _ => eq_map

theorem Interns.known (h : Interns B.types f depth F) (id : TypeId) :
    F.Makes (Cache.type B depth id) fun _ => Known f id.toNat := (h.enters id.toNat).mono fun _ hk => hk.2

theorem Interns.allKnown (h : Interns B.types f depth F) (ids : List TypeId) :
    F.Makes (ids.mapM (Cache.type B depth)) fun _ => ∀ id ∈ ids, Known f id.toNat := by
  refine (Makes.mapM fun id _ => h.known id).mono fun ks hks id hid => ?_
  obtain ⟨i, hi, rfl⟩ := List.mem_iff_getElem.mp hid
  exact hks.get hi (by rw [← hks.length_eq]; exact hi)

theorem Interns.rows (h : Interns B.types f depth F) (ids : List ℕ) :
    F.Makes (ids.mapM (internType B.types depth)) (· = ids.map (typeId f)) :=
  (Makes.mapM fun id _ => h.type id).mono fun _ => eq_map

theorem Interns.strings (h : Interns B.types f depth F) (names : List Text) :
    F.Makes (names.mapM internString) (· = names.map (stringId f)) :=
  (Makes.mapM fun name _ => h.string name).mono fun _ => eq_map

/-! ### Declarations and templates -/

/-- How many field names and field types a declaration gets. -/
def recordFieldCounts (B : ArtifactBuilder) (defId : ℕ) : ℕ × ℕ :=
  match B.types.structDefs[defId]? with
  | some d => (d.fields.length, d.fields.length)
  | none =>
    match B.types.unionDefs[defId]? with
    | some d => (0, d.members.length)
    | none => (0, 0)

def fieldCounts (B : ArtifactBuilder) (d : Hir.HirDeclaration) : ℕ × ℕ :=
  let data := B.types.lookup (declType B d)
  match d.kind with
  | .struct | .union | .component =>
    match if isType (declType B d) then data else none with
    | some (.struct defId) | some (.union defId) => recordFieldCounts B defId
    | _ => (0, 0)
  | .enum =>
    match data with
    | some (.enum defId) => (((B.types.enumDefs[defId]?.map (·.variants)).getD []).length, 0)
    | _ => (0, 0)
  | _ => (0, 0)

/-- The lists have the lengths that the counts say. -/
def Counted (counts : ℕ × ℕ) (lists : List UInt32 × List UInt32) : Prop := (lists.1.length, lists.2.length) = counts

theorem recordFieldLists_makes (h : Interns B.types f depth F) (defId : ℕ) :
    F.Makes (recordFieldLists B depth defId) (Counted (recordFieldCounts B defId)) := by
  rw [recordFieldLists, recordFieldCounts]
  cases B.types.structDefs[defId]? with
  | some d =>
    refine (Makes.mapM_length fun field _ => ?_).bind fun fields => Makes.pure fun hlen => ?_
    · exact (h.string _).bind fun _ => (h.type _).bind fun _ => Makes.pure fun _ _ => trivial
    · simp [Counted, hlen]
  | none =>
    cases B.types.unionDefs[defId]? with
    | some d => exact (h.rows _).bind fun _ => Makes.pure fun heq => by simp [Counted, heq]
    | none => exact Makes.pure rfl

theorem fieldLists_makes (h : Interns B.types f depth F) (d : Hir.HirDeclaration) :
    F.Makes (fieldLists B depth d (declType B d)) (Counted (fieldCounts B d)) := by
  rw [fieldLists, fieldCounts]
  cases d.kind with
  | struct | union | component =>
    cases if isType (declType B d) then B.types.lookup (declType B d) else none with
    | none => exact Makes.pure rfl
    | some data =>
      cases data with
      | struct defId | union defId => exact recordFieldLists_makes h defId
      | _ => exact Makes.pure rfl
  | enum =>
    cases B.types.lookup (declType B d) with
    | none => exact Makes.pure rfl
    | some data =>
      cases data with
      | enum defId =>
        exact (Makes.mapM_length fun v _ => (h.string _).any).bind fun _ => Makes.pure fun hlen => by simp [Counted, hlen]
      | _ => exact Makes.pure rfl
  | _ => exact Makes.pure rfl

theorem internTypeIf_makes (h : Interns B.types f depth F) (present : Bool) (id : ℕ) (otherwise : UInt32) :
    F.Makes (internTypeIf B depth present id otherwise) (· = if present then typeId f id else otherwise) :=
  Makes.ite (fun hp => (h.type id).mono fun _ hk => by rw [if_pos hp, hk]) fun hp => Makes.pure (by rw [if_neg hp])

theorem internTypeIf_known (h : Interns B.types f depth F) (present : Bool) (id : ℕ) (otherwise : UInt32) :
    F.Makes (internTypeIf B depth present id otherwise) fun _ => present = true → Known f id :=
  Makes.ite (fun _ => (h.enters id).mono fun _ hk _ => hk.2) fun hp => Makes.pure fun hp' => absurd hp' hp

/-- The compact type of a declaration; without a type it is the first one. -/
def declTypeId (B : ArtifactBuilder) (f : BuilderState) (d : Hir.HirDeclaration) : UInt32 :=
  if isType (declType B d) then typeId f (declType B d) else 0

structure BuildsDecl (B : ArtifactBuilder) (f : BuilderState) (d : Hir.HirDeclaration) (r : BuiltDecl) : Prop where
  name : r.name = d.name
  nameId : r.nameId = stringId f d.name
  kind : r.kind = d.kind
  visibility : r.visibility = d.visibility
  typeId : r.typeId = declTypeId B f d
  known : isType (declType B d) = true → Known f (declType B d)
  counted : Counted (fieldCounts B d) (r.fieldNameIds, r.fieldTypeIds)
  methods : r.methodDeclIndices = if hasMethods d.kind then recorded B d.methodDeclarations else []

theorem buildDecl_makes (h : Interns B.types f depth F) (d : Hir.HirDeclaration) :
    F.Makes (buildDecl B depth d) (BuildsDecl B f d) := by
  refine (h.string d.name).bind fun nameId => ((internTypeIf_makes h _ _ _).and (internTypeIf_known h _ _ _)).bind fun id =>
    (fieldLists_makes h d).bind fun lists => Makes.pure ?_
  rintro hcounted ⟨rfl, hknown⟩ rfl
  exact ⟨rfl, rfl, rfl, rfl, rfl, hknown, hcounted, rfl⟩

theorem buildGenericParam_makes (h : Interns B.types f depth F) (p : HirGenericParam) :
    F.Makes (buildGenericParam B depth p) fun _ => True :=
  (h.string _).bind fun _ => (h.types _).bind fun _ => Makes.pure fun _ _ => trivial

theorem buildTemplate_makes (h : Interns B.types f depth F) (t : HirTemplate) :
    F.Makes (buildTemplate B depth t) fun _ => True := by
  refine (h.string _).bind fun _ => (internTypeIf_makes h _ _ _).bind fun _ => (Makes.mapM_any fun p _ => buildGenericParam_makes h p).bind fun _ =>
    (h.types _).bind fun _ => (h.strings _).bind fun _ => (h.strings _).bind fun _ => (h.types _).bind fun _ =>
    (h.types _).bind fun _ => Makes.pure ?_
  intros
  trivial

/-! ### Globals and definitions -/

theorem buildGlobal_makes (h : Interns B.types f depth F) (g : HirGlobalConst) :
    F.Makes (buildGlobal B depth g) fun _ => True :=
  (h.string _).bind fun _ => (h.type' _).bind fun _ => Makes.pure fun _ _ => trivial

/-- A definition keeps its name. -/
theorem buildStructDef_makes (h : Interns B.types f depth F) (d : Types.StructDef × ℕ) :
    F.Makes (buildStructDef B depth d) fun r => r.name = d.1.name := by
  refine (h.string _).bind fun _ => (Makes.mapM_any fun field _ => ?_).bind fun _ => (h.rows _).bind fun _ =>
    Makes.pure fun _ _ _ => rfl
  exact (h.string _).bind fun _ => (h.type _).bind fun _ => Makes.pure fun _ _ => trivial

theorem buildEnumDef_makes (h : Interns B.types f depth F) (d : Types.EnumDef) :
    F.Makes (buildEnumDef B depth d) fun r => r.name = d.name := by
  refine (h.string _).bind fun _ => (internTypeIf_makes h _ _ _).bind fun _ =>
    (Makes.mapM_any fun v _ => ?_).bind fun _ => Makes.pure fun _ _ _ => rfl
  exact (h.string _).bind fun _ => Makes.pure fun _ => trivial

theorem buildUnionDef_makes (h : Interns B.types f depth F) (d : Types.UnionDef) :
    F.Makes (buildUnionDef B depth d) fun r => r.name = d.name :=
  (h.string _).bind fun _ => (h.rows _).bind fun _ => Makes.pure fun _ _ => rfl

/-! ### Functions -/

/-- The compact type that stands for a function. -/
def signatureOf (f : BuilderState) (fn : HirFunction) : CompactType :=
  { blankType with kind := .fn, ref0 := hirTypeId f fn.returnType, flags := signatureFlags fn
                   args := fn.params.map (hirTypeId f) }

structure BuildsFunction (f : BuilderState) (fn : HirFunction) (r : CompactFunction) : Prop where
  name : r.name = fn.name
  nameId : r.nameId = stringId f fn.name
  returnTypeId : r.returnTypeId = hirTypeId f fn.returnType
  paramTypeIds : r.paramTypeIds = fn.params.map (hirTypeId f)
  flags : Zirl.functionFlags r = signatureFlags fn
  signature : f.compactTypes[r.signatureTypeId.toNat]? = some (signatureOf f fn)

end

section
variable {B : ArtifactBuilder} {f : BuilderState} {depth n : ℕ}

theorem pushSignature_makes {T : TypeIntern} (hf : f.Fits) (ct : CompactType) :
    (interning T f n).Makes (pushSignature ct) fun k => f.compactTypes[k.toNat]? = some ct := by
  intro s k t hrun
  obtain ⟨rfl, rfl⟩ := Prod.mk.inj (Option.some.inj hrun)
  refine ⟨⟨⟨List.prefix_rfl, List.prefix_append _ _, id, List.prefix_rfl⟩, rfl, fun _ _ => rfl⟩, fun hle hs =>
    ⟨⟨hs.nodup, hs.nonempty, fun hk => ?_, hs.entered⟩, ?_⟩⟩
  · rw [List.length_append, List.length_singleton]
    exact (hs.bound hk).trans (Nat.lt_succ_self _)
  · have hlen : s.compactTypes.length < f.compactTypes.length := by
      have := hle.compactTypes.length_le
      rwa [List.length_append, List.length_singleton] at this
    obtain ⟨rest, hrest⟩ := hle.compactTypes
    change f.compactTypes[(UInt32.ofNat s.compactTypes.length).toNat]? = some ct
    rw [UInt32.toNat_ofNat', Nat.mod_eq_of_lt (hlen.trans hf.compactTypes), ← hrest]
    simp

theorem signature_makes (hT : Earlier B.types) (hf : f.Fits) (fn : HirFunction) :
    (building B.types f).Makes (internFunctionSignature B depth fn) fun k =>
      f.compactTypes[k.toNat]? = some (signatureOf f fn) := by
  have h := interns_building depth hT hf
  refine (h.type' _).bind fun ref0 => (h.types _).bind fun args =>
    (building_of_interning (pushSignature_makes (n := 0) hf _)).mono ?_
  rintro k hk rfl rfl
  exact hk

theorem buildParam_makes (hT : Earlier B.types) (hf : f.Fits) (fn : HirFunction) (param : TypeId × ℕ) :
    (building B.types f).Makes (buildParam B depth fn param) fun r => r.1 = hirTypeId f param.1 := by
  have h := interns_building depth hT hf
  refine (h.type' _).bind fun k => (Makes.ofOption (R := fun _ => True) fun _ _ => trivial).bind fun name =>
    (h.string _).bind fun _ => Makes.pure ?_
  rintro - - hk
  exact hk

theorem recordSignature_makes (k : UInt32) : (building B.types f).Makes
      (modify fun b => { b with functionSignatureTypeIds := b.functionSignatureTypeIds ++ [k] }) fun _ => True := by
  intro s _ t hrun
  obtain ⟨-, rfl⟩ := Prod.mk.inj (Option.some.inj hrun)
  exact ⟨⟨List.prefix_rfl, List.prefix_rfl, id, List.prefix_append _ _⟩, fun _ hs =>
    ⟨⟨hs.nodup, hs.nonempty, hs.bound, hs.entered⟩, trivial⟩⟩

theorem internAdapter_makes {F : Foretold BuilderState} (h : Interns B.types f depth F) (adapter : Option Text) :
    F.Makes (internAdapter adapter) fun _ => True := by
  cases adapter with
  | none => exact Makes.pure trivial
  | some name => exact (h.string name).any

theorem map_fst_of_forall₂ {g : TypeId → UInt32} : ∀ {l : List (TypeId × ℕ)} {l' : List (UInt32 × UInt32 × UInt32)},
    List.Forall₂ (fun a b => b.1 = g a.1) l l' → l'.map (·.1) = (l.map (·.1)).map g := by
  intro l l' h
  induction h with
  | nil => rfl
  | cons hab _ ih => rw [List.map_cons, ih, hab, List.map_cons, List.map_cons]

theorem buildFunction_makes (hT : Earlier B.types) (hf : f.Fits) (path : Text) (fn : HirFunction × ℕ)
    (instances : List InstantiationRecord) :
    (building B.types f).Makes (buildFunction B depth path fn instances) fun r => BuildsFunction f fn.1 r.1 := by
  have h := interns_building depth hT hf
  refine (h.string _).bind fun nameId => (internAdapter_makes h _).bind fun _ => (h.type' _).bind fun ret =>
    (internTypeIf_makes h _ _ _).bind fun _ => (Makes.mapM fun p _ => buildParam_makes hT hf fn.1 p).bind fun params =>
    (signature_makes hT hf fn.1).bind fun sig => (recordSignature_makes sig).bind fun _ => Makes.pure ?_
  rintro - hsig hparams - rfl - rfl
  refine ⟨rfl, rfl, rfl, ?_, rfl, hsig⟩
  change params.map (·.1) = _
  rw [map_fst_of_forall₂ hparams, List.zipIdx_map_fst]

/-- A function has one new signature. -/
theorem buildFunction_signature (hT : Earlier B.types) (hf : f.Fits) {path : Text} {fn : HirFunction × ℕ}
    {instances : List InstantiationRecord} {s t : BuilderState} {r : CompactFunction × List InstantiationRecord}
    (hrun : buildFunction B depth path fn instances s = some (r, t)) :
    t.functionSignatureTypeIds = s.functionSignatureTypeIds ++ [r.1.signatureTypeId] := by
  have h := interns_finishing depth hT hf
  have hparam : ∀ p, (finishing B.types f).Makes (buildParam B depth fn.1 p) fun _ => True := fun p =>
    (h.type' _).bind fun _ => (Makes.ofOption (R := fun _ => True) fun _ _ => trivial).bind fun _ =>
      (h.string _).bind fun _ => Makes.pure fun _ _ _ => trivial
  obtain ⟨_, s₁, h₁, hrun⟩ := bind_eq_some hrun
  obtain ⟨_, s₂, h₂, hrun⟩ := bind_eq_some hrun
  obtain ⟨_, s₃, h₃, hrun⟩ := bind_eq_some hrun
  obtain ⟨_, s₄, h₄, hrun⟩ := bind_eq_some hrun
  obtain ⟨_, s₅, h₅, hrun⟩ := bind_eq_some hrun
  obtain ⟨sig, s₆, h₆, hrun⟩ := bind_eq_some hrun
  obtain ⟨_, s₇, h₇, hrun⟩ := bind_eq_some hrun
  obtain ⟨_, u₁, hret, h₆⟩ := bind_eq_some h₆
  obtain ⟨_, u₂, hargs, hpush⟩ := bind_eq_some h₆
  have hgrow := (finishing B.types f).trans (((h.string _) _ _ _ h₁).1) <|
    (finishing B.types f).trans (((internAdapter_makes h _) _ _ _ h₂).1) <|
    (finishing B.types f).trans (((h.type' _) _ _ _ h₃).1) <|
    (finishing B.types f).trans (((internTypeIf_makes h _ _ _) _ _ _ h₄).1) <|
    (finishing B.types f).trans ((Makes.mapM_any fun p _ => hparam p) _ _ _ h₅).1 <|
    (finishing B.types f).trans (((h.type' _) _ _ _ hret).1) ((h.types _) _ _ _ hargs).1
  obtain ⟨rfl, rfl⟩ := Prod.mk.inj (Option.some.inj hrun)
  obtain ⟨-, rfl⟩ := Prod.mk.inj (Option.some.inj h₇)
  obtain ⟨rfl, rfl⟩ := Prod.mk.inj (Option.some.inj hpush)
  exact congrArg (· ++ _) hgrow.2

theorem buildFunctions_makes (hT : Earlier B.types) (hf : f.Fits) (path : Text) :
    ∀ (fns : List (HirFunction × ℕ)) (instances : List InstantiationRecord),
      (building B.types f).Makes (buildFunctions B depth path fns instances) fun r =>
        List.Forall₂ (fun fn cfn => BuildsFunction f fn.1 cfn) fns r.1 := by
  intro fns
  induction fns with
  | nil => exact fun _ => Makes.pure List.Forall₂.nil
  | cons fn fns ih =>
    intro instances
    rw [buildFunctions]
    refine (buildFunction_makes hT hf path fn instances).bind fun r => (ih r.2).bind fun rs => Makes.pure ?_
    exact fun hrs hr => List.Forall₂.cons hr hrs

/-- One signature for each function. -/
theorem buildFunctions_signatures (hT : Earlier B.types) (hf : f.Fits) (path : Text) :
    ∀ {fns : List (HirFunction × ℕ)} {instances : List InstantiationRecord} {s t : BuilderState}
      {r : List CompactFunction × List InstantiationRecord}, buildFunctions B depth path fns instances s = some (r, t) →
        t.functionSignatureTypeIds = s.functionSignatureTypeIds ++ r.1.map (·.signatureTypeId) := by
  intro fns
  induction fns with
  | nil =>
    intro instances s t r hrun
    obtain ⟨rfl, rfl⟩ := Prod.mk.inj (Option.some.inj hrun)
    simp
  | cons fn fns ih =>
    intro instances s t r hrun
    rw [buildFunctions] at hrun
    obtain ⟨r₁, s₁, hone, hrun⟩ := bind_eq_some hrun
    obtain ⟨r₂, s₂, hrest, hrun⟩ := bind_eq_some hrun
    obtain ⟨rfl, rfl⟩ := Prod.mk.inj (Option.some.inj hrun)
    rw [ih hrest, buildFunction_signature hT hf hone, List.append_assoc]
    rfl

/-! ### VTables -/

theorem Makes.get_finishing {α : Type} {T : TypeIntern} {g : BuilderState → Build α} {R : α → Prop}
    (h : ∀ s, (finishing T f).Makes (g s) fun a => s.functionSignatureTypeIds = f.functionSignatureTypeIds → R a) :
    (finishing T f).Makes (get >>= g) R := by
  intro s a t hrun
  obtain ⟨hgrow, hR⟩ := h s s a t hrun
  exact ⟨hgrow, fun hle hs => ⟨(hR hle hs).1, (hR hle hs).2 ((finishing T f).back hgrow hle).2⟩⟩

theorem buildVTable_makes (hT : Earlier B.types) (hf : f.Fits) (v : HirVTable) :
    (finishing B.types f).Makes (buildVTable B v) fun _ => True := by
  have h := interns_finishing 0 hT hf
  refine (h.string _).bind fun _ => (Makes.mapM_any fun id _ => ?_).bind fun _ => Makes.pure fun _ _ => trivial
  rw [buildSlot]
  split
  · exact Makes.pure trivial
  · refine (h.string _).bind fun _ => Makes.get_finishing fun s => ?_
    exact (Makes.ofOption (R := fun _ => True) fun _ _ => trivial).bind fun _ => Makes.pure fun _ _ _ => trivial

end

end Zith.Cache
