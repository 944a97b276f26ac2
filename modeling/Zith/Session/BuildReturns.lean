import Zith.Lib.Moves
import Zith.Session.RebuiltExprs

/-! `build` returns, at a depth that is greater than the number of rows, for a module whose types are all in its
    table. Rows refer to earlier rows, so that interning one goes no deeper than its number. -/

namespace Zith.Session
open Zith.Lib Zith.Lib.Foretold Zith.Hir Zith.Cache
open Types (TypeIntern TypeData)
open Zirl (DependencyRecord)

/-- A row of the table, or no type. -/
def InTable (T : TypeIntern) (id : ℕ) : Prop := id < T.types.length ∨ id = kInvalidType.toNat

/-- What is interned for a function is there. -/
structure FunctionInTable (T : TypeIntern) (fn : HirFunction) : Prop where
  returnType : InTable T fn.returnType.toNat
  machineReturnType : InTable T fn.machineReturnType.toNat
  params : ∀ t ∈ fn.params, InTable T t.toNat
  named : fn.params.length ≤ fn.paramNames.length

structure TemplateInTable (T : TypeIntern) (t : HirTemplate) : Prop where
  returnType : InTable T t.returnType.toNat
  bounds : ∀ p ∈ t.params, ∀ b ∈ p.bounds, InTable T b.toNat
  parameterTypes : ∀ p ∈ t.parameterTypes, InTable T p.toNat
  fieldTypes : ∀ f ∈ t.fieldTypes, InTable T f.toNat
  traitTypes : ∀ r ∈ t.traitTypes, InTable T r.toNat

/-- The types of a module are in its table. -/
structure InTables (B : ArtifactBuilder) : Prop where
  bool : 3 < B.types.types.length
  declarations : ∀ d ∈ B.hir.declarations, InTable B.types (declType B d)
  templates : ∀ t ∈ B.hir.templates, TemplateInTable B.types t
  fns : ∀ fn ∈ B.hir.fns, FunctionInTable B.types fn
  exprs : ∀ e ∈ B.hir.exprs, ∀ t ∈ e.types, InTable B.types t.toNat
  globals : ∀ g ∈ B.hir.globals, InTable B.types g.type.toNat
  structs : ∀ d ∈ B.types.structDefs, ∀ field ∈ d.fields, InTable B.types field.type
  rests : ∀ r ∈ B.structRests, ∀ arg ∈ r.args, InTable B.types arg
  enums : ∀ d ∈ B.types.enumDefs, InTable B.types d.underlying
  unions : ∀ d ∈ B.types.unionDefs, ∀ member ∈ d.members, InTable B.types member

/-! ### Types -/

theorem internString_succeeds (s : Text) : Succeeds (internString s) fun _ => True := by
  intro b
  rw [internString]
  split
  · exact ⟨_, _, rfl, trivial⟩
  · split
    · exact ⟨_, _, rfl, trivial⟩
    · exact ⟨_, _, rfl, trivial⟩

theorem internStrings_succeed (names : List Text) : Succeeds (names.mapM internString) fun _ => True :=
  (Succeeds.mapM fun s _ => internString_succeeds s).any

theorem convertData_succeeds {intern : ℕ → Zith.Cache.Build UInt32} {data : TypeData}
    (h : ∀ c ∈ dependencies data, Succeeds (intern c) fun _ => True) :
    Succeeds (convertData intern data) fun _ => True := by
  have hall : ∀ {cs : List ℕ}, (∀ c ∈ cs, Succeeds (intern c) fun _ => True) →
      Succeeds (cs.mapM intern) fun _ => True := fun hcs => (Succeeds.mapM hcs).any
  cases data with
  | ptr c _ _ | array c _ | optional c | failable c | slice c | dyn c _ =>
    exact (h c (List.mem_singleton_self c)).bind fun _ _ => .pure trivial
  | trait name | genericParam name _ => exact (internString_succeeds name).bind fun _ _ => .pure trivial
  | fn cs c | incomplete c cs =>
    obtain ⟨hc, hcs⟩ := List.forall_mem_cons.mp h
    exact hc.bind fun _ _ => (hall hcs).bind fun _ _ => .pure trivial
  | pack members names => exact (hall h).bind fun _ _ => (internStrings_succeed names).bind fun _ _ => .pure trivial
  | sum members => exact (hall h).bind fun _ _ => .pure trivial
  | _ => exact .pure trivial

section
variable {T : TypeIntern}

theorem convertType_succeeds (hT : Earlier T) {intern : ℕ → Zith.Cache.Build UInt32} :
    ∀ {depth id : ℕ}, id + 2 ≤ depth → (∀ c, c < id ∨ c = kInvalidType.toNat → Succeeds (intern c) fun _ => True) →
      Succeeds (convertType T intern depth id) fun _ => True := by
  intro depth
  induction depth with
  | zero => exact fun h => absurd h (by omega)
  | succ depth ih =>
    intro id hdepth h
    rw [convertType]
    split
    · exact .pure trivial
    · next data hrow =>
      have hparts := hT.dependency hrow
      split
      · next target htarget =>
        rcases hparts target (by simp [target_mem_dependencies htarget]) with hlt | rfl
        · exact ih (by omega) fun c hc => h c (hc.imp_left fun hc => hc.trans hlt)
        · cases depth with
          | zero => omega
          | succ depth =>
            rw [convertType, hT.invalid]
            exact .pure trivial
      · exact convertData_succeeds fun c hc => h c (hparts c hc)

theorem internType_succeeds (hT : Earlier T) : ∀ {depth id : ℕ}, InTable T id → id + 3 ≤ depth ∨
    id = kInvalidType.toNat ∧ 1 ≤ depth → Succeeds (internType T depth id) fun _ => True := by
  intro depth
  induction depth with
  | zero => exact fun _ h => absurd h (by omega)
  | succ depth ih =>
    intro id hid hdepth
    rw [internType]
    split
    · exact .pure trivial
    · next hvalid =>
      have hdepth : id + 3 ≤ depth + 1 := hdepth.resolve_right fun h => hvalid h.1
      have hlt := hid.resolve_right hvalid
      have hrow : T.lookup id = some T.types[id] := List.getElem?_eq_getElem hlt
      have hpart : ∀ c, c < id ∨ c = kInvalidType.toNat → Succeeds (internType T depth c) fun _ => True := by
        rintro c (hlt | rfl)
        · exact ih (.inl (hlt.trans (hid.resolve_right hvalid))) (.inl (by omega))
        · exact ih (.inr rfl) (.inr ⟨rfl, by omega⟩)
      have hnew : Succeeds (do
          let data ← ofOption (T.lookup id)
          (dependencies data).forM fun dependency => do let _ ← internType T depth dependency
          pushType id (← convertType T (internType T depth) depth id)) fun _ => True := by
        refine (Succeeds.ofOption (Option.isSome_of_eq_some hrow)).bind fun data hdata => ?_
        refine (Succeeds.forM fun c hc => ?_).bind fun _ _ =>
          (convertType_succeeds hT (by omega) hpart).bind fun ct _ => fun b => ⟨_, _, rfl, trivial⟩
        exact (hpart c (hT.dependency hdata c hc)).bind fun _ _ => .pure trivial
      refine Succeeds.get fun s => ?_
      cases s.typeIndex.lookup id with
      | some existing => exact .pure trivial
      | none => exact hnew

end

/-! ### The parts of a module -/

/-- What a program at a depth that is enough can intern. -/
structure Returns (T : TypeIntern) (depth : ℕ) : Prop where
  row : ∀ {id : ℕ}, InTable T id → Succeeds (internType T depth id) fun _ => True

theorem returns_of_depth {T : TypeIntern} (hT : Earlier T) {depth : ℕ} (h : T.types.length + 2 ≤ depth) :
    Returns T depth where
  row hid := by
    rcases hid with hlt | rfl
    · exact internType_succeeds hT (.inl hlt) (.inl (by omega))
    · exact internType_succeeds hT (.inr rfl) (.inr ⟨rfl, by omega⟩)

section
variable {B : ArtifactBuilder} {depth : ℕ}

theorem Returns.type (h : Returns B.types depth) {id : TypeId} (hid : InTable B.types id.toNat) :
    Succeeds (Cache.type B depth id) fun _ => True := h.row hid

theorem Returns.types (h : Returns B.types depth) {ids : List TypeId} (hids : ∀ id ∈ ids, InTable B.types id.toNat) :
    Succeeds (ids.mapM (Cache.type B depth)) fun _ => True :=
  (Succeeds.mapM fun id hid => h.type (hids id hid)).any

theorem Returns.rows (h : Returns B.types depth) {ids : List ℕ} (hids : ∀ id ∈ ids, InTable B.types id) :
    Succeeds (ids.mapM (internType B.types depth)) fun _ => True :=
  (Succeeds.mapM fun id hid => h.row (hids id hid)).any

theorem internTypeIf_succeeds (h : Returns B.types depth) {present : Bool} {id : ℕ} {otherwise : UInt32}
    (hid : InTable B.types id) : Succeeds (internTypeIf B depth present id otherwise) fun _ => True := by
  rw [internTypeIf]
  split
  · exact h.row hid
  · exact .pure trivial

theorem fieldLists_succeeds (h : Returns B.types depth) (hB : InTables B) (d : Hir.HirDeclaration) (id : ℕ) :
    Succeeds (fieldLists B depth d id) fun _ => True := by
  have hrecord : ∀ defId, Succeeds (recordFieldLists B depth defId) fun _ => True := by
    intro defId
    rw [recordFieldLists]
    split
    · next d hd =>
      refine (Succeeds.mapM fun field hfield => ?_).bind fun _ _ => .pure trivial
      exact (internString_succeeds _).bind fun _ _ =>
        (h.row (hB.structs d (List.mem_of_getElem? hd) field hfield)).bind fun _ _ => .pure trivial
    · split
      · next d hd =>
        exact (h.rows (hB.unions d (List.mem_of_getElem? hd))).bind fun _ _ => .pure trivial
      · exact .pure trivial
  rw [fieldLists]
  split
  case h_1 | h_2 | h_3 =>
    split
    · exact hrecord _
    · exact hrecord _
    · exact .pure trivial
  case h_4 =>
    split
    · exact (Succeeds.mapM fun v _ => internString_succeeds _).bind fun _ _ => .pure trivial
    · exact .pure trivial
  case h_5 => exact .pure trivial

theorem buildDecl_succeeds (h : Returns B.types depth) (hB : InTables B) {d : Hir.HirDeclaration}
    (hd : d ∈ B.hir.declarations) : Succeeds (buildDecl B depth d) fun _ => True :=
  (internString_succeeds _).bind fun _ _ => (internTypeIf_succeeds h (hB.declarations d hd)).bind fun _ _ =>
    (fieldLists_succeeds h hB d _).bind fun _ _ => .pure trivial

theorem buildTemplate_succeeds (h : Returns B.types depth) {t : HirTemplate} (ht : TemplateInTable B.types t) :
    Succeeds (buildTemplate B depth t) fun _ => True := by
  have hparam : ∀ p ∈ t.params, Succeeds (buildGenericParam B depth p) fun _ => True := fun p hp =>
    (internString_succeeds _).bind fun _ _ => (h.types (ht.bounds p hp)).bind fun _ _ => .pure trivial
  exact (internString_succeeds _).bind fun _ _ => (internTypeIf_succeeds h ht.returnType).bind fun _ _ =>
    (Succeeds.mapM hparam).bind fun _ _ => (h.types ht.parameterTypes).bind fun _ _ =>
    (internStrings_succeed _).bind fun _ _ => (internStrings_succeed _).bind fun _ _ => (h.types ht.fieldTypes).bind fun _ _ =>
    (h.types ht.traitTypes).bind fun _ _ => .pure trivial

theorem buildFunction_succeeds (h : Returns B.types depth) (path : Text) {fn : HirFunction × ℕ}
    (hfn : FunctionInTable B.types fn.1) (instances : List InstantiationRecord) :
    Succeeds (buildFunction B depth path fn instances) fun _ => True := by
  have hadapter : Succeeds (internAdapter fn.1.foreignAdapterName) fun _ => True := by
    cases fn.1.foreignAdapterName with
    | none => exact .pure trivial
    | some name => exact internString_succeeds name
  have hparam : ∀ p ∈ fn.1.params.zipIdx, Succeeds (buildParam B depth fn.1 p) fun _ => True := by
    rintro ⟨t, i⟩ hp
    have hget := List.mk_mem_zipIdx_iff_getElem?.mp hp
    have hi : i < fn.1.paramNames.length := by
      obtain ⟨hlt, -⟩ := List.getElem?_eq_some_iff.mp hget
      exact lt_of_lt_of_le hlt hfn.named
    refine (h.type (hfn.params t (List.mem_of_getElem? hget))).bind fun _ _ =>
      (Succeeds.ofOption ?_).bind fun _ _ => (internString_succeeds _).bind fun _ _ => .pure trivial
    rw [List.getElem?_eq_getElem hi]
    rfl
  have hsignature : Succeeds (internFunctionSignature B depth fn.1) fun _ => True :=
    (h.type hfn.returnType).bind fun _ _ => (h.types hfn.params).bind fun _ _ => fun s => ⟨_, _, rfl, trivial⟩
  exact (internString_succeeds _).bind fun _ _ => hadapter.bind fun _ _ => (h.type hfn.returnType).bind fun _ _ =>
    (internTypeIf_succeeds h hfn.machineReturnType).bind fun _ _ => (Succeeds.mapM hparam).bind fun _ _ =>
    hsignature.bind fun k _ => Succeeds.bind (Q := fun _ => True) (fun s => ⟨_, _, rfl, trivial⟩) fun _ _ =>
    .pure trivial

theorem buildFunctions_succeeds (h : Returns B.types depth) (path : Text) : ∀ {fns : List (HirFunction × ℕ)}
    {instances : List InstantiationRecord}, (∀ fn ∈ fns, FunctionInTable B.types fn.1) →
      Succeeds (buildFunctions B depth path fns instances) fun r => r.1.length = fns.length := by
  intro fns
  induction fns with
  | nil => exact fun _ => .pure rfl
  | cons fn fns ih =>
    intro instances hfns
    obtain ⟨hfn, hrest⟩ := List.forall_mem_cons.mp hfns
    rw [buildFunctions]
    exact (buildFunction_succeeds h path hfn instances).bind fun _ _ => (ih hrest).bind fun _ hlen =>
      .pure (congrArg (· + 1) hlen)

theorem withResolved_succeeds (fn : HirFunctionId) (ce : CompactExpr) :
    Succeeds (withResolved B fn ce) fun _ => True := by
  rw [withResolved]
  split
  · exact .pure trivial
  · exact (internString_succeeds _).bind fun _ _ => Succeeds.get fun _ => .pure trivial

theorem convertCall_succeeds (h : Returns B.types depth) (kind : CompactExprKind) (flags : UInt8) {c : HirCall}
    (hc : ∀ t ∈ c.fnType :: c.argumentTypes, InTable B.types t.toNat) :
    Succeeds (convertCall B depth kind flags c) fun _ => True := by
  obtain ⟨hfn, hargs⟩ := List.forall_mem_cons.mp hc
  exact (withResolved_succeeds _ _).bind fun _ _ => (h.type hfn).bind fun _ _ => (h.types hargs).bind fun _ _ =>
    .pure trivial

theorem convertExpr_succeeds (h : Returns B.types depth) (hbool : InTable B.types 3) {e : HirExpr}
    (he : ∀ t ∈ e.types, InTable B.types t.toNat) : Succeeds (convertExpr B depth e) fun _ => True := by
  cases e with
  | literal value id =>
    refine (h.type (he id (by simp [HirExpr.types]))).bind fun _ _ => ?_
    dsimp only
    split
    · exact .pure trivial
    · split
      · exact .pure trivial
      · split
        · exact (internString_succeeds _).bind fun _ _ => .pure trivial
        · exact .pure trivial
  | ret | branch | jump | phi | assign | slotStore | cleanup | runtimePanic => exact .pure trivial
  | unary | structLiteral | arrayLiteral | enumValue | slotAlloca | slotLoad | slotAddr | makeNone | makeSome
  | canonicalType | opaqueCheck | pipeCurrent =>
    exact (h.type (he _ (by simp [HirExpr.types]))).bind fun _ _ => .pure trivial
  | binary | field | index | layoutIntrinsic | makeOpaque | cast | unionCast | pipe =>
    exact (h.type (he _ (by simp [HirExpr.types]))).bind fun _ _ =>
      (h.type (he _ (by simp [HirExpr.types]))).bind fun _ _ => .pure trivial
  | makeSlice =>
    exact (h.type (he _ (by simp [HirExpr.types]))).bind fun _ _ =>
      (h.type (he _ (by simp [HirExpr.types]))).bind fun _ _ =>
      (h.type (he _ (by simp [HirExpr.types]))).bind fun _ _ => .pure trivial
  | opaqueCast =>
    exact (h.type (he _ (by simp [HirExpr.types]))).bind fun _ _ =>
      (h.type (he _ (by simp [HirExpr.types]))).bind fun _ _ =>
      (h.type (he _ (by simp [HirExpr.types]))).bind fun _ _ =>
      (h.type (he _ (by simp [HirExpr.types]))).bind fun _ _ => .pure trivial
  | unionCheck =>
    exact (h.row hbool).bind fun _ _ => (h.type (he _ (by simp [HirExpr.types]))).bind fun _ _ => .pure trivial
  | «let» | globalConstLoad | externalGlobalAddr =>
    exact (internString_succeeds _).bind fun _ _ =>
      (h.type (he _ (by simp [HirExpr.types]))).bind fun _ _ => .pure trivial
  | var => exact (internString_succeeds _).bind fun _ _ => .pure trivial
  | makeDyn =>
    exact (h.type (he _ (by simp [HirExpr.types]))).bind fun _ _ =>
      (h.type (he _ (by simp [HirExpr.types]))).bind fun _ _ => (internString_succeeds _).bind fun _ _ => .pure trivial
  | dynCall receiver vtableName slotIndex hasReceiver resultType fnType args argTypes =>
    exact (internString_succeeds _).bind fun _ _ => (h.type (he _ (by simp [HirExpr.types]))).bind fun _ _ =>
      (h.type (he _ (by simp [HirExpr.types]))).bind fun _ _ =>
      (h.types fun t ht => he t (by simp [HirExpr.types, ht])).bind fun _ _ => .pure trivial
  | call c | stateTailCall c => exact convertCall_succeeds h _ _ he

/-! ### VTables -/

/-- A signature for every function. -/
def Signed (B : ArtifactBuilder) (s : BuilderState) : Prop := s.functionSignatureTypeIds.length = B.hir.fns.length

/-- From a state with all signatures a program ends in one, whatever it makes. -/
def Finishes {α : Type} (B : ArtifactBuilder) (m : Zith.Cache.Build α) : Prop :=
  ∀ s, Signed B s → ∃ a t, m s = some (a, t) ∧ Signed B t

theorem Finishes.bind {α β : Type} {m : Zith.Cache.Build α} {g : α → Zith.Cache.Build β} (hm : Finishes B m) (hg : ∀ a, Finishes B (g a)) :
    Finishes B (m >>= g) := by
  intro s hs
  obtain ⟨a, t, ha, ht⟩ := hm s hs
  obtain ⟨b, u, hb, hu⟩ := hg a t ht
  exact ⟨b, u, (run_bind_of_eq ha).trans hb, hu⟩

theorem Finishes.mapM {α β : Type} {g : α → Zith.Cache.Build β} : ∀ {l : List α}, (∀ a ∈ l, Finishes B (g a)) →
    Finishes B (l.mapM g) := by
  intro l
  induction l with
  | nil => exact fun _ s hs => ⟨[], s, rfl, hs⟩
  | cons a l ih =>
    intro h
    obtain ⟨ha, hl⟩ := List.forall_mem_cons.mp h
    rw [List.mapM_cons]
    exact ha.bind fun _ => (ih hl).bind fun _ s hs => ⟨_, s, rfl, hs⟩

/-- A program that succeeds from every state, and adds no signature. -/
theorem finishes_of {α : Type} {m : Zith.Cache.Build α} {P R : α → Prop} {T : TypeIntern} {f : BuilderState} (h : Succeeds m P)
    (hm : (finishing T f).Makes m R) : Finishes B m := by
  intro s hs
  obtain ⟨a, t, ha, -⟩ := h s
  exact ⟨a, t, ha, (congrArg List.length (hm s a t ha).1.2).trans hs⟩

theorem internString_finishes (s : Text) : Finishes B (internString s) :=
  finishes_of (internString_succeeds s) (finishing_of_interning (T := {}) (f := {}) (n := 0) (internString_makes s))

theorem buildVTable_finishes (v : HirVTable) : Finishes B (buildVTable B v) := by
  refine (internString_finishes _).bind fun _ => (Finishes.mapM fun id _ => ?_).bind fun _ s hs => ⟨_, s, rfl, hs⟩
  rw [buildSlot]
  split
  · exact fun s hs => ⟨_, s, rfl, hs⟩
  · next fn hfn =>
    refine (internString_finishes _).bind fun nameId s hs => ?_
    have hlt : id.toNat < s.functionSignatureTypeIds.length := by
      rw [hs]
      exact (List.getElem?_eq_some_iff.mp hfn).1
    refine ⟨(nameId, s.functionSignatureTypeIds[id.toNat]), s, ?_, hs⟩
    refine (run_bind_of_eq (a := s) (t := s) rfl).trans ?_
    rw [List.getElem?_eq_getElem hlt]
    rfl

/-! ### The whole module -/

theorem buildStructDef_succeeds (h : Returns B.types depth) (hB : InTables B) {d : Types.StructDef × ℕ}
    (hd : d ∈ B.types.structDefs.zipIdx) : Succeeds (buildStructDef B depth d) fun _ => True := by
  have hdef : d.1 ∈ B.types.structDefs := List.mem_of_getElem? (List.mk_mem_zipIdx_iff_getElem?.mp hd)
  have hargs : ∀ arg ∈ (B.structRests[d.2]?.getD {}).args, InTable B.types arg := by
    cases hrest : B.structRests[d.2]? with
    | none => simp
    | some r => exact hB.rests r (List.mem_of_getElem? hrest)
  refine (internString_succeeds _).bind fun _ _ => (Succeeds.mapM fun field hfield => ?_).bind fun _ _ =>
    (h.rows hargs).bind fun _ _ => .pure trivial
  exact (internString_succeeds _).bind fun _ _ => (h.row (hB.structs d.1 hdef field hfield)).bind fun _ _ =>
    .pure trivial

theorem buildEnumDef_succeeds (h : Returns B.types depth) {d : Types.EnumDef} (hd : InTable B.types d.underlying) :
    Succeeds (buildEnumDef B depth d) fun _ => True := by
  refine (internString_succeeds _).bind fun _ _ => (internTypeIf_succeeds h hd).bind fun _ _ =>
    (Succeeds.mapM fun v _ => ?_).bind fun _ _ => .pure trivial
  exact (internString_succeeds _).bind fun _ _ => .pure trivial

theorem buildUnionDef_succeeds (h : Returns B.types depth) {d : Types.UnionDef}
    (hd : ∀ member ∈ d.members, InTable B.types member) : Succeeds (buildUnionDef B depth d) fun _ => True :=
  (internString_succeeds _).bind fun _ _ => (h.rows hd).bind fun _ _ => .pure trivial

/-- A module whose types are in its table is built, at every depth that is enough. -/
theorem build_isSome (hT : Earlier B.types) (hB : InTables B) (hdepth : B.types.types.length + 2 ≤ depth)
    (canonicalPath moduleName : Text) (deps : List DependencyRecord) :
    (build B depth canonicalPath moduleName deps).isSome = true := by
  have h := returns_of_depth hT hdepth
  have hf : BuilderState.Fits {} := ⟨by decide, by decide⟩
  have hb := interns_finishing depth hT hf
  have hfns : ∀ fn ∈ B.hir.fns.zipIdx, FunctionInTable B.types fn.1 := fun fn hfn =>
    hB.fns fn.1 (List.mem_of_getElem? (List.mk_mem_zipIdx_iff_getElem?.mp hfn))
  obtain ⟨decls, s₁, hdecls, -⟩ := Succeeds.mapM (fun d hd => buildDecl_succeeds h hB hd) {}
  obtain ⟨templates, s₂, htemplates, -⟩ := Succeeds.mapM (fun t ht => buildTemplate_succeeds h (hB.templates t ht)) s₁
  obtain ⟨⟨fns, instances⟩, s₃, hfunctions, hlen⟩ :=
    (show Succeeds (buildFunctions B depth canonicalPath B.hir.fns.zipIdx []) _ from
      buildFunctions_succeeds h canonicalPath hfns) s₂
  have hsigned : Signed B s₃ := by
    have h₂ : s₂.functionSignatureTypeIds = [] :=
      ((Makes.mapM_any fun t _ => buildTemplate_makes hb t) _ _ _ htemplates).1.2.trans
        ((Makes.mapM_any fun d _ => (buildDecl_makes hb d).any) _ _ _ hdecls).1.2
    rw [Signed, buildFunctions_signatures hT hf canonicalPath hfunctions, h₂, List.nil_append, List.length_map, hlen,
      List.length_zipIdx]
  have hexpr : ∀ e ∈ B.hir.exprs, Finishes B (convertExpr B depth e) := fun e he =>
    finishes_of (convertExpr_succeeds h (.inl hB.bool) (hB.exprs e he)) (convertExpr_known hT hf e)
  have hglobal : ∀ g ∈ B.hir.globals, Finishes B (buildGlobal B depth g) := fun g hg =>
    finishes_of (P := fun _ => True)
      ((internString_succeeds _).bind fun _ _ => (h.type (hB.globals g hg)).bind fun _ _ => .pure trivial)
      (buildGlobal_makes hb g)
  obtain ⟨exprs, s₄, hexprs, hsigned⟩ := Finishes.mapM hexpr s₃ hsigned
  obtain ⟨globals, s₅, hglobals, hsigned⟩ := Finishes.mapM hglobal s₄ hsigned
  obtain ⟨vtables, s₆, hvtables, -⟩ := Finishes.mapM (fun v _ => buildVTable_finishes v) s₅ hsigned
  obtain ⟨structs, s₇, hstructs, -⟩ := Succeeds.mapM (fun d hd => buildStructDef_succeeds h hB hd) s₆
  obtain ⟨enums, s₈, henums, -⟩ := Succeeds.mapM (fun d hd => buildEnumDef_succeeds h (hB.enums d hd)) s₇
  obtain ⟨unions, s₉, hunions, -⟩ := Succeeds.mapM (fun d hd => buildUnionDef_succeeds h (hB.unions d hd)) s₈
  have hrun : ∃ made, buildTables B depth canonicalPath moduleName deps {} = some (made, s₉) :=
    ⟨_, (run_bind_of_eq hdecls).trans <| (run_bind_of_eq htemplates).trans <| (run_bind_of_eq hfunctions).trans <|
      (run_bind_of_eq hexprs).trans <| (run_bind_of_eq hglobals).trans <| (run_bind_of_eq hvtables).trans <|
      (run_bind_of_eq hstructs).trans <| (run_bind_of_eq henums).trans <| (run_bind_of_eq hunions).trans rfl⟩
  obtain ⟨⟨decls', art⟩, hrun⟩ := hrun
  rw [build, hrun]
  rfl

end

end Zith.Session
