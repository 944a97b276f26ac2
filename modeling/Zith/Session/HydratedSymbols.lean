import Zith.Session.RebuiltModule

/-! The symbols of a module through its artifact and back. A record loses its name on the way, so the symbols that
    a session declares have none: the module shows what it showed before exactly when its declarations had none
    either, and each had a type that comes back.

        declarations ──build──▶ records with names ──encode, decode──▶ records ──declare──▶ symbols -/

namespace Zith.Session
open Zith.Lib Zith.Lib.Foretold Zith.Hir
open Types (TypeIntern TypeData packData)
open Types.TypeIntern (compared)
open Zirl (CompactType CompactSymKind CompactVisibility DeclRecord DeclsRoundTrip)
open Zith.Cache (ArtifactBuilder BuilderState Stands BuiltDecl BuildsDecl Known dependencies target? compactOf typeId stringId declType
  isType declTypeId fieldCounts hasMethods recorded)

/-! ### Entries -/

/-- What a module shows of a declaration. -/
structure Entry where
  name : Text
  kind : CompactSymKind
  visibility : CompactVisibility
  type : ℕ
  deriving DecidableEq

/-- The type of a declaration, or no type. -/
def exportedType (B : ArtifactBuilder) (d : HirDeclaration) : ℕ :=
  if isType (declType B d) then declType B d else kInvalidType.toNat

def exported (B : ArtifactBuilder) : List Entry :=
  B.hir.declarations.map fun d => ⟨d.name, d.kind, d.visibility, exportedType B d⟩

/-- The symbols of a session with the types of its declarations. -/
def declared {σ : Type} (session : CompilationSession σ) : List Entry :=
  List.zipWith (fun (s : Symbol) (d : HirDeclaration) => ⟨s.name, s.kind, s.visibility, d.type.toNat⟩)
    session.symbols session.hir.declarations

structure SameEntry (T T' : TypeIntern) (e e' : Entry) : Prop where
  name : e.name = e'.name
  kind : e.kind = e'.kind
  visibility : e.visibility = e'.visibility
  type : SameType T T' e.type e'.type

/-- The same set of entries. -/
structure SameEntries (T T' : TypeIntern) (es es' : List Entry) : Prop where
  kept : ∀ e ∈ es, ∃ e' ∈ es', SameEntry T T' e e'
  added : ∀ e' ∈ es', ∃ e ∈ es, SameEntry T T' e e'

/-- A name is found in both or in neither. -/
theorem SameEntries.names {T T' : TypeIntern} {es es' : List Entry} (h : SameEntries T T' es es') (name : Text) :
    (∃ e ∈ es, e.name = name) ↔ ∃ e' ∈ es', e'.name = name := by
  constructor
  · rintro ⟨e, he, rfl⟩
    obtain ⟨e', he', hsame⟩ := h.kept e he
    exact ⟨e', he', hsame.name.symm⟩
  · rintro ⟨e', he', rfl⟩
    obtain ⟨e, he, hsame⟩ := h.added e' he'
    exact ⟨e, he, hsame.name⟩

/-- The declarations are read back as they were written, and the session that they are hydrated in shows what the
    module showed. -/
def SymbolsKept (B : ArtifactBuilder) (art : Cache.Artifact) : Prop :=
  DeclsRoundTrip art.decls ∧ ∃ session,
    CompilationSession.hydrateFromArtifact typeTable { types := {} } art = some session ∧
    SameEntries B.types session.types.types (exported B) (declared session)

/-- What comes back of a declaration: no name, a plain type, and as many field types as field names. -/
structure DeclCarried (B : ArtifactBuilder) (d : HirDeclaration) : Prop where
  name : d.name = []
  type : PlainType B.types (exportedType B d)
  balanced : (fieldCounts B d).1 = (fieldCounts B d).2
  fields : (fieldCounts B d).1 < 2 ^ 32
  methods : hasMethods d.kind = true → (recorded B d.methodDeclarations).length < 2 ^ 32

/-! ### The symbols that are declared -/

def Symbol.key (s : Symbol) : Text × CompactSymKind × CompactVisibility := (s.name, s.kind, s.visibility)

theorem linkMembers_keys {ids : List ℕ} {symbols symbols' : List Symbol} {d : DeclRecord × ℕ}
    (h : linkMembers ids symbols d = some symbols') : symbols'.map Symbol.key = symbols.map Symbol.key := by
  rw [linkMembers] at h
  split at h
  · obtain ⟨id, -, h⟩ := Option.bind_eq_some_iff.mp h
    obtain ⟨owner, howner, h⟩ := Option.bind_eq_some_iff.mp h
    obtain rfl := Option.some.inj h
    rw [List.map_set]
    obtain ⟨hlt, rfl⟩ := List.getElem?_eq_some_iff.mp howner
    have hlt' : id < (symbols.map Symbol.key).length := by rwa [List.length_map]
    have hkey : symbols[id].key = (symbols.map Symbol.key)[id] := (List.getElem_map _).symm
    change (symbols.map Symbol.key).set id symbols[id].key = _
    rw [hkey, List.set_getElem_self]
  · rw [Option.some.inj h]

theorem linkAll_keys {ids : List ℕ} : ∀ {ds : List (DeclRecord × ℕ)} {symbols symbols' : List Symbol},
    ds.foldlM (linkMembers ids) symbols = some symbols' → symbols'.map Symbol.key = symbols.map Symbol.key := by
  intro ds
  induction ds with
  | nil =>
    intro symbols symbols' h
    rw [Option.some.inj h]
  | cons d ds ih =>
    intro symbols symbols' h
    obtain ⟨next, hone, hrest⟩ := Option.bind_eq_some_iff.mp h
    rw [ih hrest, linkMembers_keys hone]

/-- A symbol has the kind and the visibility of its record, and no name. -/
theorem declareSymbols_keys {art : Cache.Artifact} {symbols : List Symbol} (h : declareSymbols art [] = some symbols) :
    symbols.map Symbol.key = art.decls.map fun d => ([], d.kind, d.visibility) := by
  rw [linkAll_keys h, List.nil_append, List.map_map]
  rfl

section
variable {B : ArtifactBuilder} {f : BuilderState} {art : Cache.Artifact} {decls : List BuiltDecl} {ids : List TypeId}

/-- The entry that a declaration comes back as. -/
def entryBack (B : ArtifactBuilder) (f : BuilderState) (ids : List TypeId) (d : HirDeclaration) : Entry :=
  ⟨[], d.kind, d.visibility, (compactType ids (declTypeId B f d)).toNat⟩

theorem declared_back {σ : Type} {session : CompilationSession σ} (hb : Built B f decls art)
    (hsymbols : declareSymbols art [] = some session.symbols)
    (hdecls : session.hir.declarations = art.decls.map (hydrateDecl art ids)) :
    declared session = B.hir.declarations.map (entryBack B f ids) := by
  have hkeys := declareSymbols_keys hsymbols
  have hzip : declared session = List.zipWith
      (fun (key : Text × CompactSymKind × CompactVisibility) (d : HirDeclaration) =>
        (⟨key.1, key.2.1, key.2.2, d.type.toNat⟩ : Entry)) (session.symbols.map Symbol.key) session.hir.declarations := by
    rw [List.zipWith_map_left]
    rfl
  rw [hzip, hkeys, hdecls, List.zipWith_map, List.zipWith_self, hb.decls, List.map_map]
  refine map_names (hb.built.imp fun d r hr => ?_)
  simp [entryBack, hydrateDecl, hr.kind, hr.visibility, hr.typeId]

theorem forall_iff_of_forall₂ {α β : Type} {R : α → β → Prop} {P : α → Prop} {Q : β → Prop} {l : List α} {l' : List β}
    (hstep : ∀ a b, R a b → (P a ↔ Q b)) (h : List.Forall₂ R l l') : (∀ a ∈ l, P a) ↔ ∀ b ∈ l', Q b := by
  induction h with
  | nil => simp
  | cons hab _ ih => rw [List.forall_mem_cons, List.forall_mem_cons, hstep _ _ hab, ih]

/-- The declarations are read back when there is room for them, with as many field types as field names. -/
theorem declsRoundTrip_iff (hb : Built B f decls art) : DeclsRoundTrip art.decls ↔
    B.hir.declarations.length < 2 ^ 32 ∧ ∀ d ∈ B.hir.declarations, (fieldCounts B d).1 = (fieldCounts B d).2 ∧
      (fieldCounts B d).1 < 2 ^ 32 ∧
      (hasMethods d.kind = true → (recorded B d.methodDeclarations).length < 2 ^ 32) := by
  rw [Zirl.decodeDecls_undoes_encodeDecls_iff, hb.decls, List.length_map, ← hb.built.length_eq]
  refine and_congr_right fun _ => ?_
  rw [List.forall_mem_map]
  refine (forall_iff_of_forall₂ ?_ hb.built).symm
  intro d r hr
  have hcounts : fieldCounts B d = (r.fieldNameIds.length, r.fieldTypeIds.length) := hr.counted.symm
  rw [hcounts]
  constructor
  · rintro ⟨hbalanced, hfields, hmethods⟩
    refine ⟨hfields, ?_, hbalanced⟩
    rw [hr.methods]
    split
    · exact hmethods ‹_›
    · exact Nat.two_pow_pos 32
  · rintro ⟨hfields, hmethods, hbalanced⟩
    refine ⟨hbalanced, hfields, fun hkind => ?_⟩
    rwa [hr.methods, if_pos hkind] at hmethods

end

/-! ### The types that something comes back as -/

/-- What a row of the session can look like: nothing that the compact form drops, but for the unknown type. -/
def Returned (T : TypeIntern) (data : TypeData) : Prop := Plain T data ∨ data = .unknown

theorem plain_outline {T : TypeIntern} (data : TypeData) : Plain T (outline data) ↔ Plain T data := by
  cases data <;> rfl

theorem outline_eq_unknown {data : TypeData} : outline data = .unknown ↔ data = .unknown := by
  cases data <;> simp [outline]

theorem plain_congr {T : TypeIntern} {a b : TypeData} (h : outline a = outline b) : Plain T a ↔ Plain T b := by
  rw [← plain_outline a, h, plain_outline]

theorem returned_congr {T : TypeIntern} {a b : TypeData} (h : outline a = outline b) : Returned T a ↔ Returned T b := by
  rw [Returned, Returned, plain_congr h, ← outline_eq_unknown, h, outline_eq_unknown]

section
variable {T T' : TypeIntern} {f : BuilderState} {art : Cache.Artifact} {ids : List TypeId}

/-- Every row is rebuilt as one of these. -/
theorem returned_rebuilt (hempty : [] ∉ art.strings) (hdefs : SameDefinitions T art T') (ids : List TypeId) (self : ℕ)
    (t : CompactType) : Returned T (rebuiltData art ids self t) := by
  have htext : ∀ {i : ℕ} {text : Text}, art.strings[i]? = some text → text ≠ [] := by
    rintro i text hi rfl
    exact hempty (List.mem_of_getElem? hi)
  simp only [rebuiltData]
  split
  case h_9 | h_14 | h_15 =>
    split
    · next hlt => exact .inl (by simpa only [Plain, hdefs.structs, hdefs.enums, hdefs.unions] using hlt)
    · exact .inl trivial
  case h_17 | h_23 =>
    split
    · next hi => exact .inl (htext hi)
    · exact .inl trivial
  case h_19 => exact .inr rfl
  case h_7 => exact .inl rfl
  case h_21 => exact .inl (by simp [Plain])
  all_goals exact .inl trivial

/-- The components of a row that was rebuilt. -/
theorem dependencies_rebuilt (ids : List TypeId) (self : ℕ) (t : CompactType) :
    ∀ c ∈ dependencies (rebuiltData art ids self t), ∃ id, c = (compactType ids id).toNat := by
  have hself : ∀ id, ∃ id', (compactType ids id).toNat = (compactType ids id').toNat := fun id => ⟨id, rfl⟩
  simp only [rebuiltData]
  split
  case h_9 | h_14 | h_15 | h_17 | h_23 => split <;> simp [dependencies]
  all_goals simp [dependencies, packData, hself]

theorem target?_rebuilt (ids : List TypeId) (self : ℕ) (t : CompactType) :
    target? (rebuiltData art ids self t) = none := by
  simp only [rebuiltData]
  split
  case h_9 | h_14 | h_15 | h_17 | h_23 => split <;> rfl
  all_goals rfl

theorem Rehydrated.stands_row (h : Rehydrated T f art ids T') {i : ℕ} {u : TypeId} {t : CompactType}
    (ht : art.types[i]? = some t) (hu : ids[i]? = some u) :
    ∃ d, Stands T' u.toNat d ∧ compared d = compared (rebuiltData art (ids.take i) u.toNat t) := by
  obtain ⟨v, hv, ⟨d, hd, hcompared⟩, -⟩ := h.rebuilt.rows ht
  obtain rfl := Option.some.inj (hu.symm.trans hv)
  exact ⟨d, .itself hd (by rw [← target?_compared, hcompared, target?_compared, target?_rebuilt]), hcompared⟩

theorem Rehydrated.stands_error (h : Rehydrated T f art ids T') : Stands T' kErrorType.toNat .error := by
  refine .itself ?_ rfl
  exact getElem?_of_prefix h.rebuilt.builtin rfl

/-- What comes back as an id of the artifact, and all it is made of. -/
theorem Rehydrated.returned_of_sameType (h : Rehydrated T f art ids T') : ∀ (id : UInt32) {c : ℕ},
    SameType T T' c (compactType ids id).toNat → Deep T (Returned T) c := by
  have hempty : [] ∉ art.strings := by
    rw [h.strings]
    exact h.inv.nonempty
  have herror : ∀ {c : ℕ}, SameType T T' c kErrorType.toNat → Deep T (Returned T) c := by
    rintro c ⟨R, hR, hc⟩
    have hvalid : c ≠ kInvalidType.toNat := fun heq => absurd ((hR.invalid hc).mp heq) (by decide)
    obtain ⟨a, b, ha, hb, hsame⟩ := hR.data hc hvalid
    obtain rfl := hb.unique h.stands_error
    refine .intro hvalid ha ((returned_congr hsame.outline).mpr (.inl trivial)) fun x hx => ?_
    obtain ⟨y, hy, -⟩ := exists_of_forall₂ hsame.parts.flip _ hx
    simp [dependencies] at hy
  intro id
  induction hi : id.toNat using Nat.strong_induction_on generalizing id with
  | _ i ih =>
    intro c hc
    rw [compactType, hi] at hc
    cases hu : ids[i]? with
    | none => exact herror (by simpa [hu] using hc)
    | some u =>
      rw [hu, Option.getD_some] at hc
      obtain ⟨R, hR, hc⟩ := hc
      have hlt : i < art.types.length := h.rebuilt.length ▸ lt_of_getElem? hu
      have hvalid : c ≠ kInvalidType.toNat := fun heq => by
        have huvalid := h.valid id
        rw [compactType, hi, hu, Option.getD_some] at huvalid
        exact huvalid (UInt32.toNat_inj.mp ((hR.invalid hc).mp heq))
      obtain ⟨d, hd, hcompared⟩ := h.stands_row (List.getElem?_eq_getElem hlt) hu
      obtain ⟨a, b, ha, hb, hsame⟩ := hR.data hc hvalid
      obtain rfl := hb.unique hd
      rw [sameData_congr hcompared] at hsame
      refine .intro hvalid ha ((returned_congr hsame.outline).mpr (returned_rebuilt hempty h.definitions _ _ _))
        fun x hx => ?_
      obtain ⟨y, hy, hxy⟩ := exists_of_forall₂ hsame.parts.flip _ hx
      obtain ⟨id', rfl⟩ := dependencies_rebuilt _ _ _ y hy
      rw [compactType, List.getElem?_take] at hxy
      split at hxy
      · next hlt' => exact ih _ hlt' id' rfl ⟨R, hR, hxy⟩
      · exact herror ⟨R, hR, hxy⟩

/-- Only an untagged opaque type comes back as the unknown type. -/
theorem unknown_back {self : ℕ} {data : TypeData} (h : dataBack f art ids self data = .unknown) :
    data = .opaqueUntagged := by
  cases data with
  | opaqueUntagged => rfl
  | trait name =>
    simp only [dataBack.eq_def] at h
    cases hi : f.strings[(stringId f name).toNat]? <;> simp [hi] at h
  | genericParam name index =>
    simp only [dataBack.eq_def] at h
    cases hi : f.strings[(stringId f name).toNat]? <;> simp [hi] at h
  | struct | enum | union | sum =>
    simp only [dataBack.eq_def] at h
    split at h <;> simp at h
  | _ => simp [dataBack.eq_def, packData] at h

theorem dependencies_back {self : ℕ} {data : TypeData} :
    ∀ c ∈ dependencies (dataBack f art ids self data), ∃ c' ∈ dependencies data, c = rowBack f ids c' := by
  cases data with
  | trait name =>
    simp only [dataBack.eq_def]
    cases f.strings[(stringId f name).toNat]? <;> simp [dependencies]
  | genericParam name index =>
    simp only [dataBack.eq_def]
    cases f.strings[(stringId f name).toNat]? <;> simp [dependencies]
  | struct | enum | union | sum =>
    simp only [dataBack.eq_def]
    split <;> simp [dependencies]
  | _ => simp [dataBack.eq_def, packData, dependencies, eq_comm]

/-- What comes back as a type without untagged opaque types comes back as itself. -/
theorem Rehydrated.plain_of_returned (h : Rehydrated T f art ids T') {t : ℕ} (hdeep : Deep T (Returned T) t) :
    Known f t → ∀ {c : ℕ}, SameType T T' c (rowBack f ids t) → PlainType T c := by
  have hempty : [] ∉ art.strings := by
    rw [h.strings]
    exact h.inv.nonempty
  induction hdeep with
  | @intro t data hvalid hstands hholds hparts ih =>
    rintro hknown c ⟨R, hR, hc⟩
    obtain ⟨k, hk⟩ := hknown.resolve_left hvalid
    obtain ⟨data', d, hentered, hd, hcompared⟩ := h.row hvalid hk
    obtain rfl := hentered.stands.unique hstands
    have hcvalid : c ≠ kInvalidType.toNat := fun heq => h.rowBack_ne t ((hR.invalid hc).mp heq)
    have htarget : target? d = none := by rw [← target?_compared, hcompared, target?_compared, target?_dataBack]
    obtain ⟨a, b, ha, hb, hsame⟩ := hR.data hc hcvalid
    obtain rfl := hb.unique (.itself hd htarget)
    rw [sameData_congr hcompared] at hsame
    have hplain : Plain T a := by
      have hback := returned_rebuilt hempty h.definitions (ids.take k.toNat) (rowBack f ids t) (compactOf f data')
      rw [rebuiltData_compactOf h.strings] at hback
      refine (plain_congr hsame.outline).mpr (hback.resolve_right fun hunknown => ?_)
      obtain rfl := unknown_back hunknown
      simp [Returned, Plain] at hholds
    refine .intro hcvalid ha hplain fun x hx => ?_
    obtain ⟨y, hy, hxy⟩ := exists_of_forall₂ hsame.parts.flip _ hx
    obtain ⟨c', hc', rfl⟩ := dependencies_back y hy
    have hbefore := hentered.parts c' hc'
    have hvalid' : c' ≠ kInvalidType.toNat := by
      cases hparts c' hc'
      assumption
    rw [rowBack_take hvalid' hbefore] at hxy
    exact ih c' hc' (hbefore.imp_right fun hj => hj.imp fun _ hj => hj.1) ⟨R, hR, hxy⟩

end

/-! ### The whole way -/

section
variable {B : ArtifactBuilder} {f : BuilderState} {art : Cache.Artifact} {decls : List BuiltDecl} {ids : List TypeId}
  {T' : TypeIntern}

/-- The entries come back the same exactly when no declaration has a name and each has a plain type. -/
theorem sameEntries_back_iff (h : Rehydrated B.types f art ids T') (hb : Built B f decls art) :
    SameEntries B.types T' (exported B) (B.hir.declarations.map (entryBack B f ids)) ↔
      ∀ d ∈ B.hir.declarations, d.name = [] ∧ PlainType B.types (exportedType B d) := by
  have hknown : ∀ d ∈ B.hir.declarations, isType (declType B d) = true → Known f (declType B d) := fun d hd => by
    obtain ⟨r, -, hr⟩ := exists_of_forall₂ hb.built.flip _ hd
    exact hr.known
  have hback : ∀ {d}, isType (declType B d) = true →
      (entryBack B f ids d).type = rowBack f ids (declType B d) := fun htyped => by
    simp only [entryBack, declTypeId, htyped, if_true, rowBack]
  constructor
  · intro hs
    -- each declaration comes back as some entry
    have hkept : ∀ d ∈ B.hir.declarations, d.name = [] ∧ ∃ d' ∈ B.hir.declarations,
        SameType B.types T' (exportedType B d) (entryBack B f ids d').type := fun d hd => by
      obtain ⟨e', he', hsame⟩ := hs.kept _ (List.mem_map_of_mem hd)
      obtain ⟨d', hd', rfl⟩ := List.mem_map.mp he'
      exact ⟨hsame.name, d', hd', hsame.type⟩
    have htyped : ∀ d ∈ B.hir.declarations, isType (declType B d) = true := fun d hd => by
      obtain ⟨-, d', -, R, hR, hrel⟩ := hkept d hd
      by_contra huntyped
      have hinvalid := (hR.invalid hrel).mp (by rw [exportedType, if_neg huntyped])
      exact h.valid _ (UInt32.toNat_inj.mp hinvalid)
    have hdeep : ∀ d ∈ B.hir.declarations, Deep B.types (Returned B.types) (declType B d) := fun d hd => by
      obtain ⟨-, d', -, hsame⟩ := hkept d hd
      rw [exportedType, if_pos (htyped d hd)] at hsame
      exact h.returned_of_sameType _ hsame
    intro d hd
    obtain ⟨hname, d', hd', hsame⟩ := hkept d hd
    rw [hback (htyped d' hd')] at hsame
    exact ⟨hname, h.plain_of_returned (hdeep d' hd') (hknown d' hd' (htyped d' hd')) hsame⟩
  · intro hcarried
    have hsame : ∀ d ∈ B.hir.declarations, SameEntry B.types T'
        ⟨d.name, d.kind, d.visibility, exportedType B d⟩ (entryBack B f ids d) := fun d hd => by
      obtain ⟨hname, hplain⟩ := hcarried d hd
      have htyped : isType (declType B d) = true := by
        by_contra huntyped
        rw [exportedType, if_neg huntyped] at hplain
        cases hplain
        contradiction
      rw [exportedType, if_pos htyped] at hplain ⊢
      refine ⟨hname, rfl, rfl, ?_⟩
      rw [hback htyped]
      exact (h.sameType_iff (hknown d hd htyped)).mpr hplain
    constructor
    · intro e he
      obtain ⟨d, hd, rfl⟩ := List.mem_map.mp he
      exact ⟨_, List.mem_map_of_mem hd, hsame d hd⟩
    · intro e' he'
      obtain ⟨d, hd, rfl⟩ := List.mem_map.mp he'
      exact ⟨_, List.mem_map_of_mem hd, hsame d hd⟩

end

/-! ### Symbols -/

section
variable {B : ArtifactBuilder} {depth : ℕ} {canonicalPath moduleName : Text} {deps : List Zirl.DependencyRecord}
  {decls : List BuiltDecl} {art : Cache.Artifact}

theorem symbolsKept_iff (hT : Cache.Earlier B.types) (hnames : (moduleNames B.types).Nodup) (haddressable : Addressable art)
    (hbuild : Cache.build B depth canonicalPath moduleName deps = some (decls, art))
    (hvalid : Zirl.ValidReferences art) (hdecoded : Decoded art) :
    SymbolsKept B art ↔ B.hir.declarations.length < 2 ^ 32 ∧ ∀ d ∈ B.hir.declarations, DeclCarried B d := by
  obtain ⟨f, ids, session, hsession, hb, h, -, hdecls⟩ := hydrated_back hT hnames haddressable hbuild hvalid hdecoded
  obtain ⟨symbols, hsymbols, hhydrate⟩ := Option.bind_eq_some_iff.mp hsession
  obtain ⟨module, -, hpair⟩ := Option.bind_eq_some_iff.mp hhydrate
  obtain rfl : symbols = session.symbols := by rw [← Option.some.inj hpair]
  have hentries := declared_back hb hsymbols hdecls
  have hsame : (∃ session, CompilationSession.hydrateFromArtifact typeTable { types := {} } art = some session ∧
      SameEntries B.types session.types.types (exported B) (declared session)) ↔
      ∀ d ∈ B.hir.declarations, d.name = [] ∧ PlainType B.types (exportedType B d) := by
    simp only [hsession, Option.some.injEq, exists_eq_left']
    rw [hentries, sameEntries_back_iff h hb]
  rw [SymbolsKept, declsRoundTrip_iff hb, hsame, and_assoc]
  refine and_congr_right fun _ => ?_
  constructor
  · rintro ⟨hfits, hcarried⟩ d hd
    obtain ⟨hbalanced, hfields, hmethods⟩ := hfits d hd
    obtain ⟨hname, htype⟩ := hcarried d hd
    exact ⟨hname, htype, hbalanced, hfields, hmethods⟩
  · intro hcarried
    exact ⟨fun d hd => ⟨(hcarried d hd).balanced, (hcarried d hd).fields, (hcarried d hd).methods⟩,
      fun d hd => ⟨(hcarried d hd).name, (hcarried d hd).type⟩⟩

/-- A module loaded from the cache shows the symbols it had exactly when each of its declarations is carried, which
    one with a name never is. -/
theorem hydrated_symbols_iff (hT : ModuleTypes B.types) (hsize : B.types.types.length ≤ kInvalidType.toNat)
    (hB : InTables B) (hdepth : B.types.types.length + 2 ≤ depth) (canonicalPath moduleName : Text)
    (deps : List Zirl.DependencyRecord) :
    ∃ decls art, Cache.build B depth canonicalPath moduleName deps = some (decls, art) ∧
      (Addressable art → Zirl.ValidReferences art → Decoded art →
        (SymbolsKept B art ↔ B.hir.declarations.length < 2 ^ 32 ∧ ∀ d ∈ B.hir.declarations, DeclCarried B d)) := by
  have hearlier := hT.earlier hsize
  obtain ⟨⟨decls, art⟩, hbuild⟩ := Option.isSome_iff_exists.mp
    (build_isSome hearlier hB hdepth canonicalPath moduleName deps)
  exact ⟨decls, art, hbuild, fun haddressable hvalid hdecoded =>
    symbolsKept_iff hearlier hT.nodup haddressable hbuild hvalid hdecoded⟩

end

/-! ### Names -/

/-- The function `f`, and a public variable of type `i32`. -/
def oneVariable (name : Text) : ArtifactBuilder :=
  { types := TypeIntern.build [.intern (.int .i32)]
    hir := { fns := [⟨[0x66], [], [], [], 5, false, false, kInvalidType, 0, false, none, false, true, none, []⟩]
             declarations := [⟨false, name, .«variable», .«public», 0, 5, false, kInvalidHirFunction, kInvalidHirTemplate, []⟩] } }

def variableArtifact (name : Text) : Cache.Artifact :=
  ((Cache.build (oneVariable name) 10 [0x6d] [] []).map (·.2)).getD { canonicalPath := [] }

/-- A variable without a name comes back. -/
theorem hydrated_symbols_nameless : SymbolsKept (oneVariable []) (variableArtifact []) := by
  have hT : ModuleTypes (oneVariable []).types := moduleTypes_build (by simp [AllRefer, Refers, dependencies])
  have hrows : (oneVariable []).types.types.length = 6 := by decide
  have hdefs : (oneVariable []).types.structDefs = [] ∧ (oneVariable []).types.enumDefs = [] ∧
      (oneVariable []).types.unionDefs = [] := by
    simp only [← List.length_eq_zero_iff]
    decide
  have hfn : FunctionInTable (oneVariable []).types
      ⟨[0x66], [], [], [], 5, false, false, kInvalidType, 0, false, none, false, true, none, []⟩ :=
    ⟨.inl (by decide), .inr rfl, by simp, by decide⟩
  have hB : InTables (oneVariable []) := by
    refine ⟨by decide, ?_, by simp [oneVariable], by simpa [oneVariable] using hfn, by simp [oneVariable],
      by simp [oneVariable], by simp [hdefs.1], by simp [oneVariable], by simp [hdefs.2.1], by simp [hdefs.2.2]⟩
    simp only [InTable, hrows]
    decide
  obtain ⟨decls, art, hbuild, h⟩ := hydrated_symbols_iff hT (by decide) hB
    (show (oneVariable []).types.types.length + 2 ≤ 10 by decide) [0x6d] [] []
  obtain rfl : variableArtifact [] = art := by rw [variableArtifact, hbuild]; rfl
  have haddressable : Addressable (variableArtifact []) := ⟨by decide +kernel, by rw [Capacity]; decide +kernel⟩
  have hdecoded : Decoded (variableArtifact []) :=
    ⟨by rw [Zirl.FitsU32]; decide +kernel, (Zirl.proofsRefer_iff _).mp (by decide +kernel)⟩
  refine (h haddressable (by decide +kernel) hdecoded).mpr ⟨by decide, ?_⟩
  have hint : PlainType (oneVariable []).types 5 :=
    .intro (by decide) (show Stands _ 5 (.int .i32) from .itself (by decide) rfl) trivial (by simp [dependencies])
  simp only [oneVariable, List.forall_mem_singleton]
  exact ⟨rfl, hint, rfl, by decide, by decide⟩

/-- The public variable `v` comes back without its name: looking for it finds nothing. -/
theorem hydrated_symbols_named : ∃ decls session,
    Cache.build (oneVariable [0x76]) 10 [0x6d] [] [] = some (decls, variableArtifact [0x76]) ∧
      Zirl.ValidReferences (variableArtifact [0x76]) ∧ DeclsRoundTrip (variableArtifact [0x76]).decls ∧
      CompilationSession.hydrateFromArtifact typeTable { types := {} } (variableArtifact [0x76]) = some session ∧
      (declared session).map (·.name) = [[]] ∧ ¬SymbolsKept (oneVariable [0x76]) (variableArtifact [0x76]) := by
  obtain ⟨⟨decls, art⟩, hbuild⟩ := Option.isSome_iff_exists.mp
    (show (Cache.build (oneVariable [0x76]) 10 [0x6d] [] []).isSome = true by decide +kernel)
  obtain rfl : variableArtifact [0x76] = art := by rw [variableArtifact, hbuild]; rfl
  have hrun : ((CompilationSession.hydrateFromArtifact typeTable { types := {} } (variableArtifact [0x76])).map
      fun s => (declared s).map (·.name)) = some [[]] := by decide +kernel
  obtain ⟨session, hsession, hnames⟩ := Option.map_eq_some_iff.mp hrun
  refine ⟨decls, session, hbuild, by decide +kernel, ?_, hsession, hnames, ?_⟩
  · rw [DeclsRoundTrip]
    decide +kernel
  · rintro ⟨-, session', hsession', hsame⟩
    obtain rfl := Option.some.inj (hsession.symm.trans hsession')
    obtain ⟨e', he', hname⟩ := (hsame.names [0x76]).mp ⟨⟨[0x76], .«variable», .«public», 5⟩, by decide, rfl⟩
    have hmem := List.mem_map_of_mem (f := Entry.name) he'
    rw [hnames, hname] at hmem
    simp at hmem

end Zith.Session
