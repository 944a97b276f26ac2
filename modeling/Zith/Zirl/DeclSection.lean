import Zith.Zirl.Buffer

/-! The declaration section: `encodeDecls` and `decodeDecls`, and the part of `ArtifactBuilder::build`
    that fills the two field lists of a record. A record has one count for both lists, that of the
    names, so it survives exactly when it has as many field types as field names. The builder gives
    enums names without types and unions types without names. -/

namespace Zith.Zirl
open Zith.Lib Zith.Lib.Reader

inductive CompactSymKind where
  | fn | struct | trait | interface | enum | alias | «variable» | «module» | component | union
  | asset | word | context
  deriving DecidableEq, Repr

inductive CompactVisibility where
  | «private» | «public» | «module»
  deriving DecidableEq, Repr

def CompactSymKind.toU8 (k : CompactSymKind) : UInt8 := UInt8.ofNat k.ctorIdx

/-- The cast of `decodeDecls` with its range check. -/
def CompactSymKind.ofU8 (b : UInt8) : Option CompactSymKind :=
  [.fn, .struct, .trait, .interface, .enum, .alias, .«variable», .«module», .component, .union,
    .asset, .word, .context][b.toNat]?

def CompactVisibility.toU8 (v : CompactVisibility) : UInt8 := UInt8.ofNat v.ctorIdx

def CompactVisibility.ofU8 (b : UInt8) : Option CompactVisibility := [.«private», .«public», .«module»][b.toNat]?

/-- `cache::DeclRecord` without its name, which the section does not carry. -/
structure DeclRecord where
  kind : CompactSymKind := .«variable»
  visibility : CompactVisibility := .«private»
  modDepth : Int32 := 0
  nameId : UInt32 := 0
  typeId : UInt32 := 0
  templateIndex : UInt32 := 0xFFFFFFFF
  bodyFnIndex : UInt32 := 0xFFFFFFFF
  fieldNameIds : List UInt32 := []
  fieldTypeIds : List UInt32 := []
  methodDeclIndices : List UInt32 := []
  isExtern : Bool := false
  discardable : Bool := false
  deriving DecidableEq

/-! ### The codec -/

/-- The fixed-width part of a record. -/
def writeDeclHead (d : DeclRecord) : List UInt8 :=
  writeU8 d.kind.toU8 ++ (writeU8 d.visibility.toU8 ++ (writeFlag d.isExtern ++
    (writeFlag d.discardable ++ (writeI32 d.modDepth ++ (writeU32 d.nameId ++ (writeU32 d.typeId ++
    (writeU32 d.templateIndex ++ writeU32 d.bodyFnIndex)))))))

def writeDecl (d : DeclRecord) : List UInt8 :=
  writeDeclHead d ++ (writeCount d.fieldNameIds.length ++ (d.fieldNameIds.flatMap writeU32 ++
    (d.fieldTypeIds.flatMap writeU32 ++ writeIds d.methodDeclIndices)))

def encodeDecls (decls : List DeclRecord) : List UInt8 := writeCounted writeDecl decls

def readDeclHead : Reader DeclRecord := do
  let kind ← readU8
  let vis ← readU8
  let ext ← readU8
  let discardable ← readU8
  let kind ← Reader.lift (CompactSymKind.ofU8 kind)
  let visibility ← Reader.lift (CompactVisibility.ofU8 vis)
  let isExtern ← Reader.lift (flagOfU8 ext)
  let discardable ← Reader.lift (flagOfU8 discardable)
  let modDepth ← readI32
  let nameId ← readU32
  let typeId ← readU32
  let templateIndex ← readU32
  let bodyFnIndex ← readU32
  return { kind, visibility, modDepth, nameId, typeId, templateIndex, bodyFnIndex, isExtern, discardable }

def readDecl : Reader DeclRecord := do
  let d ← readDeclHead
  let c ← readU32
  canReadU32Count c 4
  let fieldNameIds ← readU32.replicate c.toNat
  let fieldTypeIds ← readU32.replicate c.toNat
  let methodDeclIndices ← readIds
  return { d with fieldNameIds, fieldTypeIds, methodDeclIndices }

def decodeDecls : Reader (List DeclRecord) := readCounted 4 readDecl

/-- The section is read back, to its last byte. -/
def DeclsRoundTrip (decls : List DeclRecord) : Prop := decodeDecls (encodeDecls decls) = some (decls, [])

/-! ### The field lists the builder emits -/

/-- What the type of a declaration refers to: a definition index, or nothing of interest. -/
inductive DeclType where
  | struct (defId : ℕ)
  | union (defId : ℕ)
  | enum (defId : ℕ)
  | other
  deriving DecidableEq, Repr

/-- The definitions of the type table, as the ids `internString` and `internType` give them. -/
structure TypeDefs where
  structDefs : List (List (UInt32 × UInt32))
  unionDefs : List (List UInt32)
  enumDefs : List (List UInt32)

/-- `lookupStructDef` first, then `lookupUnionDef`: the index of a union may hit a struct. -/
def recordFields (defs : TypeDefs) (defId : ℕ) : List UInt32 × List UInt32 :=
  match defs.structDefs[defId]? with
  | some fields => (fields.map Prod.fst, fields.map Prod.snd)
  | none =>
    match defs.unionDefs[defId]? with
    | some members => ([], members)
    | none => ([], [])

/-- The lists `field_name_ids` and `field_type_ids` of the record `build` makes for a declaration. -/
def buildFieldLists (defs : TypeDefs) (kind : CompactSymKind) (type : DeclType) :
    List UInt32 × List UInt32 :=
  match kind with
  | .struct | .union | .component =>
    match type with
    | .struct defId | .union defId => recordFields defs defId
    | _ => ([], [])
  | .enum =>
    match type with
    | .enum defId => (defs.enumDefs[defId]?.getD [], [])
    | _ => ([], [])
  | _ => ([], [])

/-! ### Survival -/

/-- What one count can carry. -/
structure DeclRecord.Fits (d : DeclRecord) : Prop where
  names : d.fieldNameIds.length < 2 ^ 32
  methods : d.methodDeclIndices.length < 2 ^ 32
  balanced : d.fieldNameIds.length = d.fieldTypeIds.length

@[simp] theorem ofU8_toU8_kind (k : CompactSymKind) : CompactSymKind.ofU8 k.toU8 = some k := by
  cases k <;> rfl

@[simp] theorem ofU8_toU8_visibility (v : CompactVisibility) : CompactVisibility.ofU8 v.toU8 = some v := by
  cases v <;> rfl

theorem length_ids (ids : List UInt32) : (ids.flatMap writeU32).length = 4 * ids.length := by
  induction ids with
  | nil => rfl
  | cons id ids ih => rw [List.flatMap_cons, List.length_append, writeU32_length, ih,
      List.length_cons, Nat.mul_succ, Nat.add_comm]

theorem read_declHead (d : DeclRecord) (rest : List UInt8) : readDeclHead (writeDeclHead d ++ rest) =
      some ({ d with fieldNameIds := [], fieldTypeIds := [], methodDeclIndices := [] }, rest) := by
  simp only [readDeclHead, writeDeclHead, writeFlag, List.append_assoc, (inverts_u8 _).bind,
    (inverts_i32 _).bind, (inverts_u32 _).bind, ofU8_toU8_kind, ofU8_toU8_visibility,
    flagOfU8_flag, lift_some_bind, pure_apply]

theorem inverts_decl {d : DeclRecord} (h : d.Fits) : Inverts writeDecl readDecl d := by
  intro rest
  have hroom : ∀ tail, canReadU32Count (UInt32.ofNat d.fieldNameIds.length) 4
      (d.fieldNameIds.flatMap writeU32 ++ tail) =
      some ((), d.fieldNameIds.flatMap writeU32 ++ tail) := by
    intro tail
    rw [canReadU32Count, guardLeft, toNat_count h.names, if_pos]
    refine decide_eq_true ⟨by norm_num, ?_⟩
    rw [List.length_append, length_ids]
    omega
  have hnames := Inverts.replicate (l := d.fieldNameIds) fun id _ => inverts_u32 id
  have htypes := Inverts.replicate (l := d.fieldTypeIds) fun id _ => inverts_u32 id
  rw [← h.balanced] at htypes
  simp only [readDecl, writeDecl, bind_apply, List.append_assoc, read_declHead, read_count,
    toNat_count h.names, hroom, hnames, htypes, inverts_ids h.methods _, Option.bind_some,
    pure_apply]

/-- What `readDecl` accepts has one length for both lists. -/
theorem fits_of_readDecl {bs rest : List UInt8} {d : DeclRecord} (h : readDecl bs = some (d, rest)) : d.Fits := by
  obtain ⟨d₀, m₁, _, h⟩ := bind_eq_some h
  obtain ⟨c, m₂, _, h⟩ := bind_eq_some h
  obtain ⟨_, m₃, _, h⟩ := bind_eq_some h
  obtain ⟨names, m₄, hnames, h⟩ := bind_eq_some h
  obtain ⟨types, m₅, htypes, h⟩ := bind_eq_some h
  obtain ⟨methods, m₆, hmethods, h⟩ := bind_eq_some h
  obtain ⟨rfl, rfl⟩ := pure_eq_some h
  have hnlen := replicate_length hnames
  have htlen := replicate_length htypes
  refine ⟨?_, readCounted_length hmethods, hnlen.trans htlen.symm⟩
  rw [hnlen]
  exact c.toNat_lt

/-- The declarations survive exactly when every count fits and every record has as many field types
    as field names. -/
theorem decodeDecls_undoes_encodeDecls_iff (decls : List DeclRecord) :
    DeclsRoundTrip decls ↔ decls.length < 2 ^ 32 ∧ ∀ d ∈ decls, d.Fits := by
  constructor
  · intro h
    exact ⟨readCounted_length h, forall_of_readCounted (fun _ _ _ => fits_of_readDecl) h⟩
  · rintro ⟨hlen, hfits⟩
    have hmin : ∀ d ∈ decls, 4 ≤ (writeDecl d).length := by
      intro d _
      simp only [writeDecl, List.length_append, writeCount_length]
      omega
    have h : Inverts encodeDecls decodeDecls decls :=
      inverts_counted (by norm_num) hlen hmin fun d hd => inverts_decl (hfits d hd)
    rw [DeclsRoundTrip, ← List.append_nil (encodeDecls decls)]
    exact h []

/-! ### The shapes the builder emits -/

/-- Field lists by kind: enums have names only, records have pairs or types only. -/
def BuilderShape (kind : CompactSymKind) (lists : List UInt32 × List UInt32) : Prop :=
  match kind with
  | .enum => lists.2 = []
  | .struct | .union | .component => lists.1 = [] ∨ lists.1.length = lists.2.length
  | _ => lists = ([], [])

theorem recordFields_shape (defs : TypeDefs) (defId : ℕ) : (recordFields defs defId).1 = [] ∨
      (recordFields defs defId).1.length = (recordFields defs defId).2.length := by
  unfold recordFields
  split
  · exact .inr (by simp)
  · split
    · exact .inl rfl
    · exact .inl rfl

theorem buildFieldLists_shape (defs : TypeDefs) (kind : CompactSymKind) (type : DeclType) :
    BuilderShape kind (buildFieldLists defs kind type) := by
  cases kind <;> cases type <;>
    simp only [BuilderShape, buildFieldLists, recordFields_shape, true_or]

/-- Of these shapes one count carries the enums without variants and the records without types that
    lack a name. -/
theorem balanced_iff_of_builderShape {kind : CompactSymKind} {lists : List UInt32 × List UInt32}
    (h : BuilderShape kind lists) : lists.1.length = lists.2.length ↔
      (kind = .enum → lists.1 = []) ∧ (lists.1 = [] → lists.2 = []) := by
  obtain ⟨names, types⟩ := lists
  have hrecord : names = [] ∨ names.length = types.length →
      (names.length = types.length ↔ (names = [] → types = [])) := by
    rintro (rfl | hlen)
    · simp only [List.length_nil, eq_comm, List.length_eq_zero_iff, forall_const]
    · refine ⟨fun _ hnil => ?_, fun _ => hlen⟩
      subst hnil
      exact List.length_eq_zero_iff.mp hlen.symm
  cases kind with
  | enum =>
    obtain rfl : types = [] := h
    simp
  | struct | union | component =>
    simpa using hrecord h
  | _ =>
    obtain ⟨rfl, rfl⟩ : names = [] ∧ types = [] := by simpa [BuilderShape] using h
    simp

/-- An enum with one variant, as the builder emits it, does not survive: the decoder looks for a
    field type the encoder did not write. -/
theorem decodeDecls_encodeDecls_fails :
    ∃ d : DeclRecord, BuilderShape d.kind (d.fieldNameIds, d.fieldTypeIds) ∧ d.kind = .enum ∧ ¬ DeclsRoundTrip [d] := by
  refine ⟨{ kind := .enum, fieldNameIds := [3] }, rfl, rfl, fun h => ?_⟩
  have hfits := forall_of_readCounted (fun _ _ _ => fits_of_readDecl) h _ (List.mem_singleton_self _)
  exact absurd hfits.balanced (by decide)

end Zith.Zirl
