import Zith.Cache.BuiltModule
import Zith.Session.RebuiltTypes

/-! The types of a module against those of a session. Two types are the same when some relation holds of them
    that only relates types of one kind, with the same numbers, names and definitions, and related components;
    aliases, nominal and qualified types are what they stand for. The names of a pack are left out, as
    `typeDataEqual` leaves them out, and the number of a type variable. -/

namespace Zith.Session
open Zith.Lib Zith.Hir
open Types (TypeIntern TypeData packData)
open Types.TypeIntern (compared)
open Zirl (CompactType)
open Zith.Cache (BuilderState Stands Earlier Entered Before Known Listed dependencies target? compactOf typeId stringId)

/-! ### Same types -/

/-- A type but for its components. -/
def outline : TypeData → TypeData
  | .ptr _ isMut ownership => .ptr 0 isMut ownership
  | .array _ count => .array 0 count
  | .fn _ _ => .fn [] 0
  | .typeVar _ => .typeVar 0
  | .optional _ => .optional 0
  | .failable _ => .failable 0
  | .alias _ => .alias 0
  | .nominal name _ => .nominal name 0
  | .dyn _ methodCount => .dyn 0 methodCount
  | .qualified _ ownership isMut => .qualified 0 ownership isMut
  | .slice _ => .slice 0
  | .pack _ _ => .pack [] []
  | .sum _ => .sum []
  | .incomplete _ _ => .incomplete 0 []
  | data => data

/-- The name of the definition of a type. -/
def definitionName (T : TypeIntern) : TypeData → Option Text
  | .struct defId => T.structDefs[defId]?.map (·.name)
  | .enum defId => T.enumDefs[defId]?.map (·.name)
  | .union defId => T.unionDefs[defId]?.map (·.name)
  | _ => none

@[mk_iff]
structure SameData (T T' : TypeIntern) (R : ℕ → ℕ → Prop) (a b : TypeData) : Prop where
  outline : outline a = outline b
  name : definitionName T a = definitionName T' b
  parts : List.Forall₂ R (dependencies a) (dependencies b)

/-- A relation that only relates what looks the same. -/
structure Relates (T T' : TypeIntern) (R : ℕ → ℕ → Prop) : Prop where
  invalid : ∀ {t t'}, R t t' → (t = kInvalidType.toNat ↔ t' = kInvalidType.toNat)
  data : ∀ {t t'}, R t t' → t ≠ kInvalidType.toNat → ∃ a b, Stands T t a ∧ Stands T' t' b ∧ SameData T T' R a b

/-- The same type in two tables. -/
def SameType (T T' : TypeIntern) (t t' : ℕ) : Prop := ∃ R, Relates T T' R ∧ R t t'

/-- What comes back as it was: no ownership of a pointer but the default, no empty name, no sum, no unknown and
    no untagged opaque type. -/
def Plain (T : TypeIntern) : TypeData → Prop
  | .ptr _ _ ownership => ownership = .default
  | .trait name | .genericParam name _ => name ≠ []
  | .dyn _ methodCount => methodCount.toUInt32.toUInt64 = methodCount
  | .struct defId => defId < T.structDefs.length
  | .enum defId => defId < T.enumDefs.length
  | .union defId => defId < T.unionDefs.length
  | .unknown | .opaqueUntagged | .sum _ => False
  | _ => True

/-- A type that is as `P` says down to its last component. -/
inductive Deep (T : TypeIntern) (P : TypeData → Prop) : ℕ → Prop
  | intro {t : ℕ} {data : TypeData} (hvalid : t ≠ kInvalidType.toNat) (hstands : Stands T t data)
      (hholds : P data) (hparts : ∀ c ∈ dependencies data, Deep T P c) : Deep T P t

abbrev PlainType (T : TypeIntern) : ℕ → Prop := Deep T (Plain T)

theorem outline_compared (data : TypeData) : outline (compared data) = outline data := by cases data <;> rfl

theorem dependencies_compared (data : TypeData) : dependencies (compared data) = dependencies data := by
  cases data <;> rfl

theorem definitionName_compared (T : TypeIntern) (data : TypeData) :
    definitionName T (compared data) = definitionName T data := by cases data <;> rfl

theorem target?_compared (data : TypeData) : target? (compared data) = target? data := by cases data <;> rfl

/-- The names of a pack do not matter. -/
theorem sameData_congr {T T' : TypeIntern} {R : ℕ → ℕ → Prop} {a b b' : TypeData} (h : compared b = compared b') :
    SameData T T' R a b ↔ SameData T T' R a b' := by
  have houtline : outline b = outline b' := by rw [← outline_compared b, h, outline_compared]
  have hparts : dependencies b = dependencies b' := by rw [← dependencies_compared b, h, dependencies_compared]
  have hname : definitionName T' b = definitionName T' b' := by
    rw [← definitionName_compared T' b, h, definitionName_compared]
  constructor
  · rintro ⟨h₁, h₂, h₃⟩
    exact ⟨h₁.trans houtline, h₂.trans hname, hparts ▸ h₃⟩
  · rintro ⟨h₁, h₂, h₃⟩
    exact ⟨h₁.trans houtline.symm, h₂.trans hname.symm, hparts ▸ h₃⟩

/-! ### One row -/

/-- The row that a component is rebuilt as. -/
def rowBack (f : BuilderState) (ids : List TypeId) (c : ℕ) : ℕ := (compactType ids (typeId f c)).toNat

/-- What a row comes back as. -/
def dataBack (f : BuilderState) (art : Cache.Artifact) (ids : List TypeId) (self : ℕ) : TypeData → TypeData
  | .ptr c isMut _ => .ptr (rowBack f ids c) isMut .default
  | .array c count => .array (rowBack f ids c) count
  | .struct defId =>
    let i := (UInt32.ofNat defId).toNat
    if i < art.structDefs.length then .struct i else .error
  | .fn params ret => .fn (params.map (rowBack f ids)) (rowBack f ids ret)
  | .typeVar _ => .typeVar (UInt32.ofNat self)
  | .optional c => .optional (rowBack f ids c)
  | .failable c => .failable (rowBack f ids c)
  | .trait name => (f.strings[(stringId f name).toNat]?.map TypeData.trait).getD .error
  | .opaqueUntagged => .unknown
  | .slice c => .slice (rowBack f ids c)
  | .enum defId =>
    let i := (UInt32.ofNat defId).toNat
    if i < art.enumDefs.length then .enum i else .error
  | .union defId =>
    let i := (UInt32.ofNat defId).toNat
    if i < art.unionDefs.length then .union i else .error
  | .pack members names => packData (members.map (rowBack f ids)) (names.map fun s => f.strings[(stringId f s).toNat]?.getD [])
  | .dyn c methodCount => .dyn (rowBack f ids c) methodCount.toUInt32.toUInt64
  | .sum _ => if 0 < art.unionDefs.length then .union 0 else .error
  | .genericParam ownerName paramIndex =>
    (f.strings[(stringId f ownerName).toNat]?.map fun owner => TypeData.genericParam owner paramIndex).getD .error
  | .incomplete base args => .incomplete (rowBack f ids base) (args.map (rowBack f ids))
  | .unknown | .alias _ | .nominal _ _ | .qualified _ _ _ => .error
  | data => data

theorem intWidthOf_ctorIdx (width : Types.IntWidth) : intWidthOf (UInt8.ofNat width.ctorIdx) = width := by
  cases width <;> rfl

theorem floatWidthOf_ctorIdx (width : Types.FloatWidth) : floatWidthOf (UInt8.ofNat width.ctorIdx) = width := by
  cases width <;> rfl

theorem string_back {f : BuilderState} (hf : f.Fits) (hempty : [] ∉ f.strings) {s : Text} (hs : Listed f s) :
    f.strings[(stringId f s).toNat]? = some s ↔ s ≠ [] := by
  constructor
  · rintro h rfl
    exact hempty (List.mem_of_getElem? h)
  · intro hne
    have hmem := hs.resolve_left hne
    rw [stringId, if_neg hne, UInt32.toNat_ofNat', Nat.mod_eq_of_lt (lt_of_le_of_lt List.idxOf_le_length hf.strings)]
    rw [List.getElem?_eq_getElem (List.idxOf_lt_length_of_mem hmem), List.getElem_idxOf]

/-- The definitions of a module have the same names in the session, few enough for their ids. -/
structure SameDefinitions (T : TypeIntern) (art : Cache.Artifact) (T' : TypeIntern) : Prop where
  names : definitionNames T = definitionNames T'
  structs : art.structDefs.length = T.structDefs.length
  enums : art.enumDefs.length = T.enumDefs.length
  unions : art.unionDefs.length = T.unionDefs.length
  capacity : Capacity art

section
variable {T T' : TypeIntern} {f : BuilderState} {art : Cache.Artifact} {ids : List TypeId} {R : ℕ → ℕ → Prop}

theorem SameDefinitions.name (h : SameDefinitions T art T') (data : TypeData) :
    definitionName T data = definitionName T' data := by
  have hnames := h.names
  simp only [definitionNames, Prod.mk.injEq] at hnames
  obtain ⟨hs, he, hu⟩ := hnames
  cases data with
  | struct defId => simp only [definitionName, ← List.getElem?_map, hs]
  | enum defId => simp only [definitionName, ← List.getElem?_map, he]
  | union defId => simp only [definitionName, ← List.getElem?_map, hu]
  | _ => rfl

/-- The id of a definition comes back when there is such a definition. -/
theorem toNat_definition {defId count : ℕ} (hcount : count < 2 ^ 32) :
    (UInt32.ofNat defId).toNat < count ∧ defId = (UInt32.ofNat defId).toNat ↔ defId < count := by
  constructor
  · rintro ⟨hlt, heq⟩
    rwa [← heq] at hlt
  · intro hlt
    rw [toNat_row (hlt.trans hcount)]
    exact ⟨hlt, rfl⟩

theorem definition_back_iff {data : ℕ → TypeData} {defId count : ℕ} (hcount : count < 2 ^ 32)
    (hinjective : Function.Injective data) (houtline : ∀ i, outline (data i) = data i) (hne : ∀ i, data i ≠ .error)
    (hparts : ∀ i, dependencies (data i) = []) (hname : ∀ i, definitionName T (data i) = definitionName T' (data i)) :
    SameData T T' R (data defId)
        (if (UInt32.ofNat defId).toNat < count then data (UInt32.ofNat defId).toNat else .error) ↔ defId < count := by
  refine Iff.trans ?_ (toNat_definition hcount)
  by_cases hlt : (UInt32.ofNat defId).toNat < count
  · rw [if_pos hlt]
    constructor
    · rintro ⟨h, -, -⟩
      rw [houtline, houtline] at h
      exact ⟨hlt, hinjective h⟩
    · rintro ⟨-, h⟩
      rw [← h]
      exact ⟨rfl, hname _, by rw [hparts]; exact List.Forall₂.nil⟩
  · rw [if_neg hlt]
    constructor
    · rintro ⟨h, -, -⟩
      rw [houtline] at h
      exact absurd h (hne _)
    · rintro ⟨h, -⟩
      exact absurd h hlt

theorem rebuiltData_compactOf (hart : art.strings = f.strings) (self : ℕ) (data : TypeData) :
    rebuiltData art ids self (compactOf f data) = dataBack f art ids self data := by
  cases data with
  | int width => exact congrArg TypeData.int (intWidthOf_ctorIdx width)
  | float width => exact congrArg TypeData.float (floatWidthOf_ctorIdx width)
  | ptr c isMut ownership =>
    have hflag : ((if isMut then 1 else 0 : UInt8) &&& 1 != 0) = isMut := by cases isMut <;> decide
    exact congrArg (fun flag => TypeData.ptr (rowBack f ids c) flag .default) hflag
  | fn params ret =>
    change TypeData.fn ((params.map (typeId f)).map fun id => (compactType ids id).toNat) _ = _
    rw [List.map_map]
    rfl
  | incomplete base args =>
    change TypeData.incomplete _ ((args.map (typeId f)).map fun id => (compactType ids id).toNat) = _
    rw [List.map_map]
    rfl
  | pack members names =>
    change packData ((members.map (typeId f)).map fun id => (compactType ids id).toNat)
      ((names.map (stringId f)).map fun id => art.strings[id.toNat]?.getD []) = _
    rw [List.map_map, List.map_map, hart]
    rfl
  | trait name =>
    refine (rebuiltData_trait art ids self (compactOf f (.trait name))).trans ?_
    rw [hart]
    rfl
  | genericParam ownerName paramIndex =>
    refine (rebuiltData_genericParam art ids self (compactOf f (.genericParam ownerName paramIndex))).trans ?_
    rw [hart]
    rfl
  | _ => rfl

/-- A row comes back the same exactly when it is plain and its components come back related. -/
theorem sameData_back_iff {data : TypeData} {self : ℕ} (hf : f.Fits) (hempty : [] ∉ f.strings)
    (hdefs : SameDefinitions T art T') (hself : target? data = none) (hlisted : ∀ s ∈ data.strings, Listed f s) :
    SameData T T' R data (dataBack f art ids self data) ↔
      Plain T data ∧ ∀ c ∈ dependencies data, R c (rowBack f ids c) := by
  have hcapacity := hdefs.capacity
  rw [Capacity] at hcapacity
  cases data with
  | «alias» target => simp [target?] at hself
  | nominal name target => simp [target?] at hself
  | qualified inner ownership isMut => simp [target?] at hself
  | error | never | void | bool | char | opaqueTagged | int | float | optional | failable | slice | array =>
    simp [sameData_iff, dataBack.eq_def, outline, Plain, dependencies, definitionName]
  | unknown | opaqueUntagged => simp [sameData_iff, dataBack.eq_def, outline, Plain]
  | ptr | dyn => simp [sameData_iff, dataBack.eq_def, outline, Plain, dependencies, definitionName, eq_comm]
  | typeVar => simp [sameData_iff, dataBack.eq_def, outline, Plain, dependencies, definitionName]
  | fn params ret | incomplete ret params =>
    simp [sameData_iff, dataBack.eq_def, outline, Plain, dependencies, definitionName]
  | pack members names =>
    simp [sameData_iff, dataBack.eq_def, outline, Plain, dependencies, definitionName, packData]
  | sum members =>
    simp only [sameData_iff, dataBack.eq_def, Plain, false_and, iff_false]
    split <;> simp [outline]
  | trait name =>
    have hback := string_back hf hempty (hlisted name (by simp [TypeData.strings]))
    simp only [sameData_iff, dataBack.eq_def, Plain]
    cases htext : f.strings[(stringId f name).toNat]? with
    | none => simpa [htext, outline, dependencies] using hback
    | some text => simpa [htext, outline, dependencies, definitionName, eq_comm] using hback
  | genericParam name index =>
    have hback := string_back hf hempty (hlisted name (by simp [TypeData.strings]))
    simp only [sameData_iff, dataBack.eq_def, Plain]
    cases htext : f.strings[(stringId f name).toNat]? with
    | none => simpa [htext, outline, dependencies] using hback
    | some text => simpa [htext, outline, dependencies, definitionName, eq_comm] using hback
  | struct defId =>
    simp only [Plain, dependencies, List.not_mem_nil, false_implies, implies_true, and_true, ← hdefs.structs]
    exact definition_back_iff (by omega) (fun _ _ => TypeData.struct.inj) (fun _ => rfl) (by simp) (fun _ => rfl)
      fun i => hdefs.name (.struct i)
  | enum defId =>
    simp only [Plain, dependencies, List.not_mem_nil, false_implies, implies_true, and_true, ← hdefs.enums]
    exact definition_back_iff (by omega) (fun _ _ => TypeData.enum.inj) (fun _ => rfl) (by simp) (fun _ => rfl)
      fun i => hdefs.name (.enum i)
  | union defId =>
    simp only [Plain, dependencies, List.not_mem_nil, false_implies, implies_true, and_true, ← hdefs.unions]
    exact definition_back_iff (by omega) (fun _ _ => TypeData.union.inj) (fun _ => rfl) (by simp) (fun _ => rfl)
      fun i => hdefs.name (.union i)

end

/-! ### All rows -/

theorem target?_of_stands {T : TypeIntern} {t : ℕ} {data : TypeData} (h : Stands T t data) : target? data = none := by
  induction h with
  | nothing => rfl
  | itself _ ht => exact ht
  | follows _ _ _ ih => exact ih

theorem parts_lt {T : TypeIntern} (hT : Earlier T) {t : ℕ} {data : TypeData} (h : Stands T t data) :
    ∀ c ∈ dependencies data, c < t ∨ c = kInvalidType.toNat := by
  induction h with
  | nothing => simp [dependencies]
  | itself hrow _ => exact hT.dependency hrow
  | follows hrow ht hend ih =>
    intro c hc
    rcases hT.dependency hrow _ (by rw [Cache.target_mem_dependencies ht]; exact List.mem_singleton_self _) with hlt | rfl
    · exact (ih c hc).imp_left fun h => h.trans hlt
    · obtain rfl := hend.unique (.nothing hT.invalid)
      simp [dependencies] at hc

/-- The types of a module in the tables of its artifact, and in the session that the artifact was hydrated into. -/
structure Rehydrated (T : TypeIntern) (f : BuilderState) (art : Cache.Artifact) (ids : List TypeId)
    (T' : TypeIntern) : Prop where
  earlier : Earlier T
  fits : f.Fits
  inv : f.Inv T f
  strings : art.strings = f.strings
  types : art.types = f.compactTypes
  definitions : SameDefinitions T art T'
  rebuilt : TypesRebuilt art ids T'

section
variable {T T' : TypeIntern} {f : BuilderState} {art : Cache.Artifact} {ids : List TypeId}

/-- No id comes back invalid, not even while the ids are being filled in. -/
theorem Rehydrated.valid_take (h : Rehydrated T f art ids T') (count : ℕ) (id : UInt32) :
    compactType (ids.take count) id ≠ kInvalidType := by
  rw [compactType]
  cases hid : (ids.take count)[id.toNat]? with
  | none => exact (by decide : kErrorType ≠ kInvalidType)
  | some u =>
    have hid : ids[id.toNat]? = some u := getElem?_of_prefix (List.take_prefix _ _) hid
    have hlt : id.toNat < art.types.length := h.rebuilt.length ▸ lt_of_getElem? hid
    obtain ⟨v, hv, ⟨d, hd, -⟩, -⟩ := h.rebuilt.rows (List.getElem?_eq_getElem hlt)
    obtain rfl := Option.some.inj (hid.symm.trans hv)
    rintro rfl
    have hrow : (4294967295 : ℕ) < T'.types.length := lt_of_getElem? hd
    have := h.rebuilt.size
    omega

theorem Rehydrated.valid (h : Rehydrated T f art ids T') (id : UInt32) : compactType ids id ≠ kInvalidType := by
  have := h.valid_take ids.length id
  rwa [List.take_length] at this

theorem Rehydrated.rowBack_ne (h : Rehydrated T f art ids T') (c : ℕ) : rowBack f ids c ≠ kInvalidType.toNat :=
  fun heq => h.valid _ (UInt32.toNat_inj.mp heq)

/-- The row of a type that was entered. -/
theorem Rehydrated.row (h : Rehydrated T f art ids T') {t : ℕ} {k : UInt32} (hvalid : t ≠ kInvalidType.toNat)
    (hk : f.typeIndex.lookup t = some k) : ∃ data d, Entered T f t k data ∧ T'.types[rowBack f ids t]? = some d ∧
      compared d = compared (dataBack f art (ids.take k.toNat) (rowBack f ids t) data) := by
  obtain ⟨data, hentered⟩ := h.inv.entered hk
  have hcompact : art.types[k.toNat]? = some (compactOf f data) := h.types ▸ hentered.compact
  obtain ⟨u, hu, ⟨d, hd, hcompared⟩, -⟩ := h.rebuilt.rows hcompact
  have hback : rowBack f ids t = u.toNat := by
    rw [rowBack, ← Cache.typeId_of_lookup hvalid hk, compactType, hu, Option.getD_some]
  rw [hback]
  exact ⟨data, d, hentered, hd, hcompared.trans (by rw [rebuiltData_compactOf h.strings])⟩

theorem rowBack_take {c : ℕ} {k : UInt32} (hvalid : c ≠ kInvalidType.toNat) (hc : Before f c k) :
    rowBack f (ids.take k.toNat) c = rowBack f ids c := by
  obtain ⟨j, hj, hlt⟩ := hc.resolve_left hvalid
  rw [rowBack, rowBack, compactType, compactType, ← Cache.typeId_of_lookup hvalid hj, List.getElem?_take_of_lt hlt]

/-- The rows that come back are no aliases. -/
theorem target?_dataBack (self : ℕ) (data : TypeData) : target? (dataBack f art ids self data) = none := by
  cases data with
  | trait name =>
    simp only [dataBack.eq_def]
    cases f.strings[(stringId f name).toNat]? <;> rfl
  | genericParam name index =>
    simp only [dataBack.eq_def]
    cases f.strings[(stringId f name).toNat]? <;> rfl
  | struct | enum | union | sum =>
    simp only [dataBack.eq_def]
    split <;> rfl
  | _ => rfl

theorem Rehydrated.sameType_of_plain (h : Rehydrated T f art ids T') {t : ℕ} (hknown : Known f t)
    (hplain : PlainType T t) : SameType T T' t (rowBack f ids t) := by
  refine ⟨fun t t' => Known f t ∧ PlainType T t ∧ t' = rowBack f ids t, ⟨?_, ?_⟩, hknown, hplain, rfl⟩
  · rintro t t' ⟨-, ⟨hvalid, -, -, -⟩, rfl⟩
    exact ⟨fun heq => absurd heq hvalid, fun heq => absurd heq (h.rowBack_ne t)⟩
  · rintro t t' ⟨hknown, ⟨hvalid, hstands, hplain, hparts⟩, rfl⟩ -
    obtain ⟨k, hk⟩ := hknown.resolve_left hvalid
    obtain ⟨data, d, hentered, hd, hcompared⟩ := h.row hvalid hk
    obtain rfl := hentered.stands.unique hstands
    have htarget : target? d = none := by rw [← target?_compared, hcompared, target?_compared, target?_dataBack]
    refine ⟨data, d, hstands, .itself hd htarget, ?_⟩
    rw [sameData_congr hcompared, sameData_back_iff h.fits h.inv.nonempty h.definitions
      (target?_of_stands hstands) hentered.names]
    refine ⟨hplain, fun c hc => ?_⟩
    have hc' := hparts c hc
    have hbefore := hentered.parts c hc
    have hcvalid : c ≠ kInvalidType.toNat := by
      cases hc'
      assumption
    exact ⟨hbefore.imp_right fun ⟨j, hj, _⟩ => ⟨j, hj⟩, hc', rowBack_take hcvalid hbefore⟩

theorem Rehydrated.plain_of_sameType (h : Rehydrated T f art ids T') : ∀ {t : ℕ}, Known f t →
    SameType T T' t (rowBack f ids t) → PlainType T t := by
  intro t
  induction t using Nat.strong_induction_on with
  | _ t ih =>
    rintro hknown ⟨R, hR, ht⟩
    have hvalid : t ≠ kInvalidType.toNat := fun heq => h.rowBack_ne t ((hR.invalid ht).mp heq)
    obtain ⟨k, hk⟩ := hknown.resolve_left hvalid
    obtain ⟨data, d, hentered, hd, hcompared⟩ := h.row hvalid hk
    have htarget : target? d = none := by rw [← target?_compared, hcompared, target?_compared, target?_dataBack]
    obtain ⟨a, b, ha, hb, hsame⟩ := hR.data ht hvalid
    obtain rfl := hentered.stands.unique ha
    obtain rfl := Stands.unique hb (.itself hd htarget)
    rw [sameData_congr hcompared, sameData_back_iff h.fits h.inv.nonempty h.definitions (target?_of_stands ha)
      hentered.names] at hsame
    obtain ⟨hplain, hparts⟩ := hsame
    refine .intro hvalid ha hplain fun c hc => ?_
    have hrelated := hparts c hc
    have hbefore := hentered.parts c hc
    have hcvalid : c ≠ kInvalidType.toNat := fun heq =>
      h.valid_take _ _ (UInt32.toNat_inj.mp ((hR.invalid hrelated).mp heq))
    rw [rowBack_take hcvalid hbefore] at hrelated
    exact ih c ((parts_lt h.earlier ha c hc).resolve_right hcvalid) (hbefore.imp_right fun ⟨j, hj, _⟩ => ⟨j, hj⟩)
      ⟨R, hR, hrelated⟩

/-- A type comes back the same exactly when it is plain. -/
theorem Rehydrated.sameType_iff (h : Rehydrated T f art ids T') {t : ℕ} (hknown : Known f t) :
    SameType T T' t (rowBack f ids t) ↔ PlainType T t :=
  ⟨h.plain_of_sameType hknown, h.sameType_of_plain hknown⟩

end

end Zith.Session
