import Zith.Lib.Foretold
import Zith.Lib.Fuel
import Zith.Session.TypeCalls

/-! The types of a fresh session after `hydrateFromArtifact`. The composite definitions come first, with one
    row each, in the order of the artifact; a compact type then finds or makes one row; the fields, variants
    and members that are added at the end leave the rows alone.

        {} ──defineComposites──▶ composed ──hydrateType, …──▶ composed ++ rows ──hydrateStructDef, …──▶ types -/

namespace Zith.Session
open Zith.Lib Zith.Hir
open Zith.Lib.Growing (bind_eq_some)
open Types (TypeIntern TypeData InternTable packData)
open Types.TypeIntern (compared)
open Zirl (CompactType CompactStructDef CompactEnumDef CompactUnionDef)

/-! ### Interning -/

theorem intern_others (T : TypeIntern) (data : TypeData) :
    (T.intern data).1 = { T with types := (T.intern data).1.types } := by
  unfold TypeIntern.intern
  dsimp only
  split <;> rfl

/-- What a call of `intern` adds and answers. -/
structure InternedRow (T T' : TypeIntern) (row : ℕ) (data : TypeData) : Prop where
  others : T' = { T with types := T'.types }
  extends' : T.types <+: T'.types
  length : T'.types.length ≤ T.types.length + 1
  entry : ∃ d, T'.types[row]? = some d ∧ compared d = compared data
  ground : 5 ≤ T.types.length → 5 ≤ row

theorem internedRow (T : TypeIntern) (data : TypeData) : InternedRow T (T.intern data).1 (T.intern data).2 data := by
  have htypes : (T.intern data).1.types = (InternTable.byComponents.intern T.types data).1 :=
    congrArg Prod.fst (Types.TypeIntern.intern_eq T data)
  have hrow : (T.intern data).2 = (InternTable.byComponents.intern T.types data).2 :=
    congrArg Prod.snd (Types.TypeIntern.intern_eq T data)
  refine ⟨intern_others T data, ?_, ?_, ?_, ?_⟩
  · rw [htypes]
    exact InternTable.byComponents.extends_intern T.types data
  · rw [htypes]
    rcases InternTable.byComponents.intern_cases T.types data with ⟨i, b, h, -⟩ | ⟨h, -⟩ <;> rw [h]
    · exact Nat.le_succ _
    · simp
  · rw [htypes, hrow]
    exact InternTable.byComponents.entry_intern T.types data
  · intro h5
    rw [hrow]
    exact InternTable.byComponents.reserved_le_intern h5 data

/-! ### What a compact type is rebuilt as -/

/-- The row that `hydrateType` makes of a compact type, whose own row is `self` if it is a type variable. -/
def rebuiltData (art : Cache.Artifact) (ids : List TypeId) (self : ℕ) (t : CompactType) : TypeData :=
  let type (id : UInt32) : ℕ := (compactType ids id).toNat
  let texts := t.argNames.map fun id => art.strings[id.toNat]?.getD []
  match t.kind.val.toNat with
  | 1 => .never
  | 2 => .void
  | 3 => .bool
  | 4 => .char
  | 5 => .int (intWidthOf t.intWidth)
  | 6 => .float (floatWidthOf t.intWidth)
  | 7 => .ptr (type t.ref0) (t.flags &&& 1 != 0) .default
  | 8 => .array (type t.ref0) t.ref1
  | 9 => if t.ref0.toNat < art.structDefs.length then .struct t.ref0.toNat else .error
  | 10 => .fn (t.args.map type) (type t.ref0)
  | 11 => .optional (type t.ref0)
  | 12 => .failable (type t.ref0)
  | 13 => .slice (type t.ref0)
  | 14 => if t.ref0.toNat < art.enumDefs.length then .enum t.ref0.toNat else .error
  | 15 => if t.ref0.toNat < art.unionDefs.length then .union t.ref0.toNat else .error
  | 16 => .typeVar (UInt32.ofNat self)
  | 17 => match art.strings[t.ref0.toNat]? with
    | some owner => .genericParam owner t.ref1
    | none => .error
  | 18 => .incomplete (type t.ref0) (t.args.map type)
  | 19 => .unknown
  | 20 => packData (t.args.map type) texts
  | 21 => .dyn (type t.ref0) t.ref1.toUInt64
  | 22 => .opaqueTagged
  | 23 => match art.strings[t.ref0.toNat]? with
    | some name => .trait name
    | none => .error
  | _ => .error

theorem rebuiltData_trait (art : Cache.Artifact) (ids : List TypeId) (self : ℕ) (t : CompactType) :
    rebuiltData art ids self { t with kind := .trait } =
      (art.strings[t.ref0.toNat]?.map TypeData.trait).getD .error := by
  change (match art.strings[t.ref0.toNat]? with
    | some name => TypeData.trait name
    | none => .error) = _
  cases art.strings[t.ref0.toNat]? <;> rfl

theorem rebuiltData_genericParam (art : Cache.Artifact) (ids : List TypeId) (self : ℕ) (t : CompactType) :
    rebuiltData art ids self { t with kind := .genericParam } =
      (art.strings[t.ref0.toNat]?.map (TypeData.genericParam · t.ref1)).getD .error := by
  change (match art.strings[t.ref0.toNat]? with
    | some owner => TypeData.genericParam owner t.ref1
    | none => .error) = _
  cases art.strings[t.ref0.toNat]? <;> rfl

/-- A row of the table is as it should be, up to the names of a pack. -/
def HasRow (T : TypeIntern) (row : ℕ) (data : TypeData) : Prop :=
  ∃ d, T.types[row]? = some d ∧ compared d = compared data

theorem HasRow.mono {T T' : TypeIntern} {row : ℕ} {data : TypeData} (h : HasRow T row data)
    (hle : T.types <+: T'.types) : HasRow T' row data := by
  obtain ⟨d, hd, hcompared⟩ := h
  exact ⟨d, List.getElem?_eq_some_iff.mpr (by
    obtain ⟨hlt, rfl⟩ := List.getElem?_eq_some_iff.mp hd
    exact ⟨lt_of_lt_of_le hlt hle.length_le, (hle.getElem hlt).symm⟩), hcompared⟩

/-- The rows of the composite definitions. -/
structure Placed (art : Cache.Artifact) (c : Composites) (T : TypeIntern) : Prop where
  builtin : Types.builtinTypes <+: T.types
  structs : ∀ i, (h : i < art.structDefs.length) → ∃ u, c.structTids[i]? = some u ∧ 5 ≤ u.toNat ∧
    T.types[u.toNat]? = some (.struct i)
  enums : ∀ i, (h : i < art.enumDefs.length) → ∃ u, c.enumTids[i]? = some u ∧ 5 ≤ u.toNat ∧
    T.types[u.toNat]? = some (.enum i)
  unions : ∀ i, (h : i < art.unionDefs.length) → ∃ u, c.unionTids[i]? = some u ∧ 5 ≤ u.toNat ∧
    T.types[u.toNat]? = some (.union i)
  structCount : c.structTids.length = art.structDefs.length
  enumCount : c.enumTids.length = art.enumDefs.length
  unionCount : c.unionTids.length = art.unionDefs.length

/-- One round of the loop over the compact types. -/
structure RebuildsType (art : Cache.Artifact) (ids : List TypeId) (t : CompactType) (T T' : TypeIntern) (u : TypeId) :
    Prop where
  others : T' = { T with types := T'.types }
  extends' : T.types <+: T'.types
  length : T'.types.length ≤ T.types.length + 1
  row : HasRow T' u.toNat (rebuiltData art ids u.toNat t)
  ground : rebuiltData art ids u.toNat t = .error ∨ u ≠ kErrorType

theorem getElem?_of_prefix {α : Type} {l l' : List α} {i : ℕ} {a : α} (hle : l <+: l') (h : l[i]? = some a) :
    l'[i]? = some a := by
  obtain ⟨hlt, rfl⟩ := List.getElem?_eq_some_iff.mp h
  exact List.getElem?_eq_some_iff.mpr ⟨lt_of_lt_of_le hlt hle.length_le, (hle.getElem hlt).symm⟩

theorem Placed.builtin_row {art : Cache.Artifact} {c : Composites} {T : TypeIntern} (h : Placed art c T) {i : ℕ}
    {d : TypeData} (hd : Types.builtinTypes[i]? = some d) : HasRow T i d :=
  ⟨d, getElem?_of_prefix h.builtin hd, rfl⟩

section
variable {art : Cache.Artifact} {c : Composites} {ids : List TypeId} {t : CompactType} {s s' : SessionTypes} {u : TypeId}

/-- A type that needs no call. -/
theorem rebuilds_fixed (h : (pure u : StateT SessionTypes Option TypeId) s = some (u, s'))
    (hrow : HasRow s.types u.toNat (rebuiltData art ids u.toNat t))
    (hground : rebuiltData art ids u.toNat t = .error ∨ u ≠ kErrorType) :
    RebuildsType art ids t s.types s'.types u := by
  obtain rfl := (Prod.mk.inj (Option.some.inj h)).2
  exact ⟨rfl, List.prefix_rfl, Nat.le_succ _, hrow, hground⟩

theorem toNat_row {n : ℕ} (h : n < 2 ^ 32) : (UInt32.ofNat n).toNat = n := by
  rw [UInt32.toNat_ofNat', Nat.mod_eq_of_lt h]

theorem lt_of_getElem? {α : Type} {l : List α} {i : ℕ} {a : α} (h : l[i]? = some a) : i < l.length :=
  (List.getElem?_eq_some_iff.mp h).1

/-- A call that interns the row. -/
theorem rebuilds_interned {data : TypeData} (h : s.intern data = (u, s')) (hsize : s.types.types.length + 1 < 2 ^ 32)
    (hbuiltin : Types.builtinTypes <+: s.types.types)
    (hdata : ∀ row, u = UInt32.ofNat row → s'.types = (s.types.intern data).1 → row = (s.types.intern data).2 →
      row < 2 ^ 32 → rebuiltData art ids u.toNat t = data) : RebuildsType art ids t s.types s'.types u := by
  obtain ⟨rfl, rfl⟩ := Prod.mk.inj h
  have hrow := internedRow s.types data
  obtain ⟨d, hd, hcompared⟩ := hrow.entry
  have hlt : (s.types.intern data).2 < 2 ^ 32 := (lt_of_getElem? hd).trans (lt_of_le_of_lt hrow.length hsize)
  refine ⟨hrow.others, hrow.extends', hrow.length, ?_, .inr fun h => ?_⟩
  · rw [hdata _ rfl rfl rfl hlt, toNat_row hlt]
    exact ⟨d, hd, hcompared⟩
  · have h5 := hrow.ground hbuiltin.length_le
    have := congrArg UInt32.toNat h
    rw [toNat_row hlt] at this
    change _ = 0 at this
    omega

theorem strings_run : ∀ {ids : List UInt32} {names : List Text} {s s' : SessionTypes},
    ids.mapM (string art) s = some (names, s') → s' = s ∧ names = ids.map fun id => art.strings[id.toNat]?.getD [] := by
  intro ids
  induction ids with
  | nil =>
    intro names s s' h
    obtain ⟨rfl, rfl⟩ := Prod.mk.inj (Option.some.inj h)
    exact ⟨rfl, rfl⟩
  | cons id ids ih =>
    intro names s s' h
    rw [List.mapM_cons] at h
    obtain ⟨name, s₁, hname, h⟩ := bind_eq_some h
    obtain ⟨rest, s₂, hrest, h⟩ := bind_eq_some h
    obtain ⟨text, htext, hpair⟩ := Option.map_eq_some_iff.mp hname
    obtain ⟨rfl, rfl⟩ := Prod.mk.inj hpair
    obtain ⟨rfl, rfl⟩ := ih hrest
    obtain ⟨rfl, rfl⟩ := Prod.mk.inj (Option.some.inj h)
    exact ⟨rfl, by rw [List.map_cons, htext, Option.getD_some]⟩

/-- The type of a composite definition, or the error type when there is no such definition. -/
theorem rebuilds_placed {tids : List TypeId} {count : ℕ} {data : ℕ → TypeData}
    (h : (pure (tids[t.ref0.toNat]?.getD kErrorType) : StateT SessionTypes Option TypeId) s = some (u, s'))
    (hplaced : ∀ i, i < count → ∃ u, tids[i]? = some u ∧ 5 ≤ u.toNat ∧ s.types.types[u.toNat]? = some (data i))
    (hcount : tids.length = count) (herror : HasRow s.types 0 .error)
    (hdata : ∀ self, rebuiltData art ids self t = if t.ref0.toNat < count then data t.ref0.toNat else .error) :
    RebuildsType art ids t s.types s'.types u := by
  refine rebuilds_fixed (u := u) (by rwa [(Prod.mk.inj (Option.some.inj h)).1] at h) ?_ ?_
  all_goals
    obtain rfl := (Prod.mk.inj (Option.some.inj h)).1
    rw [hdata]
    by_cases hlt : t.ref0.toNat < count
    · obtain ⟨v, hv, h5, hrow⟩ := hplaced _ hlt
      rw [hv, Option.getD_some, if_pos hlt]
      first
        | exact ⟨_, hrow, rfl⟩
        | refine .inr fun hzero => ?_
          rw [hzero] at h5
          exact absurd h5 (by decide)
    · rw [List.getElem?_eq_none (by omega), Option.getD_none, if_neg hlt]
      first
        | exact herror
        | exact .inl rfl

/-- Each kind of compact type is rebuilt as its data says. -/
theorem hydrateType_rebuilds (hc : Placed art c s.types) (hsize : s.types.types.length + 1 < 2 ^ 32)
    (h : hydrateType typeTable art c ids t s = some (u, s')) : RebuildsType art ids t s.types s'.types u := by
  have herror : HasRow s.types 0 .error := hc.builtin_row (i := 0) rfl
  have hpure : ∀ {v : TypeId} {d : TypeData}, (pure v : StateT SessionTypes Option TypeId) s = some (u, s') →
      HasRow s.types v.toNat d → (∀ self, rebuiltData art ids self t = d) → d = .error ∨ v ≠ kErrorType →
      RebuildsType art ids t s.types s'.types u := by
    intro v d hrun hrow hdata hground
    obtain rfl := (Prod.mk.inj (Option.some.inj hrun)).1
    exact rebuilds_fixed hrun (by rwa [hdata]) (by rwa [hdata])
  have hcall : ∀ {call : TypeCall} {d : TypeData}, run typeTable call s = some (u, s') → s.call call = s.intern d →
      (∀ self, rebuiltData art ids self t = d) → RebuildsType art ids t s.types s'.types u := by
    intro call d hrun heq hdata
    exact rebuilds_interned (heq.symm.trans (Option.some.inj hrun)) hsize hc.builtin fun _ _ _ _ _ => hdata _
  obtain ⟨m, hm⟩ : ∃ m, m = hydrateType typeTable art c ids t := ⟨_, rfl⟩
  rw [← hm] at h
  rw [hydrateType] at hm
  split at hm <;> subst hm
  case h_9 hk =>
    exact rebuilds_placed h hc.structs hc.structCount herror fun self => by simp only [rebuiltData, hk]
  case h_14 hk =>
    exact rebuilds_placed h hc.enums hc.enumCount herror fun self => by simp only [rebuiltData, hk]
  case h_15 hk =>
    exact rebuilds_placed h hc.unions hc.unionCount herror fun self => by simp only [rebuiltData, hk]
  case h_16 hk =>
    refine rebuilds_interned (Option.some.inj h) hsize hc.builtin fun row hu _ hrow hlt => ?_
    have hfresh : row = s.types.types.length := hrow
    simp only [rebuiltData, hk]
    rw [hu, toNat_row hlt, hfresh]
  case h_17 hk =>
    cases howner : art.strings[t.ref0.toNat]? with
    | some owner =>
      rw [howner] at h
      exact hcall h rfl fun self => by simp only [rebuiltData, hk, howner]
    | none =>
      rw [howner] at h
      exact hpure h herror (fun self => by simp only [rebuiltData, hk, howner]) (.inl rfl)
  case h_23 hk =>
    cases hname : art.strings[t.ref0.toNat]? with
    | some name =>
      rw [hname] at h
      exact hcall h rfl fun self => by simp only [rebuiltData, hk, hname]
    | none =>
      rw [hname] at h
      exact hpure h herror (fun self => by simp only [rebuiltData, hk, hname]) (.inl rfl)
  case h_20 hk =>
    obtain ⟨names, s₁, hnames, h⟩ := bind_eq_some h
    obtain ⟨rfl, rfl⟩ := strings_run hnames
    exact hcall h rfl fun self => by simp only [rebuiltData, hk, List.map_map, Function.comp_def]
  case h_24 h1 h2 h3 h4 h5 h6 h7 h8 h9 h10 h11 h12 h13 h14 h15 h16 h17 h18 h19 h20 h21 h22 h23 =>
    exact hpure h herror (fun self => by simp only [rebuiltData]) (.inl rfl)
  case h_1 hk => exact hpure h (hc.builtin_row (i := 1) rfl) (fun self => by simp only [rebuiltData, hk]) (.inr (by decide))
  case h_2 hk => exact hpure h (hc.builtin_row (i := 2) rfl) (fun self => by simp only [rebuiltData, hk]) (.inr (by decide))
  case h_3 hk => exact hpure h (hc.builtin_row (i := 3) rfl) (fun self => by simp only [rebuiltData, hk]) (.inr (by decide))
  case h_4 hk => exact hpure h (hc.builtin_row (i := 4) rfl) (fun self => by simp only [rebuiltData, hk]) (.inr (by decide))
  all_goals
    next hk => exact hcall h rfl fun self => by simp only [rebuiltData, hk, List.map_map, Function.comp_def]

end

/-! ### The composite definitions -/

/-- Every row behind the first five is of a definition, and every name is one of a definition. -/
structure Composing (names : List Text) (T : TypeIntern) : Prop where
  builtin : Types.builtinTypes <+: T.types
  rows : ∀ d ∈ T.types.drop 5, (∃ i < T.structDefs.length, d = .struct i) ∨
    (∃ i < T.enumDefs.length, d = .enum i) ∨ ∃ i < T.unionDefs.length, d = .union i
  named : ∀ name ∉ names, T.namedTypes.lookup name = none

theorem composing_empty : Composing [] {} := ⟨List.prefix_rfl, by simp, fun _ _ => rfl⟩

theorem intern_new {T : TypeIntern} {data : TypeData} (h : ∀ d ∈ T.types.drop 5, compared d ≠ compared data) :
    T.intern data = ({ T with types := T.types ++ [data] }, T.types.length) := by
  have hnone : (T.types.drop 5).findIdx? (fun old => decide (compared old = compared data)) = none :=
    List.findIdx?_eq_none_iff.mpr fun d hd => decide_eq_false (h d hd)
  unfold TypeIntern.intern
  simp only [hnone]
  cases data <;> rfl

theorem lookup_concat {l : List (Text × ℕ)} {name : Text} {row : ℕ} (h : l.lookup name = none) :
    (l ++ [(name, row)]).lookup name = some row := by
  rw [List.lookup_append, h]
  simp

/-- A definition of a new name has the next row. -/
theorem define_new {s : SessionTypes} {name : Text} {op : TypeIntern.Op} {data : TypeData} {T : TypeIntern}
    (hop : s.types.apply op = T.nameLast name data) (hnone : T.namedTypes.lookup name = none)
    (hnew : ∀ d ∈ T.types.drop 5, compared d ≠ compared data) : (s.define name op).1 = UInt32.ofNat T.types.length ∧
      (s.define name op).2.types =
        { T with types := T.types ++ [data], namedTypes := T.namedTypes ++ [(name, T.types.length)] } := by
  have htypes : s.types.apply op =
      { T with types := T.types ++ [data], namedTypes := T.namedTypes ++ [(name, T.types.length)] } := by
    rw [hop, TypeIntern.nameLast, intern_new hnew]
  simp only [SessionTypes.define, htypes, lookup_concat hnone, Option.getD_some, and_self]

/-- What one definition call adds: the definition, its row and its name. -/
structure Adds (names : List Text) (name : Text) (data : TypeData) (T T' : TypeIntern) (u : TypeId) : Prop where
  row : u = UInt32.ofNat T.types.length
  types : T'.types = T.types ++ [data]
  composing : Composing (names ++ [name]) T'

theorem named_concat {names : List Text} {name : Text} {T : TypeIntern} {row : ℕ}
    (h : ∀ other ∉ names, T.namedTypes.lookup other = none) :
    ∀ other ∉ names ++ [name], (T.namedTypes ++ [(name, row)]).lookup other = none := by
  intro other hother
  rw [List.mem_append, List.mem_singleton, not_or] at hother
  rw [List.lookup_append, h other hother.1]
  simp [hother.2]

theorem mem_drop_concat {l : List TypeData} {a d : TypeData} (hlen : 5 ≤ l.length) (h : d ∈ (l ++ [a]).drop 5) :
    d ∈ l.drop 5 ∨ d = a := by
  rw [List.drop_append_of_le_length hlen] at h
  simpa using h

section
variable {names : List Text} {s : SessionTypes}

theorem defineStruct_adds (h : Composing names s.types) (name : Text) (hname : name ∉ names) :
    Adds names name (.struct s.types.structDefs.length) s.types (s.call (.defineStruct name)).2.types
        (s.call (.defineStruct name)).1 ∧
      (s.call (.defineStruct name)).2.types.structDefs = s.types.structDefs ++ [{ name := name }] ∧
      (s.call (.defineStruct name)).2.types.enumDefs = s.types.enumDefs ∧
      (s.call (.defineStruct name)).2.types.unionDefs = s.types.unionDefs := by
  have hop : s.types.apply (.defineStruct name) = TypeIntern.nameLast
      { s.types with structDefs := s.types.structDefs ++ [{ name := name }] } name (.struct s.types.structDefs.length) := by
    simp only [TypeIntern.apply, h.named name hname]
  obtain ⟨hid, htypes⟩ := define_new hop (h.named name hname) (by
    intro d hd
    rcases h.rows d hd with ⟨i, hi, rfl⟩ | ⟨i, -, rfl⟩ | ⟨i, -, rfl⟩ <;> simp [compared]
    omega)
  refine ⟨⟨hid, congrArg (·.types) htypes, ?_⟩, congrArg (·.structDefs) htypes, congrArg (·.enumDefs) htypes,
    congrArg (·.unionDefs) htypes⟩
  rw [SessionTypes.call, htypes]
  refine ⟨h.builtin.trans (List.prefix_append _ _), fun d hd => ?_, named_concat h.named⟩
  rcases mem_drop_concat h.builtin.length_le hd with hd | rfl
  · exact (h.rows d hd).imp_left fun ⟨i, hi, hdata⟩ => ⟨i, by simp; omega, hdata⟩
  · exact .inl ⟨_, by simp, rfl⟩

theorem defineEnum_adds (h : Composing names s.types) (name : Text) (hname : name ∉ names) (underlying : TypeId) :
    Adds names name (.enum s.types.enumDefs.length) s.types (s.call (.defineEnum name underlying)).2.types
        (s.call (.defineEnum name underlying)).1 ∧
      (s.call (.defineEnum name underlying)).2.types.structDefs = s.types.structDefs ∧
      (s.call (.defineEnum name underlying)).2.types.enumDefs =
        s.types.enumDefs ++ [{ name := name, underlying := underlying.toNat }] ∧
      (s.call (.defineEnum name underlying)).2.types.unionDefs = s.types.unionDefs := by
  have hop : s.types.apply (.defineEnum name underlying.toNat) = TypeIntern.nameLast
      { s.types with enumDefs := s.types.enumDefs ++ [{ name := name, underlying := underlying.toNat }] } name
        (.enum s.types.enumDefs.length) := by
    simp only [TypeIntern.apply, h.named name hname]
  obtain ⟨hid, htypes⟩ := define_new hop (h.named name hname) (by
    intro d hd
    rcases h.rows d hd with ⟨i, -, rfl⟩ | ⟨i, hi, rfl⟩ | ⟨i, -, rfl⟩ <;> simp [compared]
    omega)
  refine ⟨⟨hid, congrArg (·.types) htypes, ?_⟩, congrArg (·.structDefs) htypes, congrArg (·.enumDefs) htypes,
    congrArg (·.unionDefs) htypes⟩
  rw [SessionTypes.call, htypes]
  refine ⟨h.builtin.trans (List.prefix_append _ _), fun d hd => ?_, named_concat h.named⟩
  rcases mem_drop_concat h.builtin.length_le hd with hd | rfl
  · exact (h.rows d hd).imp_right (Or.imp_left fun ⟨i, hi, hdata⟩ => ⟨i, by simp; omega, hdata⟩)
  · exact .inr (.inl ⟨_, by simp, rfl⟩)

theorem defineUnion_adds (h : Composing names s.types) (name : Text) (hname : name ∉ names) (isTagged : Bool) :
    Adds names name (.union s.types.unionDefs.length) s.types (s.call (.defineUnion name isTagged)).2.types
        (s.call (.defineUnion name isTagged)).1 ∧
      (s.call (.defineUnion name isTagged)).2.types.structDefs = s.types.structDefs ∧
      (s.call (.defineUnion name isTagged)).2.types.enumDefs = s.types.enumDefs ∧
      (s.call (.defineUnion name isTagged)).2.types.unionDefs = s.types.unionDefs ++ [{ name := name, isTagged := isTagged }] := by
  have hop : s.types.apply (.defineUnion name isTagged) = TypeIntern.nameLast
      { s.types with unionDefs := s.types.unionDefs ++ [{ name := name, isTagged := isTagged }] } name
        (.union s.types.unionDefs.length) := by
    simp only [TypeIntern.apply, h.named name hname]
  obtain ⟨hid, htypes⟩ := define_new hop (h.named name hname) (by
    intro d hd
    rcases h.rows d hd with ⟨i, -, rfl⟩ | ⟨i, -, rfl⟩ | ⟨i, hi, rfl⟩ <;> simp [compared]
    omega)
  refine ⟨⟨hid, congrArg (·.types) htypes, ?_⟩, congrArg (·.structDefs) htypes, congrArg (·.enumDefs) htypes,
    congrArg (·.unionDefs) htypes⟩
  rw [SessionTypes.call, htypes]
  refine ⟨h.builtin.trans (List.prefix_append _ _), fun d hd => ?_, named_concat h.named⟩
  rcases mem_drop_concat h.builtin.length_le hd with hd | rfl
  · exact (h.rows d hd).imp_right (Or.imp_right fun ⟨i, hi, hdata⟩ => ⟨i, by simp; omega, hdata⟩)
  · exact .inr (.inr ⟨_, by simp, rfl⟩)

end

/-- The rows of that many definitions of each kind. -/
def definitionRows (structs enums unions : ℕ) : List TypeData :=
  Types.builtinTypes ++ ((List.range structs).map .struct ++ ((List.range enums).map .enum ++
    (List.range unions).map .union))

theorem length_definitionRows (structs enums unions : ℕ) :
    (definitionRows structs enums unions).length = 5 + structs + enums + unions := by
  simp only [definitionRows, Types.builtinTypes, List.length_append, List.length_map, List.length_range,
    List.length_cons, List.length_nil]
  omega

/-- The definitions that have been made, and nothing else. -/
structure Laid (ss : List CompactStructDef) (es : List CompactEnumDef) (us : List CompactUnionDef) (T : TypeIntern) :
    Prop where
  composing : Composing (ss.map (·.name) ++ (es.map (·.name) ++ us.map (·.name))) T
  types : T.types = definitionRows ss.length es.length us.length
  structDefs : T.structDefs = ss.map fun d => { name := d.name }
  enumDefs : T.enumDefs = es.map fun d => { name := d.name, underlying := 0 }
  unionDefs : T.unionDefs = us.map fun d => { name := d.name, isTagged := !d.isRaw }

theorem laid_empty : Laid [] [] [] {} := ⟨composing_empty, rfl, rfl, rfl, rfl⟩

section
variable {ss : List CompactStructDef} {es : List CompactEnumDef} {us : List CompactUnionDef} {s : SessionTypes}

theorem Laid.defineStruct (h : Laid ss [] [] s.types) {d : CompactStructDef} (hname : d.name ∉ ss.map (·.name)) :
    Laid (ss ++ [d]) [] [] (s.call (.defineStruct d.name)).2.types ∧
      (s.call (.defineStruct d.name)).1 = UInt32.ofNat (5 + ss.length) := by
  obtain ⟨hadds, hs, he, hu⟩ := defineStruct_adds h.composing d.name (by simpa using hname)
  refine ⟨⟨?_, ?_, ?_, he.trans h.enumDefs, hu.trans h.unionDefs⟩, ?_⟩
  · simpa using hadds.composing
  · rw [hadds.types, h.types, h.structDefs]
    simp [definitionRows, List.range_succ]
  · rw [hs, h.structDefs, List.map_append]
    rfl
  · rw [hadds.row, h.types, length_definitionRows]
    rfl

theorem Laid.defineEnum (h : Laid ss es [] s.types) {d : CompactEnumDef}
    (hname : d.name ∉ ss.map (·.name) ++ es.map (·.name)) :
    Laid ss (es ++ [d]) [] (s.call (.defineEnum d.name kErrorType)).2.types ∧
      (s.call (.defineEnum d.name kErrorType)).1 = UInt32.ofNat (5 + ss.length + es.length) := by
  obtain ⟨hadds, hs, he, hu⟩ := defineEnum_adds h.composing d.name (by simpa using hname) kErrorType
  refine ⟨⟨?_, ?_, hs.trans h.structDefs, ?_, hu.trans h.unionDefs⟩, ?_⟩
  · simpa using hadds.composing
  · rw [hadds.types, h.types, h.enumDefs]
    simp [definitionRows, List.range_succ]
  · rw [he, h.enumDefs, List.map_append]
    rfl
  · rw [hadds.row, h.types, length_definitionRows]
    rfl

theorem Laid.defineUnion (h : Laid ss es us s.types) {d : CompactUnionDef}
    (hname : d.name ∉ ss.map (·.name) ++ (es.map (·.name) ++ us.map (·.name))) :
    Laid ss es (us ++ [d]) (s.call (.defineUnion d.name (!d.isRaw))).2.types ∧
      (s.call (.defineUnion d.name (!d.isRaw))).1 = UInt32.ofNat (5 + ss.length + es.length + us.length) := by
  obtain ⟨hadds, hs, he, hu⟩ := defineUnion_adds h.composing d.name hname (!d.isRaw)
  refine ⟨⟨?_, ?_, hs.trans h.structDefs, he.trans h.enumDefs, ?_⟩, ?_⟩
  · simpa using hadds.composing
  · rw [hadds.types, h.types, h.unionDefs]
    simp [definitionRows, List.range_succ]
  · rw [hu, h.unionDefs, List.map_append]
    rfl
  · rw [hadds.row, h.types, length_definitionRows]

end

/-- The ids of `count` rows from `start` on. -/
def rowIds (start count : ℕ) : List TypeId := (List.range count).map fun i => UInt32.ofNat (start + i)

theorem rowIds_succ (start count : ℕ) : rowIds start (count + 1) = rowIds start count ++ [UInt32.ofNat (start + count)] := by
  simp [rowIds, List.range_succ]

def compositeNames (art : Cache.Artifact) : List Text :=
  art.structDefs.map (·.name) ++ (art.enumDefs.map (·.name) ++ art.unionDefs.map (·.name))

/-- Where the rows of the definitions are, of a session that had no types. -/
structure LaidAt (art : Cache.Artifact) (c : Composites) (T : TypeIntern) : Prop where
  laid : Laid art.structDefs art.enumDefs art.unionDefs T
  structTids : c.structTids = rowIds 5 art.structDefs.length
  enumTids : c.enumTids = rowIds (5 + art.structDefs.length) art.enumDefs.length
  unionTids : c.unionTids = rowIds (5 + art.structDefs.length + art.enumDefs.length) art.unionDefs.length

theorem notMem_of_nodup {before after : List Text} {name : Text} (h : (before ++ name :: after).Nodup) :
    name ∉ before := by
  rw [List.nodup_append] at h
  exact fun hmem => h.2.2 name hmem name (List.mem_cons_self ..) rfl

variable {art : Cache.Artifact} {c : Composites}

theorem defineComposites_lays {s s' : SessionTypes} (hnames : (compositeNames art).Nodup)
    (hs : s.types = {}) (h : defineComposites typeTable art s = some (c, s')) : LaidAt art c s'.types := by
  obtain ⟨structTids, s₁, hstructs, h⟩ := bind_eq_some h
  obtain ⟨enumTids, s₂, henums, h⟩ := bind_eq_some h
  obtain ⟨unionTids, s₃, hunions, h⟩ := bind_eq_some h
  obtain ⟨rfl, rfl⟩ := Prod.mk.inj (Option.some.inj h)
  rw [compositeNames] at hnames
  obtain ⟨hlaid₁, hids₁⟩ := invariant_mapM
    (fun done ids (s : SessionTypes) => Laid done [] [] s.types ∧ ids = rowIds 5 done.length) ⟨hs ▸ laid_empty, rfl⟩ hstructs (by
      rintro done d rest ids s u t hsplit ⟨hlaid, rfl⟩ hrun
      have hname : d.name ∉ done.map (·.name) := by
        rw [hsplit, List.map_append, List.map_cons, List.append_assoc, List.cons_append] at hnames
        exact notMem_of_nodup hnames
      obtain ⟨hlaid', hid⟩ := hlaid.defineStruct hname
      obtain ⟨rfl, rfl⟩ := Prod.mk.inj (Option.some.inj hrun)
      exact ⟨hlaid', by rw [List.length_append, List.length_singleton, rowIds_succ, ← hid]; rfl⟩)
  obtain ⟨hlaid₂, hids₂⟩ := invariant_mapM
    (fun done ids (s : SessionTypes) => Laid art.structDefs done [] s.types ∧
      ids = rowIds (5 + art.structDefs.length) done.length) ⟨hlaid₁, rfl⟩ henums (by
      rintro done d rest ids s u t hsplit ⟨hlaid, rfl⟩ hrun
      have hname : d.name ∉ art.structDefs.map (·.name) ++ done.map (·.name) := by
        rw [hsplit, List.map_append, List.map_cons, List.append_assoc, List.cons_append, ← List.append_assoc] at hnames
        exact notMem_of_nodup hnames
      obtain ⟨hlaid', hid⟩ := hlaid.defineEnum hname
      obtain ⟨rfl, rfl⟩ := Prod.mk.inj (Option.some.inj hrun)
      exact ⟨hlaid', by rw [List.length_append, List.length_singleton, rowIds_succ, ← hid]; rfl⟩)
  obtain ⟨hlaid₃, hids₃⟩ := invariant_mapM
    (fun done ids (s : SessionTypes) => Laid art.structDefs art.enumDefs done s.types ∧
      ids = rowIds (5 + art.structDefs.length + art.enumDefs.length) done.length) ⟨hlaid₂, rfl⟩ hunions (by
      rintro done d rest ids s u t hsplit ⟨hlaid, rfl⟩ hrun
      have hname : d.name ∉ art.structDefs.map (·.name) ++ (art.enumDefs.map (·.name) ++ done.map (·.name)) := by
        rw [hsplit, List.map_append, List.map_cons, ← List.append_assoc, ← List.append_assoc] at hnames
        rw [← List.append_assoc]
        exact notMem_of_nodup hnames
      obtain ⟨hlaid', hid⟩ := hlaid.defineUnion hname
      obtain ⟨rfl, rfl⟩ := Prod.mk.inj (Option.some.inj hrun)
      exact ⟨hlaid', by rw [List.length_append, List.length_singleton, rowIds_succ, ← hid]; rfl⟩)
  exact ⟨hlaid₃, hids₁, hids₂, hids₃⟩

theorem getElem?_rowIds {start count i : ℕ} (h : i < count) :
    (rowIds start count)[i]? = some (UInt32.ofNat (start + i)) := by
  simp [rowIds, h]

@[simp] theorem length_rowIds (start count : ℕ) : (rowIds start count).length = count := by simp [rowIds]

/-- The rows of the definitions, and all rows that the compact types can need, have ids of 32 bits. -/
def Capacity (art : Cache.Artifact) : Prop :=
  5 + art.structDefs.length + art.enumDefs.length + art.unionDefs.length + art.types.length < 2 ^ 32

theorem getElem?_definitionRows (structs enums unions : ℕ) :
    (∀ i < structs, (definitionRows structs enums unions)[5 + i]? = some (.struct i)) ∧
    (∀ i < enums, (definitionRows structs enums unions)[5 + structs + i]? = some (.enum i)) ∧
    ∀ i < unions, (definitionRows structs enums unions)[5 + structs + enums + i]? = some (.union i) := by
  have hfive : ∀ i, (definitionRows structs enums unions)[5 + i]? = ((List.range structs).map TypeData.struct ++
      ((List.range enums).map .enum ++ (List.range unions).map .union))[i]? := fun i =>
    (List.getElem?_append_right (Nat.le_add_right 5 i)).trans (by rw [Types.builtinTypes]; simp)
  refine ⟨fun i hi => ?_, fun i hi => ?_, fun i hi => ?_⟩
  · rw [hfive, List.getElem?_append_left (by simpa using hi)]
    simp [hi]
  · rw [Nat.add_assoc, hfive, List.getElem?_append_right (by simp), List.getElem?_append_left (by simp [hi])]
    simp [hi]
  · rw [Nat.add_assoc, Nat.add_assoc, hfive, List.getElem?_append_right (by simp), List.getElem?_append_right (by simp)]
    simp [hi]

theorem placed_rowIds {start count : ℕ} {tids : List TypeId} {T : TypeIntern} {data : ℕ → TypeData}
    (htids : tids = rowIds start count) (h5 : 5 ≤ start) (hcap : start + count < 2 ^ 32)
    (hrows : ∀ i < count, T.types[start + i]? = some (data i)) : ∀ i, i < count → ∃ u, tids[i]? = some u ∧
      5 ≤ u.toNat ∧ T.types[u.toNat]? = some (data i) := by
  intro i hi
  refine ⟨UInt32.ofNat (start + i), htids ▸ getElem?_rowIds hi, ?_, ?_⟩
  · rw [toNat_row (by omega)]
    omega
  · rw [toNat_row (by omega)]
    exact hrows i hi

theorem LaidAt.placed {T : TypeIntern} (h : LaidAt art c T) (hcap : Capacity art) : Placed art c T := by
  rw [Capacity] at hcap
  obtain ⟨hstructs, henums, hunions⟩ := getElem?_definitionRows art.structDefs.length art.enumDefs.length
    art.unionDefs.length
  rw [← h.laid.types] at hstructs henums hunions
  exact {
    builtin := h.laid.composing.builtin
    structs := placed_rowIds h.structTids (by omega) (by omega) hstructs
    enums := placed_rowIds h.enumTids (by omega) (by omega) henums
    unions := placed_rowIds h.unionTids (by omega) (by omega) hunions
    structCount := by rw [h.structTids, length_rowIds]
    enumCount := by rw [h.enumTids, length_rowIds]
    unionCount := by rw [h.unionTids, length_rowIds] }

theorem Placed.mono {T T' : TypeIntern} (h : Placed art c T) (hle : T.types <+: T'.types) : Placed art c T' where
  builtin := h.builtin.trans hle
  structs i hi := let ⟨u, hu, h5, hrow⟩ := h.structs i hi; ⟨u, hu, h5, getElem?_of_prefix hle hrow⟩
  enums i hi := let ⟨u, hu, h5, hrow⟩ := h.enums i hi; ⟨u, hu, h5, getElem?_of_prefix hle hrow⟩
  unions i hi := let ⟨u, hu, h5, hrow⟩ := h.unions i hi; ⟨u, hu, h5, getElem?_of_prefix hle hrow⟩
  structCount := h.structCount
  enumCount := h.enumCount
  unionCount := h.unionCount

/-! ### The loop over the compact types -/

/-- What has been rebuilt of the compact types `done`, from the table `T₀` on. -/
structure Rebuilt (art : Cache.Artifact) (done : List CompactType) (ids : List TypeId) (T₀ T : TypeIntern) : Prop where
  length : ids.length = done.length
  others : T = { T₀ with types := T.types }
  extends' : T₀.types <+: T.types
  size : T.types.length ≤ T₀.types.length + done.length
  rows : ∀ {i t}, done[i]? = some t → ∃ u, ids[i]? = some u ∧
    HasRow T u.toNat (rebuiltData art (ids.take i) u.toNat t) ∧
    (rebuiltData art (ids.take i) u.toNat t = .error ∨ u ≠ kErrorType)

theorem rebuilt_nil (art : Cache.Artifact) (T : TypeIntern) : Rebuilt art [] [] T T :=
  ⟨rfl, rfl, List.prefix_rfl, Nat.le_refl _, by simp⟩

theorem Rebuilt.concat {done : List CompactType} {ids : List TypeId} {T₀ T T' : TypeIntern}
    (h : Rebuilt art done ids T₀ T) {t : CompactType} {u : TypeId} (hu : RebuildsType art ids t T T' u) :
    Rebuilt art (done ++ [t]) (ids ++ [u]) T₀ T' where
  length := by simp [h.length]
  others := by
    rw [hu.others, h.others]
  extends' := h.extends'.trans hu.extends'
  size := by
    have := h.size
    have := hu.length
    rw [List.length_append, List.length_singleton]
    omega
  rows := by
    intro i t' ht'
    by_cases hi : i < done.length
    · rw [List.getElem?_append_left hi] at ht'
      obtain ⟨v, hv, hrow, hground⟩ := h.rows ht'
      rw [List.take_append_of_le_length (by rw [h.length]; omega)]
      exact ⟨v, by rw [List.getElem?_append_left (by rw [h.length]; exact hi)]; exact hv, hrow.mono hu.extends', hground⟩
    · have hlen := lt_of_getElem? ht'
      rw [List.length_append, List.length_singleton] at hlen
      obtain rfl : i = done.length := by omega
      obtain rfl : t = t' := by simpa using ht'
      refine ⟨u, by rw [← h.length]; simp, ?_⟩
      rw [← h.length, List.take_left']
      · exact ⟨hu.row, hu.ground⟩
      · rfl

theorem hydrateLoop_rebuilds {T₀ : TypeIntern} (hc : Placed art c T₀)
    (hsize : T₀.types.length + art.types.length < 2 ^ 32) : ∀ {l done : List CompactType} {ids ids' : List TypeId}
      {s s' : SessionTypes}, done ++ l = art.types → Rebuilt art done ids T₀ s.types →
      l.foldlM (m := StateT SessionTypes Option)
        (fun ids t => do return ids ++ [← hydrateType typeTable art c ids t]) ids s = some (ids', s') →
      Rebuilt art art.types ids' T₀ s'.types := by
  intro l
  induction l with
  | nil =>
    intro done ids ids' s s' hdone h hrun
    obtain ⟨rfl, rfl⟩ := Prod.mk.inj (Option.some.inj hrun)
    rwa [← hdone, List.append_nil]
  | cons t l ih =>
    intro done ids ids' s s' hdone h hrun
    rw [List.foldlM_cons] at hrun
    obtain ⟨ids₁, s₁, hone, hrun⟩ := bind_eq_some hrun
    obtain ⟨u, s₂, hu, hpure⟩ := bind_eq_some hone
    obtain ⟨rfl, rfl⟩ := Prod.mk.inj (Option.some.inj hpure)
    have hlen : done.length + 1 ≤ art.types.length := by
      rw [← hdone]
      simp
    refine ih (by simpa using hdone) (h.concat (hydrateType_rebuilds (hc.mono h.extends') ?_ hu)) hrun
    have := h.size
    omega

/-! ### The definitions are filled -/

/-- The names of the definitions of each kind. -/
def definitionNames (T : TypeIntern) : List Text × List Text × List Text :=
  (T.structDefs.map (·.name), T.enumDefs.map (·.name), T.unionDefs.map (·.name))

/-- The rows and the names stay as they are. -/
def SameRows (T T' : TypeIntern) : Prop := T'.types = T.types ∧ definitionNames T' = definitionNames T

def sameRows : Foretold SessionTypes where
  grows s t := SameRows s.types t.types
  below _ := True
  inv _ := True
  refl _ := ⟨rfl, rfl⟩
  trans h h' := ⟨h'.1.trans h.1, h'.2.trans h.2⟩
  back _ := id

theorem map_modify {α β : Type} {f : α → β} {change : α → α} (h : ∀ a, f (change a) = f a) (l : List α) (i : ℕ) :
    (l.modify i change).map f = l.map f := by
  refine List.ext_getElem (by simp) fun j h₁ h₂ => ?_
  rw [List.getElem_map, List.getElem_map, List.getElem_modify]
  split
  · exact h _
  · rfl

theorem onStruct_sameRows (T : TypeIntern) (type : ℕ) {change : Types.StructDef → Types.StructDef}
    (h : ∀ d, (change d).name = d.name) : SameRows T (T.onStruct type change) := by
  rw [TypeIntern.onStruct]
  split
  · exact ⟨rfl, by rw [definitionNames, map_modify h]; rfl⟩
  · exact ⟨rfl, rfl⟩

theorem onEnum_sameRows (T : TypeIntern) (type : ℕ) {change : Types.EnumDef → Types.EnumDef}
    (h : ∀ d, (change d).name = d.name) : SameRows T (T.onEnum type change) := by
  rw [TypeIntern.onEnum]
  split
  · exact ⟨rfl, by rw [definitionNames, map_modify h]; rfl⟩
  · exact ⟨rfl, rfl⟩

theorem onUnion_sameRows (T : TypeIntern) (type : ℕ) {change : Types.UnionDef → Types.UnionDef}
    (h : ∀ d, (change d).name = d.name) : SameRows T (T.onUnion type change) := by
  rw [TypeIntern.onUnion]
  split
  · exact ⟨rfl, by rw [definitionNames, map_modify h]; rfl⟩
  · exact ⟨rfl, rfl⟩

theorem onRest_types (s : SessionTypes) (type : TypeId) (change : Cache.StructRest → Cache.StructRest) :
    (s.onRest type change).types = s.types := by
  rw [SessionTypes.onRest]
  split <;> rfl

/-- The calls that fill a definition. -/
def fills : TypeCall → Bool
  | .setExplicitAlignment .. | .setForeignLayout .. | .setTypeArgs .. | .addField .. | .setEnumUnderlying ..
  | .addEnumVariant .. | .addUnionMember .. => true
  | _ => false

theorem call_sameRows (s : SessionTypes) {call : TypeCall} (h : fills call = true) :
    SameRows s.types (s.call call).2.types := by
  cases call with
  | setExplicitAlignment type bytes => exact onStruct_sameRows _ _ fun _ => rfl
  | setForeignLayout type sizeBytes alignBytes singleI64Abi =>
    simp only [SessionTypes.call, onRest_types]
    exact onStruct_sameRows _ _ fun _ => rfl
  | setTypeArgs type args =>
    rw [SessionTypes.call]
    split
    · exact ⟨rfl, rfl⟩
    · dsimp only
      rw [onRest_types]
      exact ⟨rfl, rfl⟩
  | addField type name fieldType foreignOffset =>
    simp only [SessionTypes.call, onRest_types]
    exact onStruct_sameRows _ _ fun _ => rfl
  | setEnumUnderlying type underlying => exact onEnum_sameRows _ _ fun _ => rfl
  | addEnumVariant type name discriminant => exact onEnum_sameRows _ _ fun _ => rfl
  | addUnionMember type member => exact onUnion_sameRows _ _ fun _ => rfl
  | _ => simp [fills] at h

theorem tell_sameRows {call : TypeCall} (h : fills call = true) : sameRows.Makes (tell typeTable call) fun _ => True := by
  intro s a t hrun
  obtain ⟨u, s₁, hcall, hpure⟩ := bind_eq_some hrun
  obtain ⟨rfl, rfl⟩ := Prod.mk.inj (Option.some.inj hpure)
  obtain ⟨rfl, rfl⟩ := Prod.mk.inj (Option.some.inj hcall)
  exact ⟨call_sameRows s h, fun _ _ => ⟨trivial, trivial⟩⟩

theorem tellIf_sameRows {b : Bool} {call : TypeCall} (h : fills call = true) :
    sameRows.Makes (tellIf typeTable b call) fun _ => True := by
  rw [tellIf]
  split
  · exact tell_sameRows h
  · exact .pure trivial

theorem ofOption_sameRows {α : Type} (o : Option α) : sameRows.Makes (ofOption o) fun _ => True :=
  .ofOption fun _ _ => trivial

section
variable (art : Cache.Artifact) (c : Composites) (ids : List TypeId)

theorem hydrateStructDef_sameRows (d : CompactStructDef × ℕ) :
    sameRows.Makes (hydrateStructDef typeTable art c ids d) fun _ => True := by
  refine (ofOption_sameRows _).bind fun _ => (tellIf_sameRows rfl).bind fun _ => (tellIf_sameRows rfl).bind fun _ =>
    (tellIf_sameRows rfl).bind fun _ => (Foretold.Makes.forM fun field _ => ?_).mono fun _ _ _ _ _ _ => trivial
  exact (ofOption_sameRows _).bind fun _ => (tell_sameRows rfl).mono fun _ _ _ => trivial

theorem hydrateEnumDef_sameRows (d : CompactEnumDef × ℕ) :
    sameRows.Makes (hydrateEnumDef typeTable c ids d) fun _ => True :=
  (ofOption_sameRows _).bind fun _ => (tellIf_sameRows rfl).bind fun _ =>
    (Foretold.Makes.forM fun _ _ => tell_sameRows rfl).mono fun _ _ _ _ => trivial

theorem hydrateUnionDef_sameRows (d : CompactUnionDef × ℕ) :
    sameRows.Makes (hydrateUnionDef typeTable c ids d) fun _ => True :=
  (ofOption_sameRows _).bind fun _ => (Foretold.Makes.forM fun _ _ => tell_sameRows rfl).mono fun _ _ _ => trivial

end

/-! ### The whole pass -/

/-- What the compact types of an artifact are in a session that had no types: each has a row, which is as
    `rebuiltData` says, and is no error type unless that says so. -/
structure TypesRebuilt (art : Cache.Artifact) (ids : List TypeId) (T : TypeIntern) : Prop where
  length : ids.length = art.types.length
  builtin : Types.builtinTypes <+: T.types
  size : T.types.length < 2 ^ 32
  names : definitionNames T = (art.structDefs.map (·.name), art.enumDefs.map (·.name), art.unionDefs.map (·.name))
  rows : ∀ {i t}, art.types[i]? = some t → ∃ u, ids[i]? = some u ∧
    HasRow T u.toNat (rebuiltData art (ids.take i) u.toNat t) ∧
    (rebuiltData art (ids.take i) u.toNat t = .error ∨ u ≠ kErrorType)

/-- The calls before the definitions leave the types alone. -/
theorem tags_forM : ∀ {l : List Cache.CompactCanonicalMapping} {s t : SessionTypes},
    (l.forM fun m => tell typeTable (.setCanonicalTag ⟨m.hi, m.lo⟩ m.runtimeId)) s = some (⟨⟩, t) →
      t.types = s.types := by
  intro l
  induction l with
  | nil =>
    intro s t h
    rw [(Prod.mk.inj (Option.some.inj h)).2]
  | cons m l ih =>
    intro s t h
    obtain ⟨_, s₁, hone, h⟩ := bind_eq_some h
    obtain ⟨_, s₂, hcall, hpure⟩ := bind_eq_some hone
    obtain ⟨rfl, rfl⟩ := Prod.mk.inj (Option.some.inj hpure)
    obtain ⟨rfl, rfl⟩ := Prod.mk.inj (Option.some.inj hcall)
    exact (ih h).trans rfl

theorem hydrateTypes_rebuilds {art : Cache.Artifact} {ids : List TypeId} {s s' : SessionTypes}
    (hnames : (compositeNames art).Nodup) (hcap : Capacity art) (hs : s.types = {})
    (h : hydrateTypes typeTable art s = some (ids, s')) : TypesRebuilt art ids s'.types := by
  obtain ⟨_, s₁, hmodule, h⟩ := bind_eq_some h
  obtain ⟨_, s₂, hmod, hpure⟩ := bind_eq_some hmodule
  obtain ⟨rfl, rfl⟩ := Prod.mk.inj (Option.some.inj hpure)
  obtain ⟨rfl, rfl⟩ := Prod.mk.inj (Option.some.inj hmod)
  obtain ⟨_, s₃, htags, h⟩ := bind_eq_some h
  obtain ⟨c, s₄, hcomposites, h⟩ := bind_eq_some h
  obtain ⟨ids', s₅, hloop, h⟩ := bind_eq_some h
  obtain ⟨_, s₆, hstructs, h⟩ := bind_eq_some h
  obtain ⟨_, s₇, henums, h⟩ := bind_eq_some h
  obtain ⟨_, s₈, hunions, h⟩ := bind_eq_some h
  obtain ⟨rfl, rfl⟩ := Prod.mk.inj (Option.some.inj h)
  have hlaid := defineComposites_lays hnames ((tags_forM htags).trans hs) hcomposites
  have hlen : s₄.types.types.length = 5 + art.structDefs.length + art.enumDefs.length + art.unionDefs.length := by
    rw [hlaid.laid.types, length_definitionRows]
  have hrebuilt := hydrateLoop_rebuilds (hlaid.placed hcap) (by rw [hlen]; exact hcap) (List.nil_append art.types)
    (rebuilt_nil art s₄.types) hloop
  obtain ⟨hsame, hnames'⟩ : SameRows s₅.types s₈.types := sameRows.trans
    ((Foretold.Makes.forM fun d _ => hydrateStructDef_sameRows art c ids' d) _ _ _ hstructs).1
    (sameRows.trans ((Foretold.Makes.forM fun d _ => hydrateEnumDef_sameRows c ids' d) _ _ _ henums).1
      ((Foretold.Makes.forM fun d _ => hydrateUnionDef_sameRows c ids' d) _ _ _ hunions).1)
  refine ⟨hrebuilt.length, ?_, ?_, ?_, fun ht => ?_⟩
  · rw [hsame]
    exact hlaid.laid.composing.builtin.trans hrebuilt.extends'
  · rw [hsame]
    have := hrebuilt.size
    rw [Capacity] at hcap
    omega
  · rw [hnames', hrebuilt.others]
    simp [definitionNames, hlaid.laid.structDefs, hlaid.laid.enumDefs, hlaid.laid.unionDefs]
  · obtain ⟨u, hu, hrow, hground⟩ := hrebuilt.rows ht
    exact ⟨u, hu, hrow.mono (by rw [hsame]), hground⟩

end Zith.Session
