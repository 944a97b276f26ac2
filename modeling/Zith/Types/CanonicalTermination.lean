import Zith.Lib.BoundedRecursion
import Zith.Lib.Succeeds
import Zith.Types.TypeIntern

/-! When `canonicalTypeId` returns. Nothing remembers which types are being described, so a definition that
    leads back to itself, through a pointer as well, has no description. The field order of a struct
    needs the sizes of its fields besides, and these look up an enum in the wrong table. -/

namespace Zith.Types
open Lib (BoundedRecursion isSome_mapM_iff)

/-! ### More depth changes nothing -/

/-- `g` answers at least where `f` does, and the same. -/
def Extends (f g : ℕ → Option UInt32) : Prop := ∀ ⦃type value⦄, f type = some value → g type = some value

theorem foldlM_greatest {f g : ℕ → Option UInt32} (h : Extends f g) : ∀ {types : List ℕ} {start value},
    TypeIntern.greatest f start types = some value → TypeIntern.greatest g start types = some value
  | [], _, _, hv => hv
  | type :: types, start, value, hv => by
    simp only [TypeIntern.greatest, List.foldlM_cons, bind, Option.bind_eq_some_iff, pure, Option.some.injEq] at hv ⊢
    obtain ⟨m, ⟨v, hf, rfl⟩, hrest⟩ := hv
    exact ⟨_, ⟨v, h hf, rfl⟩, foldlM_greatest h hrest⟩

theorem fieldsEnd_extends {align align' size size' : ℕ → Option UInt32} (ha : Extends align align')
    (hs : Extends size size') : ∀ {fields : List StructField} {offset : UInt32} {value},
      TypeIntern.fieldsEnd align size fields offset = some value →
        TypeIntern.fieldsEnd align' size' fields offset = some value
  | [], _, _, h => h
  | field :: fields, offset, value, h => by
    simp only [TypeIntern.fieldsEnd, bind, Option.bind_eq_some_iff] at h ⊢
    obtain ⟨alignment, halign, h⟩ := h
    refine ⟨alignment, ha halign, ?_⟩
    split at h
    · rename_i hzero
      rw [if_pos hzero]
      exact fieldsEnd_extends ha hs h
    · rename_i hzero
      rw [if_neg hzero]
      simp only [Option.bind_eq_some_iff] at h ⊢
      obtain ⟨fieldSize, hsize, h⟩ := h
      refine ⟨fieldSize, hs hsize, ?_⟩
      split at h
      · rename_i hempty
        rwa [if_pos hempty]
      · rename_i hempty
        rw [if_neg hempty]
        split at h
        · rename_i hover
          rwa [if_pos hover]
        · rename_i hover
          rw [if_neg hover]
          exact fieldsEnd_extends ha hs h

namespace TypeIntern
variable {T : TypeIntern}

theorem typeAlignBytes_succ : ∀ depth : ℕ, Extends (T.typeAlignBytes depth) (T.typeAlignBytes (depth + 1))
  | 0, _, _, h => by cases h
  | depth + 1, type, value, h => by
    have ih := typeAlignBytes_succ depth
    rw [typeAlignBytes] at h ⊢
    cases hrow : T.lookup type with
    | none => rwa [hrow] at h
    | some data =>
      rw [hrow] at h
      cases data with
      | optional inner =>
        simp only at h ⊢
        split at h
        · rename_i hptr
          rwa [if_pos hptr]
        · rename_i hptr
          rw [if_neg hptr]
          exact ih h
      | array elem _ => exact ih h
      | qualified inner _ _ => exact ih h
      | «alias» target => exact ih h
      | nominal _ target => exact ih h
      | enum defId =>
        simp only [bind, Option.bind_eq_some_iff] at h ⊢
        obtain ⟨d, hd, h⟩ := h
        exact ⟨d, hd, ih h⟩
      | union defId =>
        simp only at h ⊢
        split at h
        · exact h
        · exact foldlM_greatest ih h
      | struct defId =>
        simp only [bind, Option.bind_eq_some_iff] at h ⊢
        obtain ⟨d, hd, h⟩ := h
        refine ⟨d, hd, ?_⟩
        split at h
        · rename_i hforeign
          rwa [if_pos hforeign]
        · rename_i hforeign
          rw [if_neg hforeign]
          exact foldlM_greatest ih h
      | _ => exact h

theorem typeByteCount_succ : ∀ depth : ℕ, Extends (T.typeByteCount depth) (T.typeByteCount (depth + 1))
  | 0, _, _, h => by cases h
  | depth + 1, type, value, h => by
    have ih := typeByteCount_succ depth
    have halign : Extends (T.typeAlignBytes depth) _ := typeAlignBytes_succ depth
    rw [typeByteCount] at h ⊢
    cases hrow : T.lookup type with
    | none => rwa [hrow] at h
    | some data =>
      rw [hrow] at h
      cases data with
      | optional inner =>
        simp only at h ⊢
        split at h
        · rename_i hptr
          rwa [if_pos hptr]
        · rename_i hptr
          rw [if_neg hptr]
          simp only [bind, Option.bind_eq_some_iff] at h ⊢
          obtain ⟨s, hs, a, ha, h⟩ := h
          exact ⟨s, ih hs, a, halign ha, h⟩
      | array elem _ =>
        simp only [bind, Option.bind_eq_some_iff] at h ⊢
        obtain ⟨s, hs, a, ha, h⟩ := h
        exact ⟨s, ih hs, a, halign ha, h⟩
      | qualified inner _ _ => exact ih h
      | «alias» target => exact ih h
      | nominal _ target => exact ih h
      | enum defId =>
        simp only [bind, Option.bind_eq_some_iff] at h ⊢
        obtain ⟨d, hd, h⟩ := h
        exact ⟨d, hd, ih h⟩
      | union defId =>
        simp only at h ⊢
        split at h
        · exact h
        · simp only [bind, Option.bind_eq_some_iff] at h ⊢
          obtain ⟨a, ha, s, hs, h⟩ := h
          exact ⟨a, foldlM_greatest halign ha, s, foldlM_greatest ih hs, h⟩
      | struct defId =>
        simp only [bind, Option.bind_eq_some_iff] at h ⊢
        obtain ⟨d, hd, h⟩ := h
        refine ⟨d, hd, ?_⟩
        split at h
        · rename_i hforeign
          rwa [if_pos hforeign]
        · rename_i hforeign
          rw [if_neg hforeign]
          simp only [Option.bind_eq_some_iff] at h ⊢
          obtain ⟨last, hlast, h⟩ := h
          refine ⟨last, fieldsEnd_extends halign ih hlast, ?_⟩
          cases last with
          | none => exact h
          | some offset =>
            simp only [Option.bind_eq_some_iff] at h ⊢
            obtain ⟨a, ha, h⟩ := h
            exact ⟨a, typeAlignBytes_succ _ ha, h⟩
      | _ => exact h

/-! ### The recursion -/

/-- The types `appendType` goes on with. -/
def components (T : TypeIntern) (type : ℕ) : List ℕ :=
  match T.lookup type with
  | some (.ptr pointee _ _) => [pointee]
  | some (.array elem _) => [elem]
  | some (.struct defId) =>
    match T.structDefs[defId]? with
    | some d => d.fields.map (·.type)
    | none => []
  | some (.fn params ret) => ret :: params
  | some (.optional inner) => [inner]
  | some (.failable inner) => [inner]
  | some (.alias target) => [target]
  | some (.nominal _ target) => [target]
  | some (.dyn target _) => [target]
  | some (.qualified inner _ _) => [inner]
  | some (.slice elem) => [elem]
  | some (.enum defId) =>
    match T.enumDefs[defId]? with
    | some d => [d.underlying]
    | none => []
  | some (.union defId) => (T.getUnionDef defId).members
  | some (.pack members _) => members
  | some (.sum members) => members
  | some (.incomplete base args) => base :: args
  | _ => []

/-- There is a row for the type and for its definition. -/
def Defined (T : TypeIntern) (type : ℕ) : Prop :=
  match T.lookup type with
  | none => False
  | some (.struct defId) => defId < T.structDefs.length
  | some (.enum defId) => defId < T.enumDefs.length
  | some _ => True

/-- The fields whose sizes are compared: those of a struct with at least two. -/
def comparedFields (T : TypeIntern) (type : ℕ) : List StructField :=
  match T.lookup type with
  | some (.struct defId) =>
    match T.structDefs[defId]? with
    | some d => if d.fields.length < 2 then [] else d.fields
    | none => []
  | _ => []

/-- The recursion of `appendType`. -/
def recursion (T : TypeIntern) : BoundedRecursion ℕ where
  calls := T.components
  ready depth type := T.Defined type ∧ ∀ field ∈ T.comparedFields type, (T.typeByteCount depth field.type).isSome
  ready_succ h := ⟨h.1, fun field hfield => by
    obtain ⟨bytes, hbytes⟩ := Option.isSome_iff_exists.mp (h.2 field hfield)
    exact Option.isSome_iff_exists.mpr ⟨bytes, typeByteCount_succ _ hbytes⟩⟩

theorem mapM_eq_some_iff {α β : Type} {f : α → Option β} : ∀ {xs : List α} {ys : List β},
    xs.mapM f = some ys ↔ List.Forall₂ (fun x y => f x = some y) xs ys
  | [], ys => by
    rw [List.mapM_nil]
    cases ys <;> simp
  | x :: xs, ys => by
    rw [List.mapM_cons]
    simp only [bind, Option.bind_eq_some_iff, pure, Option.some.injEq, mapM_eq_some_iff]
    constructor
    · rintro ⟨y, hy, ys, hys, rfl⟩
      exact .cons hy hys
    · rintro (_ | ⟨hy, hys⟩)
      exact ⟨_, hy, _, hys, rfl⟩

theorem isSome_appendAll {append : ℕ → Option (List UInt8)} {types : List ℕ} :
    (appendAll append types).isSome ↔ ∀ type ∈ types, (append type).isSome := by
  rw [appendAll, ← isSome_mapM_iff]
  simp only [bind, Option.bind, pure]
  cases types.mapM append <;> simp

theorem isSome_canonicalFieldOrder {depth : ℕ} {fields : List StructField} :
    (T.canonicalFieldOrder depth fields).isSome ↔
      (2 ≤ fields.length → ∀ field ∈ fields, (T.typeByteCount depth field.type).isSome) := by
  rw [canonicalFieldOrder]
  split
  · rename_i hlt
    exact ⟨fun _ hle => absurd hlt (by omega), fun _ => rfl⟩
  · rename_i hlt
    rw [← isSome_mapM_iff]
    simp only [bind, Option.bind, pure, show 2 ≤ fields.length by omega, true_imp_iff]
    cases fields.mapM fun field => T.typeByteCount depth field.type <;> simp

/-- The fields are put in order, none is lost. -/
theorem perm_canonicalFieldOrder {depth : ℕ} {fields ordered : List StructField}
    (h : T.canonicalFieldOrder depth fields = some ordered) : ordered.Perm fields := by
  rw [canonicalFieldOrder] at h
  split at h
  · cases h
    exact List.Perm.refl _
  · simp only [bind, Option.bind_eq_some_iff, pure, Option.some.injEq] at h
    obtain ⟨sizes, hsizes, rfl⟩ := h
    have hlen := (mapM_eq_some_iff.mp hsizes).length_eq
    refine ((List.mergeSort_perm _ _).map _).trans ?_
    rw [List.map_fst_zip (Nat.le_of_eq hlen)]

variable {type : ℕ}

theorem defined_iff {data : TypeData} (hrow : T.lookup type = some data) :
    T.Defined type ↔ (∀ defId, data = .struct defId → defId < T.structDefs.length) ∧
      ∀ defId, data = .enum defId → defId < T.enumDefs.length := by
  rw [Defined, hrow]
  cases data <;> simp

theorem any_const {α : Type} (x : Option α) (b : Bool) : (x.any fun _ => b) = (x.isSome && b) := by
  cases x <;> rfl

theorem isSome_comparedSizes {depth : ℕ} {fields : List StructField} :
    (∀ field ∈ if fields.length < 2 then [] else fields, (T.typeByteCount depth field.type).isSome) ↔
      (T.canonicalFieldOrder depth fields).isSome := by
  rw [isSome_canonicalFieldOrder]
  split
  · rename_i hshort
    simp only [List.not_mem_nil, false_imp_iff, implies_true, true_iff]
    exact fun hle => absurd hle (by omega)
  · rename_i hlong
    exact ⟨fun h _ => h, fun h => h (by omega)⟩

/-- A description is complete at a depth exactly when the recursion returns at it. -/
theorem isSome_appendType (resolveNamespace : Text → Text) : ∀ (depth type : ℕ),
    (T.appendType resolveNamespace depth type).isSome ↔ T.recursion.Returns depth type
  | 0, _ => by simp [appendType, BoundedRecursion.Returns]
  | depth + 1, type => by
    have ih := isSome_appendType resolveNamespace depth
    rw [appendType, BoundedRecursion.Returns]
    cases hrow : T.lookup type with
    | none => simp [recursion, Defined, hrow]
    | some data =>
      have hdefined := defined_iff hrow
      have hcalls : T.recursion.calls type = T.components type := rfl
      have hready : T.recursion.ready depth type ↔ T.Defined type ∧
        ∀ field ∈ T.comparedFields type, (T.typeByteCount depth field.type).isSome := Iff.rfl
      rw [hready, hdefined, hcalls, components, hrow]
      cases data with
      | struct defId =>
        rw [comparedFields, hrow]
        simp only [bind, Option.bind_some, TypeData.struct.injEq, forall_eq', reduceCtorEq,
          false_imp_iff, implies_true, and_true]
        cases hd : T.structDefs[defId]? with
        | none =>
          have hle := List.getElem?_eq_none_iff.mp hd
          simp only [Option.bind_none, Option.isSome_none, Bool.false_eq_true, false_iff]
          exact fun h => absurd h.1.1 (by omega)
        | some d =>
          obtain ⟨hlt, -⟩ := List.getElem?_eq_some_iff.mp hd
          simp only [Option.bind_some, hlt, true_and, List.forall_mem_map]
          rw [isSome_comparedSizes]
          cases hordered : T.canonicalFieldOrder depth d.fields with
          | none => simp
          | some ordered =>
            have hfields : ∀ field : StructField, field ∈ ordered ↔ field ∈ d.fields :=
              fun field => (perm_canonicalFieldOrder hordered).mem_iff
            simp [Option.isSome_bind, pure, isSome_mapM_iff, hfields, ih]
      | enum defId =>
        cases hd : T.enumDefs[defId]? with
        | none =>
          have hle := List.getElem?_eq_none_iff.mp hd
          simp [bind, hle]
        | some d =>
          obtain ⟨hlt, -⟩ := List.getElem?_eq_some_iff.mp hd
          simp [comparedFields, hrow, ← ih, bind, Option.isSome_bind, pure, hlt]
      | _ => simp [comparedFields, hrow, ← ih, isSome_appendAll, bind, Option.isSome_bind, pure, any_const]

/-! ### When the id exists -/

/-- `type` is described with the help of `component`. -/
def Refers (T : TypeIntern) (type component : ℕ) : Prop := component ∈ T.components type

/-- Nothing the type refers to, directly or not, lacks a row or refers back to itself, and where sizes of
    fields are compared they can be computed. -/
structure Describable (T : TypeIntern) (type : ℕ) : Prop where
  defined : ∀ u, Relation.ReflTransGen T.Refers type u → T.Defined u
  acyclic : ∀ u, Relation.ReflTransGen T.Refers type u → ¬Relation.TransGen T.Refers u u
  sized : ∀ u, Relation.ReflTransGen T.Refers type u → ∀ field ∈ T.comparedFields u,
    ∃ depth, (T.typeByteCount depth field.type).isSome

theorem Defined.lt (h : T.Defined type) : type < T.types.length := by
  by_contra hge
  have hnone : T.lookup type = none := List.getElem?_eq_none_iff.mpr (by omega)
  rw [Defined, hnone] at h
  exact h

theorem typeByteCount_mono {type m n : ℕ} (hle : m ≤ n) (h : (T.typeByteCount m type).isSome) :
    (T.typeByteCount n type).isSome := by
  induction hle with
  | refl => exact h
  | step _ ih =>
    obtain ⟨bytes, hbytes⟩ := Option.isSome_iff_exists.mp ih
    exact Option.isSome_iff_exists.mpr ⟨bytes, typeByteCount_succ _ hbytes⟩

theorem exists_returns_iff : (∃ depth, T.recursion.Returns depth type) ↔ T.Describable type := by
  have hnodes : ∀ {depth u}, T.recursion.ready depth u → u ∈ List.range T.types.length :=
    fun h => List.mem_range.mpr (Defined.lt h.1)
  rw [BoundedRecursion.returns_iff hnodes]
  constructor
  · intro h
    refine ⟨fun u hu => ?_, fun u hu => (h u hu).2, fun u hu field hfield => ?_⟩
    · obtain ⟨depth, hready⟩ := (h u hu).1
      exact hready.1
    · obtain ⟨depth, hready⟩ := (h u hu).1
      exact ⟨depth, hready.2 field hfield⟩
  · intro h u hu
    obtain ⟨depth, hdepth⟩ := BoundedRecursion.exists_common
      (fun depth (field : StructField) => (T.typeByteCount depth field.type).isSome = true)
      (fun hle => typeByteCount_mono hle) (h.sized u hu)
    exact ⟨⟨depth, h.defined u hu, hdepth⟩, h.acyclic u hu⟩

theorem isSome_canonicalTypeId (resolveNamespace : Text → Text) (depth type : ℕ) :
    (T.canonicalTypeId resolveNamespace depth type).isSome ↔ T.recursion.Returns depth type := by
  rw [← isSome_appendType resolveNamespace]
  simp [canonicalTypeId, canonicalBytes, bind, Option.isSome_bind, pure]

/-! ### Compared fields -/

theorem comparedFields_subset {field : StructField} (h : field ∈ T.comparedFields type) :
    field.type ∈ T.components type := by
  simp only [comparedFields] at h
  split at h
  · rename_i defId hrow
    simp only [components, hrow]
    split at h
    · rename_i d hd
      split at h
      · exact absurd h List.not_mem_nil
      · exact List.mem_map_of_mem h
    · exact absurd h List.not_mem_nil
  · exact absurd h List.not_mem_nil

end TypeIntern

/-- The canonical id of a type exists exactly when the type is describable. -/
theorem canonicalTypeId_returns_iff (T : TypeIntern) (resolveNamespace : Text → Text) (type : ℕ) :
    (∃ depth id, T.canonicalTypeId resolveNamespace depth type = some id) ↔ T.Describable type := by
  rw [← TypeIntern.exists_returns_iff]
  refine exists_congr fun depth => ?_
  rw [← TypeIntern.isSome_canonicalTypeId resolveNamespace, Option.isSome_iff_exists]

/-- `struct Node { next: *Node }`. -/
def linkedNode : TypeIntern := .build [.defineStruct [0x4e], .intern (.ptr 5 true .default), .addField 5 [0x6e] 6]

theorem canonicalTypeId_linkedNode : ¬∃ depth id, linkedNode.canonicalTypeId (fun key => key) depth 5 = some id := by
  rintro ⟨depth, id, h⟩
  have hreturns := (TypeIntern.isSome_canonicalTypeId _ depth 5).mp (Option.isSome_iff_exists.mpr ⟨id, h⟩)
  refine BoundedRecursion.not_cyclic hreturns (.tail (.single (b := 6) ?_) ?_)
  · exact List.mem_singleton.mpr rfl
  · exact List.mem_singleton.mpr rfl

end Zith.Types
