import Zith.Session.SameTypes

/-! What every sequence of calls keeps of the type table of a module: rows refer to earlier rows, and no two
    definitions have one name. -/

namespace Zith.Session
open Zith.Lib Zith.Hir
open Types (TypeIntern TypeData)
open Zith.Cache (Earlier dependencies)

/-- The names of the definitions of a module. -/
def moduleNames (T : TypeIntern) : List Text :=
  T.structDefs.map (·.name) ++ (T.enumDefs.map (·.name) ++ T.unionDefs.map (·.name))

/-- A call refers to rows that are there, or to no type. -/
def Refers (T : TypeIntern) : TypeIntern.Op → Prop
  | .intern data => ∀ c ∈ dependencies data, c < T.types.length ∨ c = kInvalidType.toNat
  | _ => True

/-- Every name of a definition has a type, and none has two. -/
structure ModuleTypes (T : TypeIntern) : Prop where
  dependency : ∀ {id data}, T.lookup id = some data → ∀ c ∈ dependencies data, c < id ∨ c = kInvalidType.toNat
  nodup : (moduleNames T).Nodup
  named : ∀ name ∈ moduleNames T, T.namedTypes.lookup name ≠ none

theorem moduleTypes_empty : ModuleTypes {} := by
  refine ⟨fun {id data} h c hc => ?_, List.nodup_nil, by simp [moduleNames]⟩
  have hmem : data ∈ Types.builtinTypes := List.mem_of_getElem? h
  have hnone : ∀ d ∈ Types.builtinTypes, dependencies d = [] := by decide
  simp [hnone data hmem] at hc

section
variable {T T' : TypeIntern}

theorem ModuleTypes.earlier (h : ModuleTypes T) (hsize : T.types.length ≤ kInvalidType.toNat) : Earlier T :=
  ⟨hsize, h.dependency⟩

/-- A call that only fills a definition. -/
theorem ModuleTypes.filled (h : ModuleTypes T) (hrows : SameRows T T') (hnamed : T'.namedTypes = T.namedTypes) :
    ModuleTypes T' := by
  have hnames : moduleNames T' = moduleNames T := by
    have := hrows.2
    simp only [definitionNames, Prod.mk.injEq] at this
    obtain ⟨hs, he, hu⟩ := this
    rw [moduleNames, moduleNames, hs, he, hu]
  refine ⟨fun {id data} hrow => h.dependency (hrows.1 ▸ hrow : T.types[id]? = some data), hnames ▸ h.nodup, ?_⟩
  rw [hnames, hnamed]
  exact h.named

theorem types_intern (T : TypeIntern) (data : TypeData) :
    (T.intern data).1.types = T.types ∨ (T.intern data).1.types = T.types ++ [data] := by
  unfold TypeIntern.intern
  dsimp only
  split
  · exact .inr rfl
  · exact .inr rfl
  · exact .inl rfl

/-- A row more, whose components were there. -/
theorem dependency_concat {data : TypeData}
    (h : ∀ {id row}, T.lookup id = some row → ∀ c ∈ dependencies row, c < id ∨ c = kInvalidType.toNat)
    (hdata : ∀ c ∈ dependencies data, c < T.types.length ∨ c = kInvalidType.toNat) {id : ℕ} {row : TypeData}
    (hrow : (T.types ++ [data])[id]? = some row) : ∀ c ∈ dependencies row, c < id ∨ c = kInvalidType.toNat := by
  rcases lt_trichotomy id T.types.length with hlt | rfl | hgt
  · rw [List.getElem?_append_left hlt] at hrow
    exact h hrow
  · obtain rfl : data = row := by simpa using hrow
    exact hdata
  · rw [List.getElem?_eq_none (by rw [List.length_append, List.length_singleton]; omega)] at hrow
    exact nomatch hrow

theorem ModuleTypes.interned (h : ModuleTypes T) {data : TypeData}
    (hdata : ∀ c ∈ dependencies data, c < T.types.length ∨ c = kInvalidType.toNat) : ModuleTypes (T.intern data).1 := by
  rw [intern_others]
  refine ⟨fun {id row} hrow => ?_, h.nodup, h.named⟩
  change (T.intern data).1.types[id]? = some row at hrow
  rcases types_intern T data with htypes | htypes <;> rw [htypes] at hrow
  · exact h.dependency hrow
  · exact dependency_concat h.dependency hdata hrow

/-- A definition of a new name. -/
theorem ModuleTypes.defined (h : ModuleTypes T) {name : Text} {data : TypeData} (hnone : T.namedTypes.lookup name = none)
    (hparts : dependencies data = []) (hrows : T'.types = T.types) (hnamed : T'.namedTypes = T.namedTypes)
    (hnames : (moduleNames T').Perm (name :: moduleNames T)) : ModuleTypes (T'.nameLast name data) := by
  have hnew : name ∉ moduleNames T := fun hmem => h.named name hmem hnone
  rw [TypeIntern.nameLast]
  dsimp only
  rw [intern_others]
  refine ⟨fun {id row} hrow => ?_, ?_, ?_⟩
  · change (T'.intern data).1.types[id]? = some row at hrow
    rcases types_intern T' data with htypes | htypes <;> rw [htypes, hrows] at hrow
    · exact h.dependency hrow
    · exact dependency_concat h.dependency (by simp [hparts]) hrow
  · exact (hnames.nodup_iff).mpr (List.nodup_cons.mpr ⟨hnew, h.nodup⟩)
  · intro other hother
    change (T'.namedTypes ++ [(name, (T'.intern data).2)]).lookup other ≠ none
    rw [hnamed, List.lookup_append]
    rcases List.mem_cons.mp (hnames.mem_iff.mp hother) with rfl | hmem
    · simp
    · cases hlookup : T.namedTypes.lookup other with
      | none => exact absurd hlookup (h.named other hmem)
      | some row => simp

theorem ModuleTypes.apply (h : ModuleTypes T) {op : TypeIntern.Op} (hop : Refers T op) : ModuleTypes (T.apply op) := by
  have hstruct : ∀ (T : TypeIntern) (type : ℕ) (change : Types.StructDef → Types.StructDef), ModuleTypes T →
      (∀ d, (change d).name = d.name) → ModuleTypes (T.onStruct type change) := fun T type change h hname =>
    h.filled (onStruct_sameRows T type hname) (by rw [TypeIntern.onStruct]; split <;> rfl)
  have henum : ∀ (T : TypeIntern) (type : ℕ) (change : Types.EnumDef → Types.EnumDef), ModuleTypes T →
      (∀ d, (change d).name = d.name) → ModuleTypes (T.onEnum type change) := fun T type change h hname =>
    h.filled (onEnum_sameRows T type hname) (by rw [TypeIntern.onEnum]; split <;> rfl)
  have hunion : ∀ (T : TypeIntern) (type : ℕ) (change : Types.UnionDef → Types.UnionDef), ModuleTypes T →
      (∀ d, (change d).name = d.name) → ModuleTypes (T.onUnion type change) := fun T type change h hname =>
    h.filled (onUnion_sameRows T type hname) (by rw [TypeIntern.onUnion]; split <;> rfl)
  cases op with
  | intern data => exact h.interned hop
  | addField | setExplicitAlignment | setForeignLayout => exact hstruct _ _ _ h fun _ => rfl
  | addEnumVariant | setEnumUnderlying => exact henum _ _ _ h fun _ => rfl
  | addUnionMember => exact hunion _ _ _ h fun _ => rfl
  | setDefiningModule => exact hunion _ _ _ (henum _ _ _ (hstruct _ _ _ h fun _ => rfl) fun _ => rfl) fun _ => rfl
  | defineStruct name =>
    rw [TypeIntern.apply]
    split
    · exact h
    · next hnone => exact h.defined hnone rfl rfl rfl (by simp [moduleNames])
  | defineEnum name underlying =>
    rw [TypeIntern.apply]
    split
    · exact h
    · next hnone => exact h.defined hnone rfl rfl rfl (by
      simp only [moduleNames, List.map_append, List.map_cons, List.map_nil, List.append_assoc, List.singleton_append]
      rw [← List.append_assoc, ← List.append_assoc]
      exact List.perm_middle)
  | defineUnion name isTagged =>
    rw [TypeIntern.apply]
    split
    · split
      · exact h
      · exact hunion _ _ _ h fun _ => rfl
    · next hnone => exact h.defined hnone rfl rfl rfl (by
      simp only [moduleNames, List.map_append, List.map_cons, List.map_nil]
      rw [← List.append_assoc, ← List.append_assoc, ← List.append_assoc]
      exact List.perm_append_singleton _ _)

/-- Every call of a sequence refers to rows that are there when it is made. -/
def AllRefer : TypeIntern → List TypeIntern.Op → Prop
  | _, [] => True
  | T, op :: ops => Refers T op ∧ AllRefer (T.apply op) ops

/-- Every table that was built call by call is one. -/
theorem moduleTypes_build {ops : List TypeIntern.Op} (h : AllRefer {} ops) : ModuleTypes (TypeIntern.build ops) := by
  have hrun : ∀ {ops : List TypeIntern.Op} {T : TypeIntern}, ModuleTypes T → AllRefer T ops →
      ModuleTypes (ops.foldl TypeIntern.apply T) := by
    intro ops
    induction ops with
    | nil => exact fun h _ => h
    | cons op ops ih => exact fun h hrefer => ih (h.apply hrefer.1) hrefer.2
  exact hrun moduleTypes_empty h

end

end Zith.Session
