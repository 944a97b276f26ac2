import Zith.Types.CanonicalDescription

/-! The order in which a struct declares its fields. Its canonical id does not depend on it, but its size does, and
    by its size it is sorted among the fields of another struct. -/

namespace Zith.Types
open Lib (BoundedRecursion)
open Relation

namespace TypeIntern

/-! ### Sorted fields -/

/-- A field before or beside another one: by size, then by name. -/
def fieldLe (a b : StructField × UInt32) : Bool := !fieldLess b a

theorem fieldLe_iff {a b : StructField × UInt32} :
    fieldLe a b = true ↔ a.2 < b.2 ∨ a.2 = b.2 ∧ a.1.name ≤ b.1.name := by
  rw [fieldLe, fieldLess]
  by_cases hsize : b.2 = a.2
  · rw [if_neg (not_not.mpr hsize)]
    simp [hsize, List.not_lt]
  · rw [if_pos hsize]
    simp only [Bool.not_eq_true', decide_eq_false_iff_not, UInt32.not_lt, Ne.symm hsize, false_and, or_false]
    exact ⟨fun hle => UInt32.lt_of_le_of_ne hle fun h => hsize h.symm, UInt32.le_of_lt⟩

theorem fieldLe_trans (a b c : StructField × UInt32) (hab : fieldLe a b) (hbc : fieldLe b c) : fieldLe a c := by
  rw [fieldLe_iff] at hab hbc ⊢
  rcases hab with hab | ⟨hab, hname⟩
  · rcases hbc with hbc | ⟨hbc, -⟩
    · exact .inl (UInt32.lt_trans hab hbc)
    · exact .inl (hbc ▸ hab)
  · rcases hbc with hbc | ⟨hbc, hname'⟩
    · exact .inl (hab ▸ hbc)
    · exact .inr ⟨hab.trans hbc, List.le_trans hname hname'⟩

theorem fieldLe_total (a b : StructField × UInt32) : (fieldLe a b || fieldLe b a) = true := by
  rw [Bool.or_eq_true, fieldLe_iff, fieldLe_iff]
  by_cases hsize : a.2 = b.2
  · rcases List.le_total a.1.name b.1.name with hname | hname
    · exact .inl (.inr ⟨hsize, hname⟩)
    · exact .inr (.inr ⟨hsize.symm, hname⟩)
  · rcases UInt32.le_total a.2 b.2 with hle | hle
    · exact .inl (.inl (UInt32.lt_of_le_of_ne hle hsize))
    · exact .inr (.inl (UInt32.lt_of_le_of_ne hle (Ne.symm hsize)))

theorem fieldLe_antisymm {a b : StructField × UInt32} (hab : fieldLe a b) (hba : fieldLe b a) :
    a.1.name = b.1.name ∧ a.2 = b.2 := by
  rw [fieldLe_iff] at hab hba
  rcases hab with hab | ⟨hsize, hname⟩
  · rcases hba with hba | ⟨hba, -⟩
    · exact absurd (UInt32.lt_trans hab hba) (UInt32.lt_irrefl _)
    · exact absurd hab (hba ▸ UInt32.lt_irrefl _)
  · rcases hba with hba | ⟨-, hname'⟩
    · exact absurd hba (hsize ▸ UInt32.lt_irrefl _)
    · exact ⟨List.le_antisymm hname hname', hsize⟩

/-- Fields sorted by the sizes that they are given. -/
def sortedBy (size : StructField → UInt32) (fields : List StructField) : List StructField :=
  fields.mergeSort fun f g => fieldLe (f, size f) (g, size g)

section
variable {size size' : StructField → UInt32} {fields fields' : List StructField}

theorem sortedBy_pairwise : (sortedBy size fields).Pairwise fun f g => fieldLe (f, size f) (g, size g) = true :=
  List.pairwise_mergeSort (fun f g h => fieldLe_trans (f, size f) (g, size g) (h, size h))
    (fun f g => fieldLe_total (f, size f) (g, size g)) fields

theorem mem_sortedBy {f : StructField} : f ∈ sortedBy size fields ↔ f ∈ fields :=
  (List.mergeSort_perm fields _).mem_iff

/-- Fields with names of their own are sorted in one way only. -/
theorem sortedBy_perm (hperm : fields.Perm fields') (hnames : (fields.map (·.name)).Nodup) :
    sortedBy size fields = sortedBy size fields' := by
  refine List.Perm.eq_of_pairwise (fun f g hf hg hfg hgf => ?_) sortedBy_pairwise sortedBy_pairwise
    ((List.mergeSort_perm fields _).trans (hperm.trans (List.mergeSort_perm fields' _).symm))
  exact List.inj_on_of_nodup_map hnames (mem_sortedBy.mp hf) (hperm.mem_iff.mpr (mem_sortedBy.mp hg))
    (fieldLe_antisymm hfg hgf).1

theorem sortedBy_congr (h : ∀ f ∈ fields, ∀ g ∈ fields,
    fieldLe (f, size f) (g, size g) = fieldLe (f, size' f) (g, size' g)) :
    sortedBy size fields = sortedBy size' fields := by
  have hmap := List.map_mergeSort (f := id) (l := fields) (r := fun f g => fieldLe (f, size f) (g, size g))
    (s := fun f g => fieldLe (f, size' f) (g, size' g)) h
  rwa [List.map_id, List.map_id] at hmap

theorem sortedBy_short (h : fields.length < 2) : sortedBy size fields = fields := by
  rcases fields with _ | ⟨f, _ | ⟨g, fields⟩⟩
  · simp [sortedBy]
  · simp [sortedBy]
  · simp only [List.length_cons] at h
    omega

end

section
variable (T : TypeIntern)

def sizeAt (depth : ℕ) (field : StructField) : UInt32 := (T.typeByteCount depth field.type).getD 0

end

theorem canonicalFieldOrder_eq {T : TypeIntern} {depth : ℕ} {fields ordered : List StructField}
    (h : T.canonicalFieldOrder depth fields = some ordered) : ordered = sortedBy (T.sizeAt depth) fields := by
  rw [canonicalFieldOrder] at h
  split at h
  · next hshort =>
    rw [sortedBy_short hshort]
    exact (Option.some.inj h).symm
  · next hlong =>
    simp only [bind, Option.bind_eq_some_iff, pure, Option.some.injEq] at h
    obtain ⟨sizes, hsizes, rfl⟩ := h
    have hzip : fields.zip sizes = fields.map fun f => (f, T.sizeAt depth f) := by
      have hall := mapM_eq_some_iff.mp hsizes
      clear hsizes hlong
      induction hall with
      | nil => rfl
      | cons hsize _ ih => rw [List.zip_cons_cons, List.map_cons, ih, sizeAt, hsize, Option.getD_some]
    rw [hzip, sortedBy]
    have hmap := List.map_mergeSort (f := fun f => (f, T.sizeAt depth f)) (l := fields)
      (r := fun f g => fieldLe (f, T.sizeAt depth f) (g, T.sizeAt depth g)) (s := fieldLe) fun _ _ _ _ => rfl
    have hback := congrArg (List.map Prod.fst) hmap
    rw [List.map_map] at hback
    exact hback.symm.trans (List.map_id _)

theorem canonicalFieldOrder_of_sizes {T : TypeIntern} {depth : ℕ} {fields : List StructField}
    (h : 2 ≤ fields.length → ∀ field ∈ fields, (T.typeByteCount depth field.type).isSome) :
    T.canonicalFieldOrder depth fields = some (sortedBy (T.sizeAt depth) fields) := by
  obtain ⟨ordered, hordered⟩ := Option.isSome_iff_exists.mp (isSome_canonicalFieldOrder.mpr h)
  rw [hordered, canonicalFieldOrder_eq hordered]

/-! ### One table in place of another -/

/-- Tables that differ in their struct definitions at most. -/
structure SameRows (T T' : TypeIntern) : Prop where
  types : T'.types = T.types
  enumDefs : T'.enumDefs = T.enumDefs
  unionDefs : T'.unionDefs = T.unionDefs
  firstText : T'.firstText = T.firstText

theorem SameRows.refl (T : TypeIntern) : SameRows T T := ⟨rfl, rfl, rfl, rfl⟩

theorem mapM_extends {α β : Type} {f f' : α → Option β} : ∀ {l : List α} {bs : List β},
    (∀ a ∈ l, ∀ b, f a = some b → f' a = some b) → l.mapM f = some bs → l.mapM f' = some bs := by
  intro l
  induction l with
  | nil => exact fun _ h => h
  | cons a l ih =>
    intro bs hall h
    obtain ⟨ha, hl⟩ := List.forall_mem_cons.mp hall
    rw [List.mapM_cons] at h ⊢
    simp only [bind, Option.bind_eq_some_iff] at h ⊢
    obtain ⟨b, hb, rest, hrest, h⟩ := h
    exact ⟨b, ha b hb, rest, ih hl hrest, h⟩

variable {T T' : TypeIntern} {resolveNamespace : Text → Text}

/-- A struct definition whose fields come in the same order. -/
def OrderKept (T T' : TypeIntern) (depth depth' type : ℕ) : Prop :=
  ∀ defId d ordered, T.lookup type = some (.struct defId) → T.structDefs[defId]? = some d →
    T.canonicalFieldOrder depth d.fields = some ordered → ∃ d', T'.structDefs[defId]? = some d' ∧ d'.name = d.name ∧
      d'.definingModule = d.definingModule ∧ d'.explicitAlignmentBytes = d.explicitAlignmentBytes ∧
      T'.canonicalFieldOrder depth' d'.fields = some ordered

/-- A type has the structure in another table that it has in the first, if its components have and its fields are in
    the same order. -/
theorem expand_step (hrows : SameRows T T') {depth depth' type : ℕ} {s : Structure}
    (hcomponents : ∀ c ∈ T.components type, ∀ s, T.expand resolveNamespace depth c = some s →
      T'.expand resolveNamespace depth' c = some s)
    (horder : OrderKept T T' depth depth' type) (h : T.expand resolveNamespace (depth + 1) type = some s) :
    T'.expand resolveNamespace (depth' + 1) type = some s := by
  have hlookup : T'.lookup type = T.lookup type := by rw [lookup, lookup, hrows.types]
  rw [expand] at h ⊢
  rw [hlookup]
  cases hrow : T.lookup type with
  | none =>
    rw [hrow] at h
    cases h
  | some data =>
    rw [hrow] at h
    simp only [components, hrow] at hcomponents
    cases data with
    | ptr inner _ _ | array inner _ | optional inner | failable inner | «alias» inner | nominal _ inner | dyn inner _
    | qualified inner _ _ | slice inner =>
      simp only [bind, Option.bind_some, Option.bind_eq_some_iff, pure, Option.some.injEq] at h ⊢
      obtain ⟨t, ht, rfl⟩ := h
      exact ⟨t, hcomponents _ (List.mem_singleton_self _) t ht, rfl⟩
    | pack members _ | sum members =>
      simp only [bind, Option.bind_some, Option.bind_eq_some_iff, pure, Option.some.injEq] at h ⊢
      obtain ⟨ts, hts, rfl⟩ := h
      exact ⟨ts, mapM_extends hcomponents hts, rfl⟩
    | fn items first | incomplete first items =>
      simp only [bind, Option.bind_some, Option.bind_eq_some_iff, pure, Option.some.injEq] at h ⊢
      obtain ⟨t, ht, ts, hts, rfl⟩ := h
      obtain ⟨hfirst, hitems⟩ := List.forall_mem_cons.mp hcomponents
      exact ⟨t, hfirst t ht, ts, mapM_extends hitems hts, rfl⟩
    | union defId =>
      have hunion : T'.getUnionDef defId = T.getUnionDef defId := by
        rw [getUnionDef, getUnionDef, hrows.unionDefs, hrows.firstText]
      simp only [bind, Option.bind_some, Option.bind_eq_some_iff, pure, Option.some.injEq, hunion] at h ⊢
      obtain ⟨ts, hts, rfl⟩ := h
      exact ⟨ts, mapM_extends hcomponents hts, rfl⟩
    | enum defId =>
      simp only [bind, Option.bind_some, Option.bind_eq_some_iff, pure, Option.some.injEq, hrows.enumDefs] at h ⊢
      obtain ⟨d, hd, t, ht, rfl⟩ := h
      simp only [hd] at hcomponents
      exact ⟨d, hd, t, hcomponents _ (List.mem_singleton_self _) t ht, rfl⟩
    | struct defId =>
      simp only [bind, Option.bind_some, Option.bind_eq_some_iff, pure, Option.some.injEq] at h ⊢
      obtain ⟨d, hd, ordered, hordered, fields, hfields, rfl⟩ := h
      obtain ⟨d', hd', hname, hmodule, halign, hordered'⟩ := horder defId d ordered hrow hd hordered
      simp only [hd] at hcomponents
      have hextends : ∀ field ∈ ordered, ∀ pair, expandField (T.expand resolveNamespace depth) field = some pair →
          expandField (T'.expand resolveNamespace depth') field = some pair := by
        intro field hfield pair hpair
        have hmem : field.type ∈ d.fields.map (·.type) :=
          List.mem_map_of_mem ((perm_canonicalFieldOrder hordered).mem_iff.mp hfield)
        cases ht : T.expand resolveNamespace depth field.type with
        | none =>
          rw [expandField, ht] at hpair
          cases hpair
        | some t => rwa [expandField, hcomponents _ hmem t ht, ← ht]
      have hfields' : ordered.mapM (expandField (T'.expand resolveNamespace depth')) = some fields :=
        mapM_extends hextends hfields
      refine ⟨d', hd', ordered, hordered', fields, hfields', ?_⟩
      rw [hname, hmodule, halign]
    | _ =>
      simp only [bind, Option.bind_some, pure] at h ⊢
      exact h

/-! ### Depth -/

theorem typeByteCount_le {m n type : ℕ} {bytes : UInt32} (hle : m ≤ n) (h : T.typeByteCount m type = some bytes) :
    T.typeByteCount n type = some bytes := by
  induction hle with
  | refl => exact h
  | step _ ih => exact typeByteCount_succ _ ih

/-- The size of a type, at a depth that is enough. -/
def HasSize (T : TypeIntern) (type : ℕ) (bytes : UInt32) : Prop := ∃ depth, T.typeByteCount depth type = some bytes

theorem canonicalFieldOrder_le {m n : ℕ} (hle : m ≤ n) {fields ordered : List StructField}
    (h : T.canonicalFieldOrder m fields = some ordered) : T.canonicalFieldOrder n fields = some ordered := by
  have hsizes := isSome_canonicalFieldOrder.mp (Option.isSome_iff_exists.mpr ⟨ordered, h⟩)
  rw [canonicalFieldOrder_of_sizes fun htwo field hfield => typeByteCount_mono hle (hsizes htwo field hfield),
    canonicalFieldOrder_eq h]
  by_cases htwo : 2 ≤ fields.length
  · have hsame : ∀ f ∈ fields, T.sizeAt n f = T.sizeAt m f := by
      intro f hf
      obtain ⟨bytes, hbytes⟩ := Option.isSome_iff_exists.mp (hsizes htwo f hf)
      rw [sizeAt, sizeAt, typeByteCount_le hle hbytes, hbytes]
    exact congrArg some (sortedBy_congr fun f hf g hg => by rw [hsame f hf, hsame g hg])
  · rw [sortedBy_short (by omega), sortedBy_short (by omega)]

theorem expand_succ : ∀ {depth type : ℕ} {s : Structure}, T.expand resolveNamespace depth type = some s →
    T.expand resolveNamespace (depth + 1) type = some s := by
  intro depth
  induction depth with
  | zero =>
    intro type s h
    cases h
  | succ depth ih =>
    intro type s h
    refine expand_step (.refl T) (fun c _ s hs => ih hs) (fun defId d ordered hrow hd hordered => ?_) h
    exact ⟨d, hd, rfl, rfl, rfl, canonicalFieldOrder_le (Nat.le_succ depth) hordered⟩

theorem expand_le {m n type : ℕ} {s : Structure} (hle : m ≤ n) (h : T.expand resolveNamespace m type = some s) :
    T.expand resolveNamespace n type = some s := by
  induction hle with
  | refl => exact h
  | step _ ih => exact expand_succ ih

/-! ### Permuted fields -/

/-- The same table, but for the order in which one struct with distinct field names declares its fields. -/
structure FieldsPermuted (T T' : TypeIntern) (defId : ℕ) : Prop where
  rows : SameRows T T'
  others : ∀ i, i ≠ defId → T'.structDefs[i]? = T.structDefs[i]?
  permuted : ∃ d fields, T.structDefs[defId]? = some d ∧ T'.structDefs[defId]? = some { d with fields } ∧
    d.fields.Perm fields ∧ (d.fields.map (·.name)).Nodup

/-- Any two fields of a struct, if it is one, come in the same order by their sizes and names. -/
def KeepsOrder (T T' : TypeIntern) (type : ℕ) : Prop :=
  ∀ f ∈ T.comparedFields type, ∀ g ∈ T.comparedFields type, ∀ {a b a' b'}, T.HasSize f.type a → T.HasSize g.type b →
    T'.HasSize f.type a' → T'.HasSize g.type b' → fieldLess (f, a) (g, b) = fieldLess (f, a') (g, b')

section
variable {defId : ℕ}

/-- The definition of a struct in the other table. -/
theorem FieldsPermuted.def (h : FieldsPermuted T T' defId) {i : ℕ} {d : StructDef} (hd : T.structDefs[i]? = some d) :
    ∃ d', T'.structDefs[i]? = some d' ∧ d'.name = d.name ∧ d'.definingModule = d.definingModule ∧
      d'.explicitAlignmentBytes = d.explicitAlignmentBytes ∧ d.fields.Perm d'.fields ∧
      (d'.fields = d.fields ∨ (d.fields.map (·.name)).Nodup) := by
  by_cases hi : i = defId
  · subst hi
    obtain ⟨d₀, fields, hd₀, hd', hperm, hnames⟩ := h.permuted
    obtain rfl := Option.some.inj (hd.symm.trans hd₀)
    exact ⟨_, hd', rfl, rfl, rfl, hperm, .inr hnames⟩
  · exact ⟨d, (h.others i hi).trans hd, rfl, rfl, rfl, .refl _, .inl rfl⟩

theorem FieldsPermuted.symm (h : FieldsPermuted T T' defId) : FieldsPermuted T' T defId := by
  obtain ⟨d, fields, hd, hd', hperm, hnames⟩ := h.permuted
  refine ⟨⟨h.rows.types.symm, h.rows.enumDefs.symm, h.rows.unionDefs.symm, h.rows.firstText.symm⟩,
    fun i hi => (h.others i hi).symm, _, d.fields, hd', hd, hperm.symm, ?_⟩
  exact (hperm.map _).nodup_iff.mp hnames

theorem FieldsPermuted.lookup_eq (h : FieldsPermuted T T' defId) (type : ℕ) : T'.lookup type = T.lookup type := by
  rw [lookup, lookup, h.rows.types]

theorem FieldsPermuted.mem_components (h : FieldsPermuted T T' defId) {type c : ℕ} (hc : c ∈ T.components type) :
    c ∈ T'.components type := by
  rw [components] at hc ⊢
  rw [h.lookup_eq]
  cases hrow : T.lookup type with
  | none => rwa [hrow] at hc
  | some data =>
    rw [hrow] at hc
    cases data with
    | struct i =>
      simp only at hc ⊢
      cases hd : T.structDefs[i]? with
      | none => simp [hd] at hc
      | some d =>
        obtain ⟨d', hd', -, -, -, hperm, -⟩ := h.def hd
        simp only [hd] at hc
        simp only [hd']
        exact (hperm.map _).mem_iff.mp hc
    | enum i => simpa only [h.rows.enumDefs] using hc
    | union i =>
      have hunion : T'.getUnionDef i = T.getUnionDef i := by
        rw [getUnionDef, getUnionDef, h.rows.unionDefs, h.rows.firstText]
      simpa only [hunion] using hc
    | _ => exact hc

theorem FieldsPermuted.reaches (h : FieldsPermuted T T' defId) {a b : ℕ} (hab : ReflTransGen T.Refers a b) :
    ReflTransGen T'.Refers a b := by
  induction hab with
  | refl => exact .refl
  | tail _ hc ih => exact ih.tail (h.mem_components hc)

theorem FieldsPermuted.compared (h : FieldsPermuted T T' defId) {type : ℕ} {field : StructField}
    (hfield : field ∈ T.comparedFields type) : field ∈ T'.comparedFields type := by
  rw [comparedFields] at hfield ⊢
  rw [h.lookup_eq]
  cases hrow : T.lookup type with
  | none => simp [hrow] at hfield
  | some data =>
    rw [hrow] at hfield
    cases data with
    | struct i =>
      simp only at hfield ⊢
      cases hd : T.structDefs[i]? with
      | none => simp [hd] at hfield
      | some d =>
        obtain ⟨d', hd', -, -, -, hperm, -⟩ := h.def hd
        simp only [hd] at hfield
        simp only [hd', ← hperm.length_eq]
        split at hfield
        · cases hfield
        · next hlong =>
          rw [if_neg hlong]
          exact hperm.mem_iff.mp hfield
    | _ => cases hfield

/-- Where the order is kept, so is the structure. -/
theorem expand_permuted (h : FieldsPermuted T T' defId) : ∀ {depth type : ℕ} {s : Structure},
    T.expand resolveNamespace depth type = some s →
    (∀ u, ReflTransGen T.Refers type u → ∀ field ∈ T'.comparedFields u, ∃ n, (T'.typeByteCount n field.type).isSome) →
    (∀ u, ReflTransGen T.Refers type u → T.KeepsOrder T' u) → ∃ n, T'.expand resolveNamespace n type = some s := by
  intro depth
  induction depth with
  | zero =>
    intro type s hs
    cases hs
  | succ depth ih =>
    intro type s hs hsized hkeeps
    obtain ⟨m, hm⟩ := BoundedRecursion.exists_common
      (fun n c => ∀ s, T.expand resolveNamespace depth c = some s → T'.expand resolveNamespace n c = some s)
      (fun hle hp s hs => expand_le hle (hp s hs)) fun c (hc : c ∈ T.components type) => by
        cases ht : T.expand resolveNamespace depth c with
        | none => exact ⟨0, fun _ h => by cases h⟩
        | some t =>
          obtain ⟨n, hn⟩ := ih ht (fun u hu => hsized u (.head hc hu)) fun u hu => hkeeps u (.head hc hu)
          exact ⟨n, fun s hs => Option.some.inj hs ▸ hn⟩
    obtain ⟨k, hk⟩ := BoundedRecursion.exists_common
      (fun n (field : StructField) => (T'.typeByteCount n field.type).isSome = true)
      (fun hle => typeByteCount_mono hle) (hsized type .refl)
    refine ⟨max m k + 1, expand_step h.rows (fun c hc s hs => expand_le (Nat.le_max_left m k) (hm c hc s hs))
      (fun i d ordered hrow hd hordered => ?_) hs⟩
    obtain ⟨d', hd', hname, hmodule, halign, hperm, hfields⟩ := h.def hd
    refine ⟨d', hd', hname, hmodule, halign, ?_⟩
    have hlookup' : T'.lookup type = some (.struct i) := (h.lookup_eq type).trans hrow
    have hsizes' : 2 ≤ d'.fields.length → ∀ f ∈ d'.fields, (T'.typeByteCount (max m k) f.type).isSome := by
      intro htwo f hf
      refine typeByteCount_mono (Nat.le_max_right m k) (hk f ?_)
      simp only [comparedFields, hlookup', hd']
      rw [if_neg (by omega)]
      exact hf
    rw [canonicalFieldOrder_of_sizes hsizes', canonicalFieldOrder_eq hordered]
    have hunpermuted : sortedBy (T'.sizeAt (max m k)) d'.fields = sortedBy (T'.sizeAt (max m k)) d.fields := by
      rcases hfields with hsame | hnames
      · rw [hsame]
      · exact (sortedBy_perm hperm hnames).symm
    rw [hunpermuted]
    by_cases htwo : 2 ≤ d.fields.length
    · refine congrArg some (sortedBy_congr fun f hf g hg => ?_)
      have hcompared : ∀ f ∈ d.fields, f ∈ T.comparedFields type := by
        intro f hf
        simp only [comparedFields, hrow, hd]
        rw [if_neg (by omega)]
        exact hf
      have hsize : ∀ f ∈ d.fields, T.HasSize f.type (T.sizeAt depth f) := by
        intro f hf
        have hsome := isSome_canonicalFieldOrder.mp (Option.isSome_iff_exists.mpr ⟨ordered, hordered⟩) htwo f hf
        obtain ⟨bytes, hbytes⟩ := Option.isSome_iff_exists.mp hsome
        exact ⟨depth, by rw [sizeAt, hbytes, Option.getD_some]⟩
      have hsize' : ∀ f ∈ d.fields, T'.HasSize f.type (T'.sizeAt (max m k) f) := by
        intro f hf
        obtain ⟨bytes, hbytes⟩ := Option.isSome_iff_exists.mp (hsizes' (hperm.length_eq ▸ htwo) f (hperm.mem_iff.mp hf))
        exact ⟨max m k, by rw [sizeAt, hbytes, Option.getD_some]⟩
      rw [fieldLe, fieldLe, hkeeps type .refl g (hcompared g hg) f (hcompared f hf) (hsize g hg) (hsize f hf)
        (hsize' g hg) (hsize' f hf)]
    · rw [sortedBy_short (by omega), sortedBy_short (by omega)]

/-! ### The struct itself -/

/-- What is looked at for a type: its components, and the type that the size of an enum is read from. -/
def LooksAt (T : TypeIntern) (type c : ℕ) : Prop :=
  c ∈ T.components type ∨ ∃ i d, T.lookup type = some (.enum i) ∧ T.getEnumDef i = some d ∧ c = d.underlying

/-- Nothing that is looked at is a struct of the definition. -/
def Avoids (T : TypeIntern) (defId type : ℕ) : Prop :=
  ∀ u, ReflTransGen T.LooksAt type u → T.lookup u ≠ some (.struct defId)

theorem Avoids.next {type c : ℕ} (h : T.Avoids defId type) (hc : T.LooksAt type c) : T.Avoids defId c :=
  fun u hu => h u (.head hc hu)

theorem greatest_congr {value value' : ℕ → Option UInt32} {types : List ℕ} (h : ∀ t ∈ types, value t = value' t) :
    ∀ start, greatest value start types = greatest value' start types := by
  induction types with
  | nil => exact fun _ => rfl
  | cons t types ih =>
    intro start
    obtain ⟨ht, hrest⟩ := List.forall_mem_cons.mp h
    rw [greatest, greatest, List.foldlM_cons, List.foldlM_cons, ht]
    exact congrArg _ (funext fun m => ih hrest m)

variable {fields : List StructField}

theorem fieldsEnd_congr {align align' size size' : ℕ → Option UInt32}
    (h : ∀ f ∈ fields, align f.type = align' f.type ∧ size f.type = size' f.type) :
    ∀ offset, fieldsEnd align size fields offset = fieldsEnd align' size' fields offset := by
  induction fields with
  | nil => exact fun _ => rfl
  | cons f fields ih =>
    intro offset
    obtain ⟨⟨halign, hsize⟩, hrest⟩ := List.forall_mem_cons.mp h
    simp only [fieldsEnd, halign, hsize, ih hrest]

/-- Sizes and alignments do not change where the struct is not looked at. -/
theorem FieldsPermuted.measures (h : FieldsPermuted T T' defId) : ∀ {depth type : ℕ}, T.Avoids defId type →
    T'.typeAlignBytes depth type = T.typeAlignBytes depth type ∧
      T'.typeByteCount depth type = T.typeByteCount depth type := by
  intro depth
  induction depth with
  | zero => exact fun _ => ⟨rfl, rfl⟩
  | succ depth ih =>
    intro type havoids
    have hnext : ∀ {c}, T.LooksAt type c → T'.typeAlignBytes depth c = T.typeAlignBytes depth c ∧
        T'.typeByteCount depth c = T.typeByteCount depth c := fun hc => ih (havoids.next hc)
    have hall : ∀ c ∈ T.components type, T'.typeAlignBytes depth c = T.typeAlignBytes depth c ∧
        T'.typeByteCount depth c = T.typeByteCount depth c := fun c hc => hnext (.inl hc)
    have henum : ∀ i, T'.getEnumDef i = T.getEnumDef i := by
      intro i
      rw [getEnumDef, getEnumDef, h.lookup_eq, h.rows.enumDefs]
    have hkind : ∀ c, T'.kindOf c = T.kindOf c := fun c => by rw [kindOf, kindOf, h.lookup_eq]
    rw [components] at hall
    have halign : T'.typeAlignBytes (depth + 1) type = T.typeAlignBytes (depth + 1) type := by
      rw [typeAlignBytes, typeAlignBytes, h.lookup_eq]
      cases hrow : T.lookup type with
      | none => rfl
      | some data =>
        rw [hrow] at hall
        cases data with
        | optional inner =>
          simp only at hall ⊢
          rw [hkind, (hall inner (List.mem_singleton_self _)).1]
        | array inner _ | qualified inner _ _ | «alias» inner | nominal _ inner =>
          exact (hall inner (List.mem_singleton_self _)).1
        | enum i =>
          simp only [henum]
          cases hd : T.getEnumDef i with
          | none => rfl
          | some d => exact (hnext (.inr ⟨i, d, hrow, hd, rfl⟩)).1
        | union i =>
          simp only [getUnionDef] at hall
          simp only [h.rows.unionDefs]
          cases hd : T.unionDefs[i]? with
          | none => rfl
          | some d =>
            rw [hd] at hall
            exact greatest_congr (fun t ht => (hall t ht).1) 1
        | struct i =>
          have hi : i ≠ defId := fun hi => havoids type .refl (hi ▸ hrow)
          simp only [h.others i hi] at hall ⊢
          cases hd : T.structDefs[i]? with
          | none => rfl
          | some d =>
            simp only [hd] at hall
            have hfields := greatest_congr (fun t ht => (hall t ht).1) (max d.explicitAlignmentBytes 1)
            simp only [bind, Option.bind_some, hfields]
        | _ => rfl
    refine ⟨halign, ?_⟩
    rw [typeByteCount, typeByteCount, h.lookup_eq, halign]
    cases hrow : T.lookup type with
    | none => rfl
    | some data =>
      rw [hrow] at hall
      cases data with
      | optional inner | array inner _ =>
        simp only at hall ⊢
        obtain ⟨ha, hs⟩ := hall inner (List.mem_singleton_self _)
        simp only [ha, hs, hkind]
      | qualified inner _ _ | «alias» inner | nominal _ inner => exact (hall inner (List.mem_singleton_self _)).2
      | enum i =>
        simp only [henum]
        cases hd : T.getEnumDef i with
        | none => rfl
        | some d => exact (hnext (.inr ⟨i, d, hrow, hd, rfl⟩)).2
      | union i =>
        simp only [getUnionDef] at hall
        simp only [h.rows.unionDefs]
        cases hd : T.unionDefs[i]? with
        | none => rfl
        | some d =>
          rw [hd] at hall
          have hleast := greatest_congr (fun t ht => (hall t ht).1) 1
          have hmost := greatest_congr (fun t ht => (hall t ht).2) 1
          simp only [Option.getD_some] at hleast hmost
          simp only [hleast, hmost]
      | struct i =>
        have hi : i ≠ defId := fun hi => havoids type .refl (hi ▸ hrow)
        simp only [h.others i hi] at hall ⊢
        cases hd : T.structDefs[i]? with
        | none => rfl
        | some d =>
          simp only [hd] at hall
          have hfields : ∀ f ∈ d.fields, _ := fun f hf => hall f.type (List.mem_map_of_mem hf)
          simp only [bind, Option.bind_some, fieldsEnd_congr hfields]
      | _ => rfl

theorem HasSize.unique {type : ℕ} {a b : UInt32} (ha : T.HasSize type a) (hb : T.HasSize type b) : a = b := by
  obtain ⟨m, hm⟩ := ha
  obtain ⟨n, hn⟩ := hb
  exact Option.some.inj ((typeByteCount_le (Nat.le_max_left m n) hm).symm.trans (typeByteCount_le (Nat.le_max_right m n) hn))

/-- A type whose fields do not look at the struct keeps their order. -/
theorem FieldsPermuted.keepsOrder (h : FieldsPermuted T T' defId) {type : ℕ}
    (havoids : ∀ f ∈ T.comparedFields type, T.Avoids defId f.type) : T.KeepsOrder T' type := by
  have hsame : ∀ f ∈ T.comparedFields type, ∀ {a a'}, T.HasSize f.type a → T'.HasSize f.type a' → a = a' := by
    rintro f hf a a' ha ⟨n, hn⟩
    exact ha.unique ⟨n, (h.measures (havoids f hf)).2.symm.trans hn⟩
  intro f hf g hg a b a' b' ha hb ha' hb'
  rw [hsame f hf ha ha', hsame g hg hb hb']

/-! ### One structure in both tables -/

theorem mapM_same {α β : Type} {f f' : α → Option β} : ∀ {l : List α} {bs : List β}, l.mapM f = some bs →
    l.mapM f' = some bs → ∀ a ∈ l, ∃ b, f a = some b ∧ f' a = some b := by
  intro l
  induction l with
  | nil => exact fun _ _ => nofun
  | cons a l ih =>
    intro bs h h'
    rw [List.mapM_cons] at h h'
    simp only [bind, Option.bind_eq_some_iff, pure, Option.some.injEq] at h h'
    obtain ⟨b, hb, rest, hrest, rfl⟩ := h
    obtain ⟨b', hb', rest', hrest', heq⟩ := h'
    obtain ⟨rfl, rfl⟩ := List.cons.inj heq
    rintro c (_ | ⟨_, hc⟩)
    · exact ⟨b', hb, hb'⟩
    · exact ih hrest hrest' c hc

theorem expandField_name {f : ℕ → Option Structure} {field : StructField} {pair : Text × Structure}
    (h : expandField f field = some pair) : pair.1 = field.name ∧ f field.type = some pair.2 := by
  cases ht : f field.type with
  | none =>
    rw [expandField, ht] at h
    cases h
  | some t =>
    rw [expandField, ht] at h
    obtain rfl := Option.some.inj h
    exact ⟨rfl, rfl⟩

theorem names_of_mapM {f : ℕ → Option Structure} {pairs : List (Text × Structure)}
    (h : fields.mapM (expandField f) = some pairs) : pairs.map Prod.fst = fields.map (·.name) := by
  have hall := mapM_eq_some_iff.mp h
  clear h
  induction hall with
  | nil => rfl
  | cons hone _ ih => rw [List.map_cons, List.map_cons, ih, (expandField_name hone).1]

theorem eq_of_map_eq {α β : Type} {f : α → β} : ∀ {l l' : List α}, (∀ a ∈ l, ∀ b ∈ l', f a = f b → a = b) →
    l.map f = l'.map f → l = l' := by
  intro l
  induction l with
  | nil =>
    intro l' _ h
    exact (List.map_eq_nil_iff.mp h.symm).symm
  | cons a l ih =>
    rintro (_ | ⟨b, l'⟩) hinj h
    · cases h
    · obtain ⟨hab, hrest⟩ := List.cons.inj h
      rw [hinj a List.mem_cons_self b List.mem_cons_self hab,
        ih (fun x hx y hy => hinj x (List.mem_cons_of_mem _ hx) y (List.mem_cons_of_mem _ hy)) hrest]

/-- A struct with distinct field names, if it is one. -/
def DistinctNames (T : TypeIntern) (type : ℕ) : Prop :=
  ∀ i d, T.lookup type = some (.struct i) → T.structDefs[i]? = some d → (d.fields.map (·.name)).Nodup

/-- One structure in both tables has components of one structure, and fields in one order. -/
theorem expand_same (h : FieldsPermuted T T' defId) {depth depth' type : ℕ} {s : Structure}
    (hs : T.expand resolveNamespace (depth + 1) type = some s)
    (hs' : T'.expand resolveNamespace (depth' + 1) type = some s) (hnames : T.DistinctNames type) :
    (∀ c ∈ T.components type, ∃ t, T.expand resolveNamespace depth c = some t ∧
      T'.expand resolveNamespace depth' c = some t) ∧
    ∀ i d, T.lookup type = some (.struct i) → T.structDefs[i]? = some d → ∃ d' ordered,
      T'.structDefs[i]? = some d' ∧ d.fields.Perm d'.fields ∧ T.canonicalFieldOrder depth d.fields = some ordered ∧
      T'.canonicalFieldOrder depth' d'.fields = some ordered := by
  rw [expand] at hs hs'
  rw [h.lookup_eq] at hs'
  rw [components]
  cases hrow : T.lookup type with
  | none =>
    rw [hrow] at hs
    cases hs
  | some data =>
    rw [hrow] at hs hs'
    cases data with
    | ptr inner _ _ | array inner _ | optional inner | failable inner | «alias» inner | nominal _ inner | dyn inner _
    | qualified inner _ _ | slice inner =>
      simp only [bind, Option.bind_some, Option.bind_eq_some_iff, pure, Option.some.injEq] at hs hs'
      obtain ⟨t, ht, rfl⟩ := hs
      obtain ⟨t', ht', heq⟩ := hs'
      obtain rfl : t' = t := by simpa using heq
      exact ⟨fun c hc => ⟨t', by rwa [List.mem_singleton.mp hc], by rwa [List.mem_singleton.mp hc]⟩, fun i d hi => by cases hi⟩
    | pack members _ | sum members =>
      simp only [bind, Option.bind_some, Option.bind_eq_some_iff, pure, Option.some.injEq] at hs hs'
      obtain ⟨ts, hts, rfl⟩ := hs
      obtain ⟨ts', hts', heq⟩ := hs'
      obtain rfl : ts' = ts := by simpa using heq
      exact ⟨mapM_same hts hts', fun i d hi => by cases hi⟩
    | fn items first | incomplete first items =>
      simp only [bind, Option.bind_some, Option.bind_eq_some_iff, pure, Option.some.injEq] at hs hs'
      obtain ⟨t, ht, ts, hts, rfl⟩ := hs
      obtain ⟨t', ht', ts', hts', heq⟩ := hs'
      obtain ⟨rfl, rfl⟩ : t' = t ∧ ts' = ts := by simpa using heq
      exact ⟨List.forall_mem_cons.mpr ⟨⟨t', ht, ht'⟩, mapM_same hts hts'⟩, fun i d hi => by cases hi⟩
    | union i =>
      have hunion : T'.getUnionDef i = T.getUnionDef i := by
        rw [getUnionDef, getUnionDef, h.rows.unionDefs, h.rows.firstText]
      simp only [bind, Option.bind_some, Option.bind_eq_some_iff, pure, Option.some.injEq, hunion] at hs hs'
      obtain ⟨ts, hts, rfl⟩ := hs
      obtain ⟨ts', hts', heq⟩ := hs'
      obtain rfl : ts' = ts := by simpa using heq
      exact ⟨mapM_same hts hts', fun i d hi => by cases hi⟩
    | enum i =>
      simp only [bind, Option.bind_some, Option.bind_eq_some_iff, pure, Option.some.injEq, h.rows.enumDefs] at hs hs'
      obtain ⟨d, hd, t, ht, rfl⟩ := hs
      obtain ⟨d', hd', t', ht', heq⟩ := hs'
      obtain rfl := Option.some.inj (hd.symm.trans hd')
      obtain rfl : t' = t := by simpa using heq
      simp only [hd]
      exact ⟨fun c hc => ⟨t', by rwa [List.mem_singleton.mp hc], by rwa [List.mem_singleton.mp hc]⟩, fun i d hi => by cases hi⟩
    | struct i =>
      simp only [bind, Option.bind_some, Option.bind_eq_some_iff, pure, Option.some.injEq] at hs hs'
      obtain ⟨d, hd, ordered, hordered, pairs, hpairs, rfl⟩ := hs
      obtain ⟨d', hd', ordered', hordered', pairs', hpairs', heq⟩ := hs'
      obtain ⟨d'', hd'', -, -, -, hperm, -⟩ := h.def hd
      obtain rfl := Option.some.inj (hd'.symm.trans hd'')
      obtain ⟨-, -, -, rfl⟩ := Structure.struct.inj heq
      change ordered.mapM (expandField (T.expand resolveNamespace depth)) = some pairs' at hpairs
      change ordered'.mapM (expandField (T'.expand resolveNamespace depth')) = some pairs' at hpairs'
      have hsub := perm_canonicalFieldOrder hordered
      have hsub' := (perm_canonicalFieldOrder hordered').trans hperm.symm
      obtain rfl : ordered = ordered' := eq_of_map_eq
        (fun f hf g hg => List.inj_on_of_nodup_map (hnames i d hrow hd) (hsub.mem_iff.mp hf) (hsub'.mem_iff.mp hg))
        ((names_of_mapM hpairs).symm.trans (names_of_mapM hpairs'))
      constructor
      · simp only [hd]
        intro c hc
        obtain ⟨f, hf, rfl⟩ := List.mem_map.mp hc
        obtain ⟨pair, hpair, hpair'⟩ := mapM_same hpairs hpairs' f (hsub.mem_iff.mpr hf)
        exact ⟨pair.2, (expandField_name hpair).2, (expandField_name hpair').2⟩
      · rintro j e hj he
        obtain rfl : i = j := by simpa using hj
        obtain rfl := Option.some.inj (hd.symm.trans he)
        exact ⟨d', ordered, hd', hperm, hordered, hordered'⟩
    | _ => exact ⟨fun c hc => absurd hc List.not_mem_nil, fun i d hi => by cases hi⟩

/-- Sizes that sort fields with names of their own alike compare them alike. -/
theorem fieldLess_of_sortedBy {size size' : StructField → UInt32} (hnames : (fields.map (·.name)).Nodup)
    (h : sortedBy size fields = sortedBy size' fields) {f g : StructField} (hf : f ∈ fields)
    (hg : g ∈ fields) : fieldLess (f, size f) (g, size g) = fieldLess (f, size' f) (g, size' g) := by
  have hboth : ∀ f ∈ sortedBy size fields, ∀ g ∈ sortedBy size fields,
      (fieldLe (f, size f) (g, size g) = true ∧ fieldLe (f, size' f) (g, size' g) = true) ∨
        (fieldLe (g, size g) (f, size f) = true ∧ fieldLe (g, size' g) (f, size' f) = true) := by
    have hsorted' : (sortedBy size' fields).Pairwise fun f g => fieldLe (f, size' f) (g, size' g) = true :=
      sortedBy_pairwise
    rw [← h] at hsorted'
    have hpairs : (sortedBy size fields).Pairwise fun f g =>
        (fieldLe (f, size f) (g, size g) = true ∧ fieldLe (f, size' f) (g, size' g) = true) ∨
          (fieldLe (g, size g) (f, size f) = true ∧ fieldLe (g, size' g) (f, size' f) = true) :=
      (sortedBy_pairwise.and hsorted').imp Or.inl
    have hrefl : ∀ x, fieldLe x x = true := fun x => by simpa using fieldLe_total x x
    exact fun f hf g hg => List.Pairwise.forall_of_forall_of_flip (fun f _ => .inl ⟨hrefl _, hrefl _⟩) hpairs
      (hpairs.imp Or.symm) hf hg
  by_cases hfg : f = g
  · subst hfg
    simp [fieldLess]
  · have hstrict : ∀ {sizes : StructField → UInt32} {f g : StructField}, f ∈ fields → g ∈ fields → f ≠ g →
        fieldLe (f, sizes f) (g, sizes g) = true →
        fieldLess (f, sizes f) (g, sizes g) = true ∧ fieldLess (g, sizes g) (f, sizes f) = false := by
      intro sizes f g hf hg hne hle
      refine ⟨?_, by simpa [fieldLe] using hle⟩
      by_contra hless
      have hge : fieldLe (g, sizes g) (f, sizes f) = true := by simpa [fieldLe] using hless
      exact hne (List.inj_on_of_nodup_map hnames hf hg (fieldLe_antisymm hle hge).1)
    rcases hboth f (mem_sortedBy.mpr hf) g (mem_sortedBy.mpr hg) with ⟨hle, hle'⟩ | ⟨hle, hle'⟩
    · rw [(hstrict hf hg hfg hle).1, (hstrict hf hg hfg hle').1]
    · rw [(hstrict hg hf (Ne.symm hfg) hle).2, (hstrict hg hf (Ne.symm hfg) hle').2]

/-- One structure in both tables keeps the order of the fields in everything that it refers to. -/
theorem keepsOrder_of_expand (h : FieldsPermuted T T' defId) : ∀ {depth depth' type : ℕ} {s : Structure},
    T.expand resolveNamespace depth type = some s → T'.expand resolveNamespace depth' type = some s →
    (∀ u, ReflTransGen T.Refers type u → T.DistinctNames u) →
    ∀ u, ReflTransGen T.Refers type u → T.KeepsOrder T' u := by
  intro depth
  induction depth with
  | zero =>
    intro depth' type s hs
    cases hs
  | succ depth ih =>
    rintro (_ | depth') type s hs hs' hnames u hu
    · cases hs'
    · obtain ⟨hcomponents, hfields⟩ := expand_same h hs hs' (hnames type .refl)
      rcases hu.cases_head with rfl | ⟨c, hc, hcu⟩
      · intro f hf g hg a b a' b' ha hb ha' hb'
        have hstruct : ∃ i d, T.lookup type = some (.struct i) ∧ T.structDefs[i]? = some d ∧
            2 ≤ d.fields.length ∧ T.comparedFields type = d.fields := by
          rw [comparedFields] at hf ⊢
          split at hf
          · next i hrow =>
            split at hf
            · next d hd =>
              split at hf
              · cases hf
              · next hlong => exact ⟨i, d, hrow, hd, by omega, by simp [hlong]⟩
            · cases hf
          · cases hf
        obtain ⟨i, d, hrow, hd, htwo, hcompared⟩ := hstruct
        obtain ⟨d', ordered, hd', hperm, hordered, hordered'⟩ := hfields i d hrow hd
        rw [hcompared] at hf hg
        have hsize : ∀ {V : TypeIntern} {n : ℕ} {fields : List StructField} {f : StructField} {bytes : UInt32},
            V.canonicalFieldOrder n fields = some ordered → 2 ≤ fields.length → f ∈ fields →
            V.HasSize f.type bytes → V.sizeAt n f = bytes := by
          intro V n fields f bytes hordered htwo hf hbytes
          have hsome := isSome_canonicalFieldOrder.mp (Option.isSome_iff_exists.mpr ⟨ordered, hordered⟩) htwo f hf
          obtain ⟨bytes', hbytes'⟩ := Option.isSome_iff_exists.mp hsome
          rw [sizeAt, hbytes', Option.getD_some]
          exact HasSize.unique ⟨n, hbytes'⟩ hbytes
        have hnodup := hnames type .refl i d hrow hd
        have hsorted : sortedBy (T.sizeAt depth) d.fields = sortedBy (T'.sizeAt depth') d.fields := by
          rw [← canonicalFieldOrder_eq hordered, canonicalFieldOrder_eq hordered']
          exact (sortedBy_perm hperm hnodup).symm
        have hless := fieldLess_of_sortedBy hnodup hsorted hf hg
        rwa [hsize hordered htwo hf ha, hsize hordered htwo hg hb,
          hsize hordered' (hperm.length_eq ▸ htwo) (hperm.mem_iff.mp hf) ha',
          hsize hordered' (hperm.length_eq ▸ htwo) (hperm.mem_iff.mp hg) hb'] at hless
      · obtain ⟨t, ht, ht'⟩ := hcomponents c hc
        exact ih ht ht' (fun v hv => hnames v (.head hc hv)) u hcu

end

/-- The id of a structure. -/
def idOf (kind : UInt64) (s : Structure) : TypeCanonicalId where
  hi := (u64 kind ++ spelled s).foldl (fun hash b => (hash ^^^ b.toUInt64) * 1099511628211) 14695981039346656037
  lo := (u64 kind ++ spelled s).foldl (fun hash b => (hash ^^^ (b ^^^ 0x5c).toUInt64) * 1099511628211)
    14695981039346656037

theorem canonicalTypeId_eq (depth type : ℕ) : T.canonicalTypeId resolveNamespace depth type =
    (T.expand resolveNamespace depth type).map (idOf (T.kindOf type)) := by
  rw [canonicalTypeId, canonicalBytes_eq]
  cases T.expand resolveNamespace depth type with
  | none => rfl
  | some s => simp only [Option.map_some, Option.bind_eq_bind, Option.bind_some, Option.pure_def, idOf]

theorem exists_expand {depth type : ℕ} {id : TypeCanonicalId}
    (h : T.canonicalTypeId resolveNamespace depth type = some id) :
    ∃ s, T.expand resolveNamespace depth type = some s ∧ idOf (T.kindOf type) s = id := by
  rw [canonicalTypeId_eq] at h
  exact Option.map_eq_some_iff.mp h

theorem FieldsPermuted.kindOf_eq {defId : ℕ} (h : FieldsPermuted T T' defId) : T'.kindOf = T.kindOf :=
  funext fun type => by rw [kindOf, kindOf, h.lookup_eq]

/-- Whatever has an id has sizes for the fields that are compared. -/
theorem sized_of_id {depth type : ℕ} {id : TypeCanonicalId}
    (h : T.canonicalTypeId resolveNamespace depth type = some id) : ∀ u, ReflTransGen T.Refers type u →
    ∀ field ∈ T.comparedFields u, ∃ n, (T.typeByteCount n field.type).isSome :=
  ((canonicalTypeId_returns_iff T resolveNamespace type).mp ⟨depth, id, h⟩).sized

end TypeIntern

open TypeIntern

/-- The order in which a struct declares its fields changes neither the order in which they are described nor the id of
    the struct. The id of a type around it stays where the fields of all structs in it keep their order by size and
    name; where they do not, its structure is another one. -/
theorem canonicalTypeId_permuted {T T' : TypeIntern} {defId : ℕ} (h : T.FieldsPermuted T' defId)
    (resolveNamespace : Text → Text) : (∀ type d d', T.lookup type = some (.struct defId) →
      (∀ u, TransGen T.LooksAt type u → T.lookup u ≠ some (.struct defId)) →
      T.structDefs[defId]? = some d → T'.structDefs[defId]? = some d' →
      (∀ depth, T'.canonicalFieldOrder depth d'.fields = T.canonicalFieldOrder depth d.fields) ∧
      ∀ depth id, T.canonicalTypeId resolveNamespace depth type = some id →
        ∃ depth', T'.canonicalTypeId resolveNamespace depth' type = some id) ∧
    (∀ type depth depth' id id', T.canonicalTypeId resolveNamespace depth type = some id →
      T'.canonicalTypeId resolveNamespace depth' type = some id' →
      (∀ u, ReflTransGen T.Refers type u → T.KeepsOrder T' u) → id = id') ∧
    ∀ type depth depth' s s', T.expand resolveNamespace depth type = some s →
      T'.expand resolveNamespace depth' type = some s' → (∀ u, ReflTransGen T.Refers type u → T.DistinctNames u) →
      ¬(∀ u, ReflTransGen T.Refers type u → T.KeepsOrder T' u) → s ≠ s' := by
  refine ⟨fun type d d' hrow hself hd hd' => ?_, fun type depth depth' id id' hid hid' hkeeps => ?_,
    fun type depth depth' s s' hs hs' hnames hkeeps heq => hkeeps (keepsOrder_of_expand h hs (heq ▸ hs') hnames)⟩
  · have havoids : ∀ {c}, T.LooksAt type c → T.Avoids defId c := fun hc u hu => hself u (.head' hc hu)
    obtain ⟨d₀, fields, hd₀, hd₀', hperm, hnames⟩ := h.permuted
    obtain rfl := Option.some.inj (hd.symm.trans hd₀)
    obtain rfl := Option.some.inj (hd'.symm.trans hd₀')
    have hfield : ∀ f ∈ d.fields, T.Avoids defId f.type := by
      intro f hf
      refine havoids (.inl ?_)
      simp only [components, hrow, hd]
      exact List.mem_map_of_mem hf
    constructor
    · intro depth
      have hsizes : ∀ f ∈ d.fields, T'.typeByteCount depth f.type = T.typeByteCount depth f.type := fun f hf =>
        (h.measures (hfield f hf)).2
      have hsome : (T'.canonicalFieldOrder depth fields).isSome = (T.canonicalFieldOrder depth d.fields).isSome := by
        rw [Bool.eq_iff_iff, isSome_canonicalFieldOrder, isSome_canonicalFieldOrder, hperm.length_eq]
        refine imp_congr_right fun _ => ⟨fun hall f hf => ?_, fun hall f hf => ?_⟩
        · rw [← hsizes f hf]
          exact hall f (hperm.mem_iff.mp hf)
        · rw [hsizes f (hperm.mem_iff.mpr hf)]
          exact hall f (hperm.mem_iff.mpr hf)
      have hsorted : sortedBy (T'.sizeAt depth) fields = sortedBy (T.sizeAt depth) d.fields := by
        rw [← sortedBy_perm hperm hnames]
        exact sortedBy_congr fun f hf g hg => by rw [sizeAt, sizeAt, sizeAt, sizeAt, hsizes f hf, hsizes g hg]
      cases hordered : T.canonicalFieldOrder depth d.fields with
      | none =>
        rw [hordered] at hsome
        exact Option.isNone_iff_eq_none.mp (by simpa using hsome)
      | some ordered =>
        rw [hordered] at hsome
        obtain ⟨ordered', hordered'⟩ := Option.isSome_iff_exists.mp hsome
        rw [hordered', canonicalFieldOrder_eq hordered', canonicalFieldOrder_eq hordered, hsorted]
    · intro depth id hid
      obtain ⟨s, hs, rfl⟩ := exists_expand hid
      have hcompared : ∀ u, ReflTransGen T.Refers type u → ∀ f ∈ T.comparedFields u, T.Avoids defId f.type := by
        intro u hu f hf
        have hcomponent := comparedFields_subset hf
        rcases reflTransGen_iff_eq_or_transGen.mp hu with rfl | hgo
        · exact havoids (.inl hcomponent)
        · have hlooks : TransGen T.LooksAt type u := by
            clear hcomponent hf hu
            induction hgo with
            | single hc => exact .single (.inl hc)
            | tail _ hc ih => exact ih.tail (.inl hc)
          exact fun v hv => hself v (hlooks.trans_left (.head (.inl hcomponent) hv))
      have hsized' : ∀ u, ReflTransGen T.Refers type u → ∀ f ∈ T'.comparedFields u,
          ∃ n, (T'.typeByteCount n f.type).isSome := by
        intro u hu f hf
        have hf := h.symm.compared hf
        obtain ⟨n, hn⟩ := sized_of_id hid u hu f hf
        exact ⟨n, by rwa [(h.measures (hcompared u hu f hf)).2]⟩
      obtain ⟨n, hn⟩ := expand_permuted h hs hsized' fun u hu => h.keepsOrder (hcompared u hu)
      exact ⟨n, by rw [canonicalTypeId_eq, hn, h.kindOf_eq]; rfl⟩
  · obtain ⟨s, hs, rfl⟩ := exists_expand hid
    obtain ⟨s', hs', rfl⟩ := exists_expand hid'
    have hsized' : ∀ u, ReflTransGen T.Refers type u → ∀ f ∈ T'.comparedFields u,
        ∃ n, (T'.typeByteCount n f.type).isSome := fun u hu => sized_of_id hid' u (h.reaches hu)
    obtain ⟨n, hn⟩ := expand_permuted h hs hsized' hkeeps
    have hsame : s = s' := Option.some.inj
      ((expand_le (Nat.le_max_left n depth') hn).symm.trans (expand_le (Nat.le_max_right n depth') hs'))
    rw [hsame, h.kindOf_eq]

/-! ### A struct in a struct -/

theorem TypeIntern.canonicalFieldOrder_of_perm {T : TypeIntern} {depth : ℕ} {fields ordered : List StructField}
    (hperm : fields.Perm ordered) (hnames : (fields.map (·.name)).Nodup)
    (hsizes : ∀ f ∈ fields, (T.typeByteCount depth f.type).isSome)
    (hsorted : ordered.Pairwise fun f g => fieldLe (f, T.sizeAt depth f) (g, T.sizeAt depth g) = true) :
    T.canonicalFieldOrder depth fields = some ordered := by
  rw [canonicalFieldOrder_of_sizes fun _ => hsizes, sortedBy_perm hperm hnames, sortedBy,
    List.mergeSort_of_pairwise hsorted]

theorem TypeIntern.expand_struct {T : TypeIntern} {resolveNamespace : Text → Text} {depth type defId : ℕ} {d : StructDef}
    {ordered : List StructField} {pairs : List (Text × Structure)} (hrow : T.lookup type = some (.struct defId))
    (hd : T.structDefs[defId]? = some d) (hordered : T.canonicalFieldOrder depth d.fields = some ordered)
    (hpairs : ordered.mapM (expandField (T.expand resolveNamespace depth)) = some pairs) :
    T.expand resolveNamespace (depth + 1) type =
      some (.struct (resolveNamespace d.definingModule) d.name d.explicitAlignmentBytes pairs) := by
  rw [expand, hrow]
  change (T.structDefs[defId]?.bind fun d => (T.canonicalFieldOrder depth d.fields).bind fun ordered =>
    (ordered.mapM (expandField (T.expand resolveNamespace depth))).bind _) = _
  rw [hd, Option.bind_some, hordered, Option.bind_some, hpairs]
  rfl

/-- `struct S`, and `struct Q { s: S; x: [u8; 10] }`. -/
def nestedStruct (fields : List (Text × ℕ)) : TypeIntern :=
  .build ([.intern (.int .u8), .intern (.int .u32), .intern (.array 5 10), .defineStruct [0x53], .defineStruct [0x51],
    .addField 9 [0x73] 8, .addField 9 [0x78] 7] ++ fields.map fun field => .addField 8 field.1 field.2)

/-- A byte, a word of four and a byte. -/
def spread : TypeIntern := nestedStruct [([0x61], 5), ([0x62], 6), ([0x63], 5)]

/-- Two bytes and a word of four. -/
def packed : TypeIntern := nestedStruct [([0x61], 5), ([0x63], 5), ([0x62], 6)]

/-- The fields of `S`, the bytes first. -/
def innerStructure : Structure :=
  .struct [] [0x53] 0 [([0x61], .leaf (.int .u8)), ([0x63], .leaf (.int .u8)), ([0x62], .leaf (.int .u32))]

def tenBytes : Structure := .wrap (.array 10) (.leaf (.int .u8))

theorem fieldsPermuted_spread : spread.FieldsPermuted packed 0 where
  rows := ⟨rfl, rfl, rfl, rfl⟩
  others := by
    rintro (_ | _ | i) hi
    · exact absurd rfl hi
    · rfl
    · rfl
  permuted := ⟨_, _, rfl, rfl, by decide, by decide⟩

/-- The bytes of `S` are smaller than its word, and `x` is smaller than `s` where `S` is spread. -/
theorem sorted_spread : spread.canonicalFieldOrder 2 [⟨[0x61], 5⟩, ⟨[0x62], 6⟩, ⟨[0x63], 5⟩] =
      some [⟨[0x61], 5⟩, ⟨[0x63], 5⟩, ⟨[0x62], 6⟩] ∧
    spread.canonicalFieldOrder 3 [⟨[0x73], 8⟩, ⟨[0x78], 7⟩] = some [⟨[0x78], 7⟩, ⟨[0x73], 8⟩] :=
  ⟨canonicalFieldOrder_of_perm (by decide) (by decide) (by decide +kernel) (by decide +kernel),
    canonicalFieldOrder_of_perm (by decide) (by decide) (by decide +kernel) (by decide +kernel)⟩

theorem sorted_packed : packed.canonicalFieldOrder 2 [⟨[0x61], 5⟩, ⟨[0x63], 5⟩, ⟨[0x62], 6⟩] =
      some [⟨[0x61], 5⟩, ⟨[0x63], 5⟩, ⟨[0x62], 6⟩] ∧
    packed.canonicalFieldOrder 3 [⟨[0x73], 8⟩, ⟨[0x78], 7⟩] = some [⟨[0x73], 8⟩, ⟨[0x78], 7⟩] :=
  ⟨canonicalFieldOrder_of_perm (by decide) (by decide) (by decide +kernel) (by decide +kernel),
    canonicalFieldOrder_of_perm (by decide) (by decide) (by decide +kernel) (by decide +kernel)⟩

theorem expand_inner : spread.expand (fun key => key) 3 8 = some innerStructure ∧
    packed.expand (fun key => key) 3 8 = some innerStructure :=
  ⟨expand_struct (d := ⟨[0x53], [⟨[0x61], 5⟩, ⟨[0x62], 6⟩, ⟨[0x63], 5⟩], [], false, 0, 0, 0⟩) rfl rfl sorted_spread.1 rfl,
    expand_struct (d := ⟨[0x53], [⟨[0x61], 5⟩, ⟨[0x63], 5⟩, ⟨[0x62], 6⟩], [], false, 0, 0, 0⟩) rfl rfl sorted_packed.1 rfl⟩

theorem expand_outer :
    spread.expand (fun key => key) 4 9 = some (.struct [] [0x51] 0 [([0x78], tenBytes), ([0x73], innerStructure)]) ∧
    packed.expand (fun key => key) 4 9 = some (.struct [] [0x51] 0 [([0x73], innerStructure), ([0x78], tenBytes)]) := by
  obtain ⟨hspread, hpacked⟩ := expand_inner
  constructor
  · refine expand_struct (d := ⟨[0x51], [⟨[0x73], 8⟩, ⟨[0x78], 7⟩], [], false, 0, 0, 0⟩) rfl rfl sorted_spread.2 ?_
    rw [List.mapM_cons, expandField, List.mapM_cons, expandField, hspread]
    rfl
  · refine expand_struct (d := ⟨[0x51], [⟨[0x73], 8⟩, ⟨[0x78], 7⟩], [], false, 0, 0, 0⟩) rfl rfl sorted_packed.2 ?_
    rw [List.mapM_cons, expandField, List.mapM_cons, expandField, hpacked]
    rfl

theorem canonicalTypeId_permuted_spread : ∃ id depth', spread.canonicalTypeId (fun key => key) 3 8 = some id ∧
    packed.canonicalTypeId (fun key => key) depth' 8 = some id := by
  have hself : ∀ u, TransGen spread.LooksAt 8 u → spread.lookup u ≠ some (.struct 0) := by
    have hsmall : ∀ u, TransGen spread.LooksAt 8 u → u = 5 ∨ u = 6 := by
      intro u hu
      induction hu with
      | single hc =>
        rcases hc with hc | ⟨i, d, hrow, -⟩
        · have hc : _ ∈ [5, 6, 5] := hc
          simpa [or_comm] using hc
        · cases hrow
      | tail _ hc ih =>
        rcases ih with rfl | rfl <;> rcases hc with hc | ⟨i, d, hrow, -⟩ <;> cases ‹_›
    intro u hu
    rcases hsmall u hu with rfl | rfl <;> decide
  obtain ⟨id, hid⟩ : ∃ id, spread.canonicalTypeId (fun key => key) 3 8 = some id := by
    rw [canonicalTypeId_eq, expand_inner.1]
    exact ⟨_, rfl⟩
  obtain ⟨depth', hid'⟩ :=
    ((canonicalTypeId_permuted fieldsPermuted_spread (fun key => key)).1 8 _ _ rfl hself rfl rfl).2 3 id hid
  exact ⟨id, depth', hid, hid'⟩

/-- The hash in numbers. -/
theorem toNat_hash : ∀ (bytes : List UInt8) (hash : UInt64),
    (bytes.foldl (fun hash b => (hash ^^^ b.toUInt64) * 1099511628211) hash).toNat =
      bytes.foldl (fun n b => (n ^^^ b.toNat) * 1099511628211 % 2 ^ 64) hash.toNat := by
  intro bytes
  induction bytes with
  | nil => exact fun _ => rfl
  | cons b bytes ih =>
    intro hash
    rw [List.foldl_cons, List.foldl_cons, ih, UInt64.toNat_mul, UInt64.toNat_xor, UInt8.toNat_toUInt64]
    rfl

theorem canonicalTypeId_nested : ∃ id id', spread.FieldsPermuted packed 0 ∧
    spread.canonicalTypeId (fun key => key) 4 9 = some id ∧
    packed.canonicalTypeId (fun key => key) 4 9 = some id' ∧ id ≠ id' := by
  rw [canonicalTypeId_eq, canonicalTypeId_eq, expand_outer.1, expand_outer.2]
  refine ⟨_, _, fieldsPermuted_spread, rfl, rfl, fun heq => ?_⟩
  have hhash := congrArg (fun id => id.hi.toNat) heq
  simp only [idOf, toNat_hash] at hhash
  revert hhash
  decide +kernel

end Zith.Types
