import Mathlib.Algebra.Group.Nat.Defs
import Zith.Types.Coercion

/-! `lowerCoerceToOptionalDepth`: the optional layers that a value lacks are put around it. The loop puts one layer
    around the value in each turn, and takes the layer from the target:

        bare value      the layer inside the target's outermost one, where there is one
        optional value  the whole target, whose outermost layer is then taken off

    so that it meets every layer only where one or two of them are missing. -/

namespace Zith.Sema
open Zith.Types

/-- A value of HIR, as far as it is wrapped here. -/
inductive WrappedExpr
  | value (id : ℕ)
  | makeSome (type : ℕ) (value : WrappedExpr)
  deriving DecidableEq

/-- The layers around a value, from the inside out. -/
def wrap (value : WrappedExpr) (types : List ℕ) : WrappedExpr := types.foldl (fun value type => .makeSome type value) value

/-- Neither `kErrorType` nor `kInvalidType`. -/
def validType (type : ℕ) : Bool := type ≠ 0 && type ≠ 2 ^ 32 - 1

structure HirLower where
  sema : Coercions
  lowerType : TypeId → ℕ

namespace HirLower

variable (L : HirLower)

/-- The loop; `fuel` bounds its turns, `depth` the calls inside each other of the type relations. -/
def addLayers (depth : ℕ) (value : WrappedExpr) : ℕ → TypeId → TypeId → WrappedExpr → Option WrappedExpr
  | 0, _, _, _ => none
  | fuel + 1, target, currentType, current =>
    let stripped := L.sema.table.stripQualifiers target
    if L.sema.table.kindOf stripped ≠ .optional then some current
    else
      (L.sema.sameType depth target currentType).bind fun same =>
        if same then some current
        else
          (L.sema.coercesTo depth target currentType).bind fun coerces =>
            if !coerces then some current
            else
              match L.sema.table.findEntry stripped with
              | some (.optional inner) =>
                let sourceIsOptional := L.sema.table.kindOf (L.sema.table.stripQualifiers currentType) = .optional
                let layer := if sourceIsOptional ∨ L.sema.table.kindOf inner ≠ .optional then target else inner
                if validType (L.lowerType layer) then
                  addLayers depth value fuel (if sourceIsOptional then inner else target) layer
                    (.makeSome (L.lowerType layer) current)
                else some value
              | _ => some value

def lowerCoerceToOptionalDepth (depth : ℕ) (target : ℕ) (targetSema sourceSema : TypeId) (value : WrappedExpr) :
    Option WrappedExpr :=
  if validType target ∧ targetSema ≠ 0 ∧ sourceSema ≠ 0 then L.addLayers depth value depth targetSema sourceSema value
  else some value

end HirLower

/-! ### Types in layers -/

/-- `layer k` is a type in `k` optional layers, up to `n` of them. -/
def Layers (T : TypeTable) (layer : ℕ → TypeId) (n : ℕ) : Prop :=
  ∀ k < n, T.findEntry (layer (k + 1)) = some (.optional (layer k))

section
variable {S : Coercions} {id inner : TypeId}

theorem canonical_optional (h : S.table.findEntry id = some (.optional inner)) : S.table.canonical id = id :=
  TypeTable.fixed_of_entry (by simp [h]) 8

theorem kindOf_optional (h : S.table.findEntry id = some (.optional inner)) : S.table.kindOf id = .optional :=
  TypeTable.kindOf_fixed (TypeTable.fixed_of_entry (by simp [h])) h

theorem resolve_optional (h : S.table.findEntry id = some (.optional inner)) : S.resolve id = id := by
  rw [PerModuleSema.resolve, canonical_optional h, PerModuleSema.resolveFrom]
  simp [h]

theorem strip_optional (h : S.table.findEntry id = some (.optional inner)) : S.table.stripQualifiers id = id := by
  rw [TypeTable.stripQualifiers, TypeTable.stripFrom, canonical_optional h]
  simp [h, canonical_optional h]

theorem optional_ne (h : S.table.findEntry id = some (.optional inner)) :
    id ≠ S.errorType ∧ id ≠ S.nullType ∧ id ≠ S.voidType := by
  refine ⟨?_, ?_, ?_⟩
  · rintro rfl
    simp [S.error_name] at h
  · rintro rfl
    simp [S.null_name] at h
  · rintro rfl
    simp [S.void_name] at h

/-- What lies behind at most eight qualifiers is found behind the aliases and qualifiers, if it is none itself. -/
theorem resolveFrom_strip (r : ℕ) : ∀ (g : ℕ) {a : TypeId},
    (∀ t, S.table.findEntry (S.table.canonical (S.table.stripFrom g a)) ≠ some (.alias t)) →
    (∀ t, S.table.findEntry (S.table.canonical (S.table.stripFrom g a)) ≠ some (.qualified t)) →
    PerModuleSema.resolveFrom S.table (r + g) (S.table.canonical a) = S.table.canonical (S.table.stripFrom g a)
  | 0, a, halias, hqualified => by
    rw [TypeTable.stripFrom] at halias hqualified ⊢
    cases r with
    | zero => rfl
    | succ r =>
      rw [Nat.add_zero, PerModuleSema.resolveFrom]
      split
      · next t ht => exact absurd ht (halias t)
      · next t ht => exact absurd ht (hqualified t)
      · rfl
  | g + 1, a, halias, hqualified => by
    rw [TypeTable.stripFrom] at halias hqualified ⊢
    rw [← Nat.add_assoc, PerModuleSema.resolveFrom]
    split at halias
    · next b hentry =>
      simp only [hentry] at hqualified ⊢
      exact resolveFrom_strip r g halias hqualified
    · next hnone =>
      split
      · next t ht => exact absurd ht (halias t)
      · next t ht => exact absurd ht (hnone t)
      · rfl

/-- A type that resolves to no optional has none behind its qualifiers either. -/
theorem kind_strip_bare {a : TypeId} (h : S.table.kindOf (S.resolve a) ≠ .optional) :
    S.table.kindOf (S.table.stripQualifiers a) ≠ .optional := by
  intro hstrip
  have hfixed := S.fixed_canonical (S.table.stripFrom 8 a)
  have hkind : ∀ entry, S.table.findEntry (S.table.canonical (S.table.stripFrom 8 a)) = some entry →
      entry.kind = .optional := by
    intro entry hentry
    rw [← hstrip, TypeTable.stripQualifiers, TypeTable.kindOf_fixed hfixed hentry]
  refine h ?_
  rw [PerModuleSema.resolve, resolveFrom_strip 8 8 (fun t ht => by cases hkind _ ht) fun t ht => by cases hkind _ ht]
  exact hstrip

theorem kind_bare {a : TypeId} (h : S.table.kindOf (S.resolve a) ≠ .optional) : S.table.kindOf a ≠ .optional := by
  intro hkind
  have hfixed := S.fixed_canonical a
  have hcanonical : S.table.kindOf (S.table.canonical a) = .optional := by
    rw [← hkind, TypeTable.kindOf, TypeTable.kindOf, TypeTable.canonical, hfixed 8]
  have hentry : ∀ entry, S.table.findEntry (S.table.canonical a) = some entry → entry.kind = .optional := by
    intro entry hentry
    rw [← hcanonical, TypeTable.kindOf_fixed hfixed hentry]
  have hresolve : S.resolve a = S.table.canonical a :=
    resolveFrom_strip 16 0 (fun t ht => by cases hentry _ ht) fun t ht => by cases hentry _ ht
  exact h (hresolve ▸ hcanonical)

end

/-! ### Comparing layers -/

section
variable {S : Coercions} {t s : ℕ → TypeId} {n m : ℕ}

theorem kind_resolve_layer (ht : Layers S.table t n) {k : ℕ} (hk : k < n) :
    S.resolve (t (k + 1)) = t (k + 1) ∧ S.table.kindOf (t (k + 1)) = .optional :=
  ⟨resolve_optional (ht k hk), kindOf_optional (ht k hk)⟩

theorem resolve_ne (hbare : S.table.kindOf (S.resolve (t 0)) ≠ .optional) (hs : Layers S.table s m) {k : ℕ} (hk : k < m) :
    S.resolve (t 0) ≠ S.resolve (s (k + 1)) := by
  intro h
  obtain ⟨hresolve, hkind⟩ := kind_resolve_layer hs hk
  rw [h, hresolve] at hbare
  exact hbare hkind

/-- A bare type and an optional one are compared by their kinds, unless the bare one is the error type or null. -/
theorem sameType_bare (hbare : S.table.kindOf (S.resolve (t 0)) ≠ .optional) (hs : Layers S.table s m) {k : ℕ}
    (hk : k < m) (depth : ℕ) : (S.Proper (t 0) → S.sameType (depth + 1) (t 0) (s (k + 1)) = some false ∧
      S.sameType (depth + 1) (s (k + 1)) (t 0) = some false) ∧
    (¬S.Proper (t 0) → S.sameType (depth + 1) (t 0) (s (k + 1)) = some true ∧
      S.sameType (depth + 1) (s (k + 1)) (t 0) = some true) := by
  obtain ⟨hresolve, hkind⟩ := kind_resolve_layer hs hk
  obtain ⟨herror, hnull, -⟩ := optional_ne (hs k hk)
  have hne := resolve_ne hbare hs hk
  have hids : t 0 ≠ s (k + 1) := fun h => hne (congrArg S.resolve h)
  rw [hresolve] at hne
  simp only [PerModuleSema.sameType, hresolve, if_neg hids, if_neg hids.symm, if_neg hne, if_neg hne.symm,
    PerModuleSema.sameResolved, hkind]
  constructor
  · rintro ⟨hproper, hproper'⟩
    simp [hproper, hproper', herror, hnull, hbare, Ne.symm hbare, PerModuleSema.stateOrFnShape]
  · intro himproper
    by_cases hnulltype : S.resolve (t 0) = S.nullType
    · simp [hnulltype]
    · have herrortype : S.resolve (t 0) = S.errorType := by
        by_contra h
        exact himproper ⟨h, hnulltype⟩
      have hne' : S.errorType ≠ S.nullType := fun h => hnulltype (herrortype.trans h)
      simp [herrortype, hnull, hne']

/-- Two types in layers around one bare type are the same if they have as many layers, or if the bare type is the same
    as everything. -/
theorem sameType_layers (hbare : S.table.kindOf (S.resolve (t 0)) ≠ .optional) (hst : s 0 = t 0) :
    ∀ {k j : ℕ} {depth : ℕ}, Layers S.table t k → Layers S.table s j → k < depth →
      (S.Proper (t 0) → S.sameType depth (t k) (s j) = some (decide (k = j))) ∧
      (¬S.Proper (t 0) → S.sameType depth (t k) (s j) = some true)
  | 0, 0, depth + 1, _, _, _ => by simp [PerModuleSema.sameType, hst]
  | 0, j + 1, depth + 1, _, hs, _ => by
    obtain ⟨hproper, himproper⟩ := sameType_bare hbare hs (Nat.lt_succ_self j) depth
    exact ⟨fun h => (hproper h).1.trans (by simp), fun h => (himproper h).1⟩
  | k + 1, 0, depth + 1, ht, _, _ => by
    obtain ⟨hproper, himproper⟩ := sameType_bare hbare ht (Nat.lt_succ_self k) depth
    rw [hst]
    exact ⟨fun h => (hproper h).2.trans (by simp), fun h => (himproper h).2⟩
  | k + 1, j + 1, depth + 1, ht, hs, hk => by
    have ih := @sameType_layers hbare hst k j depth (fun i hi => ht i (Nat.lt_succ_of_lt hi))
      (fun i hi => hs i (Nat.lt_succ_of_lt hi)) (Nat.lt_of_succ_lt_succ hk)
    have htk := ht k (Nat.lt_succ_self k)
    have hsj := hs j (Nat.lt_succ_self j)
    obtain ⟨herror, hnull, -⟩ := optional_ne htk
    obtain ⟨herror', hnull', -⟩ := optional_ne hsj
    obtain ⟨depth, rfl⟩ : ∃ d, depth = d + 1 := ⟨depth - 1, by omega⟩
    by_cases hids : t (k + 1) = s (j + 1)
    · have hinner : t k = s j := by
        rw [hids, hsj] at htk
        exact (Entry.optional.inj (Option.some.inj htk)).symm
      have hsame : S.sameType (depth + 1) (t k) (s j) = some true := by simp [PerModuleSema.sameType, hinner]
      have htop : S.sameType (depth + 1 + 1) (t (k + 1)) (s (j + 1)) = some true := by
        simp [PerModuleSema.sameType, hids]
      rw [hsame] at ih
      exact ⟨fun h => by rw [htop, ih.1 h]; simp, fun _ => htop⟩
    · have htop : S.sameType (depth + 1 + 1) (t (k + 1)) (s (j + 1)) = S.sameType (depth + 1) (t k) (s j) := by
        rw [PerModuleSema.sameType, resolve_optional htk, resolve_optional hsj, if_neg hids, if_neg hids,
          PerModuleSema.sameResolved, kindOf_optional htk, kindOf_optional hsj]
        simp [herror, hnull, herror', hnull', PerModuleSema.sameEntry, htk, hsj]
      rw [htop]
      exact ⟨fun h => (ih.1 h).trans (by simp), ih.2⟩

/-- Two layers around a type are no pointer. -/
theorem pointerBase_layers (hs : Layers S.table s (m + 2)) : S.pointerBase (s (m + 2)) = 0 := by
  have htop := hs (m + 1) (Nat.lt_succ_self _)
  have hinner := hs m (Nat.lt_succ_of_lt (Nat.lt_succ_self _))
  rw [Coercions.pointerBase, resolve_optional htop, kindOf_optional htop, htop]
  simp [resolve_optional hinner, kindOf_optional hinner]

theorem isNullable_layers (hs : Layers S.table s (m + 2)) : S.isNullablePointer (s (m + 2)) = false := by
  have htop := hs (m + 1) (Nat.lt_succ_self _)
  rw [Coercions.isNullablePointer, resolve_optional htop, pointerBase_layers hs]
  simp

/-- What a layer's own rule says: null, or what the type inside says. -/
theorem coercesByTarget_layer {same coerces : TypeId → TypeId → Option Bool} {id inner source : TypeId}
    (h : S.table.findEntry id = some (.optional inner)) : S.coercesByTarget same coerces id source =
      if S.resolve source = S.nullType then some true else orTry (same inner source) (coerces inner source) := by
  rw [Coercions.coercesByTarget, resolve_optional h, kindOf_optional h, h]

/-- More layers are accepted around fewer. -/
theorem coercesTo_more (hbare : S.table.kindOf (S.resolve (t 0)) ≠ .optional) (hst : s 0 = t 0) {j : ℕ}
    (hs : Layers S.table s j) : ∀ {k depth : ℕ}, Layers S.table t k → j ≤ k → k < depth →
      S.coercesTo depth (t k) (s j) = some true
  | k, depth + 1, ht, hle, hk => by
    obtain ⟨hproper, himproper⟩ := sameType_layers hbare hst ht hs hk
    rw [Coercions.coercesTo]
    by_cases h : S.Proper (t 0)
    · rw [hproper h]
      by_cases hkj : k = j
      · simp [hkj]
      · obtain ⟨k, rfl⟩ : ∃ k', k = k' + 1 := ⟨k - 1, by omega⟩
        have hinner : Layers S.table t k := fun i hi => ht i (Nat.lt_succ_of_lt hi)
        have hsame := (sameType_layers hbare hst hinner hs (show k < depth + 1 by omega)).1 h
        have ih := coercesTo_more hbare hst hs hinner (show j ≤ k by omega) (show k < depth by omega)
        rw [coercesByTarget_layer (ht k (Nat.lt_succ_self k)), hsame, ih]
        by_cases hnull : S.resolve (s j) = S.nullType <;> cases decide (k = j) <;> simp [hkj, hnull]
    · rw [himproper h, orTry_true]

/-- A bare type accepts two layers or more if it is `opaque` alone. -/
theorem coercesTo_bare (hbare : S.table.kindOf (S.resolve (t 0)) ≠ .optional) (hproper : S.Proper (t 0))
    (hs : Layers S.table s (m + 2)) (depth : ℕ) :
    S.coercesTo (depth + 1) (t 0) (s (m + 2)) = some (decide (S.table.kindOf (S.resolve (t 0)) = .opaqueTagged)) := by
  have htop := hs (m + 1) (Nat.lt_succ_self _)
  obtain ⟨-, hnull, hvoid⟩ := optional_ne htop
  have hsame := ((sameType_bare hbare hs (Nat.lt_succ_self (m + 1)) depth).1 hproper).1
  have hshape : S.coercesByShape (S.sameType (depth + 1)) (t 0) (s (m + 2)) = some false := by
    rw [Coercions.coercesByShape, pointerBase_layers hs, resolve_optional htop, htop]
    simp
  have hunchecked : S.allowsUncheckedNullablePointer (S.sameType (depth + 1)) (t 0) (s (m + 2)) = some false := by
    rw [Coercions.allowsUncheckedNullablePointer, resolve_optional htop, isNullable_layers hs]
    simp
  have htarget : S.coercesByTarget (S.sameType (depth + 1)) (S.coercesTo depth) (t 0) (s (m + 2)) =
      some (decide (S.table.kindOf (S.resolve (t 0)) = .opaqueTagged)) := by
    rw [Coercions.coercesByTarget, resolve_optional htop, kindOf_optional htop]
    cases hkind : S.table.kindOf (S.resolve (t 0)) with
    | optional => exact absurd hkind hbare
    | opaqueTagged => simp [hnull, hvoid]
    | dyn =>
      dsimp only
      split
      · simp [Coercions.erasable, kindOf_optional htop]
      · rfl
    | _ => exact hunchecked
  rw [Coercions.coercesTo, hsame, orTry_false, htarget, hshape]
  cases decide (S.table.kindOf (S.resolve (t 0)) = .opaqueTagged) <;> rfl

/-- So do fewer layers around it. -/
theorem coercesTo_fewer (hbare : S.table.kindOf (S.resolve (t 0)) ≠ .optional) (hproper : S.Proper (t 0)) (hst : s 0 = t 0)
    (hs : Layers S.table s (m + 2)) : ∀ {k depth : ℕ}, Layers S.table t k → k < m + 2 → k < depth →
      S.coercesTo depth (t k) (s (m + 2)) = some (decide (S.table.kindOf (S.resolve (t 0)) = .opaqueTagged))
  | 0, depth + 1, _, _, _ => coercesTo_bare hbare hproper hs depth
  | k + 1, depth + 1, ht, hkm, hk => by
    have hinner : Layers S.table t k := fun i hi => ht i (Nat.lt_succ_of_lt hi)
    have htop := hs (m + 1) (Nat.lt_succ_self _)
    obtain ⟨-, hnull, -⟩ := optional_ne htop
    have hsame := (sameType_layers hbare hst ht hs hk).1 hproper
    have hsame' := (sameType_layers hbare hst hinner hs (show k < depth + 1 by omega)).1 hproper
    have ih := coercesTo_fewer hbare hproper hst hs hinner (show k < m + 2 by omega) (show k < depth by omega)
    have hshape : S.coercesByShape (S.sameType (depth + 1)) (t (k + 1)) (s (m + 2)) = some false := by
      rw [Coercions.coercesByShape, pointerBase_layers hs, resolve_optional (ht k (Nat.lt_succ_self k)),
        ht k (Nat.lt_succ_self k)]
      simp
    rw [Coercions.coercesTo, hsame, coercesByTarget_layer (ht k (Nat.lt_succ_self k)), hsame', ih, hshape,
      resolve_optional htop, if_neg hnull]
    have hne : k + 1 ≠ m + 2 := by omega
    have hne' : k ≠ m + 2 := by omega
    simp only [hne, hne', decide_false, orTry_false]
    cases decide (S.table.kindOf (S.resolve (t 0)) = .opaqueTagged) <;> rfl

end

/-! ### The turns of the loop -/

/-- How many layers stand around a value. -/
def WrappedExpr.layers : WrappedExpr → ℕ
  | .value _ => 0
  | .makeSome _ inner => inner.layers + 1

theorem layers_wrap (value : WrappedExpr) (types : List ℕ) : (wrap value types).layers = value.layers + types.length := by
  induction types generalizing value with
  | nil => rfl
  | cons type types ih =>
    rw [wrap, List.foldl_cons, ← wrap, ih, WrappedExpr.layers, List.length_cons]
    omega

section
variable {L : HirLower} {t s : ℕ → TypeId} {n m : ℕ} {value current : WrappedExpr} {depth fuel : ℕ}

/-- A turn that puts a layer around the value. -/
theorem addLayers_step {target currentType inner : TypeId}
    (htarget : L.sema.table.findEntry target = some (.optional inner))
    (hsame : L.sema.sameType depth target currentType = some false)
    (hcoerces : L.sema.coercesTo depth target currentType = some true) :
    L.addLayers depth value (fuel + 1) target currentType current =
      let sourceIsOptional := L.sema.table.kindOf (L.sema.table.stripQualifiers currentType) = .optional
      let layer := if sourceIsOptional ∨ L.sema.table.kindOf inner ≠ .optional then target else inner
      if validType (L.lowerType layer) then
        L.addLayers depth value fuel (if sourceIsOptional then inner else target) layer
          (.makeSome (L.lowerType layer) current)
      else some value := by
  rw [HirLower.addLayers, strip_optional htarget]
  simp [kindOf_optional htarget, hsame, hcoerces, htarget]

variable {target currentType : TypeId}

/-- The loop ends at a target that is the type of the value. -/
theorem addLayers_same (hsame : L.sema.sameType depth target currentType = some true) :
    L.addLayers depth value (fuel + 1) target currentType current = some current := by
  rw [HirLower.addLayers, hsame]
  simp

/-- The loop ends at a target that does not accept the value. -/
theorem addLayers_rejected (hsame : L.sema.sameType depth target currentType = some false)
    (hcoerces : L.sema.coercesTo depth target currentType = some false) :
    L.addLayers depth value (fuel + 1) target currentType current = some current := by
  rw [HirLower.addLayers, hsame, hcoerces]
  simp

theorem addLayers_bare (htarget : L.sema.table.kindOf (L.sema.table.stripQualifiers target) ≠ .optional) :
    L.addLayers depth value (fuel + 1) target currentType current = some current := by
  rw [HirLower.addLayers, if_pos htarget]

/-- A layer around a value that is optional. -/
theorem addLayers_optional {target currentType inner inner' : TypeId}
    (htarget : L.sema.table.findEntry target = some (.optional inner))
    (hcurrent : L.sema.table.findEntry currentType = some (.optional inner'))
    (hsame : L.sema.sameType depth target currentType = some false)
    (hcoerces : L.sema.coercesTo depth target currentType = some true) :
    L.addLayers depth value (fuel + 1) target currentType current = if validType (L.lowerType target) then
        L.addLayers depth value fuel inner target (.makeSome (L.lowerType target) current) else some value := by
  rw [addLayers_step htarget hsame hcoerces, strip_optional hcurrent]
  simp [kindOf_optional hcurrent]

/-- From the second layer on the target has too few of them, and only `opaque` goes on. -/
theorem addLayers_down (hbare : L.sema.table.kindOf (L.sema.resolve (t 0)) ≠ .optional)
    (hproper : L.sema.Proper (t 0)) : ∀ {k fuel : ℕ} {current : WrappedExpr}, Layers L.sema.table t (k + 1) → 0 < k →
      k < fuel → k + 1 < depth → ∃ result, L.addLayers depth value fuel (t k) (t (k + 1)) current = some result ∧
        (L.sema.table.kindOf (L.sema.resolve (t 0)) = .opaqueTagged →
          result = value ∨ result.layers = current.layers + k) ∧
        (L.sema.table.kindOf (L.sema.resolve (t 0)) ≠ .opaqueTagged → result = current)
  | k + 1, fuel + 1, current, ht, _, hfuel, hdepth => by
    have hk : Layers L.sema.table t (k + 1) := fun i hi => ht i (Nat.lt_succ_of_lt hi)
    have hsame := (sameType_layers hbare rfl hk ht (show k + 1 < depth by omega)).1 hproper
    have hcoerces := coercesTo_fewer hbare hproper rfl ht hk (Nat.lt_succ_self _) (show k + 1 < depth by omega)
    rw [show decide (k + 1 = k + 1 + 1) = false by simp] at hsame
    by_cases hopaque : L.sema.table.kindOf (L.sema.resolve (t 0)) = .opaqueTagged
    · rw [decide_eq_true hopaque] at hcoerces
      rw [addLayers_optional (ht k (by omega)) (ht (k + 1) (by omega)) hsame hcoerces]
      split_ifs with hvalid
      · rcases Nat.eq_zero_or_pos k with rfl | hpos
        · obtain ⟨fuel, rfl⟩ : ∃ f, fuel = f + 1 := ⟨fuel - 1, by omega⟩
          exact ⟨_, addLayers_bare (kind_strip_bare hbare), fun _ => .inr rfl, fun h => absurd hopaque h⟩
        · obtain ⟨result, hresult, hlayers, -⟩ := @addLayers_down hbare hproper k fuel
            (.makeSome (L.lowerType (t (k + 1))) current) hk hpos (show k < fuel by omega) (show k + 1 < depth by omega)
          rw [WrappedExpr.layers] at hlayers
          exact ⟨result, hresult, fun h => (hlayers h).imp_right fun h => by omega, fun h => absurd hopaque h⟩
      · exact ⟨value, rfl, fun _ => .inl rfl, fun h => absurd hopaque h⟩
    · rw [decide_eq_false hopaque] at hcoerces
      exact ⟨current, addLayers_rejected hsame hcoerces, fun h => absurd h hopaque, fun _ => rfl⟩

/-- The layers with more than `m` and at most `n` optionals. -/
def missing (L : HirLower) (t : ℕ → TypeId) (m n : ℕ) : List ℕ :=
  (List.range' (m + 1) (n - m)).map fun k => L.lowerType (t k)

/-- Where the loop adds exactly the layers that are missing. -/
def AddsMissing (L : HirLower) (t : ℕ → TypeId) (m n : ℕ) : Prop :=
  (∀ k, m < k → k ≤ n → validType (L.lowerType (t k))) ∧ L.sema.Proper (t 0) ∧
    (m = 0 ∧ n = 1 ∨ L.sema.table.kindOf (L.sema.resolve (t 0)) ≠ .opaqueTagged ∧ (n = m + 1 ∨ m = 0 ∧ n = 2))

theorem ne_missing {result : WrappedExpr} (h : result.layers ≠ value.layers + (n - m)) :
    result ≠ wrap value (missing L t m n) := by
  rintro rfl
  simp [layers_wrap, missing] at h

/-- A bare value in one layer. -/
theorem addLayers_one (hbare : L.sema.table.kindOf (L.sema.resolve (t 0)) ≠ .optional) (hproper : L.sema.Proper (t 0))
    (ht : Layers L.sema.table t 1) (hvalid : validType (L.lowerType (t 1))) (hdepth : 3 < depth) :
    L.addLayers depth value depth (t 1) (t 0) value = some (.makeSome (L.lowerType (t 1)) value) := by
  obtain ⟨depth, rfl⟩ : ∃ d, depth = d + 2 := ⟨depth - 2, by omega⟩
  have hempty : Layers L.sema.table t 0 := fun i hi => absurd hi (Nat.not_lt_zero i)
  have hsame := (sameType_layers hbare rfl ht hempty (show 1 < depth + 2 by omega)).1 hproper
  have hcoerces := coercesTo_more hbare rfl hempty ht (Nat.zero_le 1) (show 1 < depth + 2 by omega)
  rw [addLayers_step (ht 0 Nat.one_pos) hsame hcoerces]
  simp only [kind_strip_bare hbare, kind_bare hbare, ne_eq, not_false_eq_true, or_true, if_true, if_false, hvalid]
  exact addLayers_same (by simp [PerModuleSema.sameType])

/-- A bare value in two layers or more: the last two of them, if `opaque` does not go on. -/
theorem addLayers_two (hbare : L.sema.table.kindOf (L.sema.resolve (t 0)) ≠ .optional) (hproper : L.sema.Proper (t 0))
    (ht : Layers L.sema.table t (n + 2)) (hdepth : n + 5 < depth) :
    ∃ result, L.addLayers depth value depth (t (n + 2)) (t 0) value = some result ∧
      (¬(validType (L.lowerType (t (n + 1))) ∧ validType (L.lowerType (t (n + 2)))) → result = value) ∧
      (L.sema.table.kindOf (L.sema.resolve (t 0)) = .opaqueTagged →
        result = value ∨ result.layers = value.layers + 2 + (n + 1)) ∧
      (validType (L.lowerType (t (n + 1))) → validType (L.lowerType (t (n + 2))) →
        L.sema.table.kindOf (L.sema.resolve (t 0)) ≠ .opaqueTagged →
        result = .makeSome (L.lowerType (t (n + 2))) (.makeSome (L.lowerType (t (n + 1))) value)) := by
  obtain ⟨fuel, hfuel⟩ : ∃ f, depth = f + 2 := ⟨depth - 2, by omega⟩
  have hempty : Layers L.sema.table t 0 := fun i hi => absurd hi (Nat.not_lt_zero i)
  have hinner : Layers L.sema.table t (n + 1) := fun i hi => ht i (Nat.lt_succ_of_lt hi)
  have hsame := (sameType_layers hbare rfl ht hempty (show n + 2 < depth by omega)).1 hproper
  have hcoerces := coercesTo_more hbare rfl hempty ht (Nat.zero_le _) (show n + 2 < depth by omega)
  have hsame' := (sameType_layers hbare rfl ht hinner (show n + 2 < depth by omega)).1 hproper
  have hcoerces' := coercesTo_more hbare rfl hinner ht (Nat.le_succ _) (show n + 2 < depth by omega)
  rw [show decide (n + 2 = n + 1) = false by simp] at hsame'
  have hentry := ht (n + 1) (Nat.lt_succ_self _)
  have hentry' := ht n (by omega)
  have hstep : L.addLayers depth value depth (t (n + 2)) (t 0) value =
      if validType (L.lowerType (t (n + 1))) then
        L.addLayers depth value (fuel + 1) (t (n + 2)) (t (n + 1)) (.makeSome (L.lowerType (t (n + 1))) value)
      else some value := by
    conv_lhs => rw [show L.addLayers depth value depth = L.addLayers depth value (fuel + 1 + 1) by rw [hfuel]]
    rw [addLayers_step hentry hsame hcoerces]
    simp only [kind_strip_bare hbare, kindOf_optional hentry', ne_eq, not_true_eq_false, or_false, if_false]
  rw [hstep]
  by_cases hvalid : validType (L.lowerType (t (n + 1)))
  · rw [if_pos hvalid, addLayers_optional hentry hentry' hsame' hcoerces']
    by_cases hvalid' : validType (L.lowerType (t (n + 2)))
    · obtain ⟨result, hresult, hopaque, hother⟩ := @addLayers_down L t value depth hbare hproper (n + 1) fuel
        (.makeSome (L.lowerType (t (n + 2))) (.makeSome (L.lowerType (t (n + 1))) value)) ht (Nat.succ_pos n)
        (by omega) (by omega)
      rw [if_pos hvalid', hresult]
      exact ⟨result, rfl, fun h => absurd ⟨hvalid, hvalid'⟩ h, hopaque, fun _ _ => hother⟩
    · rw [if_neg hvalid']
      exact ⟨value, rfl, fun _ => rfl, fun _ => .inl rfl, fun _ h => absurd h hvalid'⟩
  · rw [if_neg hvalid]
    exact ⟨value, rfl, fun _ => rfl, fun _ => .inl rfl, fun h => absurd h hvalid⟩

/-- An optional value: the whole target, if `opaque` does not go on. -/
theorem addLayers_outer (hbare : L.sema.table.kindOf (L.sema.resolve (t 0)) ≠ .optional) (hproper : L.sema.Proper (t 0))
    (hst : s 0 = t 0) (ht : Layers L.sema.table t (n + 1)) (hs : Layers L.sema.table s (m + 1)) (hmn : m < n)
    (hdepth : n + 5 < depth) : ∃ result, L.addLayers depth value depth (t (n + 1)) (s (m + 1)) value = some result ∧
      (¬validType (L.lowerType (t (n + 1))) → result = value) ∧
      (L.sema.table.kindOf (L.sema.resolve (t 0)) = .opaqueTagged →
        result = value ∨ result.layers = value.layers + 1 + n) ∧
      (validType (L.lowerType (t (n + 1))) → L.sema.table.kindOf (L.sema.resolve (t 0)) ≠ .opaqueTagged →
        result = .makeSome (L.lowerType (t (n + 1))) value) := by
  obtain ⟨fuel, hfuel⟩ : ∃ f, depth = f + 1 := ⟨depth - 1, by omega⟩
  have hsame := (sameType_layers hbare hst ht hs (show n + 1 < depth by omega)).1 hproper
  have hcoerces := coercesTo_more hbare hst hs ht (by omega) (show n + 1 < depth by omega)
  rw [show decide (n + 1 = m + 1) = false by simpa using Nat.ne_of_gt hmn] at hsame
  have hstep : L.addLayers depth value depth (t (n + 1)) (s (m + 1)) value =
      if validType (L.lowerType (t (n + 1))) then
        L.addLayers depth value fuel (t n) (t (n + 1)) (.makeSome (L.lowerType (t (n + 1))) value)
      else some value := by
    conv_lhs => rw [show L.addLayers depth value depth = L.addLayers depth value (fuel + 1) by rw [hfuel]]
    rw [addLayers_optional (ht n (Nat.lt_succ_self _)) (hs m (Nat.lt_succ_self _)) hsame hcoerces]
  rw [hstep]
  split_ifs with hvalid
  · obtain ⟨result, hresult, hopaque, hother⟩ := @addLayers_down L t value depth hbare hproper n fuel
      (.makeSome (L.lowerType (t (n + 1))) value) ht (Nat.zero_lt_of_lt hmn) (by omega) (by omega)
    exact ⟨result, hresult, fun h => absurd hvalid h, hopaque, fun _ => hother⟩
  · exact ⟨value, rfl, fun _ => rfl, fun _ => .inl rfl, fun h => absurd h hvalid⟩

theorem addsMissing_iff_one (hproper : L.sema.Proper (t 0)) : AddsMissing L t 0 1 ↔ validType (L.lowerType (t 1)) := by
  constructor
  · rintro ⟨hvalid, -⟩
    exact hvalid 1 Nat.one_pos (Nat.le_refl 1)
  · intro hvalid
    refine ⟨fun k hk hk' => ?_, hproper, .inl ⟨rfl, rfl⟩⟩
    obtain rfl : k = 1 := by omega
    exact hvalid

/-- The loop adds exactly the missing layers to a value that is accepted, if it lacks one of them, or two of two:
    then they are the ones it takes. -/
theorem lowerCoerceToOptionalDepth_eq (L : HirLower) (t s : ℕ → TypeId) (n m : ℕ) (value : WrappedExpr)
    (htype : t 0 ≠ 0) (hbare : L.sema.table.kindOf (L.sema.resolve (t 0)) ≠ .optional) (hst : s 0 = t 0)
    (ht : Layers L.sema.table t n) (hs : Layers L.sema.table s m) (hmn : m < n) :
    ∃ bound, ∀ depth > bound, L.sema.coercesTo depth (t n) (s m) = some true ∧
      ∃ result, L.lowerCoerceToOptionalDepth depth (L.lowerType (t n)) (t n) (s m) value = some result ∧
        (result = wrap value (missing L t m n) ↔ AddsMissing L t m n) := by
  refine ⟨n + 5, fun depth hdepth => ⟨coercesTo_more hbare hst hs ht (Nat.le_of_lt hmn) (by omega), ?_⟩⟩
  have hnone : value ≠ wrap value (missing L t m n) := ne_missing (by omega)
  obtain ⟨n, rfl⟩ : ∃ n', n = n' + 1 := ⟨n - 1, by omega⟩
  have htarget : t (n + 1) ≠ 0 := fun h => by
    have hentry := ht n (Nat.lt_succ_self n)
    rw [h] at hentry
    cases hentry
  have hsource : s m ≠ 0 := by
    rcases m with _ | m
    · exact hst ▸ htype
    · intro h
      have hentry := hs m (Nat.lt_succ_self m)
      rw [h] at hentry
      cases hentry
  by_cases hvalid : validType (L.lowerType (t (n + 1)))
  swap
  · refine ⟨value, by rw [HirLower.lowerCoerceToOptionalDepth, if_neg (fun h => hvalid h.1)], ?_⟩
    exact iff_of_false hnone fun h => hvalid (h.1 (n + 1) hmn (Nat.le_refl _))
  rw [HirLower.lowerCoerceToOptionalDepth, if_pos ⟨hvalid, htarget, hsource⟩]
  by_cases hproper : L.sema.Proper (t 0)
  swap
  · have hsame := (sameType_layers hbare hst ht hs (show n + 1 < depth by omega)).2 hproper
    obtain ⟨fuel, hfuel⟩ : ∃ f, depth = f + 1 := ⟨depth - 1, by omega⟩
    refine ⟨value, ?_, iff_of_false hnone fun h => hproper h.2.1⟩
    conv_lhs => rw [show L.addLayers depth value depth = L.addLayers depth value (fuel + 1) by rw [hfuel]]
    exact addLayers_same hsame
  rcases m with _ | m
  · rw [hst]
    rcases n with _ | n
    · -- one layer of one
      refine ⟨_, addLayers_one hbare hproper ht hvalid (by omega), ?_⟩
      rw [addsMissing_iff_one hproper]
      exact iff_of_true rfl hvalid
    · obtain ⟨result, hresult, hinvalid, hopaque, hother⟩ :=
        @addLayers_two L t n value depth hbare hproper ht (show n + 5 < depth by omega)
      refine ⟨result, hresult, ?_⟩
      by_cases hinner : validType (L.lowerType (t (n + 1)))
      swap
      · rw [hinvalid fun h => hinner h.1]
        exact iff_of_false hnone fun h => hinner (h.1 (n + 1) (Nat.succ_pos n) (Nat.le_succ _))
      by_cases hkind : L.sema.table.kindOf (L.sema.resolve (t 0)) = .opaqueTagged
      · refine iff_of_false ?_ fun h => ?_
        · rcases hopaque hkind with rfl | hlayers
          · exact hnone
          · exact ne_missing (by omega)
        · rcases h.2.2 with ⟨-, hone⟩ | ⟨hother, -⟩
          · omega
          · exact hother hkind
      rw [hother hinner hvalid hkind]
      rcases n with _ | n
      · -- two layers of two
        refine iff_of_true rfl ⟨fun k hk hk' => ?_, hproper, .inr ⟨hkind, .inr ⟨rfl, rfl⟩⟩⟩
        obtain rfl | rfl : k = 1 ∨ k = 2 := by omega
        · exact hinner
        · exact hvalid
      · refine iff_of_false (ne_missing (by simp only [WrappedExpr.layers]; omega)) fun h => ?_
        rcases h.2.2 with ⟨-, hone⟩ | ⟨-, hone | ⟨-, htwo⟩⟩ <;> omega
  · obtain ⟨result, hresult, -, hopaque, hother⟩ :=
      @addLayers_outer L t s n m value depth hbare hproper hst ht hs (Nat.lt_of_succ_lt_succ hmn) (show n + 5 < depth by omega)
    refine ⟨result, hresult, ?_⟩
    by_cases hkind : L.sema.table.kindOf (L.sema.resolve (t 0)) = .opaqueTagged
    · refine iff_of_false ?_ fun h => ?_
      · rcases hopaque hkind with rfl | hlayers
        · exact hnone
        · exact ne_missing (by omega)
      · rcases h.2.2 with ⟨hzero, -⟩ | ⟨hother, -⟩
        · omega
        · exact hother hkind
    rw [hother hvalid hkind]
    by_cases hone : n = m + 1
    · -- one layer around an optional value
      subst hone
      have hmissing : missing L t (m + 1) (m + 1 + 1) = [L.lowerType (t (m + 1 + 1))] := by
        rw [missing, show m + 1 + 1 - (m + 1) = 1 by omega]
        rfl
      rw [hmissing]
      refine iff_of_true rfl ⟨fun k hk hk' => ?_, hproper, .inr ⟨hkind, .inl rfl⟩⟩
      obtain rfl : k = m + 1 + 1 := by omega
      exact hvalid
    · refine iff_of_false (ne_missing (by simp only [WrappedExpr.layers]; omega)) fun h => ?_
      rcases h.2.2 with ⟨hzero, -⟩ | ⟨-, hlast | ⟨hzero, -⟩⟩ <;> omega

end

/-- `i32` in up to three layers: the type with `k` of them is the entry `4 + k`. -/
def layeredInt : HirLower where
  sema := {
    table := ⟨[.name "error" .error, .name "null" .never, .name "void" .void, .integer 32 true, .optional 4, .optional 5,
      .optional 6], [("void", 3)]⟩
    errorType := 1
    nullType := 2
    voidType := 3
    charType := 0
    error_name := rfl
    null_name := rfl
    void_name := rfl
    settled := by decide +kernel
    declared := by decide +kernel
    satisfiesConformance := fun _ _ => false }
  lowerType := id

theorem layers_layeredInt : Layers layeredInt.sema.table (4 + ·) 3 := by
  unfold Layers
  decide

/-- `?i32` at `??i32`. -/
theorem lowerCoerceToOptionalDepth_second : ∃ bound, ∀ depth > bound,
    layeredInt.lowerCoerceToOptionalDepth depth 6 6 5 (.value 0) = some (.makeSome 6 (.value 0)) := by
  have hlayers : ∀ n ≤ 3, Layers layeredInt.sema.table (4 + ·) n := fun n hn k hk => layers_layeredInt k (by omega)
  obtain ⟨bound, hbound⟩ := lowerCoerceToOptionalDepth_eq layeredInt (4 + ·) (4 + ·) 2 1 (.value 0) (by decide)
    (by decide +kernel) rfl (hlayers 2 (by decide)) (hlayers 1 (by decide)) (by decide)
  refine ⟨bound, fun depth hdepth => ?_⟩
  obtain ⟨-, result, hresult, hmissing⟩ := hbound depth hdepth
  have hadds : AddsMissing layeredInt (4 + ·) 1 2 := by
    refine ⟨fun k hk hk' => ?_, by unfold PerModuleSema.Proper; decide +kernel, .inr ⟨by decide +kernel, .inl rfl⟩⟩
    obtain rfl : k = 2 := by omega
    decide
  rw [hmissing.mpr hadds] at hresult
  exact hresult

/-- `i32` at `???i32`: `??i32` is put around the bare value. -/
theorem lowerCoerceToOptionalDepth_third : layeredInt.sema.coercesTo 10 7 4 = some true ∧
    layeredInt.lowerCoerceToOptionalDepth 10 7 7 4 (.value 0) = some (.makeSome 7 (.makeSome 6 (.value 0))) ∧
    WrappedExpr.makeSome 7 (.makeSome 6 (.value 0)) ≠ wrap (.value 0) (missing layeredInt (4 + ·) 0 3) := by
  refine ⟨by decide +kernel, by decide +kernel, by decide +kernel⟩

end Zith.Sema
