import Mathlib.Data.List.Induction
import Std.Data.TreeMap.Lemmas

/-! The opaque tags of a `TypeIntern`: `canonicalTag`, `setCanonicalTag` and `canonicalTagSnapshot`. A new
    tag is one more than the number of tags, while a hydrated tag is whatever the artifact says, so the
    two numberings can meet. -/

namespace Zith.Types

structure TypeCanonicalId where
  hi : UInt64 := 0
  lo : UInt64 := 0
deriving DecidableEq

namespace TypeCanonicalId

/-- The order of the pair `{hi, lo}`, which is `CanonicalIdLess`. -/
def order : TypeCanonicalId → TypeCanonicalId → Ordering := compareLex (compareOn hi) (compareOn lo)

instance : Std.TransCmp order := inferInstanceAs (Std.TransCmp (compareLex _ _))

instance : Std.LawfulEqCmp order where
  eq_of_compare {a b} h := by
    obtain ⟨hhi, hlo⟩ := Ordering.then_eq_eq.mp h
    cases a
    cases b
    exact (mk.injEq ..).mpr ⟨Std.LawfulEqOrd.eq_of_compare hhi, Std.LawfulEqOrd.eq_of_compare hlo⟩

end TypeCanonicalId

/-- `canonical_tags_`. -/
abbrev CanonicalTags := Std.TreeMap TypeCanonicalId UInt32 TypeCanonicalId.order

/-- `TypeIntern::canonicalTag`: the tag and the table after the call. -/
def canonicalTag (tags : CanonicalTags) (id : TypeCanonicalId) (tag : UInt32) : UInt32 × CanonicalTags :=
  match tags[id]? with
  | some existing => (existing, tags)
  | none =>
    if id.hi = 0 ∧ id.lo = 0 then (tag, tags)
    else
      let stored := if tag ≠ 0 then tag else UInt32.ofNat tags.size + 1
      (stored, tags.insert id stored)

/-- `TypeIntern::setCanonicalTag`. -/
def setCanonicalTag (tags : CanonicalTags) (id : TypeCanonicalId) (tag : UInt32) : CanonicalTags :=
  if id.hi ≠ 0 ∨ id.lo ≠ 0 then tags.insert id tag else tags

/-- `TypeIntern::canonicalTagSnapshot`, in the order of the map. -/
def canonicalTagSnapshot (tags : CanonicalTags) : List (TypeCanonicalId × UInt32) := tags.toList

inductive TagOp
  | set (id : TypeCanonicalId) (tag : UInt32)
  | tagOf (id : TypeCanonicalId)

namespace TagOp

/-- `tagOf id` is `canonicalTag(id, 0)`. -/
def apply (tags : CanonicalTags) : TagOp → CanonicalTags
  | set id tag => setCanonicalTag tags id tag
  | tagOf id => (canonicalTag tags id 0).2

/-- The table after a sequence of calls on an empty one. -/
def run (ops : List TagOp) : CanonicalTags := ops.foldl apply ∅

theorem run_concat (ops : List TagOp) (op : TagOp) : run (ops ++ [op]) = apply (run ops) op := by
  simp [run]

end TagOp

/-! ### What the calls do -/

/-- No two canonical ids share a tag. -/
def Distinct (tags : CanonicalTags) : Prop :=
  ∀ ⦃a b : TypeCanonicalId⦄ ⦃tag : UInt32⦄, tags[a]? = some tag → tags[b]? = some tag → a = b

theorem getElem?_insert_tag (tags : CanonicalTags) (id a : TypeCanonicalId) (tag : UInt32) :
    (tags.insert id tag)[a]? = if a = id then some tag else tags[a]? := by
  rw [Std.TreeMap.getElem?_insert]
  by_cases h : a = id
  · subst h
    simp
  · rw [if_neg h, if_neg fun heq => h (Std.LawfulEqCmp.eq_of_compare heq).symm]

variable {tags : CanonicalTags} {id : TypeCanonicalId} {ops : List TagOp} {a : TypeCanonicalId} {tag : UInt32}

theorem distinct_insert_iff (h : Distinct tags) (id : TypeCanonicalId) (tag : UInt32) :
    Distinct (tags.insert id tag) ↔ ∀ a, tags[a]? = some tag → a = id := by
  simp only [Distinct, getElem?_insert_tag]
  constructor
  · intro hd a ha
    by_contra hne
    exact hne (@hd _ _ tag (by rw [if_neg hne, ha]) (if_pos rfl))
  · intro huniq a b t ha hb
    split at ha <;> split at hb <;> rename_i hai hbi
    · exact hai.trans hbi.symm
    · cases ha
      exact hai.trans (huniq b hb).symm
    · cases hb
      exact (huniq a ha).trans hbi.symm
    · exact h ha hb

/-- What a call that keeps the tags distinct and in place has found: a new tag is in use by nobody, and
    an installed one belongs to nobody else and replaces nothing. -/
def TagOp.Safe (tags : CanonicalTags) : TagOp → Prop
  | .set id tag => (id.hi ≠ 0 ∨ id.lo ≠ 0) →
      (∀ a : TypeCanonicalId, tags[a]? = some tag → a = id) ∧
      ∀ existing, tags[id]? = some existing → existing = tag
  | .tagOf id => (id.hi ≠ 0 ∨ id.lo ≠ 0) → tags[id]? = none →
      ∀ a : TypeCanonicalId, tags[a]? ≠ some (UInt32.ofNat tags.size + 1)

/-- A call on an id that has a tag, or on the zero id, changes nothing. -/
theorem canonicalTag_of_some {tag existing : UInt32} (h : tags[id]? = some existing) :
    canonicalTag tags id tag = (existing, tags) := by
  rw [canonicalTag, h]

theorem canonicalTag_new (hid : id.hi ≠ 0 ∨ id.lo ≠ 0) (h : tags[id]? = none) : canonicalTag tags id 0 =
      (UInt32.ofNat tags.size + 1, tags.insert id (UInt32.ofNat tags.size + 1)) := by
  rw [canonicalTag, h]
  simp only [ne_eq, not_true_eq_false, if_false]
  rw [if_neg (by rwa [Classical.not_and_iff_not_or_not])]

theorem canonicalTag_zero (hid : ¬(id.hi ≠ 0 ∨ id.lo ≠ 0)) : (canonicalTag tags id 0).2 = tags := by
  rw [canonicalTag]
  split
  · rfl
  · rw [if_pos (by simpa using hid)]

/-- The tag a call returned is the tag of its id. -/
theorem canonicalTag_returned (hid : id.hi ≠ 0 ∨ id.lo ≠ 0) :
    (canonicalTag tags id 0).2[id]? = some (canonicalTag tags id 0).1 := by
  cases h : tags[id]? with
  | some existing => rw [canonicalTag_of_some h, h]
  | none => rw [canonicalTag_new hid h, getElem?_insert_tag, if_pos rfl]

/-- Every entry after a call was there before, or is the one the call made. -/
theorem getElem?_apply {op : TagOp} (h : (op.apply tags)[a]? = some tag) : tags[a]? = some tag ∨ op = .set a tag ∨
      op = .tagOf a ∧ (a.hi ≠ 0 ∨ a.lo ≠ 0) ∧ tag = (canonicalTag tags a 0).1 := by
  cases op with
  | set id t =>
    simp only [TagOp.apply, setCanonicalTag] at h
    split at h
    · rw [getElem?_insert_tag] at h
      split at h
      · rename_i heq
        cases h
        exact .inr (.inl (by rw [heq]))
      · exact .inl h
    · exact .inl h
  | tagOf id =>
    by_cases hid : id.hi ≠ 0 ∨ id.lo ≠ 0
    · by_cases ha : a = id
      · subst ha
        rw [TagOp.apply, canonicalTag_returned hid] at h
        cases h
        exact .inr (.inr ⟨rfl, hid, rfl⟩)
      · cases hsome : tags[id]? with
        | some existing =>
          rw [TagOp.apply, canonicalTag_of_some hsome] at h
          exact .inl h
        | none =>
          rw [TagOp.apply, canonicalTag_new hid hsome, getElem?_insert_tag, if_neg ha] at h
          exact .inl h
    · rw [TagOp.apply, canonicalTag_zero hid] at h
      exact .inl h

/-- One safe call keeps the tags distinct. -/
theorem distinct_apply (h : Distinct tags) {op : TagOp} (hs : op.Safe tags) : Distinct (op.apply tags) := by
  cases op with
  | set id tag =>
    simp only [TagOp.apply, setCanonicalTag]
    split
    · rename_i hid
      exact (distinct_insert_iff h id tag).mpr (hs hid).1
    · exact h
  | tagOf id =>
    by_cases hid : id.hi ≠ 0 ∨ id.lo ≠ 0
    · cases hsome : tags[id]? with
      | some existing =>
        rw [TagOp.apply, canonicalTag_of_some hsome]
        exact h
      | none =>
        rw [TagOp.apply, canonicalTag_new hid hsome]
        exact (distinct_insert_iff h _ _).mpr fun a ha => absurd ha (hs hid hsome a)
    · rw [TagOp.apply, canonicalTag_zero hid]
      exact h

/-- One safe call leaves every tag in place. -/
theorem stable_apply {op : TagOp} (hs : op.Safe tags) (h : tags[a]? = some tag) : (op.apply tags)[a]? = some tag := by
  cases op with
  | set id t =>
    simp only [TagOp.apply, setCanonicalTag]
    split
    · rename_i hid
      rw [getElem?_insert_tag]
      split
      · rename_i heq
        rw [(hs hid).2 tag (heq ▸ h)]
      · exact h
    · exact h
  | tagOf id =>
    by_cases hid : id.hi ≠ 0 ∨ id.lo ≠ 0
    · cases hsome : tags[id]? with
      | some existing => rw [TagOp.apply, canonicalTag_of_some hsome, h]
      | none =>
        rw [TagOp.apply, canonicalTag_new hid hsome, getElem?_insert_tag, if_neg, h]
        rintro rfl
        rw [h] at hsome
        cases hsome
    · rw [TagOp.apply, canonicalTag_zero hid, h]

/-! ### Runs -/

/-- The calls of `setCanonicalTag` install part of an injective map with nonzero tags. -/
structure Installs (mapping : TypeCanonicalId → Option UInt32) (ops : List TagOp) : Prop where
  injective : ∀ a b tag, mapping a = some tag → mapping b = some tag → a = b
  nonzero : ∀ a tag, mapping a = some tag → tag ≠ 0
  installed : ∀ id tag, .set id tag ∈ ops → mapping id = some tag

/-- At every point of a run the tags are distinct and every tag `canonicalTag` has returned is still the
    tag of its id. -/
structure TagsKept (ops : List TagOp) : Prop where
  distinct : ∀ before after, ops = before ++ after → Distinct (TagOp.run before)
  stable : ∀ before id between after, (id.hi ≠ 0 ∨ id.lo ≠ 0) →
    ops = before ++ .tagOf id :: between ++ after →
    (TagOp.run (before ++ .tagOf id :: between))[id]? = some (canonicalTag (TagOp.run before) id 0).1

/-- Every call of a run is safe where it is made. -/
def RunSafe (ops : List TagOp) : Prop := ∀ before op after, ops = before ++ op :: after → op.Safe (TagOp.run before)

theorem RunSafe.distinct (h : RunSafe ops) {before : List TagOp} :
    ∀ {after}, ops = before ++ after → Distinct (TagOp.run before) := by
  induction before using List.reverseRecOn with
  | nil =>
    intro after _ a b tag ha _
    simp [TagOp.run] at ha
  | append_singleton before op ih =>
    intro after hops
    rw [List.append_assoc, List.singleton_append] at hops
    rw [TagOp.run_concat]
    exact distinct_apply (ih hops) (h before op after hops)

theorem RunSafe.stable (h : RunSafe ops) {before : List TagOp} (hid : id.hi ≠ 0 ∨ id.lo ≠ 0) {between : List TagOp} :
    ∀ {after}, ops = before ++ .tagOf id :: between ++ after → (TagOp.run (before ++ .tagOf id :: between))[id]? =
        some (canonicalTag (TagOp.run before) id 0).1 := by
  induction between using List.reverseRecOn with
  | nil =>
    intro after _
    rw [TagOp.run_concat]
    exact canonicalTag_returned hid
  | append_singleton between op ih =>
    intro after hops
    have hops' : ops = (before ++ .tagOf id :: between) ++ op :: after := by
      rw [hops]
      simp
    rw [← List.cons_append, ← List.append_assoc, TagOp.run_concat]
    exact stable_apply (h _ op after hops') (ih hops')

/-- Where the tags in a run come from. -/
theorem origin (h : (TagOp.run ops)[a]? = some tag) :
    .set a tag ∈ ops ∨ ∃ before after, ops = before ++ .tagOf a :: after ∧
      (a.hi ≠ 0 ∨ a.lo ≠ 0) ∧ tag = (canonicalTag (TagOp.run before) a 0).1 := by
  induction ops using List.reverseRecOn with
  | nil => simp [TagOp.run] at h
  | append_singleton ops op ih =>
    rw [TagOp.run_concat] at h
    rcases getElem?_apply h with h | rfl | ⟨rfl, ha, htag⟩
    · rcases ih h with hset | ⟨before, after, rfl, ha, htag⟩
      · exact .inl (List.mem_append_left _ hset)
      · exact .inr ⟨before, after ++ [op], by simp, ha, htag⟩
    · exact .inl (by simp)
    · exact .inr ⟨ops, [], by simp, ha, htag⟩

theorem TagsKept.runSafe {mapping : TypeCanonicalId → Option UInt32} (hmap : Installs mapping ops)
    (h : TagsKept ops) : RunSafe ops := by
  intro before op after hops
  have hnow := h.distinct before (op :: after) hops
  have hnext : Distinct (op.apply (TagOp.run before)) := by
    rw [← TagOp.run_concat]
    exact h.distinct _ after (by simp [hops])
  cases op with
  | set id tag =>
    intro hid
    simp only [TagOp.apply, setCanonicalTag, if_pos hid] at hnext
    refine ⟨(distinct_insert_iff hnow id tag).mp hnext, fun existing hexisting => ?_⟩
    have hmem : .set id tag ∈ ops := hops ▸ by simp
    rcases origin hexisting with hset | ⟨b₁, b₂, rfl, -, rfl⟩
    · have hset : .set id existing ∈ ops := hops ▸ List.mem_append_left _ hset
      have := (hmap.installed id existing hset).symm.trans (hmap.installed id tag hmem)
      exact Option.some.inj this
    · -- a tag that was handed out has to survive the call
      have hkept := h.stable b₁ id (b₂ ++ [.set id tag]) after hid (by simp [hops])
      rw [← List.cons_append, ← List.append_assoc, TagOp.run_concat] at hkept
      simp only [TagOp.apply, setCanonicalTag, if_pos hid, getElem?_insert_tag, if_true, Option.some.injEq] at hkept
      exact hkept.symm
  | tagOf id =>
    intro hid hnone a ha
    rw [TagOp.apply, canonicalTag_new hid hnone] at hnext
    have haid := (distinct_insert_iff hnow id _).mp hnext a ha
    rw [haid, hnone] at ha
    cases ha

/-- The tags of a run are kept if and only if every call of it is safe. -/
theorem tagsKept_iff (mapping : TypeCanonicalId → Option UInt32) (ops : List TagOp)
    (hmap : Installs mapping ops) : TagsKept ops ↔ RunSafe ops :=
  ⟨TagsKept.runSafe hmap, fun h =>
    ⟨fun _ _ hops => h.distinct hops, fun _ _ _ _ hid hops => h.stable hid hops⟩⟩

/-- Of a map with one entry only that entry can be installed. -/
theorem installs_single (id : TypeCanonicalId) (htag : tag ≠ 0) (h : ∀ a t, .set a t ∈ ops → a = id ∧ t = tag) :
    Installs (fun a => if a = id then some tag else none) ops where
  injective a b t ha hb := by
    split at ha <;> split at hb <;> simp_all
  nonzero a t h := by
    split at h
    · cases h
      exact htag
    · cases h
  installed a t hmem := by
    obtain ⟨rfl, rfl⟩ := h a t hmem
    exact if_pos rfl

/-- An id hydrated with tag 1, which is also what it would be given. -/
theorem tagsKept_iff_hydrated : TagsKept [.set ⟨1, 1⟩ 1, .tagOf ⟨1, 1⟩] ↔ RunSafe [.set ⟨1, 1⟩ 1, .tagOf ⟨1, 1⟩] :=
  tagsKept_iff _ _ (installs_single ⟨1, 1⟩ (by decide : (1 : UInt32) ≠ 0) fun a t h => by simpa using h)

/-- One hydrated tag 2, and the next new tag is 2 as well. -/
theorem hydrated_tag_reused : Installs (fun a => if a = ⟨1, 1⟩ then some 2 else none) [.set ⟨1, 1⟩ 2, .tagOf ⟨5, 5⟩] ∧
    ¬ TagsKept [.set ⟨1, 1⟩ 2, .tagOf ⟨5, 5⟩] := by
  refine ⟨installs_single _ (by decide) fun a t h => by simpa using h, fun h => ?_⟩
  have hd := h.distinct _ [] (List.append_nil _).symm
  have hne : (⟨1, 1⟩ : TypeCanonicalId) ≠ ⟨5, 5⟩ := by decide
  exact hne (@hd _ _ 2 (by rfl) (by rfl))

end Zith.Types
