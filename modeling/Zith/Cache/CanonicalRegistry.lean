import Mathlib.Data.List.DropRight
import Zith.Cache.ManifestRoundTrip
import Zith.Lib.Numeral
import Zith.Types.CanonicalTags

/-! The canonical registry of a `Store`: `assignCanonicalId`, and the file `canonical-any` it is loaded
    from and saved to, one line `hi:lo:tag` for every id. Tags are never shared and never change, also
    over a reload; but a new tag is the size plus one, and when that one is taken there is none. -/

namespace Zith.Cache
open Types (TypeCanonicalId)
open Lib (number numeral number_numeral numeral_ne_nil not_mem_numeral)

/-- The byte `:`. -/
def colon : UInt8 := 0x3a

/-- `std::from_chars` for an unsigned type, which has to succeed and to consume everything. -/
def parseNumber (base bits : ℕ) (text : Bytes) : Option ℕ :=
  if text.isEmpty then none else (number base 0 text).filter fun n => n < 2 ^ bits

def parseHexU64 (text : Bytes) : Option UInt64 := (parseNumber 16 64 text).map UInt64.ofNat

def parseDecimalU32 (text : Bytes) : Option UInt32 := (parseNumber 10 32 text).map UInt32.ofNat

/-- The mapping of a line, split at its first and at its last colon. -/
def parseMapping (line : Bytes) : Option (TypeCanonicalId × UInt32) :=
  let rest := (line.dropWhile fun c => c != colon).tail
  if colon ∈ rest then do
    let hi ← parseHexU64 (line.takeWhile fun c => c != colon)
    let lo ← parseHexU64 (rest.rdropWhile fun c => c != colon).dropLast
    let tag ← parseDecimalU32 (rest.rtakeWhile fun c => c != colon)
    if tag = 0 then none else some (⟨hi, lo⟩, tag)
  else none

/-- `canonical_registry_` and `canonical_by_tag_`. -/
structure CanonicalRegistry where
  tags : Types.CanonicalTags := ∅
  byTag : Std.TreeMap UInt32 TypeCanonicalId := ∅

namespace CanonicalRegistry

def add (r : CanonicalRegistry) (id : TypeCanonicalId) (tag : UInt32) : CanonicalRegistry :=
  ⟨r.tags.insert id tag, r.byTag.insert tag id⟩

/-- A mapping whose id or tag is known is skipped. -/
def loadMapping (r : CanonicalRegistry) (mapping : TypeCanonicalId × UInt32) : CanonicalRegistry :=
  if r.tags.contains mapping.1 || r.byTag.contains mapping.2 then r else r.add mapping.1 mapping.2

/-- `Store::loadCanonicalRegistry`; there may be no file. -/
def load (file : Option Bytes) : CanonicalRegistry :=
  match file with
  | none => {}
  | some bytes => ((getLines [] bytes).filterMap parseMapping).foldl loadMapping {}

def mappingLine (mapping : TypeCanonicalId × UInt32) : Bytes :=
  numeral 16 mapping.1.hi.toNat ++ colon :: (numeral 16 mapping.1.lo.toNat ++ colon :: numeral 10 mapping.2.toNat)

/-- `Store::saveCanonicalRegistryLocked`: what is written to the file, in the order of the map. -/
def save (r : CanonicalRegistry) : Bytes := r.tags.toList.flatMap fun m => mappingLine m ++ [newline]

/-- The tag a new id is given. -/
def nextTag (r : CanonicalRegistry) : UInt32 := UInt32.ofNat r.tags.size + 1

end CanonicalRegistry

/-- The registry in memory and the file. -/
structure RegistryStore where
  file : Option Bytes
  registry : CanonicalRegistry

namespace RegistryStore

/-- The constructor of `Store`. -/
def openFile (file : Option Bytes) : RegistryStore := ⟨file, .load file⟩

/-- `Store::assignCanonicalId`. -/
def assignCanonicalId (s : RegistryStore) (id : TypeCanonicalId) : UInt32 × RegistryStore :=
  match s.registry.tags[id]? with
  | some existing => (existing, s)
  | none =>
    let tag := s.registry.nextTag
    if tag = 0 ∨ s.registry.byTag.contains tag then (0, s)
    else
      let registry := s.registry.add id tag
      (tag, ⟨some registry.save, registry⟩)

end RegistryStore

inductive RegistryOp
  | assign (id : TypeCanonicalId)
  | reopen

namespace RegistryOp

def apply (s : RegistryStore) : RegistryOp → RegistryStore
  | assign id => (s.assignCanonicalId id).2
  | reopen => .openFile s.file

/-- What the calls of a run return, each with its id. -/
def returns (s : RegistryStore) : List RegistryOp → List (TypeCanonicalId × UInt32)
  | [] => []
  | assign id :: ops =>
    (id, (s.assignCanonicalId id).1) :: returns (apply s (assign id)) ops
  | reopen :: ops => returns (apply s reopen) ops

end RegistryOp

/-! ### Lines -/

theorem parseNumber_numeral {base bits n : ℕ} (hone : 1 < base) (hbase : base ≤ 16) (h : n < 2 ^ bits) :
    parseNumber base bits (numeral base n) = some n := by
  have hne : (numeral base n).isEmpty = false := by simpa using numeral_ne_nil base n
  rw [parseNumber, hne, number_numeral hone hbase]
  simp [h]

theorem parseHexU64_numeral (v : UInt64) : parseHexU64 (numeral 16 v.toNat) = some v := by
  rw [parseHexU64, parseNumber_numeral (by decide) (by decide) v.toNat_lt]
  simp

theorem parseDecimalU32_numeral (v : UInt32) : parseDecimalU32 (numeral 10 v.toNat) = some v := by
  rw [parseDecimalU32, parseNumber_numeral (by decide) (by decide) v.toNat_lt]
  simp

theorem takeWhile_colon {s t : Bytes} (h : colon ∉ s) : ((s ++ colon :: t).takeWhile fun c => c != colon) = s := by
  rw [List.takeWhile_append_of_pos, List.takeWhile_cons_of_neg (by simp), List.append_nil]
  intro c hc
  rw [bne_iff_ne]
  rintro rfl
  exact h hc

theorem dropWhile_colon {s t : Bytes} (h : colon ∉ s) :
    ((s ++ colon :: t).dropWhile fun c => c != colon) = colon :: t := by
  rw [List.dropWhile_append_of_pos, List.dropWhile_cons_of_neg (by simp)]
  intro c hc
  rw [bne_iff_ne]
  rintro rfl
  exact h hc

theorem not_mem_hex {c : UInt8} (hc : Lib.digitValue 16 c = none) (n : ℕ) : c ∉ numeral 16 n :=
  not_mem_numeral (by decide) (by decide) hc n

theorem not_mem_decimal {c : UInt8} (hc : Lib.digitValue 16 c = none) (n : ℕ) : c ∉ numeral 10 n :=
  not_mem_numeral (by decide) (by decide) hc n

namespace CanonicalRegistry

theorem parseMapping_mappingLine {m : TypeCanonicalId × UInt32} (h : m.2 ≠ 0) :
    parseMapping (mappingLine m) = some m := by
  have hcolon : Lib.digitValue 16 colon = none := by decide
  have hrest : (((mappingLine m).dropWhile fun c => c != colon).tail) =
      numeral 16 m.1.lo.toNat ++ colon :: numeral 10 m.2.toNat := by
    rw [mappingLine, dropWhile_colon (not_mem_hex hcolon _), List.tail_cons]
  have hreverse : (numeral 16 m.1.lo.toNat ++ colon :: numeral 10 m.2.toNat).reverse =
      (numeral 10 m.2.toNat).reverse ++ colon :: (numeral 16 m.1.lo.toNat).reverse := by
    simp
  have hlast : colon ∉ (numeral 10 m.2.toNat).reverse := by
    simpa using not_mem_decimal hcolon m.2.toNat
  simp only [parseMapping, hrest, List.rdropWhile, List.rtakeWhile, hreverse, dropWhile_colon hlast,
    takeWhile_colon hlast, List.reverse_cons, List.reverse_reverse, List.dropLast_concat]
  rw [mappingLine, takeWhile_colon (not_mem_hex hcolon _), if_pos (by simp), parseHexU64_numeral,
    parseHexU64_numeral, parseDecimalU32_numeral]
  simp [h]

theorem newline_not_mem_mappingLine (m : TypeCanonicalId × UInt32) : newline ∉ mappingLine m := by
  have hnewline : Lib.digitValue 16 newline = none := by decide
  simp only [mappingLine, List.mem_append, List.mem_cons, not_or]
  exact ⟨not_mem_hex hnewline _, by decide, not_mem_hex hnewline _, by decide, not_mem_decimal hnewline _⟩

/-! ### What holds of every registry -/

/-- The two maps are inverse to each other, and no tag is zero. -/
structure Consistent (r : CanonicalRegistry) : Prop where
  inverse : ∀ (id : TypeCanonicalId) (tag : UInt32), r.byTag[tag]? = some id ↔ r.tags[id]? = some tag
  nonzero : ∀ (id : TypeCanonicalId) (tag : UInt32), r.tags[id]? = some tag → tag ≠ 0

theorem consistent_empty : Consistent {} := ⟨by simp, by simp⟩

variable {r : CanonicalRegistry}

theorem Consistent.distinct (h : Consistent r) : Types.Distinct r.tags := by
  intro a b tag ha hb
  have ha := (h.inverse a tag).mpr ha
  rw [(h.inverse b tag).mpr hb] at ha
  exact (Option.some.inj ha).symm

theorem Consistent.contains_byTag (h : Consistent r) (tag : UInt32) :
    r.byTag.contains tag = true ↔ ∃ id : TypeCanonicalId, r.tags[id]? = some tag := by
  rw [Std.TreeMap.contains_eq_isSome_getElem?, Option.isSome_iff_exists]
  exact exists_congr fun id => h.inverse id tag

theorem getElem?_add (r : CanonicalRegistry) (id a : TypeCanonicalId) (tag : UInt32) :
    (r.add id tag).tags[a]? = if a = id then some tag else r.tags[a]? :=
  Types.getElem?_insert_tag r.tags id a tag

theorem Consistent.add {r : CanonicalRegistry} (h : Consistent r) {id : TypeCanonicalId} {tag : UInt32}
    (hid : r.tags[id]? = none) (htag : ∀ a : TypeCanonicalId, r.tags[a]? ≠ some tag) (hne : tag ≠ 0) :
    Consistent (r.add id tag) := by
  have hbyTag : ∀ t : UInt32, (r.add id tag).byTag[t]? = if t = tag then some id else r.byTag[t]? := by
    intro t
    show (r.byTag.insert tag id)[t]? = _
    rw [Std.TreeMap.getElem?_insert]
    simp only [Std.compare_eq_iff_eq, eq_comm (a := tag)]
  refine ⟨fun a t => ?_, fun a t ha => ?_⟩
  · rw [hbyTag, getElem?_add]
    by_cases ht : t = tag <;> by_cases ha : a = id
    · simp [ht, ha]
    · subst ht
      simp [ha, Ne.symm ha, htag a]
    · subst ha
      rw [if_neg ht, if_pos rfl, h.inverse, hid]
      simp [Ne.symm ht]
    · rw [if_neg ht, if_neg ha, h.inverse]
  · rw [getElem?_add] at ha
    split at ha
    · cases ha
      exact hne
    · exact h.nonzero a t ha

theorem Consistent.loadMapping {r : CanonicalRegistry} (h : Consistent r)
    {m : TypeCanonicalId × UInt32} (hne : m.2 ≠ 0) : Consistent (r.loadMapping m) := by
  rw [CanonicalRegistry.loadMapping]
  split
  · exact h
  · rename_i hnew
    rw [Bool.or_eq_true, not_or, h.contains_byTag, Std.TreeMap.contains_eq_isSome_getElem?] at hnew
    refine h.add ?_ (fun a ha => hnew.2 ⟨a, ha⟩) hne
    exact Option.not_isSome_iff_eq_none.mp hnew.1

theorem consistent_loadMappings : ∀ {mappings : List (TypeCanonicalId × UInt32)} {r : CanonicalRegistry},
    Consistent r → (∀ m ∈ mappings, m.2 ≠ 0) → Consistent (mappings.foldl CanonicalRegistry.loadMapping r)
  | [], _, h, _ => h
  | m :: mappings, r, h, hne => by
    rw [List.foldl_cons]
    exact consistent_loadMappings (h.loadMapping (hne m (.head _))) fun m' hm' => hne m' (.tail _ hm')

theorem parseMapping_nonzero {line : Bytes} {m : TypeCanonicalId × UInt32}
    (h : parseMapping line = some m) : m.2 ≠ 0 := by
  simp only [parseMapping] at h
  split at h
  · simp only [bind, Option.bind_eq_some_iff] at h
    obtain ⟨hi, -, lo, -, tag, -, h⟩ := h
    split at h
    · cases h
    · rename_i hne
      cases h
      exact hne
  · cases h

/-- Whatever the file holds, what is loaded is consistent. -/
theorem consistent_load (file : Option Bytes) : Consistent (load file) := by
  cases file with
  | none => exact consistent_empty
  | some bytes =>
    refine consistent_loadMappings consistent_empty fun m hm => ?_
    obtain ⟨line, -, hline⟩ := List.mem_filterMap.mp hm
    exact parseMapping_nonzero hline

/-! ### Saving and loading -/

/-- Mappings with new ids and new tags are all taken. -/
theorem getElem?_loadMappings {id : TypeCanonicalId} {tag : UInt32} :
    ∀ {mappings : List (TypeCanonicalId × UInt32)} {r : CanonicalRegistry}, Consistent r → (∀ m ∈ mappings, m.2 ≠ 0) →
      (mappings.map Prod.fst).Nodup → (mappings.map Prod.snd).Nodup →
      (∀ m ∈ mappings, r.tags[m.1]? = none ∧ ∀ a : TypeCanonicalId, r.tags[a]? ≠ some m.2) →
      ((mappings.foldl CanonicalRegistry.loadMapping r).tags[id]? = some tag ↔
        (id, tag) ∈ mappings ∨ r.tags[id]? = some tag)
  | [], _, _, _, _, _, _ => by simp
  | m :: mappings, r, h, hne, hids, htags, hnew => by
    obtain ⟨hid, htag⟩ := hnew m (.head _)
    rw [List.map_cons, List.nodup_cons] at hids htags
    have hload : r.loadMapping m = r.add m.1 m.2 := by
      have hcontains : ¬(r.tags.contains m.1 || r.byTag.contains m.2) = true := by
        rw [Bool.or_eq_true, not_or, h.contains_byTag]
        refine ⟨by simp [Std.TreeMap.contains_eq_isSome_getElem?, hid], fun ⟨a, ha⟩ => htag a ha⟩
      rw [CanonicalRegistry.loadMapping, if_neg hcontains]
    rw [List.foldl_cons, getElem?_loadMappings (h.loadMapping (hne m (.head _)))
      (fun m' hm' => hne m' (.tail _ hm')) hids.2 htags.2, hload, getElem?_add, List.mem_cons]
    · constructor
      · rintro (hmem | hsome)
        · exact .inl (.inr hmem)
        · split at hsome
          · rename_i heq
            cases hsome
            exact .inl (.inl (by rw [heq]))
          · exact .inr hsome
      · rintro ((heq | hmem) | hsome)
        · exact .inr (by rw [← heq, if_pos rfl])
        · exact .inl hmem
        · have hother : id ≠ m.1 := by
            rintro rfl
            rw [hid] at hsome
            cases hsome
          exact .inr (by rwa [if_neg hother])
    · intro m' hm'
      have hfst : m'.1 ≠ m.1 := fun heq => hids.1 (heq ▸ List.mem_map_of_mem hm')
      have hsnd : m'.2 ≠ m.2 := fun heq => htags.1 (heq ▸ List.mem_map_of_mem hm')
      obtain ⟨hid', htag'⟩ := hnew m' (.tail _ hm')
      rw [hload]
      refine ⟨by rw [getElem?_add, if_neg hfst, hid'], fun a => ?_⟩
      rw [getElem?_add]
      split
      · simpa using Ne.symm hsnd
      · exact htag' a

/-- A saved registry is loaded as it was. -/
theorem Consistent.load_save (h : Consistent r) (id : TypeCanonicalId) :
    (load (some r.save)).tags[id]? = r.tags[id]? := by
  have hmem : ∀ m : TypeCanonicalId × UInt32, m ∈ r.tags.toList ↔ r.tags[m.1]? = some m.2 :=
    fun m => Std.TreeMap.mem_toList_iff_getElem?_eq_some
  have hne : ∀ m ∈ r.tags.toList, m.2 ≠ 0 := fun m hm => h.nonzero m.1 m.2 ((hmem m).mp hm)
  have hlines : (getLines [] r.save).filterMap parseMapping = r.tags.toList := by
    rw [save, getLines_flatMap fun m _ => newline_not_mem_mappingLine m, List.filterMap_map]
    refine (List.filterMap_congr fun m hm => ?_).trans List.filterMap_some
    exact parseMapping_mappingLine (hne m hm)
  have hids : (r.tags.toList.map Prod.fst).Nodup := by
    rw [List.nodup_iff_pairwise_ne, List.pairwise_map]
    refine Std.TreeMap.distinct_keys_toList.imp fun hne heq => hne ?_
    rw [heq]
    exact Std.ReflCmp.compare_self
  have htags : (r.tags.toList.map Prod.snd).Nodup := by
    refine (List.Nodup.of_map Prod.fst hids).map_on ?_
    intro a ha b hb heq
    have hfst := h.distinct ((hmem a).mp ha) (heq ▸ (hmem b).mp hb)
    exact Prod.ext hfst heq
  ext tag
  rw [load, hlines, getElem?_loadMappings consistent_empty hne hids htags (by simp), hmem]
  simp

end CanonicalRegistry

/-! ### Runs -/

/-- The tag of a new id exists: it is not zero and nobody has it. -/
def AssignSafe (r : CanonicalRegistry) (id : TypeCanonicalId) : Prop :=
  r.tags[id]? = none → r.nextTag ≠ 0 ∧ ∀ a : TypeCanonicalId, r.tags[a]? ≠ some r.nextTag

namespace RegistryStore

/-- The registry is consistent, and the file would be loaded as it. -/
structure Synced (s : RegistryStore) : Prop where
  consistent : s.registry.Consistent
  saved : ∀ id : TypeCanonicalId, (CanonicalRegistry.load s.file).tags[id]? = s.registry.tags[id]?

theorem synced_openFile (file : Option Bytes) : Synced (openFile file) :=
  ⟨CanonicalRegistry.consistent_load file, fun _ => rfl⟩

variable {s : RegistryStore} {id : TypeCanonicalId}

theorem assignCanonicalId_known {tag : UInt32} (h : s.registry.tags[id]? = some tag) :
    s.assignCanonicalId id = (tag, s) := by
  rw [assignCanonicalId, h]

theorem assignCanonicalId_new (hs : s.Synced) (h : s.registry.tags[id]? = none) (hsafe : AssignSafe s.registry id) :
    s.assignCanonicalId id = (s.registry.nextTag,
      ⟨some (s.registry.add id s.registry.nextTag).save, s.registry.add id s.registry.nextTag⟩) := by
  obtain ⟨hne, hfree⟩ := hsafe h
  have hcontains : ¬(s.registry.nextTag = 0 ∨ s.registry.byTag.contains s.registry.nextTag) := by
    rw [hs.consistent.contains_byTag]
    exact fun hor => hor.elim hne fun ⟨a, ha⟩ => hfree a ha
  simp only [assignCanonicalId, h, if_neg hcontains]

theorem assignCanonicalId_refused (hs : s.Synced) (hviolated : ¬AssignSafe s.registry id) :
    s.assignCanonicalId id = (0, s) := by
  obtain ⟨h, htaken⟩ := Classical.not_imp.mp hviolated
  have hcontains : s.registry.nextTag = 0 ∨ s.registry.byTag.contains s.registry.nextTag := by
    rw [hs.consistent.contains_byTag]
    by_contra hnot
    exact htaken ⟨fun hzero => hnot (.inl hzero), fun a ha => hnot (.inr ⟨a, ha⟩)⟩
  simp only [assignCanonicalId, h, if_pos hcontains]

/-- The three outcomes of a call: the id is known, it gets a tag, or there is none to get. -/
theorem assignCanonicalId_cases (hs : s.Synced) (id : TypeCanonicalId) :
    (∃ tag, s.registry.tags[id]? = some tag ∧ s.assignCanonicalId id = (tag, s)) ∨
    (s.registry.tags[id]? = none ∧ AssignSafe s.registry id ∧ s.assignCanonicalId id = (s.registry.nextTag,
        ⟨some (s.registry.add id s.registry.nextTag).save, s.registry.add id s.registry.nextTag⟩)) ∨
    (¬AssignSafe s.registry id ∧ s.assignCanonicalId id = (0, s)) := by
  cases h : s.registry.tags[id]? with
  | some tag => exact .inl ⟨tag, rfl, assignCanonicalId_known h⟩
  | none =>
    by_cases hsafe : AssignSafe s.registry id
    · exact .inr (.inl ⟨rfl, hsafe, assignCanonicalId_new hs h hsafe⟩)
    · exact .inr (.inr ⟨hsafe, assignCanonicalId_refused hs hsafe⟩)

theorem Synced.assign (hs : s.Synced) (id : TypeCanonicalId) : (s.assignCanonicalId id).2.Synced := by
  rcases assignCanonicalId_cases hs id with ⟨tag, -, heq⟩ | ⟨hnone, hsafe, heq⟩ | ⟨-, heq⟩
  · rw [heq]
    exact hs
  · obtain ⟨hne, hfree⟩ := hsafe hnone
    have hadd := hs.consistent.add hnone hfree hne
    rw [heq]
    exact ⟨hadd, hadd.load_save⟩
  · rw [heq]
    exact hs

theorem Synced.apply (hs : s.Synced) : ∀ op : RegistryOp, (op.apply s).Synced
  | .assign id => hs.assign id
  | .reopen => synced_openFile s.file

/-- A call returns zero exactly if there is no tag to get. -/
theorem assignCanonicalId_ne_zero (hs : s.Synced) (id : TypeCanonicalId) :
    (s.assignCanonicalId id).1 ≠ 0 ↔ AssignSafe s.registry id := by
  rcases assignCanonicalId_cases hs id with ⟨tag, hsome, heq⟩ | ⟨hnone, hsafe, heq⟩ | ⟨hviolated, heq⟩
  · rw [heq]
    refine ⟨fun _ hnone => ?_, fun _ => hs.consistent.nonzero id tag hsome⟩
    rw [hsome] at hnone
    cases hnone
  · rw [heq]
    exact ⟨fun _ => hsafe, fun _ => (hsafe hnone).1⟩
  · rw [heq]
    exact ⟨fun h => absurd rfl h, fun h => absurd h hviolated⟩

/-- A tag that was returned is the tag of its id from then on. -/
theorem assignCanonicalId_returned (hs : s.Synced) (h : (s.assignCanonicalId id).1 ≠ 0) :
    (s.assignCanonicalId id).2.registry.tags[id]? = some (s.assignCanonicalId id).1 := by
  rcases assignCanonicalId_cases hs id with ⟨tag, hsome, heq⟩ | ⟨hnone, hsafe, heq⟩ | ⟨-, heq⟩
  · rw [heq, hsome]
  · rw [heq, CanonicalRegistry.getElem?_add, if_pos rfl]
  · rw [heq] at h
    exact absurd rfl h

theorem stable_apply (hs : s.Synced) {a : TypeCanonicalId} {tag : UInt32}
    (h : s.registry.tags[a]? = some tag) (op : RegistryOp) : (op.apply s).registry.tags[a]? = some tag := by
  cases op with
  | assign id =>
    rw [RegistryOp.apply]
    rcases assignCanonicalId_cases hs id with ⟨_, -, heq⟩ | ⟨hnone, hsafe, heq⟩ | ⟨-, heq⟩
    · rw [heq, h]
    · rw [heq, CanonicalRegistry.getElem?_add, if_neg, h]
      rintro rfl
      rw [h] at hnone
      cases hnone
    · rw [heq, h]
  | reopen => exact (hs.saved a).trans h

theorem synced_run : ∀ (ops : List RegistryOp) {s : RegistryStore}, s.Synced → (ops.foldl RegistryOp.apply s).Synced
  | [], _, h => h
  | op :: ops, s, h => by
    rw [List.foldl_cons]
    exact synced_run ops (h.apply op)

theorem stable_run {a : TypeCanonicalId} {tag : UInt32} : ∀ {ops : List RegistryOp} {s : RegistryStore},
    s.Synced → s.registry.tags[a]? = some tag → (ops.foldl RegistryOp.apply s).registry.tags[a]? = some tag
  | [], _, _, h => h
  | op :: ops, s, hs, h => by
    rw [List.foldl_cons]
    exact stable_run (hs.apply op) (stable_apply hs h op)

/-- At the end of a run every tag it has returned is the tag of its id. -/
theorem returns_kept : ∀ {ops : List RegistryOp} {s : RegistryStore}, s.Synced →
    ∀ r ∈ RegistryOp.returns s ops, r.2 ≠ 0 → (ops.foldl RegistryOp.apply s).registry.tags[r.1]? = some r.2
  | [], _, _, _, h, _ => absurd h List.not_mem_nil
  | .assign id :: ops, s, hs, r, h, hne => by
    rw [List.foldl_cons]
    rcases List.mem_cons.mp h with rfl | h
    · exact stable_run (hs.assign id) (assignCanonicalId_returned hs hne)
    · exact returns_kept (hs.assign id) r h hne
  | .reopen :: ops, s, hs, r, h, hne => by
    rw [List.foldl_cons]
    exact returns_kept (hs.apply .reopen) r h hne

/-- Every call of a run returns a tag exactly if each of them finds one. -/
theorem returns_ne_zero_iff : ∀ (ops : List RegistryOp) {s : RegistryStore}, s.Synced →
    ((∀ r ∈ RegistryOp.returns s ops, r.2 ≠ 0) ↔ ∀ before id after, ops = before ++ .assign id :: after →
        AssignSafe (before.foldl RegistryOp.apply s).registry id)
  | [], _, _ => by simp [RegistryOp.returns]
  | op :: ops, s, hs => by
    have ih := returns_ne_zero_iff ops (hs.apply op)
    have hsplit : (∀ before id after, op :: ops = before ++ .assign id :: after →
          AssignSafe (before.foldl RegistryOp.apply s).registry id) ↔
        (∀ id, op = .assign id → AssignSafe s.registry id) ∧
        ∀ before id after, ops = before ++ .assign id :: after →
          AssignSafe (before.foldl RegistryOp.apply (op.apply s)).registry id := by
      constructor
      · intro h
        exact ⟨fun id hid => h [] id ops (by rw [hid]; rfl),
          fun before id after hops => h (op :: before) id after (by rw [hops]; rfl)⟩
      · rintro ⟨hnow, hlater⟩ (_ | ⟨op', before⟩) id after hops
        · exact hnow id (List.cons.inj hops).1
        · obtain ⟨rfl, htail⟩ := List.cons.inj hops
          exact hlater before id after htail
    rw [hsplit, ← ih]
    cases op with
    | assign id =>
      simp only [RegistryOp.returns, List.forall_mem_cons, assignCanonicalId_ne_zero hs,
        RegistryOp.assign.injEq, forall_eq']
    | reopen => simp [RegistryOp.returns]

end RegistryStore

/-- What the calls of a run return: never zero, the same tag for the same id and another tag for
    another id. -/
structure TagsUnique (returns : List (TypeCanonicalId × UInt32)) : Prop where
  nonzero : ∀ r ∈ returns, r.2 ≠ 0
  stable : ∀ r ∈ returns, ∀ r' ∈ returns, r.1 = r'.1 → r.2 = r'.2
  distinct : ∀ r ∈ returns, ∀ r' ∈ returns, r.1 ≠ r'.1 → r.2 ≠ r'.2

/-- Whatever the file holds and however often it is reopened: the calls of a run return unique and stable
    tags if and only if each of them finds the tag it would give out free. -/
theorem assigned_tags_unique_iff (file : Option Bytes) (ops : List RegistryOp) :
    TagsUnique (RegistryOp.returns (.openFile file) ops) ↔ ∀ before id after, ops = before ++ .assign id :: after →
        AssignSafe (before.foldl RegistryOp.apply (.openFile file)).registry id := by
  have hs := RegistryStore.synced_openFile file
  rw [← RegistryStore.returns_ne_zero_iff ops hs]
  refine ⟨TagsUnique.nonzero, fun hne => ?_⟩
  have hend := (RegistryStore.synced_run ops hs).consistent.distinct
  have hkept := fun r hr => RegistryStore.returns_kept hs r hr (hne r hr)
  refine ⟨hne, fun r hr r' hr' heq => ?_, fun r hr r' hr' hid heq => ?_⟩
  · have h := hkept r hr
    rw [heq, hkept r' hr'] at h
    exact (Option.some.inj h).symm
  · exact hid (hend (hkept r hr) (heq ▸ hkept r' hr'))

/-- A file whose only line, `1:1:2`, takes the tag a second id would get. -/
theorem assigned_tag_missing : ¬TagsUnique (RegistryOp.returns (.openFile (some [0x31, 0x3a, 0x31, 0x3a, 0x32, 0x0a]))
      [.assign ⟨5, 5⟩]) := by
  intro h
  exact h.nonzero (⟨5, 5⟩, 0) (by decide +kernel) rfl

end Zith.Cache
