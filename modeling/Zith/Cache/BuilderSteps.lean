import Zith.Cache.ArtifactBuilder
import Zith.Lib.Foretold
import Zith.Lib.Fuel
import Zith.Types.Interning

/-! What interning adds to the tables of an artifact. Rows of the type table refer to earlier rows (`Earlier`),
    so the compact type of a row refers to earlier compact types, and an id that was handed out is what the
    last tables say (`stringId`, `typeId`).

        internString, pushType ──▶ convertData ──▶ convertType ──▶ internType -/

namespace Zith.Cache
open Zith.Lib Zith.Lib.Foretold Zith.Hir
open Growing (bind_eq_some)
open Types (TypeIntern TypeData)
open Zirl (CompactType CompactTypeKind)

/-! ### States -/

/-- Nothing is taken back. -/
structure BuilderState.Le (s t : BuilderState) : Prop where
  strings : s.strings <+: t.strings
  compactTypes : s.compactTypes <+: t.compactTypes
  typeIndex : ∀ {id compactId}, s.typeIndex.lookup id = some compactId → t.typeIndex.lookup id = some compactId
  signatures : s.functionSignatureTypeIds <+: t.functionSignatureTypeIds

theorem BuilderState.Le.refl (s : BuilderState) : s.Le s := ⟨List.prefix_rfl, List.prefix_rfl, id, List.prefix_rfl⟩

theorem BuilderState.Le.trans {s t u : BuilderState} (h : s.Le t) (h' : t.Le u) : s.Le u :=
  ⟨h.1.trans h'.1, h.2.trans h'.2, fun hid => h'.3 (h.3 hid), h.4.trans h'.4⟩

/-- Every index is one of 32 bits. -/
structure BuilderState.Fits (f : BuilderState) : Prop where
  strings : f.strings.length < 2 ^ 32
  compactTypes : f.compactTypes.length < 2 ^ 32

section
variable (f : BuilderState)

/-- The id `internString` hands out: the empty string has the id of the first other one. -/
def stringId (s : Text) : UInt32 := if s = [] then 0 else UInt32.ofNat (f.strings.idxOf s)

/-- The id `internType` hands out: an invalid type has the id of the first type. -/
def typeId (id : ℕ) : UInt32 := if id = kInvalidType.toNat then 0 else (f.typeIndex.lookup id).getD 0

def compactOf : TypeData → CompactType
  | .never => { blankType with kind := .never }
  | .void => { blankType with kind := .void }
  | .bool => { blankType with kind := .bool }
  | .char => { blankType with kind := .char }
  | .int width => { blankType with kind := .int, intWidth := UInt8.ofNat width.ctorIdx }
  | .float width => { blankType with kind := .float, intWidth := UInt8.ofNat width.ctorIdx }
  | .ptr pointee isMut _ =>
    { blankType with kind := .ptr, ref0 := typeId f pointee, flags := if isMut then 1 else 0 }
  | .array elem count => { blankType with kind := .array, ref0 := typeId f elem, ref1 := count }
  | .struct defId => { blankType with kind := .struct, ref0 := UInt32.ofNat defId }
  | .fn params ret => { blankType with kind := .fn, ref0 := typeId f ret, args := params.map (typeId f) }
  | .typeVar id => { blankType with kind := .typeVar, ref0 := id }
  | .optional inner => { blankType with kind := .optional, ref0 := typeId f inner }
  | .failable inner => { blankType with kind := .failable, ref0 := typeId f inner }
  | .trait name => { blankType with kind := .trait, ref0 := stringId f name }
  | .opaqueUntagged => { blankType with kind := .opaqueUntagged }
  | .opaqueTagged => { blankType with kind := .opaqueTagged }
  | .slice elem => { blankType with kind := .slice, ref0 := typeId f elem }
  | .enum defId => { blankType with kind := .enum, ref0 := UInt32.ofNat defId }
  | .union defId => { blankType with kind := .union, ref0 := UInt32.ofNat defId }
  | .pack members names =>
    { blankType with kind := .pack, args := members.map (typeId f), argNames := names.map (stringId f) }
  | .dyn target methodCount =>
    { blankType with kind := .dyn, ref0 := typeId f target, ref1 := methodCount.toUInt32 }
  | .sum members => { blankType with kind := .union, args := members.map (typeId f) }
  | .genericParam ownerName paramIndex =>
    { blankType with kind := .genericParam, ref0 := stringId f ownerName, ref1 := paramIndex }
  | .incomplete base args =>
    { blankType with kind := .incomplete, ref0 := typeId f base, args := args.map (typeId f) }
  | _ => blankType

/-- A text has an id of its own; the empty one needs none. -/
def Listed (s : Text) : Prop := s = [] ∨ s ∈ f.strings

/-- A type has been entered; an invalid one needs no entry. -/
def Known (id : ℕ) : Prop := id = kInvalidType.toNat ∨ ∃ k, f.typeIndex.lookup id = some k

/-- A row has been entered, before the compact type `compactId`; an invalid type needs none. -/
def Before (id : ℕ) (compactId : UInt32) : Prop :=
  id = kInvalidType.toNat ∨ ∃ k, f.typeIndex.lookup id = some k ∧ k.toNat < compactId.toNat

end

/-! ### Rows -/

/-- What a type stands for, along aliases, nominal and qualified types. -/
inductive Stands (T : TypeIntern) : ℕ → TypeData → Prop
  | nothing {id : ℕ} (h : T.lookup id = none) : Stands T id .error
  | itself {id : ℕ} {data : TypeData} (h : T.lookup id = some data) (ht : target? data = none) : Stands T id data
  | follows {id target : ℕ} {data end' : TypeData} (h : T.lookup id = some data) (ht : target? data = some target)
      (hend : Stands T target end') : Stands T id end'

theorem Stands.unique {T : TypeIntern} {id : ℕ} {a b : TypeData} (ha : Stands T id a) (hb : Stands T id b) : a = b := by
  induction ha with
  | nothing h =>
    rcases hb with _ | ⟨h', -⟩ | ⟨h', -, -⟩
    · rfl
    · simp [h] at h'
    · simp [h] at h'
  | itself h ht =>
    rcases hb with h' | ⟨h', ht'⟩ | ⟨h', ht', -⟩
    · simp [h] at h'
    · exact Option.some.inj (h.symm.trans h')
    · obtain rfl := Option.some.inj (h.symm.trans h')
      simp [ht] at ht'
  | follows h ht _ ih =>
    rcases hb with h' | ⟨h', ht'⟩ | ⟨h', ht', hend⟩
    · simp [h] at h'
    · obtain rfl := Option.some.inj (h.symm.trans h')
      simp [ht] at ht'
    · obtain rfl := Option.some.inj (h.symm.trans h')
      obtain rfl := Option.some.inj (ht.symm.trans ht')
      exact ih hend

/-- Rows refer to earlier rows, or to no type. -/
structure Earlier (T : TypeIntern) : Prop where
  size : T.types.length ≤ kInvalidType.toNat
  dependency : ∀ {id data}, T.lookup id = some data → ∀ c ∈ dependencies data, c < id ∨ c = kInvalidType.toNat

theorem target_mem_dependencies {data : TypeData} {target : ℕ} (h : target? data = some target) :
    dependencies data = [target] := by
  cases data <;> simp_all [target?, dependencies]

theorem Earlier.invalid {T : TypeIntern} (h : Earlier T) : T.lookup kInvalidType.toNat = none :=
  List.getElem?_eq_none h.size

/-- What `id` was entered as: the compact type of what it stands for, with its parts before it. -/
structure Entered (T : TypeIntern) (f : BuilderState) (id : ℕ) (compactId : UInt32) (data : TypeData) : Prop where
  stands : Stands T id data
  compact : f.compactTypes[compactId.toNat]? = some (compactOf f data)
  parts : ∀ c ∈ dependencies data, Before f c compactId
  names : ∀ s ∈ data.strings, Listed f s

structure BuilderState.Inv (T : TypeIntern) (s f : BuilderState) : Prop where
  nodup : s.strings.Nodup
  nonempty : [] ∉ s.strings
  bound : ∀ {id k}, s.typeIndex.lookup id = some k → k.toNat < s.compactTypes.length
  entered : ∀ {id k}, s.typeIndex.lookup id = some k → ∃ data, Entered T f id k data

/-- Interning towards the last state `f`, of types below `n`. -/
def interning (T : TypeIntern) (f : BuilderState) (n : ℕ) : Foretold BuilderState where
  grows s t := s.Le t ∧ t.functionSignatureTypeIds = s.functionSignatureTypeIds ∧
    ∀ j, n ≤ j → t.typeIndex.lookup j = s.typeIndex.lookup j
  below s := s.Le f
  inv s := s.Inv T f
  refl s := ⟨.refl s, rfl, fun _ _ => rfl⟩
  trans h h' := ⟨h.1.trans h'.1, h'.2.1.trans h.2.1, fun j hj => (h'.2.2 j hj).trans (h.2.2 j hj)⟩
  back h hf := h.1.trans hf

section
variable {T : TypeIntern} {f : BuilderState} {n : ℕ}

/-! ### Strings -/

theorem idxOf_of_prefix {l l' : List Text} {s : Text} (hle : l <+: l') (hs : s ∈ l) : l'.idxOf s = l.idxOf s := by
  obtain ⟨rest, rfl⟩ := hle
  exact List.idxOf_append_of_mem hs

theorem idxOf_of_idxOf? {l : List Text} {s : Text} {i : ℕ} (h : l.idxOf? s = some i) : s ∈ l ∧ l.idxOf s = i := by
  have hmem : s ∈ l := by
    by_contra hnot
    simp [List.idxOf?_eq_none_iff.mpr hnot] at h
  refine ⟨hmem, ?_⟩
  rw [List.idxOf_eq_getD_idxOf?, h]
  rfl

theorem internString_lists (s : Text) :
    (interning T f n).Makes (internString s) fun k => k = stringId f s ∧ Listed f s := by
  intro b k t hrun
  rw [internString] at hrun
  split at hrun
  · next hs =>
    obtain ⟨rfl, rfl⟩ := Prod.mk.inj (Option.some.inj hrun)
    exact ⟨(interning T f n).refl b, fun _ hb => ⟨hb, by rw [stringId, if_pos hs], .inl hs⟩⟩
  · next hs =>
    split at hrun
    · next i hi =>
      obtain ⟨rfl, rfl⟩ := Prod.mk.inj (Option.some.inj hrun)
      refine ⟨(interning T f n).refl b, fun hle hb => ⟨hb, ?_⟩⟩
      obtain ⟨hmem, rfl⟩ := idxOf_of_idxOf? hi
      rw [stringId, if_neg hs, idxOf_of_prefix hle.strings hmem]
      exact ⟨rfl, .inr (hle.strings.subset hmem)⟩
    · next hi =>
      obtain ⟨rfl, rfl⟩ := Prod.mk.inj (Option.some.inj hrun)
      have hnew : s ∉ b.strings := by simpa using hi
      refine ⟨⟨⟨List.prefix_append _ _, List.prefix_rfl, id, List.prefix_rfl⟩, rfl, fun _ _ => rfl⟩,
        fun hle hb => ⟨⟨?_, ?_, hb.bound, hb.entered⟩, ?_, .inr (hle.strings.subset (by simp))⟩⟩
      · exact List.nodup_append.mpr ⟨hb.nodup, by simp, by
          rintro a ha c hc rfl
          exact hnew (List.mem_singleton.mp hc ▸ ha)⟩
      · rw [List.mem_append, List.mem_singleton]
        rintro (h | h)
        · exact hb.nonempty h
        · exact hs h.symm
      · rw [stringId, if_neg hs, idxOf_of_prefix hle.strings (by simp), List.idxOf_append_of_notMem hnew]
        simp

theorem internString_makes (s : Text) : (interning T f n).Makes (internString s) (· = stringId f s) :=
  (internString_lists s).mono fun _ h => h.1

/-! ### Compact types -/

theorem eq_map {α β : Type} {g : α → β} {l : List α} {l' : List β} (h : List.Forall₂ (fun a b => b = g a) l l') :
    l' = l.map g := eq_map_of_forall₂ h

theorem strings_make (names : List Text) : (interning T f n).Makes (names.mapM internString) fun ks =>
      ks = names.map (stringId f) ∧ ∀ s ∈ names, Listed f s := by
  refine (Makes.mapM fun name _ => internString_lists name).mono fun ks hks => ?_
  refine ⟨eq_map (hks.imp fun _ _ h => h.1), fun s hs => ?_⟩
  obtain ⟨i, hi, rfl⟩ := List.mem_iff_getElem.mp hs
  exact (hks.get hi (by rw [← hks.length_eq]; exact hi)).2

variable {intern : ℕ → Build UInt32} {k : UInt32}

theorem types_make {ids : List ℕ} (h : ∀ c ∈ ids, (interning T f n).Makes (intern c) (· = typeId f c)) :
    (interning T f n).Makes (ids.mapM intern) (· = ids.map (typeId f)) :=
  (Makes.mapM h).mono fun _ => eq_map

/-- One compact type, when its parts are interned as told. -/
theorem convertData_makes {data : TypeData} (hself : target? data = none)
    (h : ∀ c ∈ dependencies data, (interning T f n).Makes (intern c) (· = typeId f c)) :
    (interning T f n).Makes (convertData intern data) fun ct =>
      ct = compactOf f data ∧ ∀ s ∈ data.strings, Listed f s := by
  cases data with
  | «alias» target => simp [target?] at hself
  | nominal name target => simp [target?] at hself
  | qualified inner ownership isMut => simp [target?] at hself
  | ptr c _ _ | array c _ | optional c | failable c | slice c | dyn c _ =>
    refine (h c (List.mem_singleton_self c)).bind fun k => Makes.pure ?_
    rintro rfl
    exact ⟨rfl, by simp [TypeData.strings]⟩
  | trait name | genericParam name _ =>
    refine (internString_lists name).bind fun k => Makes.pure ?_
    rintro ⟨rfl, hname⟩
    exact ⟨rfl, by simpa [TypeData.strings] using hname⟩
  | fn cs c | incomplete c cs =>
    obtain ⟨hc, hcs⟩ := List.forall_mem_cons.mp h
    refine hc.bind fun k => (types_make hcs).bind fun ks => Makes.pure ?_
    rintro rfl rfl
    exact ⟨rfl, by simp [TypeData.strings]⟩
  | pack members names =>
    refine (types_make h).bind fun ks => (strings_make names).bind fun ns => Makes.pure ?_
    rintro ⟨rfl, hnames⟩ rfl
    exact ⟨rfl, hnames⟩
  | sum members =>
    refine (types_make h).bind fun ks => Makes.pure ?_
    rintro rfl
    exact ⟨rfl, by simp [TypeData.strings]⟩
  | _ => exact Makes.pure ⟨rfl, by simp [TypeData.strings]⟩

theorem convertType_makes (hT : Earlier T)
    (h : ∀ c, c < n ∨ c = kInvalidType.toNat → (interning T f n).Makes (intern c) (· = typeId f c)) :
    ∀ {depth id : ℕ}, id ≤ n → (interning T f n).Makes (convertType T intern depth id) fun ct =>
      ∃ data, Stands T id data ∧ ct = compactOf f data ∧ ∀ s ∈ data.strings, Listed f s := by
  have hparts : ∀ {id : ℕ} {data : TypeData}, id ≤ n → T.lookup id = some data → ∀ c ∈ dependencies data,
      c < n ∨ c = kInvalidType.toNat := fun hid hrow c hc =>
    (hT.dependency hrow c hc).imp_left fun hlt => lt_of_lt_of_le hlt hid
  intro depth
  induction depth with
  | zero =>
    rintro id - s k t ⟨⟩
  | succ depth ih =>
    intro id hid
    rw [convertType]
    split
    · next hnone => exact Makes.pure ⟨.error, .nothing hnone, rfl, by simp [TypeData.strings]⟩
    · next data hrow =>
      split
      · next target htarget =>
        have hmem := hparts hid hrow target (by simp [target_mem_dependencies htarget])
        rcases hmem with hlt | rfl
        · refine (ih hlt.le).mono ?_
          rintro ct ⟨data', hdata', hct⟩
          exact ⟨data', .follows hrow htarget hdata', hct⟩
        · cases depth with
          | zero =>
            rintro s k t ⟨⟩
          | succ depth =>
            rw [convertType, hT.invalid]
            exact Makes.pure ⟨.error, .follows hrow htarget (.nothing hT.invalid), rfl, by simp [TypeData.strings]⟩
      · next hself =>
        exact (convertData_makes hself fun c hc => h c (hparts hid hrow c hc)).mono fun ct hct =>
          ⟨data, .itself hrow hself, hct⟩

/-! ### Interning a type -/

/-- The ways `internType` can go. -/
inductive InternRun (T : TypeIntern) (depth id : ℕ) (s : BuilderState) : UInt32 → BuilderState → Prop
  | invalid (h : id = kInvalidType.toNat) : InternRun T depth id s 0 s
  | known {k : UInt32} (h : id ≠ kInvalidType.toNat) (hk : s.typeIndex.lookup id = some k) : InternRun T depth id s k s
  | new {data : TypeData} {ct : CompactType} {s₁ s₂ t : BuilderState} {k : UInt32} (h : id ≠ kInvalidType.toNat)
      (hnew : s.typeIndex.lookup id = none) (hrow : T.lookup id = some data)
      (hdeps : ((dependencies data).forM fun c => do let _ ← internType T depth c) s = some (⟨⟩, s₁))
      (hct : convertType T (internType T depth) depth id s₁ = some (ct, s₂))
      (hpush : pushType id ct s₂ = some (k, t)) : InternRun T depth id s k t

theorem internRun {depth id : ℕ} {s t : BuilderState} (h : internType T (depth + 1) id s = some (k, t)) :
    InternRun T depth id s k t := by
  rw [internType] at h
  split at h
  · next hid =>
    obtain ⟨rfl, rfl⟩ := Prod.mk.inj (Option.some.inj h)
    exact .invalid hid
  · next hid =>
    obtain ⟨s', s'', hget, h⟩ := bind_eq_some h
    obtain ⟨rfl, rfl⟩ := Prod.mk.inj (Option.some.inj hget)
    cases hknown : s.typeIndex.lookup id with
    | some existing =>
      simp only [hknown] at h
      obtain ⟨rfl, rfl⟩ := Prod.mk.inj (Option.some.inj h)
      exact .known hid hknown
    | none =>
      simp only [hknown] at h
      obtain ⟨data, u, hdata, h⟩ := bind_eq_some h
      obtain ⟨d, hrow, hpair⟩ := Option.map_eq_some_iff.mp hdata
      obtain ⟨rfl, rfl⟩ := Prod.mk.inj hpair
      obtain ⟨⟨⟩, s₁, hdeps, h⟩ := bind_eq_some h
      obtain ⟨ct, s₂, hct, h⟩ := bind_eq_some h
      exact .new hid hknown hrow hdeps hct h

/-- After the run the type has an entry. -/
theorem entry_of_internType {depth id : ℕ} {s t : BuilderState} (h : internType T depth id s = some (k, t)) :
    id = kInvalidType.toNat ∨ t.typeIndex.lookup id = some k := by
  cases depth with
  | zero => exact nomatch h
  | succ depth =>
    rcases internRun h with hid | ⟨-, hk⟩ | ⟨-, -, -, -, -, hpush⟩
    · exact .inl hid
    · exact .inr hk
    · obtain ⟨rfl, rfl⟩ := Prod.mk.inj (Option.some.inj hpush)
      exact .inr (by simp)

/-- Dependencies that are interned one after the other all have an entry at the end. -/
theorem entries_of_forM {depth : ℕ} (hgrows : ∀ c s t k, internType T depth c s = some (k, t) → s.Le t) :
    ∀ {l : List ℕ} {s t : BuilderState}, (l.forM fun c => do let _ ← internType T depth c) s = some (⟨⟩, t) →
        s.Le t ∧ ∀ c ∈ l, c = kInvalidType.toNat ∨ ∃ k, t.typeIndex.lookup c = some k := by
  intro l
  induction l with
  | nil =>
    intro s t h
    obtain rfl := (Prod.mk.inj (Option.some.inj h)).2
    exact ⟨.refl s, by simp⟩
  | cons c l ih =>
    intro s t h
    obtain ⟨⟨⟩, s₁, hc, hl⟩ := bind_eq_some h
    obtain ⟨k, s₂, hrun, hpure⟩ := bind_eq_some hc
    obtain rfl := (Prod.mk.inj (Option.some.inj hpure)).2
    obtain ⟨hle, hall⟩ := ih hl
    refine ⟨(hgrows c _ _ _ hrun).trans hle, List.forall_mem_cons.mpr ⟨?_, hall⟩⟩
    exact (entry_of_internType hrun).imp_right fun hk => ⟨k, hle.typeIndex hk⟩

theorem lookup_cons_of_ne {l : List (ℕ × UInt32)} {id j : ℕ} (k : UInt32) (h : j ≠ id) :
    ((id, k) :: l).lookup j = l.lookup j := by
  rw [List.lookup_cons, beq_eq_false_iff_ne.mpr h]

theorem typeId_of_lookup {id : ℕ} (hid : id ≠ kInvalidType.toNat) (hk : f.typeIndex.lookup id = some k) :
    k = typeId f id := by
  rw [typeId, if_neg hid, hk, Option.getD_some]

theorem Before.mono {c : ℕ} {j k : UInt32} (h : Before f c j) (hle : j.toNat ≤ k.toNat) : Before f c k :=
  h.imp_right fun ⟨i, hi, hlt⟩ => ⟨i, hi, lt_of_lt_of_le hlt hle⟩

/-- The parts of what a type stands for are before it, when its dependencies are. -/
theorem parts_before (hT : Earlier T) {s : BuilderState} (hs : s.Inv T f) (hle : s.Le f) {id : ℕ}
    {data end' : TypeData} (hk : k.toNat = s.compactTypes.length) (hrow : T.lookup id = some data)
    (hdeps : ∀ c ∈ dependencies data, c = kInvalidType.toNat ∨ ∃ j, s.typeIndex.lookup c = some j)
    (hend : Stands T id end') : ∀ c ∈ dependencies end', Before f c k := by
  have hbefore : ∀ {c : ℕ} {j : UInt32}, s.typeIndex.lookup c = some j → j.toNat < k.toNat := fun hj =>
    hk ▸ hs.bound hj
  rcases hend with hnone | ⟨hself, -⟩ | ⟨hself, htarget, hend⟩
  · simp [hnone] at hrow
  · obtain rfl := Option.some.inj (hrow.symm.trans hself)
    intro c hc
    exact (hdeps c hc).imp_right fun ⟨j, hj⟩ => ⟨j, hle.typeIndex hj, hbefore hj⟩
  · obtain rfl := Option.some.inj (hrow.symm.trans hself)
    rcases hdeps _ (by rw [target_mem_dependencies htarget]; exact List.mem_singleton_self _) with rfl | ⟨j, hj⟩
    · obtain rfl := hend.unique (.nothing hT.invalid)
      simp [dependencies]
    · obtain ⟨_, hentered⟩ := hs.entered hj
      obtain rfl := hentered.stands.unique hend
      exact fun c hc => (hentered.parts c hc).mono (hbefore hj).le

/-- The compact type that is pushed for a type with all its parts before it. -/
theorem inv_pushType (hT : Earlier T) (hf : f.Fits) {s : BuilderState} (hs : s.Inv T f) {id : ℕ} {data end' : TypeData}
    (hle : BuilderState.Le { s with compactTypes := s.compactTypes ++ [compactOf f end']
                                    typeIndex := (id, UInt32.ofNat s.compactTypes.length) :: s.typeIndex } f)
    (hsf : s.Le f) (hrow : T.lookup id = some data)
    (hdeps : ∀ c ∈ dependencies data, c = kInvalidType.toNat ∨ ∃ j, s.typeIndex.lookup c = some j)
    (hend : Stands T id end') (hnames : ∀ s ∈ end'.strings, Listed f s) :
    BuilderState.Inv T { s with compactTypes := s.compactTypes ++ [compactOf f end']
                                typeIndex := (id, UInt32.ofNat s.compactTypes.length) :: s.typeIndex } f := by
  have hlen : s.compactTypes.length < f.compactTypes.length := by
    have := hle.compactTypes.length_le
    rwa [List.length_append, List.length_singleton] at this
  have hk : (UInt32.ofNat s.compactTypes.length).toNat = s.compactTypes.length := by
    rw [UInt32.toNat_ofNat', Nat.mod_eq_of_lt (hlen.trans hf.compactTypes)]
  refine ⟨hs.nodup, hs.nonempty, ?_, ?_⟩
  · intro id' k' hlookup
    rw [List.length_append, List.length_singleton]
    rw [List.lookup_cons] at hlookup
    split at hlookup
    · obtain rfl := Option.some.inj hlookup
      omega
    · exact (hs.bound hlookup).trans (Nat.lt_succ_self _)
  · intro id' k' hlookup
    rw [List.lookup_cons] at hlookup
    split at hlookup
    · next heq =>
      obtain rfl := Option.some.inj hlookup
      obtain rfl : id' = id := by simpa using heq
      refine ⟨end', hend, ?_, parts_before hT hs hsf hk hrow hdeps hend, hnames⟩
      obtain ⟨rest, hrest⟩ := hle.compactTypes
      rw [hk, ← hrest]
      simp
    · exact hs.entered hlookup

theorem internType_enters (hT : Earlier T) (hf : f.Fits) : ∀ {depth id n : ℕ}, id < n ∨ id = kInvalidType.toNat →
    (interning T f n).Makes (internType T depth id) fun k => k = typeId f id ∧ Known f id := by
  intro depth
  induction depth with
  | zero => exact fun _ _ _ _ hrun => nomatch hrun
  | succ depth ih =>
    intro id n hn s k t hrun
    rcases internRun hrun with hid | ⟨hid, hk⟩ | ⟨hid, hnew, hrow, hdeps, hct, hpush⟩
    · exact ⟨(interning T f n).refl s, fun _ hs => ⟨hs, by rw [typeId, if_pos hid], .inl hid⟩⟩
    · exact ⟨(interning T f n).refl s, fun hle hs =>
        ⟨hs, typeId_of_lookup hid (hle.typeIndex hk), .inr ⟨k, hle.typeIndex hk⟩⟩⟩
    · next data ct s₁ s₂ =>
      have hparts : (interning T f id).Makes ((dependencies data).forM fun c => do let _ ← internType T depth c)
          fun _ => True :=
        Makes.forM fun c hc => (ih (hT.dependency hrow c hc)).bind fun _ => Makes.pure fun _ => trivial
      obtain ⟨hgrow₁, hinv₁⟩ := hparts s _ s₁ hdeps
      obtain ⟨hgrow₂, hinv₂⟩ := convertType_makes hT (fun c hc => (ih hc).mono fun _ h => h.1) le_rfl s₁ ct s₂ hct
      obtain ⟨rfl, rfl⟩ := Prod.mk.inj (Option.some.inj hpush)
      have hentries := (entries_of_forM (fun c s t k h => ((ih (n := c + 1) (.inl (Nat.lt_succ_self c))) s k t h).1.1)
        hdeps).2
      have hnone : s₂.typeIndex.lookup id = none := (hgrow₂.2.2 id le_rfl).trans ((hgrow₁.2.2 id le_rfl).trans hnew)
      have hle₂ : s₂.Le { s₂ with compactTypes := s₂.compactTypes ++ [ct]
                                  typeIndex := (id, UInt32.ofNat s₂.compactTypes.length) :: s₂.typeIndex } := by
        refine ⟨List.prefix_rfl, List.prefix_append _ _, fun {id' k'} hk' => ?_, List.prefix_rfl⟩
        have hne : id' ≠ id := by
          rintro rfl
          simp [hnone] at hk'
        exact (lookup_cons_of_ne _ hne).trans hk'
      refine ⟨⟨(hgrow₁.1.trans hgrow₂.1).trans hle₂, hgrow₂.2.1.trans hgrow₁.2.1, fun j hj => ?_⟩, fun hle hs => ?_⟩
      · have hlt : id < n := hn.resolve_right hid
        calc List.lookup j ((id, UInt32.ofNat s₂.compactTypes.length) :: s₂.typeIndex)
            = s₂.typeIndex.lookup j := lookup_cons_of_ne _ (by omega)
          _ = s₁.typeIndex.lookup j := hgrow₂.2.2 j (by omega)
          _ = s.typeIndex.lookup j := hgrow₁.2.2 j (by omega)
      · obtain ⟨hs₁, -⟩ := hinv₁ (hgrow₂.1.trans (hle₂.trans hle)) hs
        obtain ⟨hs₂, end', hend, rfl, hnames⟩ := hinv₂ (hle₂.trans hle) hs₁
        have hentry : f.typeIndex.lookup id = some (UInt32.ofNat s₂.compactTypes.length) := hle.typeIndex (by simp)
        refine ⟨inv_pushType hT hf hs₂ hle (hle₂.trans hle) hrow ?_ hend hnames, typeId_of_lookup hid hentry,
          .inr ⟨_, hentry⟩⟩
        exact fun c hc => (hentries c hc).imp_right fun ⟨j, hj⟩ => ⟨j, hgrow₂.1.typeIndex hj⟩

end

end Zith.Cache
