import Zith.Cache.Manifest
import Zith.Lib.Numeral
import Zith.Zirl.DeclSection
import Zith.Zirl.Header

/-! `ArtifactBuilder::computePublicAbiHash` and the dependency check of `Store::load`. A record of either
    string is fields ended by `\x1f` and a newline:

        primary     name kind visibility depth discardable
        secondary   depth visibility kind name discardable

    A name may hold any byte; what one string leaves open the other one settles. The declared type is in
    neither. -/

namespace Zith.Cache
open Lib (numeral number number_numeral numeral_ne_nil not_mem_numeral)
open Zirl (CompactSymKind CompactVisibility DependencyRecord fnv1a32)

inductive HirDeclarationKind where
  | function | struct | trait | interface | enum | alias | «variable» | «module» | component | union
  | asset | word | context
  deriving DecidableEq

inductive HirVisibility where
  | «private» | «public» | «module»
  deriving DecidableEq

/-- `hir::HirDeclaration`, with the declared type in place of its id. -/
structure HirDeclaration (τ : Type) where
  name : Bytes
  kind : HirDeclarationKind := .«variable»
  visibility : HirVisibility := .«private»
  moduleDepth : Int32 := 0
  type : τ
  discardable : Bool := false

def mapDeclKind : HirDeclarationKind → CompactSymKind
  | .function => .fn
  | .struct => .struct
  | .trait => .trait
  | .interface => .interface
  | .enum => .enum
  | .alias => .alias
  | .«variable» => .«variable»
  | .«module» => .«module»
  | .component => .component
  | .union => .union
  | .asset => .asset
  | .word => .word
  | .context => .context

def mapVisibility : HirVisibility → CompactVisibility
  | .«private» => .«private»
  | .«public» => .«public»
  | .«module» => .«module»

/-- `<<` of a signed integer. -/
def decimalText (v : Int) : Bytes := if v < 0 then 0x2d :: numeral 10 v.natAbs else numeral 10 v.natAbs

def kindText (kind : HirDeclarationKind) : Bytes := decimalText (mapDeclKind kind).toU8.toNat

def visibilityText (visibility : HirVisibility) : Bytes := decimalText (mapVisibility visibility).toU8.toNat

/-- `decl.discardable ? 1 : 0`. -/
def flagText (b : Bool) : UInt8 := if b then 0x31 else 0x30

section
variable {τ : Type}

def primaryRecord (d : HirDeclaration τ) : Bytes :=
  d.name ++ fieldSep :: (kindText d.kind ++ fieldSep :: (visibilityText d.visibility ++ fieldSep ::
    (decimalText d.moduleDepth.toInt ++ [fieldSep, flagText d.discardable, newline])))

def secondaryRecord (d : HirDeclaration τ) : Bytes :=
  decimalText d.moduleDepth.toInt ++ fieldSep :: (visibilityText d.visibility ++ fieldSep ::
    (kindText d.kind ++ fieldSep :: (d.name ++ [fieldSep, flagText d.discardable, newline])))

/-- The declarations the loop does not skip. -/
def publicDecls (decls : List (HirDeclaration τ)) : List (HirDeclaration τ) :=
  decls.filter fun d => d.visibility = .«public» ∨ d.visibility = .«module»

/-- What `computePublicAbiHash` feeds to its two hashes. -/
def abiStrings (decls : List (HirDeclaration τ)) : Bytes × Bytes :=
  ((publicDecls decls).flatMap primaryRecord, (publicDecls decls).flatMap secondaryRecord)

/-- The two words of `computePublicAbiHash`. -/
def computePublicAbiHash (decls : List (HirDeclaration τ)) : UInt32 × UInt32 :=
  (fnv1a32 (abiStrings decls).1, fnv1a32 (abiStrings decls).2)

end

/-- What `Store::load` asks of every dependency of an artifact. -/
def dependencyValid (m : Manifest) (dep : DependencyRecord) : Bool :=
  match m.find dep.canonicalPath with
  | none => false
  | some entry =>
    dep.publicAbiHi == 0 && dep.publicAbiLo == 0 ||
      entry.publicAbiHi == dep.publicAbiHi && entry.publicAbiLo == dep.publicAbiLo

/-! ### Fields -/

/-- A field of digits: some bytes, none of them a separator or a newline. -/
structure FieldText (s : Bytes) : Prop where
  ne_nil : s ≠ []
  no_sep : fieldSep ∉ s
  no_newline : newline ∉ s

theorem fieldText_decimalText (v : Int) : FieldText (decimalText v) := by
  have hne := numeral_ne_nil 10 v.natAbs
  have hsep : fieldSep ∉ numeral 10 v.natAbs := not_mem_numeral (by decide) (by decide) (by decide) _
  have hnewline : newline ∉ numeral 10 v.natAbs := not_mem_numeral (by decide) (by decide) (by decide) _
  rw [decimalText]
  split
  · refine ⟨List.cons_ne_nil _ _, ?_, ?_⟩ <;> rw [List.mem_cons, not_or]
    · exact ⟨by decide, hsep⟩
    · exact ⟨by decide, hnewline⟩
  · exact ⟨hne, hsep, hnewline⟩

theorem numeral_injective {a b : ℕ} (h : numeral 10 a = numeral 10 b) : a = b := by
  have ha := number_numeral (by decide : 1 < 10) (by decide) a
  rw [h, number_numeral (by decide) (by decide)] at ha
  exact (Option.some.inj ha).symm

theorem decimalText_injective {a b : Int} (h : decimalText a = decimalText b) : a = b := by
  have hminus : ∀ n, (0x2d : UInt8) ∉ numeral 10 n := not_mem_numeral (by decide) (by decide) (by decide)
  simp only [decimalText] at h
  split at h <;> split at h
  · have := numeral_injective (List.cons.inj h).2
    omega
  · exact absurd (h ▸ List.mem_cons_self) (hminus b.natAbs)
  · exact absurd (h ▸ List.mem_cons_self) (hminus a.natAbs)
  · have := numeral_injective h
    omega

theorem kindText_injective {a b : HirDeclarationKind} (h : kindText a = kindText b) : a = b := by
  have hval : ∀ a b : HirDeclarationKind,
      (mapDeclKind a).toU8.toNat = (mapDeclKind b).toU8.toNat → a = b := by
    intro a b
    cases a <;> cases b <;> decide
  exact hval a b (Int.ofNat.inj (decimalText_injective h))

theorem visibilityText_injective {a b : HirVisibility} (h : visibilityText a = visibilityText b) : a = b := by
  have hval : ∀ a b : HirVisibility,
      (mapVisibility a).toU8.toNat = (mapVisibility b).toU8.toNat → a = b := by
    intro a b
    cases a <;> cases b <;> decide
  exact hval a b (Int.ofNat.inj (decimalText_injective h))

theorem flagText_injective {a b : Bool} (h : flagText a = flagText b) : a = b := by
  revert h
  cases a <;> cases b <;> decide

/-- A field without separators ends at the first one. -/
theorem field_inj {s t u v : Bytes} (hs : fieldSep ∉ s) (ht : fieldSep ∉ t)
    (h : s ++ fieldSep :: u = t ++ fieldSep :: v) : s = t ∧ u = v := by
  induction s generalizing t with
  | nil =>
    cases t with
    | nil => exact ⟨rfl, (List.cons.inj h).2⟩
    | cons c t => exact absurd ((List.cons.inj h).1 ▸ List.mem_cons_self) ht
  | cons c s ih =>
    cases t with
    | nil => exact absurd ((List.cons.inj h).1 ▸ List.mem_cons_self) hs
    | cons d t =>
      obtain ⟨rfl, htail⟩ := List.cons.inj h
      obtain ⟨rfl, hrest⟩ := ih (fun hc => hs (.tail _ hc)) (fun hc => ht (.tail _ hc)) htail
      exact ⟨rfl, hrest⟩

theorem flagText_ne_sep (b : Bool) : flagText b ≠ fieldSep := by
  cases b <;> decide

/-! ### Records -/

/-- A name cannot go on where another one ends: the secondary string says that a flag and a newline
    come next, the primary string that the digits of the kind do. -/
theorem name_not_longer {w k r r' u u' : Bytes} {b b' : Bool} (hk : FieldText k)
    (hs : flagText b :: newline :: u = w ++ fieldSep :: flagText b' :: newline :: u')
    (hp : k ++ fieldSep :: r = w ++ fieldSep :: (k ++ fieldSep :: r')) : False := by
  have hne : newline ≠ fieldSep := by decide
  match w with
  | [] => exact flagText_ne_sep b (List.cons.inj hs).1
  | [_] => exact hne (List.cons.inj (List.cons.inj hs).2).1
  | _ :: d :: w =>
    obtain ⟨c, cs, rfl⟩ := List.exists_cons_of_ne_nil hk.ne_nil
    obtain rfl : newline = d := (List.cons.inj (List.cons.inj hs).2).1
    have hp := (List.cons.inj hp).2
    match cs with
    | [] => exact hne (List.cons.inj hp).1.symm
    | e :: cs =>
      obtain rfl : e = newline := (List.cons.inj hp).1
      exact hk.no_newline (.tail _ (.head _))

theorem name_inj {n n' k r r' u u' : Bytes} {b b' : Bool} (hk : FieldText k)
    (hs : n ++ fieldSep :: flagText b :: newline :: u = n' ++ fieldSep :: flagText b' :: newline :: u')
    (hp : n ++ fieldSep :: (k ++ fieldSep :: r) = n' ++ fieldSep :: (k ++ fieldSep :: r')) : n = n' := by
  rcases List.append_eq_append_iff.mp hs with ⟨w, rfl, hw⟩ | ⟨w, rfl, hw⟩
  · match w with
    | [] => exact (List.append_nil n).symm
    | c :: w =>
      obtain ⟨rfl, hrest⟩ := List.cons.inj hw
      rw [List.append_assoc, List.append_cancel_left_eq] at hp
      exact (name_not_longer hk hrest (List.cons.inj hp).2).elim
  · match w with
    | [] => exact List.append_nil n'
    | c :: w =>
      obtain ⟨rfl, hrest⟩ := List.cons.inj hw
      rw [List.append_assoc, List.append_cancel_left_eq] at hp
      exact (name_not_longer hk hrest (List.cons.inj hp).2.symm).elim

section
variable {τ : Type}

/-- Two declarations that agree in everything but the declared type. -/
structure SameFace (d d' : HirDeclaration τ) : Prop where
  name : d.name = d'.name
  kind : d.kind = d'.kind
  visibility : d.visibility = d'.visibility
  moduleDepth : d.moduleDepth = d'.moduleDepth
  discardable : d.discardable = d'.discardable

variable {d d' : HirDeclaration τ}

theorem SameFace.records (h : SameFace d d') :
    primaryRecord d = primaryRecord d' ∧ secondaryRecord d = secondaryRecord d' := by
  simp only [primaryRecord, secondaryRecord, h.name, h.kind, h.visibility, h.moduleDepth, h.discardable, and_self]

theorem SameFace.eq (h : SameFace d d') (htype : d.type = d'.type) : d = d' := by
  obtain ⟨hname, hkind, hvisibility, hdepth, hdiscardable⟩ := h
  cases d
  cases d'
  simp_all

/-- The first record of either string decides its declaration, and what is left of the strings. -/
theorem record_inj {p p' s s' : Bytes} (hp : primaryRecord d ++ p = primaryRecord d' ++ p')
    (hs : secondaryRecord d ++ s = secondaryRecord d' ++ s') : SameFace d d' ∧ p = p' ∧ s = s' := by
  simp only [primaryRecord, secondaryRecord, List.append_assoc, List.cons_append, List.nil_append] at hp hs
  have hdigits := fun v => (fieldText_decimalText v).no_sep
  have hkinds : ∀ kind, FieldText (kindText kind) := fun _ => fieldText_decimalText _
  -- the secondary string up to the name
  obtain ⟨hdepth, hs₁⟩ := field_inj (hdigits _) (hdigits _) hs
  obtain ⟨hvisibility, hs₂⟩ := field_inj (hdigits _) (hdigits _) hs₁
  obtain ⟨hkind, hs₃⟩ := field_inj (hkinds d.kind).no_sep (hkinds d'.kind).no_sep hs₂
  have hkind := kindText_injective hkind
  rw [hkind] at hp
  have hname := name_inj (hkinds d'.kind) hs₃ hp
  -- and both from the name on
  rw [hname, List.append_cancel_left_eq] at hs₃ hp
  obtain ⟨hflag, hs₄⟩ := List.cons.inj (List.cons.inj hs₃).2
  have hp₁ := (field_inj (hkinds d'.kind).no_sep (hkinds d'.kind).no_sep (List.cons.inj hp).2).2
  have hp₂ := (field_inj (hdigits _) (hdigits _) hp₁).2
  have hp₃ := (field_inj (hdigits _) (hdigits _) hp₂).2
  exact ⟨⟨hname, hkind, visibilityText_injective hvisibility,
    Int32.toInt_inj.mp (decimalText_injective hdepth), flagText_injective hflag⟩,
    (List.cons.inj (List.cons.inj hp₃).2).2, (List.cons.inj hs₄).2⟩

theorem primaryRecord_ne_nil (d : HirDeclaration τ) : primaryRecord d ≠ [] := by
  simp [primaryRecord]

theorem strings_eq_iff : ∀ {ds ds' : List (HirDeclaration τ)}, (ds.flatMap primaryRecord = ds'.flatMap primaryRecord ∧
      ds.flatMap secondaryRecord = ds'.flatMap secondaryRecord) ↔ List.Forall₂ SameFace ds ds'
  | [], [] => by simp
  | [], d' :: _ => by
    simp only [List.flatMap_nil, List.flatMap_cons, List.nil_eq, List.append_eq_nil_iff]
    refine ⟨fun h => absurd h.1.1 (primaryRecord_ne_nil d'), fun h => by cases h⟩
  | d :: _, [] => by
    simp only [List.flatMap_nil, List.flatMap_cons, List.append_eq_nil_iff]
    refine ⟨fun h => absurd h.1.1 (primaryRecord_ne_nil d), fun h => by cases h⟩
  | d :: ds, d' :: ds' => by
    rw [List.forall₂_cons, ← strings_eq_iff]
    simp only [List.flatMap_cons]
    constructor
    · rintro ⟨hp, hs⟩
      obtain ⟨hd, hp, hs⟩ := record_inj hp hs
      exact ⟨hd, hp, hs⟩
    · rintro ⟨hd, hp, hs⟩
      rw [hd.records.1, hd.records.2, hp, hs]
      exact ⟨rfl, rfl⟩

/-- The hashes are fed the same exactly by interfaces with the same faces. -/
theorem abiStrings_eq_iff {a b : List (HirDeclaration τ)} :
    abiStrings a = abiStrings b ↔ List.Forall₂ SameFace (publicDecls a) (publicDecls b) := by
  rw [← strings_eq_iff, abiStrings, abiStrings, Prod.mk.injEq]

/-- Two interfaces agree in everything but declared types, and differ in a declared type. -/
def OnlyTypesDiffer (a b : List (HirDeclaration τ)) : Prop :=
  List.Forall₂ SameFace (publicDecls a) (publicDecls b) ∧ (publicDecls a).map (·.type) ≠ (publicDecls b).map (·.type)

theorem eq_of_sameFace : ∀ {ds ds' : List (HirDeclaration τ)}, List.Forall₂ SameFace ds ds' →
    ds.map (·.type) = ds'.map (·.type) → ds = ds'
  | [], [], _, _ => rfl
  | d :: ds, d' :: ds', .cons hd hds, htypes => by
    obtain ⟨htype, htypes⟩ := List.cons.inj htypes
    rw [hd.eq htype, eq_of_sameFace hds htypes]

/-- Different interfaces are told apart unless only declared types differ. -/
theorem abiStrings_ne_iff (a b : List (HirDeclaration τ)) :
    (publicDecls a ≠ publicDecls b → abiStrings a ≠ abiStrings b) ↔ ¬ OnlyTypesDiffer a b := by
  rw [OnlyTypesDiffer, ← abiStrings_eq_iff]
  constructor
  · rintro h ⟨hstrings, htypes⟩
    exact h (fun heq => htypes (by rw [heq])) hstrings
  · intro h hne hstrings
    refine h ⟨hstrings, fun htypes => hne (eq_of_sameFace (abiStrings_eq_iff.mp hstrings) htypes)⟩

/-- What a dependency was compiled against, when its recorded words are nonzero and `load` finds them
    current and the strings of no other interface collide with it: the same interface, but for types. -/
theorem sameFace_of_dependencyValid {m : Manifest} {dep : DependencyRecord}
    {entry : ManifestEntry} {old now : List (HirDeclaration τ)} (hvalid : dependencyValid m dep = true)
    (hentry : m.find dep.canonicalPath = some entry)
    (hold : (dep.publicAbiHi, dep.publicAbiLo) = computePublicAbiHash old)
    (hnow : (entry.publicAbiHi, entry.publicAbiLo) = computePublicAbiHash now)
    (hzero : ¬(dep.publicAbiHi = 0 ∧ dep.publicAbiLo = 0))
    (hcollision : computePublicAbiHash old = computePublicAbiHash now → abiStrings old = abiStrings now) :
    List.Forall₂ SameFace (publicDecls old) (publicDecls now) := by
  simp only [dependencyValid, hentry, Bool.or_eq_true, Bool.and_eq_true, beq_iff_eq, hzero, false_or] at hvalid
  refine abiStrings_eq_iff.mp (hcollision ?_)
  rw [← hold, ← hnow, hvalid.1, hvalid.2]

end

theorem sameFace_of_dependencyValid_retyped : List.Forall₂ SameFace
    (publicDecls [⟨[102], .function, .«public», 0, true, false⟩])
    (publicDecls [⟨[102], .function, .«public», 0, false, false⟩]) :=
  sameFace_of_dependencyValid (m := ⟨[⟨[97], [], 3410430756, 2601346696, 0, 0, []⟩], []⟩)
    (show dependencyValid _ ⟨[97], [], 3410430756, 2601346696⟩ = true by decide) rfl
    (by decide +kernel) (by decide +kernel) (by decide) fun _ => by decide +kernel

/-- A public function whose signature changes from one argument type to another. -/
theorem abiStrings_miss_signature : ¬ (publicDecls [⟨[0x66], .function, .«public», 0, ["i32", "i32"], false⟩] ≠
        publicDecls [⟨[0x66], .function, .«public», 0, ["i64", "i32"], false⟩] →
      abiStrings [⟨[0x66], .function, .«public», 0, ["i32", "i32"], false⟩] ≠
        abiStrings [⟨[0x66], .function, .«public», 0, ["i64", "i32"], false⟩]) := by
  intro h
  refine h (fun heq => ?_) rfl
  have htypes := congrArg (List.map (·.type)) heq
  simp [publicDecls] at htypes

end Zith.Cache
