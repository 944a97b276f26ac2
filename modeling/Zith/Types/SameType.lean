import Zith.Types.TypeTable

/-! What `sameType` compares of an entry is its head and its parts (`compared`); what a type is, is the
    declaration that it comes from and its arguments as well (`declarations`). The two agree if types of one
    name come from one declaration, and then `sameType` is an equivalence. -/

namespace Zith.Types

open Lib (PartGraph)

/-! ### Entries -/

inductive Head
  | basic (kind : TypeKind)
  | integer (bits : Nat) (isSigned : Bool)
  | float (bits : Nat)
  | dyn (methodCount : Nat)
  | pointer
  | genericParam (declaration index : Nat)
  | optional
  | slice
  | array (size : Nat)
  | pack
  | function
  | struct (base : List Char)
  | enum (name : String)
  | union (name : String)
  | alias
  | nominal (name : String)
deriving DecidableEq, Repr

def TypeKind.isBasic : TypeKind → Bool
  | .void | .never | .bool | .char | .string => true
  | _ => false

/-- What is compared before the parts. Other entries are the same as themselves only. -/
def Entry.head : Entry → Option Head
  | .name _ kind => if kind.isBasic then some (.basic kind) else none
  | .integer bits isSigned => some (.integer bits isSigned)
  | .float bits => some (.float bits)
  | .dyn _ methodCount => some (.dyn methodCount)
  | .pointer _ => some .pointer
  | .genericParam origin index => some (.genericParam origin.declaration index)
  | .optional _ => some .optional
  | .slice _ => some .slice
  | .array _ size => some (.array size)
  | .pack _ => some .pack
  | .function _ _ => some .function
  | .stateFunction _ _ => some .function
  | .struct n _ _ _ => some (.struct (base n))
  | .enum n _ _ => some (.enum n)
  | .union n _ _ => some (.union n)
  | .alias _ => some .alias
  | .nominal n _ _ => some (.nominal n)
  | _ => none

/-- The types that are compared one by one, of structs if both have arguments and as many. -/
def Entry.parts : Entry → List TypeId
  | .dyn target _ => [target]
  | .pointer pointee => [pointee]
  | .optional inner => [inner]
  | .slice element => [element]
  | .array element _ => [element]
  | .pack members => members
  | .function params result => result :: params
  | .stateFunction params result => result :: params
  | .struct _ _ args _ => args
  | .alias target => [target]
  | _ => []

def Entry.origin : Entry → Option Origin
  | .struct _ _ _ origin => some origin
  | .enum _ origin _ => some origin
  | .union _ origin _ => some origin
  | .nominal _ origin _ => some origin
  | .genericParam origin _ => some origin
  | _ => none

/-- The arguments that the table does not keep. -/
def Entry.declaredArgs : Entry → List TypeId
  | .enum _ _ args => args
  | .union _ _ args => args
  | .nominal _ _ args => args
  | _ => []

def Entry.arguments (entry : Entry) : List TypeId := entry.declaredArgs ++ entry.parts

def Entry.structArgs : Entry → List TypeId
  | .struct _ _ args _ => args
  | _ => []

variable {same : TypeId → TypeId → Option Bool}

theorem allSame_iff : ∀ {as bs : List TypeId}, as.length = bs.length →
    (PerModuleSema.allSame same as bs = some true ↔ List.Forall₂ (fun a b => same a b = some true) as bs)
  | [], [], _ => by simp [PerModuleSema.allSame]
  | a :: as, b :: bs, h => by
    have hlength : as.length = bs.length := by simpa using h
    have ih := allSame_iff hlength
    rw [List.forall₂_cons, ← ih]
    cases hs : same a b with
    | none => simp [PerModuleSema.allSame, hs]
    | some r => cases r <;> simp [PerModuleSema.allSame, hs]

theorem guarded_iff {as bs : List TypeId} {n m : Nat} (h : n = m ↔ as.length = bs.length) :
    (if n = m then PerModuleSema.allSame same as bs else some false) = some true ↔
      List.Forall₂ (fun a b => same a b = some true) as bs := by
  split
  · next hnm => exact allSame_iff (h.mp hnm)
  · next hnm =>
    simp only [Option.some.injEq, Bool.false_eq_true, false_iff]
    exact fun hs => hnm (h.mpr hs.length_eq)

theorem guarded_params {ps qs : List TypeId} {p q : TypeId} :
    (if ps.length = qs.length then PerModuleSema.allSame same (p :: ps) (q :: qs) else some false) =
      some true ↔ List.Forall₂ (fun a b => same a b = some true) (p :: ps) (q :: qs) :=
  guarded_iff (by simp)

theorem guarded_one {p : Prop} [Decidable p] {r : Option Bool} :
    (if p then r else some false) = some true ↔ p ∧ r = some true := by
  split <;> simp [*]

/-- Kinds that are compared at all. -/
def Comparable (ka kb : TypeKind) : Prop := ka = kb ∨ ka = .state ∧ kb = .function ∨ ka = .function ∧ kb = .state

theorem sameEntry_iff {ea eb : Entry} (hkind : Comparable ea.kind eb.kind) (ha : ea.structArgs = [])
    (hb : eb.structArgs = []) : PerModuleSema.sameEntry same (some ea) (some eb) ea.kind = some true ↔
      (∃ h, ea.head = some h ∧ eb.head = some h) ∧
        List.Forall₂ (fun a b => same a b = some true) ea.parts eb.parts := by
  cases ea <;> cases eb <;> simp only [Comparable, Entry.kind, reduceCtorEq, false_and, and_false, or_false,
    false_or, or_self, and_true] at hkind
  case name.name k _ k' =>
    rcases hkind with rfl | ⟨rfl, rfl⟩ | ⟨rfl, rfl⟩
    · cases k <;> simp [PerModuleSema.sameEntry, Entry.head, Entry.parts, Entry.kind, TypeKind.isBasic]
    · simp [PerModuleSema.sameEntry, Entry.head, Entry.kind, TypeKind.isBasic]
    · simp [PerModuleSema.sameEntry, Entry.head, Entry.kind, TypeKind.isBasic]
  case struct.struct =>
    obtain rfl := ha
    obtain rfl := hb
    simp only [PerModuleSema.sameEntry, Entry.head, Entry.kind, Entry.parts]
    simp [eq_comm]
  case pack.pack =>
    simpa [PerModuleSema.sameEntry, Entry.head, Entry.kind, Entry.parts] using guarded_iff .rfl
  case function.function | function.stateFunction | stateFunction.function | stateFunction.stateFunction =>
    simp only [PerModuleSema.sameEntry, Entry.head, Entry.kind, Entry.parts, guarded_params]
    simp
  case integer.integer | genericParam.genericParam =>
    simp only [PerModuleSema.sameEntry, Entry.head, Entry.kind, Entry.parts]
    simp only [Option.some.injEq, Bool.and_eq_true, decide_eq_true_eq, exists_eq_left', Head.integer.injEq,
      Head.genericParam.injEq, List.forall₂_nil_left_iff, and_true]
    exact and_congr eq_comm eq_comm
  case float.float | enum.enum | union.union | nominal.nominal | array.array | dyn.dyn =>
    simp only [PerModuleSema.sameEntry, Entry.head, Entry.kind, Entry.parts, guarded_one]
    simp [eq_comm]
  all_goals try obtain rfl | rfl := hkind
  all_goals simp [PerModuleSema.sameEntry, Entry.head, Entry.parts, Entry.kind, TypeKind.isBasic]

/-- The kind that a head belongs to, but for state functions. -/
def Head.kind : Head → TypeKind
  | .basic kind => kind
  | .integer _ _ => .integer
  | .float _ => .float
  | .dyn _ => .dyn
  | .pointer => .pointer
  | .genericParam _ _ => .genericParam
  | .optional => .optional
  | .slice => .slice
  | .array _ => .array
  | .pack => .pack
  | .function => .function
  | .struct _ => .struct
  | .enum _ => .enum
  | .union _ => .union
  | .alias => .alias
  | .nominal _ => .nominal

variable {h : Head}

theorem kind_of_head {entry : Entry} (hh : entry.head = some h) :
    entry.kind = h.kind ∨ h.kind = .function ∧ entry.kind = .state := by
  cases entry with
  | name _ kind =>
    rw [Entry.head] at hh
    split at hh
    · obtain rfl := Option.some.inj hh
      exact .inl rfl
    · cases hh
  | stateFunction _ _ =>
    obtain rfl := Option.some.inj hh
    exact .inr ⟨rfl, rfl⟩
  | _ => first | (cases hh; done) | (obtain rfl := Option.some.inj hh; exact .inl rfl)

theorem comparable_of_head {ea eb : Entry} (ha : ea.head = some h) (hb : eb.head = some h) :
    Comparable ea.kind eb.kind := by
  rcases kind_of_head ha with ha | ⟨hf, ha⟩ <;> rcases kind_of_head hb with hb | ⟨hf', hb⟩
  · exact .inl (ha.trans hb.symm)
  · exact .inr (.inr ⟨ha.trans hf', hb⟩)
  · exact .inr (.inl ⟨ha, hb.trans hf⟩)
  · exact .inl (ha.trans hb.symm)

def Head.isDeclared : Head → Bool
  | .struct _ | .enum _ | .union _ | .nominal _ | .genericParam _ _ => true
  | _ => false

/-- An entry of a declaration has nothing to compare but its name, if it is a struct without arguments. -/
theorem declared_of_head {entry : Entry} (hh : entry.head = some h) :
    entry.origin.isSome = h.isDeclared ∧ (h.isDeclared = true → entry.structArgs = [] → entry.parts = []) ∧
      (h.isDeclared = false → entry.declaredArgs = []) := by
  cases entry with
  | name _ kind =>
    rw [Entry.head] at hh
    split at hh
    · obtain rfl := Option.some.inj hh
      exact ⟨rfl, nofun, fun _ => rfl⟩
    · cases hh
  | struct | enum | union | nominal | genericParam =>
    obtain rfl := Option.some.inj hh
    refine ⟨rfl, fun _ h => ?_, fun h => absurd h.symm Bool.false_ne_true⟩
    first | rfl | exact h
  | _ => first
    | (cases hh; done)
    | (obtain rfl := Option.some.inj hh; exact ⟨rfl, fun h => absurd h Bool.false_ne_true, fun _ => rfl⟩)

/-- Of the arguments of two entries with one head the parts are compared. -/
theorem forall₂_parts {R : TypeId → TypeId → Prop} {ea eb : Entry} (ha : ea.head = some h)
    (hb : eb.head = some h) (hsa : ea.structArgs = []) (hsb : eb.structArgs = [])
    (hs : List.Forall₂ R ea.arguments eb.arguments) : List.Forall₂ R ea.parts eb.parts := by
  obtain ⟨-, hpa, hda⟩ := declared_of_head ha
  obtain ⟨-, hpb, hdb⟩ := declared_of_head hb
  cases hd : h.isDeclared with
  | true =>
    rw [hpa hd hsa, hpb hd hsb]
    exact .nil
  | false => simpa [Entry.arguments, hda hd, hdb hd] using hs

/-! ### Resolution -/

namespace TypeTable

variable {T : TypeTable}
variable {id : TypeId}

theorem findEntry_mem {entry : Entry} (h : T.findEntry id = some entry) : entry ∈ T.entries := by
  cases id with
  | zero => simp [findEntry] at h
  | succ id => exact List.mem_of_getElem? h

theorem exists_id {entry : Entry} (h : entry ∈ T.entries) : ∃ id, T.findEntry id = some entry := by
  obtain ⟨i, hi⟩ := List.mem_iff_getElem?.mp h
  exact ⟨i + 1, hi⟩

/-- Nothing else is found under the name of a placeholder. -/
def Fixed (T : TypeTable) (id : TypeId) : Prop := ∀ guard, T.canonicalFrom guard id = id

theorem fixed_of_entry (h : ∀ name kind, T.findEntry id ≠ some (.name name kind)) : T.Fixed id := by
  intro guard
  cases guard with
  | zero => rfl
  | succ guard =>
    unfold canonicalFrom
    split
    · next heq => exact absurd heq (h _ _)
    · rfl

theorem fixed_of_lookup {name : String} {kind : TypeKind} (h : T.findEntry id = some (.name name kind))
    (hl : name = "" ∨ T.lookupNamed name = none ∨ T.lookupNamed name = some id) : T.Fixed id := by
  intro guard
  cases guard with
  | zero => rfl
  | succ guard =>
    simp only [canonicalFrom, h]
    rcases hl with rfl | hl | hl
    · simp
    · simp [hl]
    · simp [hl]

theorem kindOf_fixed (h : T.Fixed id) {entry : Entry} (he : T.findEntry id = some entry) :
    T.kindOf id = entry.kind := by
  simp [kindOf, canonical, h 8, he]

theorem kindOf_none (h : T.Fixed id) (he : T.findEntry id = none) : T.kindOf id = .error := by
  simp [kindOf, canonical, h 8, he]

end TypeTable

namespace PerModuleSema

variable (S : PerModuleSema)

theorem fixed_registered {id registered : TypeId} {name : String} {kind : TypeKind}
    (h : S.table.findEntry id = some (.name name kind))
    (hr : S.table.lookupNamed name = some registered) : S.table.Fixed registered := by
  have hsettled := S.settled _ (TypeTable.findEntry_mem h)
  simp only [Entry.settled, hr] at hsettled
  split at hsettled
  · next heq => exact TypeTable.fixed_of_lookup heq (.inr (.inr (by simpa using hsettled)))
  · next hno => exact TypeTable.fixed_of_entry fun n k heq => hno n k heq

theorem fixed_canonical (id : TypeId) : S.table.Fixed (S.table.canonical id) := by
  unfold TypeTable.canonical TypeTable.canonicalFrom
  split
  · next name kind heq =>
    split
    · next hname => exact TypeTable.fixed_of_lookup heq (.inl hname)
    · split
      · next hnone => exact TypeTable.fixed_of_lookup heq (.inr (.inl hnone))
      · next registered hsome =>
        split
        · next hsame => exact TypeTable.fixed_of_lookup heq (.inr (.inr (hsame ▸ hsome)))
        · rw [S.fixed_registered heq hsome]
          exact S.fixed_registered heq hsome
  · next hno => exact TypeTable.fixed_of_entry fun n k heq => hno n k heq

theorem fixed_resolveFrom : ∀ (guard : Nat) {t : TypeId}, S.table.Fixed t → S.table.Fixed (resolveFrom S.table guard t)
  | 0, _, h => h
  | guard + 1, t, h => by
    unfold resolveFrom
    split
    · exact fixed_resolveFrom guard (S.fixed_canonical _)
    · exact fixed_resolveFrom guard (S.fixed_canonical _)
    · exact h

theorem fixed_resolve (t : TypeId) : S.table.Fixed (S.resolve t) := S.fixed_resolveFrom 16 (S.fixed_canonical t)

/-! ### What is compared -/

/-- Neither the error type nor null. -/
def Proper (a : TypeId) : Prop := S.resolve a ≠ S.errorType ∧ S.resolve a ≠ S.nullType

def parts (a : TypeId) : List TypeId := (S.table.findEntry (S.resolve a)).elim [] Entry.parts

def origin (a : TypeId) : Option Origin := (S.table.findEntry (S.resolve a)).bind Entry.origin

def arguments (a : TypeId) : List TypeId := (S.table.findEntry (S.resolve a)).elim [] Entry.arguments

/-- Resolved types as `sameType` compares them. -/
def compared : PartGraph TypeId Head where
  head x := (S.table.findEntry x).bind Entry.head
  parts x := ((S.table.findEntry x).elim [] Entry.parts).map S.resolve

/-- Resolved types as they have been declared. -/
def declarations : PartGraph TypeId (Head × Option Origin) where
  head x := (S.table.findEntry x).bind fun entry => entry.head.map fun h => (h, entry.origin)
  parts x := ((S.table.findEntry x).elim [] Entry.arguments).map S.resolve

/-- The types are built from the same declarations in the same way. -/
def Equal (a b : TypeId) : Prop := ∃ n, S.declarations.Alike n (S.resolve a) (S.resolve b)

variable {S}

theorem comparable_iff {ka kb : TypeKind} {r : Option Bool} :
    (if ka ≠ kb ∧ stateOrFnShape ka kb = false then some false else r) = some true ↔
      Comparable ka kb ∧ r = some true := by
  have hcomp : (ka ≠ kb ∧ stateOrFnShape ka kb = false) ↔ ¬ Comparable ka kb := by
    simp only [Comparable, stateOrFnShape, Bool.or_eq_false_iff, Bool.and_eq_false_iff, decide_eq_false_iff_not]
    tauto
  split
  · next h => simp [hcomp.mp h]
  · next h => simp [not_not.mp (mt hcomp.mpr h)]

theorem sameResolved_iff {x y : TypeId} (hx : S.table.Fixed x) (hy : S.table.Fixed y)
    (hpx : x ≠ S.errorType ∧ x ≠ S.nullType) (hpy : y ≠ S.errorType ∧ y ≠ S.nullType) :
    S.sameResolved same x y = some true ↔ ∃ ex ey, S.table.findEntry x = some ex ∧
      S.table.findEntry y = some ey ∧ Comparable ex.kind ey.kind ∧
        sameEntry same (some ex) (some ey) ex.kind = some true := by
  simp only [sameResolved, hpx.1, hpx.2, hpy.1, hpy.2, or_self, if_false]
  rw [comparable_iff]
  cases hex : S.table.findEntry x with
  | none => simp [TypeTable.kindOf_none hx hex, sameEntry]
  | some ex =>
    rw [TypeTable.kindOf_fixed hx hex]
    cases hey : S.table.findEntry y with
    | none =>
      rw [TypeTable.kindOf_none hy hey]
      have hno : ¬ (Comparable ex.kind .error ∧ sameEntry same (some ex) none ex.kind = some true) := by
        rintro ⟨h | ⟨-, h⟩ | ⟨-, h⟩, hsame⟩
        · simp [h, sameEntry] at hsame
        · cases h
        · cases h
      simp [hno]
    | some ey => simp [TypeTable.kindOf_fixed hy hey]

/-- Structs without arguments, which is to say that no generic struct has been instantiated. -/
def Plain (S : PerModuleSema) : Prop := ∀ id entry, S.table.findEntry id = some entry → entry.structArgs = []

/-- No type is built from the error type or from null. -/
def Closed (S : PerModuleSema) : Prop := ∀ a, S.Proper a → ∀ p ∈ S.arguments a, S.Proper p

theorem parts_subset (a : TypeId) : ∀ p ∈ S.parts a, p ∈ S.arguments a := by
  intro p hp
  unfold parts at hp
  unfold arguments
  cases h : S.table.findEntry (S.resolve a) with
  | none => simp [h] at hp
  | some entry =>
    rw [h] at hp
    exact List.mem_append_right _ hp

theorem sameType_alike (hplain : S.Plain) (hclosed : S.Closed) : ∀ (depth : Nat) {a b : TypeId},
    S.Proper a → S.Proper b → (S.sameType depth a b = some true ↔ S.compared.Alike depth (S.resolve a) (S.resolve b))
  | 0, _, _, _, _ => by simp [sameType, PartGraph.Alike]
  | depth + 1, a, b, ha, hb => by
    have hparts : List.Forall₂ (fun p q => S.sameType depth p q = some true) (S.parts a) (S.parts b) ↔
        List.Forall₂ (S.compared.Alike depth) (S.compared.parts (S.resolve a))
          (S.compared.parts (S.resolve b)) := by
      rw [compared, List.forall₂_map_left_iff, List.forall₂_map_right_iff]
      exact PartGraph.forall₂_congr fun p hp q hq => sameType_alike hplain hclosed depth
        (hclosed a ha p (parts_subset a p hp)) (hclosed b hb q (parts_subset b q hq))
    rw [sameType]
    split
    · next h => exact ⟨fun _ => .inl (congrArg S.resolve h), fun _ => rfl⟩
    split
    · next h => exact ⟨fun _ => .inl h, fun _ => rfl⟩
    · next h =>
      rw [sameResolved_iff (S.fixed_resolve a) (S.fixed_resolve b) ha hb]
      constructor
      · rintro ⟨ea, eb, hea, heb, hcomp, hsame⟩
        obtain ⟨⟨head, hha, hhb⟩, hs⟩ := (sameEntry_iff hcomp (hplain _ _ hea) (hplain _ _ heb)).mp hsame
        refine .inr ⟨⟨head, by simp [compared, hea, hha], by simp [compared, heb, hhb]⟩, hparts.mp ?_⟩
        simpa [parts, hea, heb] using hs
      · rintro (h' | ⟨⟨head, hha, hhb⟩, hs⟩)
        · exact absurd h' h
        · obtain ⟨ea, hea, hha⟩ := Option.bind_eq_some_iff.mp hha
          obtain ⟨eb, heb, hhb⟩ := Option.bind_eq_some_iff.mp hhb
          have hcomp := comparable_of_head hha hhb
          refine ⟨ea, eb, hea, heb, hcomp, (sameEntry_iff hcomp (hplain _ _ hea) (hplain _ _ heb)).mpr
            ⟨⟨head, hha, hhb⟩, ?_⟩⟩
          simpa [parts, hea, heb] using hparts.mpr hs

/-! ### Termination -/

theorem allSame_total : ∀ {as bs : List TypeId}, (∀ p ∈ as, ∀ q, ∃ r, same p q = some r) →
    ∃ r, allSame same as bs = some r
  | [], _, _ => ⟨true, by simp [allSame]⟩
  | _ :: _, [], _ => ⟨true, by simp [allSame]⟩
  | a :: as, b :: bs, h => by
    obtain ⟨r, hr⟩ := h a (by simp) b
    have htail : ∀ p ∈ as, ∀ q, ∃ r, same p q = some r := fun p hp => h p (by simp [hp])
    obtain ⟨r', hr'⟩ : ∃ r, allSame same as bs = some r := allSame_total htail
    cases r
    · exact ⟨false, by simp [allSame, hr]⟩
    · exact ⟨r', by simp [allSame, hr, hr']⟩

theorem sameEntry_total {a b : Option Entry} (kind : TypeKind)
    (h : ∀ p ∈ a.elim [] Entry.parts, ∀ q, ∃ r, same p q = some r) : ∃ r, sameEntry same a b kind = some r := by
  have hguarded : ∀ {p : Prop} [Decidable p] {r : Bool} {o : Option Bool}, (∃ r', o = some r') →
      ∃ r', (if p then o else some r) = some r' := by
    intro p _ r o ho
    split
    · exact ho
    · exact ⟨r, rfl⟩
  unfold sameEntry
  split <;> (try split) <;> first
    | exact ⟨_, rfl⟩
    | exact h _ (.head _) _
    | exact hguarded (h _ (.head _) _)
    | exact hguarded (allSame_total h)
    | exact hguarded (hguarded (allSame_total h))

/-- A type is not a part of itself, nor an argument. -/
def Grounded (S : PerModuleSema) : Prop := WellFounded fun p x => p ∈ S.declarations.parts x

theorem exists_bound {P : TypeId → Nat → Prop} : ∀ {l : List TypeId}, (∀ p ∈ l, ∃ n, P p n) →
    ∃ bound, ∀ p ∈ l, ∃ n ≤ bound, P p n
  | [], _ => ⟨0, by simp⟩
  | p :: l, h => by
    obtain ⟨n, hn⟩ := h p (by simp)
    obtain ⟨bound, hbound⟩ := exists_bound (l := l) fun q hq => h q (by simp [hq])
    refine ⟨max n bound, fun q hq => ?_⟩
    rcases List.mem_cons.mp hq with rfl | hq
    · exact ⟨n, Nat.le_max_left n bound, hn⟩
    · obtain ⟨m, hm, hP⟩ := hbound q hq
      exact ⟨m, Nat.le_trans hm (Nat.le_max_right n bound), hP⟩

theorem sameType_total (hgrounded : S.Grounded) (a : TypeId) :
    ∃ bound, ∀ depth ≥ bound, ∀ b, ∃ r, S.sameType depth a b = some r := by
  generalize hx : S.resolve a = x
  induction x using hgrounded.induction generalizing a with
  | _ x ih =>
    subst hx
    have hparts : ∀ p ∈ S.parts a, ∃ n, ∀ depth ≥ n, ∀ b, ∃ r, S.sameType depth p b = some r :=
      fun p hp => ih (S.resolve p) (List.mem_map_of_mem (parts_subset a p hp)) p rfl
    obtain ⟨bound, hbound⟩ := exists_bound hparts
    refine ⟨bound + 1, fun depth hdepth b => ?_⟩
    obtain ⟨n, rfl⟩ : ∃ n, depth = n + 1 := ⟨depth - 1, by omega⟩
    have htotal : ∀ p ∈ (S.table.findEntry (S.resolve a)).elim [] Entry.parts, ∀ q,
        ∃ r, S.sameType n p q = some r := fun p hp => by
      obtain ⟨m, hm, h⟩ := hbound p hp
      exact h n (by omega)
    rw [sameType, sameResolved]
    split
    · exact ⟨true, rfl⟩
    split
    · exact ⟨true, rfl⟩
    split
    · exact ⟨_, rfl⟩
    split
    · exact ⟨_, rfl⟩
    split
    · exact ⟨_, rfl⟩
    · exact sameEntry_total _ htotal

/-! ### Declarations -/

variable (S) in
/-- `sameType` returns and is an equivalence, and types that it takes to be the same come from one
    declaration, with arguments that it takes to be the same. -/
structure Compatible : Prop where
  total : ∀ a b, ∃ depth r, S.sameType depth a b = some r
  refl : ∀ a, S.SameType a a
  symm : ∀ a b, S.Proper a → S.Proper b → S.SameType a b → S.SameType b a
  trans : ∀ a b c, S.Proper a → S.Proper b → S.Proper c → S.SameType a b → S.SameType b c → S.SameType a c
  declaration : ∀ a b, S.Proper a → S.Proper b → S.SameType a b → S.origin a = S.origin b
  arguments : ∀ a b, S.Proper a → S.Proper b → S.SameType a b → List.Forall₂ S.SameType (S.arguments a) (S.arguments b)

variable (S) in
/-- No struct has been instantiated, and what the table tells entries apart by (their names, and for generic
    parameters the number of the declaration) belongs to one declaration and one list of arguments. -/
structure Rigid : Prop where
  plain : S.Plain
  labels : ∀ id id' e e' h, S.table.findEntry id = some e → S.table.findEntry id' = some e' →
    e.head = some h → e'.head = some h → e.origin = e'.origin ∧ List.Forall₂ S.Equal e.declaredArgs e'.declaredArgs

theorem SameType.of_equal (hplain : S.Plain) (hclosed : S.Closed) {a b : TypeId} (ha : S.Proper a)
    (hb : S.Proper b) (h : S.Equal a b) : S.SameType a b := by
  obtain ⟨n, h⟩ := h
  have hentry : ∀ x g, S.declarations.head x = some g →
      ∃ e, S.table.findEntry x = some e ∧ e.head = some g.1 := by
    intro x g hx
    obtain ⟨e, he, hmap⟩ := Option.bind_eq_some_iff.mp hx
    obtain ⟨head, hhead, rfl⟩ := Option.map_eq_some_iff.mp hmap
    exact ⟨e, he, hhead⟩
  refine ⟨n, (sameType_alike hplain hclosed n ha hb).mpr (h.coarsen (fun x y g hx hy => ?_) fun x y g R hx hy hR => ?_)⟩
  · obtain ⟨ex, hex, hx⟩ := hentry x g hx
    obtain ⟨ey, hey, hy⟩ := hentry y g hy
    exact ⟨g.1, by simp [compared, hex, hx], by simp [compared, hey, hy]⟩
  · obtain ⟨ex, hex, hx⟩ := hentry x g hx
    obtain ⟨ey, hey, hy⟩ := hentry y g hy
    simp only [compared, declarations, hex, hey, Option.elim_some, List.forall₂_map_left_iff,
      List.forall₂_map_right_iff] at hR ⊢
    exact forall₂_parts hx hy (hplain _ _ hex) (hplain _ _ hey) hR

/-- Two types that are the same are one, or have one head and the same parts. -/
theorem SameType.entries (hplain : S.Plain) (hclosed : S.Closed) {a b : TypeId} (ha : S.Proper a)
    (hb : S.Proper b) (h : S.SameType a b) : S.resolve a = S.resolve b ∨ ∃ ea eb head,
      S.table.findEntry (S.resolve a) = some ea ∧ S.table.findEntry (S.resolve b) = some eb ∧
        ea.head = some head ∧ eb.head = some head ∧ List.Forall₂ S.SameType (S.parts a) (S.parts b) := by
  obtain ⟨n, h⟩ := h
  rw [sameType_alike hplain hclosed n ha hb] at h
  cases n with
  | zero => exact absurd h id
  | succ n =>
    rcases h with h | ⟨⟨head, hha, hhb⟩, hs⟩
    · exact .inl h
    · obtain ⟨ea, hea, hha⟩ := Option.bind_eq_some_iff.mp hha
      obtain ⟨eb, heb, hhb⟩ := Option.bind_eq_some_iff.mp hhb
      refine .inr ⟨ea, eb, head, hea, heb, hha, hhb, ?_⟩
      rw [compared, List.forall₂_map_left_iff, List.forall₂_map_right_iff] at hs
      refine (PartGraph.forall₂_congr fun p hp q hq => ?_).mp
        (hs.imp fun p q hpq => show S.Proper p → S.Proper q → S.SameType p q from fun hp hq =>
          ⟨n, (sameType_alike hplain hclosed n hp hq).mpr hpq⟩)
      exact ⟨fun h => h (hclosed a ha p (parts_subset a p hp)) (hclosed b hb q (parts_subset b q hq)), fun h _ _ => h⟩

theorem SameType.refl (a : TypeId) : S.SameType a a := ⟨1, by simp [sameType]⟩

theorem compatible_of_rigid (hgrounded : S.Grounded) (hclosed : S.Closed) (hrigid : S.Rigid) : S.Compatible where
  total a b := by
    obtain ⟨bound, h⟩ := sameType_total hgrounded a
    exact ⟨bound, h bound (Nat.le_refl bound) b⟩
  refl := .refl
  symm a b ha hb := by
    rintro ⟨n, h⟩
    rw [sameType_alike hrigid.plain hclosed n ha hb] at h
    exact ⟨n, (sameType_alike hrigid.plain hclosed n hb ha).mpr h.symm⟩
  trans a b c ha hb hc := by
    rintro ⟨n, h⟩ ⟨m, h'⟩
    rw [sameType_alike hrigid.plain hclosed n ha hb] at h
    rw [sameType_alike hrigid.plain hclosed m hb hc] at h'
    exact ⟨max n m, (sameType_alike hrigid.plain hclosed _ ha hc).mpr
      ((h.mono (Nat.le_max_left n m)).trans (h'.mono (Nat.le_max_right n m)))⟩
  declaration a b ha hb h := by
    rcases h.entries hrigid.plain hclosed ha hb with h | ⟨ea, eb, head, hea, heb, hha, hhb, -⟩
    · simp [origin, h]
    · simpa [origin, hea, heb] using (hrigid.labels _ _ _ _ _ hea heb hha hhb).1
  arguments a b ha hb h := by
    rcases h.entries hrigid.plain hclosed ha hb with h | ⟨ea, eb, head, hea, heb, hha, hhb, hs⟩
    · rw [arguments, arguments, h]
      exact List.forall₂_same.mpr fun p _ => .refl p
    · have hargs := (hrigid.labels _ _ _ _ _ hea heb hha hhb).2
      have hsame : List.Forall₂ S.SameType ea.declaredArgs eb.declaredArgs := by
        refine (PartGraph.forall₂_congr fun p hp q hq => ?_).mp
          (hargs.imp fun p q hpq => show S.Proper p → S.Proper q → S.SameType p q from fun hp hq =>
            .of_equal hrigid.plain hclosed hp hq hpq)
        exact ⟨fun h => h (hclosed a ha p (by simp [arguments, hea, Entry.arguments, hp]))
          (hclosed b hb q (by simp [arguments, heb, Entry.arguments, hq])), fun h _ _ => h⟩
      simp only [parts, hea, heb, Option.elim_some] at hs
      simp only [arguments, hea, heb, Option.elim_some, Entry.arguments]
      exact List.rel_append hsame hs

/-! ### What a compatible table looks like -/

theorem Compatible.equal (hplain : S.Plain) (hgrounded : S.Grounded) (hclosed : S.Closed)
    (hc : S.Compatible) {a b : TypeId} (ha : S.Proper a) (hb : S.Proper b) (h : S.SameType a b) : S.Equal a b := by
  generalize hx : S.resolve a = x
  induction x using hgrounded.induction generalizing a b with
  | _ x ih =>
    subst hx
    rcases h.entries hplain hclosed ha hb with h' | ⟨ea, eb, head, hea, heb, hha, hhb, -⟩
    · exact ⟨1, .inl h'⟩
    · have horigin : ea.origin = eb.origin := by
        simpa [origin, hea, heb] using hc.declaration a b ha hb h
      have hargs : List.Forall₂ S.Equal (S.arguments a) (S.arguments b) := by
        refine (PartGraph.forall₂_congr fun p hp q hq => ?_).mp (hc.arguments a b ha hb h)
        have hp' := hclosed a ha p hp
        have hq' := hclosed b hb q hq
        exact ⟨fun h => ih (S.resolve p) (List.mem_map_of_mem hp) hp' hq' h rfl,
          fun h => .of_equal hplain hclosed hp' hq' h⟩
      have hresolved : List.Forall₂ (fun x y => ∃ n, S.declarations.Alike n x y)
          ((S.arguments a).map S.resolve) ((S.arguments b).map S.resolve) := by
        rw [List.forall₂_map_left_iff, List.forall₂_map_right_iff]
        exact hargs
      obtain ⟨n, hn⟩ := PartGraph.forall₂_alike hresolved
      exact ⟨n + 1, .inr ⟨⟨(head, ea.origin), by simp [declarations, hea, hha],
        by simp [declarations, heb, hhb, horigin]⟩, hn⟩⟩

section
variable {id id' : TypeId} {e e' : Entry}

theorem resolve_declared (h : S.table.findEntry id = some e) (ho : e.origin.isSome = true) : S.resolve id = id := by
  have hfixed : S.table.Fixed id := TypeTable.fixed_of_entry fun n k hn => by
    rw [h] at hn
    obtain rfl := Option.some.inj hn
    simp [Entry.origin] at ho
  rw [resolve, TypeTable.canonical, hfixed 8]
  cases e <;> simp_all [resolveFrom, Entry.origin]

theorem proper_declared (h : S.table.findEntry id = some e) (ho : e.origin.isSome = true) : S.Proper id := by
  rw [Proper, resolve_declared h ho]
  constructor
  · rintro rfl
    rw [S.error_name] at h
    obtain rfl := Option.some.inj h
    simp [Entry.origin] at ho
  · rintro rfl
    rw [S.null_name] at h
    obtain rfl := Option.some.inj h
    simp [Entry.origin] at ho

/-- Entries of declarations are compared at once. -/
theorem SameType.of_entries (h : S.table.findEntry id = some e) (h' : S.table.findEntry id' = some e')
    (ho : e.origin.isSome = true) (ho' : e'.origin.isSome = true) (hkind : Comparable e.kind e'.kind)
    (hsame : sameEntry (S.sameType 0) (some e) (some e') e.kind = some true) : S.SameType id id' := by
  refine ⟨1, ?_⟩
  have hp := proper_declared h ho
  have hp' := proper_declared h' ho'
  have hresolved : S.sameResolved (S.sameType 0) (S.resolve id) (S.resolve id') = some true :=
    (sameResolved_iff (S.fixed_resolve id) (S.fixed_resolve id') hp hp').mpr
      ⟨e, e', by rwa [resolve_declared h ho], by rwa [resolve_declared h' ho'], hkind, hsame⟩
  rw [sameType, hresolved]
  split
  · rfl
  · split <;> rfl

end

theorem Compatible.plain (hc : S.Compatible) : S.Plain := by
  intro id entry h
  cases entry with
  | struct n fields args o =>
    cases args with
    | nil => rfl
    | cons p args =>
      have hdeclared := S.declared _ (TypeTable.findEntry_mem h)
      obtain ⟨e, he, htemplate⟩ := List.any_eq_true.mp hdeclared
      cases e with
      | struct n' fields' args' o' =>
        simp only [Entry.isTemplate, Bool.and_eq_true, decide_eq_true_eq, List.isEmpty_iff] at htemplate
        obtain ⟨hbase, rfl⟩ := htemplate
        obtain ⟨id', h'⟩ := TypeTable.exists_id he
        have hsame : S.SameType id id' := .of_entries h h' rfl rfl (.inl rfl) (by
          simp [sameEntry, Entry.kind, hbase])
        have hargs := hc.arguments id id' (proper_declared h rfl) (proper_declared h' rfl) hsame
        rw [PerModuleSema.arguments, PerModuleSema.arguments, resolve_declared h rfl,
          resolve_declared h' rfl, h, h'] at hargs
        cases hargs
      | _ => cases htemplate
  | _ => rfl

theorem rigid_of_compatible (hgrounded : S.Grounded) (hclosed : S.Closed) (hc : S.Compatible) : S.Rigid := by
  refine ⟨hc.plain, fun id id' e e' head h h' hh hh' => ?_⟩
  obtain ⟨ho, hparts, hargs⟩ := declared_of_head hh
  obtain ⟨ho', hparts', hargs'⟩ := declared_of_head hh'
  cases hd : head.isDeclared with
  | false =>
    rw [hd, Option.isSome_eq_false_iff, Option.isNone_iff_eq_none] at ho ho'
    rw [ho, ho', hargs hd, hargs' hd]
    exact ⟨rfl, .nil⟩
  | true =>
    rw [hd] at ho ho'
    have hnil := hparts hd (hc.plain id e h)
    have hnil' := hparts' hd (hc.plain id' e' h')
    have hkind := comparable_of_head hh hh'
    have hsame : S.SameType id id' := .of_entries h h' ho ho' hkind
      ((sameEntry_iff hkind (hc.plain id e h) (hc.plain id' e' h')).mpr
        ⟨⟨head, hh, hh'⟩, by rw [hnil, hnil']; exact .nil⟩)
    have hp := proper_declared h ho
    have hp' := proper_declared h' ho'
    have hdeclaration := hc.declaration id id' hp hp' hsame
    have harguments := hc.arguments id id' hp hp' hsame
    have hproper := hclosed id hp
    have hproper' := hclosed id' hp'
    have hid : S.arguments id = e.declaredArgs := by
      simp [arguments, resolve_declared h ho, h, Entry.arguments, hnil]
    have hid' : S.arguments id' = e'.declaredArgs := by
      simp [arguments, resolve_declared h' ho', h', Entry.arguments, hnil']
    rw [hid, hid'] at harguments
    rw [hid] at hproper
    rw [hid'] at hproper'
    rw [origin, origin, resolve_declared h ho, resolve_declared h' ho', h, h'] at hdeclaration
    refine ⟨hdeclaration, (PartGraph.forall₂_congr fun p hp q hq => ?_).mp harguments⟩
    exact ⟨fun h => hc.equal hc.plain hgrounded hclosed (hproper p hp) (hproper' q hq) h,
      fun h => .of_equal hc.plain hclosed (hproper p hp) (hproper' q hq) h⟩

/-- It is enough to look at the entries. -/
theorem grounded_of_entries
    (h : ∀ p ∈ S.table.entries.zipIdx, ∀ q ∈ p.1.arguments, S.resolve q < p.2 + 1) : S.Grounded := by
  refine Subrelation.wf (r := (· < ·)) (fun {p x} hp => ?_) Nat.lt_wfRel.wf
  obtain ⟨q, hq, rfl⟩ := List.mem_map.mp hp
  cases hx : S.table.findEntry x with
  | none => simp [hx] at hq
  | some entry =>
    rw [hx] at hq
    cases x with
    | zero => simp [TypeTable.findEntry] at hx
    | succ i => exact h (entry, i) (List.mem_zipIdx_iff_getElem?.mpr hx) q hq

theorem closed_of_entries (h : ∀ e ∈ S.table.entries, ∀ p ∈ e.arguments,
    S.resolve p ≠ S.errorType ∧ S.resolve p ≠ S.nullType) : S.Closed := by
  intro a _ p hp
  unfold arguments at hp
  cases ha : S.table.findEntry (S.resolve a) with
  | none => simp [ha] at hp
  | some entry =>
    rw [ha] at hp
    exact h entry (TypeTable.findEntry_mem ha) p hp

/-- One module that declares `struct P { i32 }`, and a pointer to it. -/
def onePoint : PerModuleSema :=
  let prepared := TypeTable.prepareTypes ⟨[], []⟩ "a" [⟨"P", ["i32"]⟩]
  { table := (prepared.2.intern (.pointer 24)).2
    errorType := prepared.1.1
    nullType := prepared.1.2
    error_name := by decide
    null_name := by decide
    settled := by decide +kernel
    declared := by decide +kernel }

/-- Two modules declare a `struct P` each, one of an `i32` and one of an `f64`. -/
def twoPoints : PerModuleSema :=
  let first := TypeTable.prepareTypes ⟨[], []⟩ "a" [⟨"P", ["i32"]⟩]
  let second := first.2.prepareTypes "b" [⟨"P", ["f64"]⟩]
  { table := second.2
    errorType := second.1.1
    nullType := second.1.2
    error_name := by decide +kernel
    null_name := by decide +kernel
    settled := by decide +kernel
    declared := by decide +kernel }

end PerModuleSema

end Zith.Types
