import Zith.Lib.BoundedRecursion
import Zith.Lib.Fuel
import Zith.Types.TypeQueries

/-! When the queries of the type table return. Rendering goes from a type to its parts, and returns where no type
    is a part of itself. Substitution makes new types as it goes, but it only looks into types that were there
    before: their names have no `<`, so that no name it registers changes what they stand for.

        table before ──intern, registerNamed──▶ table in between (`Later`) ──▶ … ──▶ table afterwards -/

namespace Zith.Types

open Lib (BoundedRecursion Below Lasting Growing)

/-! ### Rendering -/

/-- The types whose text is a part of the text. -/
def Entry.printed : Entry → List TypeId
  | .pointer pointee => [pointee]
  | .optional inner => [inner]
  | .slice element => [element]
  | .array element _ => [element]
  | .function params result => params ++ [result]
  | .stateFunction params result => params ++ [result]
  | .sum members => members
  | .failable inner => [inner]
  | .dyn target _ => [target]
  | .alias target => [target]
  | .qualified inner => [inner]
  | _ => []

/-- Both texts of a function type are there. -/
theorem isSome_signature {print : TypeId → Option String} {params : List TypeId} {result : TypeId}
    {join : List String → String → String} :
    ((params.mapM print).bind fun texts => (print result).map (join texts)).isSome = true ↔
      ∀ p ∈ params ++ [result], (print p).isSome = true := by
  rw [List.forall_mem_append, ← Lib.isSome_mapM_iff]
  cases params.mapM print <;> simp

theorem Entry.isSome_render {print : TypeId → Option String} (e : Entry) :
    (e.render print).isSome = true ↔ ∀ p ∈ e.printed, (print p).isSome = true := by
  cases e with
  | function params result => exact isSome_signature
  | stateFunction params result => exact isSome_signature
  | sum members => simpa [render, printed] using Lib.isSome_mapM_iff
  | _ => simp [render, printed]

/-- A map that succeeds gives the same result with a function that does more. -/
theorem mapM_more {α β : Type} {f g : α → Option β} (h : ∀ a b, f a = some b → g a = some b) :
    ∀ {l : List α} {bs : List β}, l.mapM f = some bs → l.mapM g = some bs
  | [], _, hbs => hbs
  | a :: l, bs, hbs => by
    rw [List.mapM_cons] at hbs ⊢
    obtain ⟨b, hb, hrest⟩ := Option.bind_eq_some_iff.mp hbs
    obtain ⟨bs', hbs', hcons⟩ := Option.bind_eq_some_iff.mp hrest
    rw [h a b hb, mapM_more h hbs']
    exact hcons

theorem signature_more {print print' : TypeId → Option String} (h : ∀ p text, print p = some text → print' p = some text)
    {params : List TypeId} {result : TypeId} {join : List String → String → String} {text : String}
    (ht : ((params.mapM print).bind fun texts => (print result).map (join texts)) = some text) :
    ((params.mapM print').bind fun texts => (print' result).map (join texts)) = some text := by
  obtain ⟨texts, htexts, hrest⟩ := Option.bind_eq_some_iff.mp ht
  obtain ⟨last, hlast, rfl⟩ := Option.map_eq_some_iff.mp hrest
  rw [mapM_more h htexts, h result last hlast]
  rfl

theorem Entry.render_more {print print' : TypeId → Option String}
    (h : ∀ p text, print p = some text → print' p = some text) {e : Entry} {text : String}
    (ht : e.render print = some text) : e.render print' = some text := by
  have hpart : ∀ {p : TypeId} {f : String → String}, (print p).map f = some text →
      (print' p).map f = some text := by
    intro p f hp
    obtain ⟨last, hlast, rfl⟩ := Option.map_eq_some_iff.mp hp
    rw [h p last hlast]
    rfl
  cases e with
  | function params result => exact signature_more h ht
  | stateFunction params result => exact signature_more h ht
  | sum members =>
    obtain ⟨texts, htexts, rfl⟩ := Option.map_eq_some_iff.mp ht
    rw [render, mapM_more h htexts]
    rfl
  | pointer | optional | slice | array | failable | dyn => exact hpart ht
  | «alias» | qualified => exact h _ _ ht
  | _ => exact ht

namespace TypeTable
variable {T : TypeTable}

/-- The types that are rendered inside a type. -/
def prints (T : TypeTable) (id : TypeId) : List TypeId := (T.findEntry (T.canonical id)).elim [] Entry.printed

def printing (T : TypeTable) : BoundedRecursion TypeId where
  calls := T.prints
  ready _ _ := True
  ready_succ _ := trivial

/-- `x` is rendered with the text of `y` in it. -/
def Prints (T : TypeTable) (x y : TypeId) : Prop := T.printing.Calls x y

theorem isSome_typeToString : ∀ {depth : ℕ} {id : TypeId},
    (T.typeToString depth id).isSome = true ↔ T.printing.Returns depth id
  | 0, _ => by simp [typeToString, BoundedRecursion.Returns]
  | depth + 1, id => by
    rw [typeToString, BoundedRecursion.Returns]
    change _ ↔ True ∧ ∀ p ∈ T.prints id, T.printing.Returns depth p
    cases h : T.findEntry (T.canonical id) with
    | none => simp [prints, h]
    | some e => simp [prints, h, e.isSome_render, isSome_typeToString]

theorem typeToString_more : ∀ {depth : ℕ} {id : TypeId} {text : String}, T.typeToString depth id = some text →
    T.typeToString (depth + 1) id = some text
  | 0, _, _, h => by simp [typeToString] at h
  | depth + 1, id, text, h => by
    rw [typeToString] at h ⊢
    split at h
    · next hnone => simpa using h
    · next e he => exact e.render_more (fun _ _ => typeToString_more) h

theorem typeToString_le {m n : ℕ} (hle : m ≤ n) {id : TypeId} {text : String} (h : T.typeToString m id = some text) :
    T.typeToString n id = some text := by
  induction hle with
  | refl => exact h
  | step _ ih => exact typeToString_more ih

/-- A type is rendered where going from a type to its parts ends. -/
theorem exists_typeToString {id : TypeId} (hacc : Acc (fun y x => T.Prints x y) id) :
    ∃ depth text, T.typeToString depth id = some text := by
  obtain ⟨depth, hreturns⟩ := BoundedRecursion.exists_returns_of_acc hacc fun _ _ => ⟨0, trivial⟩
  exact ⟨depth, Option.isSome_iff_exists.mp (isSome_typeToString.mpr hreturns)⟩

theorem exists_texts {ids : List TypeId} (hacc : ∀ id ∈ ids, Acc (fun y x => T.Prints x y) id) :
    ∃ depth texts, ids.mapM (T.typeToString depth) = some texts := by
  obtain ⟨depth, hdepth⟩ := BoundedRecursion.exists_common
    (fun depth id => (T.typeToString depth id).isSome = true) (fun {m n x} hle h => by
      obtain ⟨text, ht⟩ := Option.isSome_iff_exists.mp h
      rw [typeToString_le hle ht]
      rfl) fun id hid => by
        obtain ⟨depth, text, ht⟩ := exists_typeToString (hacc id hid)
        exact ⟨depth, by rw [ht]; rfl⟩
  exact ⟨depth, Option.isSome_iff_exists.mp (Lib.isSome_mapM hdepth)⟩

end TypeTable

/-! ### Tables that grow -/

/-- A type that is substituted before names and qualifiers are looked through. -/
def Entry.shell (rest : EntryRest) : Entry → Option TypeId
  | .qualified inner => some inner
  | .alias target => some target
  | .nominal _ _ _ => some rest.target
  | _ => none

theorem Entry.shell_eq_none {rest : EntryRest} {o : Option Entry}
    (hqualified : ∀ inner, o = some (.qualified inner) → False) (halias : ∀ target, o = some (.alias target) → False)
    (hnominal : ∀ name origin declaration, o = some (.nominal name origin declaration) → False) :
    o.bind (Entry.shell rest) = none := by
  cases o with
  | none => rfl
  | some e =>
    cases e with
    | qualified inner => exact absurd rfl (hqualified inner)
    | «alias» target => exact absurd rfl (halias target)
    | nominal name origin declaration => exact absurd rfl (hnominal name origin declaration)
    | _ => rfl

/-- The types that are substituted behind names and qualifiers. -/
def Entry.inside (rest : EntryRest) : Entry → List TypeId
  | .pointer pointee => [pointee]
  | .optional inner => [inner]
  | .array element _ => [element]
  | .slice element => [element]
  | .function params result => params ++ [result]
  | .sum members => members
  | .struct _ fields _ _ => fields
  | .enum _ _ _ => [rest.underlying]
  | .union _ _ _ => rest.members
  | .failable inner => [inner]
  | _ => []

/-- Aliases, qualifiers and names lead to an integer type. -/
inductive IntegerBehind (T : TypeTable) : TypeId → Prop
  | integer {id bits isSigned} : T.findEntry id = some (.integer bits isSigned) → IntegerBehind T id
  | behindAlias {id target} : T.findEntry id = some (.alias target) → IntegerBehind T target → IntegerBehind T id
  | behindQualifier {id inner} : T.findEntry id = some (.qualified inner) → IntegerBehind T inner → IntegerBehind T id
  | behindName {id name kind} : T.findEntry id = some (.name name kind) → IntegerBehind T (T.canonical id) →
      IntegerBehind T id

theorem TypeTable.canonical_eq {T : TypeTable} {id : TypeId} {e : Entry} (he : T.findEntry id = some e)
    (hname : ∀ name kind, e ≠ .name name kind) : T.canonical id = id :=
  TypeTable.fixed_of_entry (fun name kind h => hname name kind (Option.some.inj (he.symm.trans h))) 8

theorem IntegerBehind.canonical {T : TypeTable} {id : TypeId} (h : IntegerBehind T id) :
    IntegerBehind T (T.canonical id) := by
  cases h with
  | integer he =>
    rw [TypeTable.canonical_eq he (by simp)]
    exact .integer he
  | behindAlias he h =>
    rw [TypeTable.canonical_eq he (by simp)]
    exact .behindAlias he h
  | behindQualifier he h =>
    rw [TypeTable.canonical_eq he (by simp)]
    exact .behindQualifier he h
  | behindName _ h => exact h

theorem IntegerBehind.inner {T : TypeTable} {id inner : TypeId} (h : IntegerBehind T id)
    (he : T.findEntry id = some (.qualified inner)) : IntegerBehind T inner := by
  cases h with
  | integer he' => simp [he] at he'
  | behindAlias he' _ => simp [he] at he'
  | behindQualifier he' h =>
    obtain rfl : inner = _ := by simpa [he] using he'
    exact h
  | behindName he' _ => simp [he] at he'

theorem IntegerBehind.stripFrom {T : TypeTable} : ∀ (guard : ℕ) {id : TypeId}, IntegerBehind T id →
    IntegerBehind T (T.stripFrom guard id)
  | 0, _, h => h
  | guard + 1, id, h => by
    rw [TypeTable.stripFrom]
    split
    · next inner he => exact stripFrom guard (h.canonical.inner he)
    · exact h

/-- Nothing is substituted inside an integer type. -/
theorem IntegerBehind.inside {T : TypeTable} {id : TypeId} (h : IntegerBehind T id) (rest : EntryRest) :
    (T.findEntry id).elim [] (Entry.inside rest) = [] := by
  cases h with
  | integer he => simp [he, Entry.inside]
  | behindAlias he _ => simp [he, Entry.inside]
  | behindQualifier he _ => simp [he, Entry.inside]
  | behindName he _ => simp [he, Entry.inside]

namespace TypeState
variable {B D E : TypeState}

def size (D : TypeState) : ℕ := D.table.entries.length

/-- A table as sema builds it: entries and names refer to types that are there, and what was declared or
    imported has an identifier for a name. -/
structure Built (B : TypeState) : Prop where
  printed : ∀ id e, B.table.findEntry id = some e → ∀ p ∈ e.printed, p ≤ B.size
  parts : ∀ id e, B.table.findEntry id = some e → ∀ p ∈ e.parts, p ≤ B.size
  shell : ∀ id e, B.table.findEntry id = some e → ∀ p, e.shell (B.rests id) = some p → p ≤ B.size
  inside : ∀ id e, B.table.findEntry id = some e → ∀ p ∈ e.inside (B.rests id), p ≤ B.size
  registry : ∀ p ∈ B.table.registry, p.2 ≤ B.size
  underlying : ∀ id name origin args, B.table.findEntry id = some (.enum name origin args) →
    IntegerBehind B.table (B.rests id).underlying
  identifiers : ∀ name kind, .name name kind ∈ B.table.entries → '<' ∉ name.toList

/-- What substitution can make of a table: new entries refer back, and new names are those of instances. -/
structure Later (B D : TypeState) : Prop where
  entries : B.table.entries <+: D.table.entries
  rests : ∀ id ≤ B.size, D.rests id = B.rests id
  registry : ∃ added, D.table.registry = added ++ B.table.registry ∧ ∀ p ∈ added, '<' ∈ p.1.toList ∧ p.2 ≤ D.size
  fresh : ∀ id e, B.size < id → D.table.findEntry id = some e →
    (∀ name kind, e ≠ .name name kind) ∧ ∀ p ∈ e.printed, p < id

theorem findEntry_size {id : TypeId} {e : Entry} (h : B.table.findEntry id = some e) : id ≤ B.size := by
  cases id with
  | zero => exact Nat.zero_le _
  | succ i => exact (List.getElem?_eq_some_iff.mp h).1

theorem mem_of_lookup {α β : Type} [BEq α] [LawfulBEq α] {a : α} {b : β} :
    ∀ {l : List (α × β)}, l.lookup a = some b → (a, b) ∈ l
  | (x, y) :: l, h => by
    rw [List.lookup_cons] at h
    split at h
    · next heq =>
      obtain rfl := eq_of_beq heq
      obtain rfl := Option.some.inj h
      exact List.mem_cons_self ..
    · exact List.mem_cons_of_mem _ (mem_of_lookup h)

theorem Built.lookup (hB : Built B) {name : String} {id : TypeId} (h : B.table.lookupNamed name = some id) :
    id ≤ B.size := hB.registry _ (mem_of_lookup h)

namespace Later

theorem refl (B : TypeState) : Later B B where
  entries := List.prefix_refl _
  rests _ _ := rfl
  registry := ⟨[], rfl, by simp⟩
  fresh _ _ hid h := absurd hid (Nat.not_lt.mpr (findEntry_size h))

theorem size_le (h : Later B D) : B.size ≤ D.size := h.entries.length_le

theorem findEntry (h : Later B D) {id : TypeId} (hid : id ≤ B.size) : D.table.findEntry id = B.table.findEntry id := by
  cases id with
  | zero => rfl
  | succ i =>
    obtain ⟨added, hadded⟩ := h.entries
    simp only [TypeTable.findEntry, ← hadded]
    exact List.getElem?_append_left hid

/-- A name without `<` still stands for the same type. -/
theorem lookupNamed (h : Later B D) {name : String} (hname : '<' ∉ name.toList) :
    D.table.lookupNamed name = B.table.lookupNamed name := by
  obtain ⟨added, hregistry, hadded⟩ := h.registry
  have hnone : added.lookup name = none :=
    List.lookup_eq_none_iff.mpr fun p hp => by
      have hne : p.1 ≠ name := fun heq => hname (heq ▸ (hadded p hp).1)
      simpa using hne.symm
  rw [TypeTable.lookupNamed, hregistry, List.lookup_append, hnone]
  rfl

theorem lookup_le (hB : Built B) (h : Later B D) {name : String} {id : TypeId}
    (hid : D.table.lookupNamed name = some id) : id ≤ D.size := by
  obtain ⟨added, hregistry, hadded⟩ := h.registry
  have hmem := mem_of_lookup hid
  rw [hregistry] at hmem
  rcases List.mem_append.mp hmem with hmem | hmem
  · exact (hadded _ hmem).2
  · exact (hB.registry _ hmem).trans h.size_le

theorem canonicalFrom (hB : Built B) (h : Later B D) : ∀ (guard : ℕ) {id : TypeId}, id ≤ B.size →
    D.table.canonicalFrom guard id = B.table.canonicalFrom guard id ∧ B.table.canonicalFrom guard id ≤ B.size
  | 0, _, hid => ⟨rfl, hid⟩
  | guard + 1, id, hid => by
    rw [TypeTable.canonicalFrom, TypeTable.canonicalFrom, h.findEntry hid]
    split
    · next name kind he =>
      have hplain := hB.identifiers name kind (TypeTable.findEntry_mem he)
      rw [h.lookupNamed hplain]
      split
      · exact ⟨rfl, hid⟩
      · split
        · exact ⟨rfl, hid⟩
        · next registered hregistered =>
          split
          · exact ⟨rfl, hid⟩
          · exact canonicalFrom hB h guard (hB.lookup hregistered)
    · exact ⟨rfl, hid⟩

theorem canonical (hB : Built B) (h : Later B D) {id : TypeId} (hid : id ≤ B.size) :
    D.table.canonical id = B.table.canonical id := (h.canonicalFrom hB 8 hid).1

theorem canonical_fresh (h : Later B D) {id : TypeId} (hid : B.size < id) : D.table.canonical id = id := by
  apply TypeTable.fixed_of_entry
  intro name kind he
  exact (h.fresh id _ hid he).1 name kind rfl

end Later

theorem Built.canonical (hB : Built B) {id : TypeId} (hid : id ≤ B.size) : B.table.canonical id ≤ B.size :=
  ((Later.refl B).canonicalFrom hB 8 hid).2

theorem Built.stripFrom (hB : Built B) (h : Later B D) : ∀ (guard : ℕ) {id : TypeId}, id ≤ B.size →
    D.table.stripFrom guard id = B.table.stripFrom guard id ∧ B.table.stripFrom guard id ≤ B.size
  | 0, _, hid => ⟨rfl, hid⟩
  | guard + 1, id, hid => by
    rw [TypeTable.stripFrom, TypeTable.stripFrom, h.canonical hB hid, h.findEntry (hB.canonical hid)]
    split
    · next inner he => exact stripFrom hB h guard (hB.printed _ _ he inner (by simp [Entry.printed]))
    · exact ⟨rfl, hid⟩

theorem Built.stripQualifiers (hB : Built B) (h : Later B D) {id : TypeId} (hid : id ≤ B.size) :
    D.table.stripQualifiers id = B.table.stripQualifiers id ∧ B.table.stripQualifiers id ≤ B.size := by
  obtain ⟨heq, hle⟩ := hB.stripFrom h 8 hid
  exact ⟨by rw [TypeTable.stripQualifiers, heq, h.canonical hB hle]; rfl, hB.canonical hle⟩

/-! ### One step of a substitution -/

theorem size_refl (D : TypeState) : D.size ≤ D.size := Nat.le_refl _

theorem size_trans {D E F : TypeState} : D.size ≤ E.size → E.size ≤ F.size → D.size ≤ F.size := Nat.le_trans

/-- The states of a substitution that has begun with `B`. -/
def growing (B : TypeState) : Growing TypeState where
  inv := Later B
  later D E := D.size ≤ E.size
  refl := size_refl
  trans := size_trans

theorem Later.intern (h : Later B D) {e : Entry} (rest : EntryRest) (hname : ∀ name kind, e ≠ .name name kind)
    (hprinted : ∀ p ∈ e.printed, p ≤ D.size) :
    Later B { table := (D.table.intern e).2
              rests := Function.update D.rests (D.table.intern e).1 rest } where
  entries := h.entries.trans (List.prefix_append _ _)
  rests id hid := by
    have hne : id ≠ (D.table.intern e).1 := Nat.ne_of_lt (Nat.lt_succ_of_le (hid.trans h.size_le))
    simp only [Function.update_of_ne hne, h.rests id hid]
  registry := by
    obtain ⟨added, hregistry, hadded⟩ := h.registry
    exact ⟨added, hregistry, fun p hp => ⟨(hadded p hp).1, (hadded p hp).2.trans (by simp [size, TypeTable.intern])⟩⟩
  fresh id e' hid he' := by
    rcases Nat.lt_or_ge D.size id with hnew | hold
    · -- The new entry is the last one.
      obtain ⟨i, rfl⟩ : ∃ i, id = i + 1 := ⟨id - 1, by omega⟩
      have hle : i + 1 ≤ D.size + 1 := by simpa [size, TypeTable.intern] using findEntry_size he'
      obtain rfl : i = D.size := by omega
      obtain rfl : e = e' := by simpa [TypeTable.findEntry, TypeTable.intern, size] using he'
      exact ⟨hname, fun p hp => Nat.lt_succ_of_le (hprinted p hp)⟩
    · refine h.fresh id e' hid ?_
      rw [← he']
      cases id with
      | zero => rfl
      | succ i => exact (List.getElem?_append_left hold).symm

theorem Later.registerNamed (h : Later B D) {name : String} {id : TypeId} (hname : '<' ∈ name.toList)
    (hid : id ≤ D.size) : Later B { D with table := D.table.registerNamed name id } where
  entries := h.entries
  rests := h.rests
  registry := by
    obtain ⟨added, hregistry, hadded⟩ := h.registry
    refine ⟨(name, id) :: added, by simp [TypeTable.registerNamed, hregistry], ?_⟩
    exact List.forall_mem_cons.mpr ⟨⟨hname, hid⟩, hadded⟩
  fresh := h.fresh

/-- New entries are rendered with the text of earlier ones. -/
theorem Later.acc (hB : Built B) (hacc : ∀ id ≤ B.size, Acc (fun y x => B.table.Prints x y) id) (h : Later B D) :
    ∀ id ≤ D.size, Acc (fun y x => D.table.Prints x y) id := by
  have hold : ∀ id ≤ B.size, Acc (fun y x => D.table.Prints x y) id := by
    intro id hid
    induction hacc id hid with
    | intro id _ ih =>
      refine ⟨_, fun y hy => ?_⟩
      have hprints : D.table.prints id = B.table.prints id := by
        rw [TypeTable.prints, h.canonical hB hid, h.findEntry (hB.canonical hid), TypeTable.prints]
      change y ∈ D.table.prints id at hy
      rw [hprints] at hy
      refine ih y hy ?_
      rw [TypeTable.prints] at hy
      cases he : B.table.findEntry (B.table.canonical id) with
      | none => simp [he] at hy
      | some e => exact hB.printed _ e he y (by simpa [he] using hy)
  intro id
  induction id using Nat.strong_induction_on with
  | _ id ih =>
    intro hid
    rcases Nat.lt_or_ge B.size id with hnew | hle
    · refine ⟨_, fun y hy => ?_⟩
      change y ∈ D.table.prints id at hy
      rw [TypeTable.prints, h.canonical_fresh hnew] at hy
      cases he : D.table.findEntry id with
      | none => simp [he] at hy
      | some e =>
        have hlt : y < id := (h.fresh id e hnew he).2 y (by simpa [he] using hy)
        exact ih y hlt (hlt.le.trans hid)
    · exact hold id hle

/-! ### Fuel -/

section
variable {print print' : TypeTable → TypeId → Option String} {substitute substitute' : TypeId → StateT TypeState Option TypeId}

theorem below_concreteTypeName (hprint : ∀ T p text, print T p = some text → print' T p = some text) (base : String)
    (args : List TypeId) : Below (concreteTypeName print base args) (concreteTypeName print' base args) :=
  .get fun D => (Below.ofOption fun _ => mapM_more (hprint D.table)).bind fun _ => .refl _

theorem below_concreteStructName (hprint : ∀ T p text, print T p = some text → print' T p = some text) (base : String)
    (fields : List TypeId) : Below (concreteStructName print base fields) (concreteStructName print' base fields) :=
  .get fun D => (Below.ofOption fun _ => mapM_more (hprint D.table)).bind fun _ => .refl _

theorem lasting_concreteTypeName (base : String) (args : List TypeId) :
    Lasting fun n => concreteTypeName (fun T => T.typeToString n) base args :=
  fun _ => below_concreteTypeName (fun _ _ _ => TypeTable.typeToString_more) base args

theorem lasting_concreteStructName (base : String) (fields : List TypeId) :
    Lasting fun n => concreteStructName (fun T => T.typeToString n) base fields :=
  fun _ => below_concreteStructName (fun _ _ _ => TypeTable.typeToString_more) base fields

theorem below_reify {concrete : String} {existing : TypeState → TypeId} {make make' : StateT TypeState Option TypeId}
    (h : Below make make') : Below (reify concrete existing make) (reify concrete existing make') :=
  .get fun _ => .ite (.refl _) (h.bind fun _ => .refl _)

theorem below_substituteEntry (hprint : ∀ T p text, print T p = some text → print' T p = some text)
    (h : ∀ p, Below (substitute p) (substitute' p)) (args : List TypeId) (type : TypeId) (rest : EntryRest)
    (e : Option Entry) :
    Below (substituteEntry print substitute args type rest e) (substituteEntry print' substitute' args type rest e) := by
  unfold substituteEntry
  split
  · exact .refl _
  · exact (h _).bind fun _ => .refl _
  · exact (h _).bind fun _ => .refl _
  · exact (h _).bind fun _ => .refl _
  · exact (h _).bind fun _ => .refl _
  · exact (Below.mapM h _).bind fun _ => (h _).bind fun _ => .refl _
  · exact (Below.mapM h _).bind fun _ => .refl _
  · exact (Below.mapM h _).bind fun _ => (below_concreteTypeName hprint _ _).bind fun _ => .refl _
  · exact (below_concreteTypeName hprint _ _).bind fun _ => below_reify ((h _).bind fun _ => .refl _)
  · exact (Below.mapM h _).bind fun _ => (below_concreteStructName hprint _ _).bind fun _ => .refl _
  · exact (h _).bind fun _ => .refl _
  · exact .refl _

theorem below_substituteStep (hprint : ∀ T p text, print T p = some text → print' T p = some text)
    (h : ∀ p, Below (substitute p) (substitute' p)) (args : List TypeId) (type : TypeId) :
    Below (substituteStep print substitute args type) (substituteStep print' substitute' args type) := by
  refine .get fun D => ?_
  split
  · exact (h _).bind fun _ => .refl _
  · refine (h _).bind fun _ => .ite (.refl _) ?_
    exact (below_concreteTypeName hprint _ _).bind fun _ => .refl _
  · refine (h _).bind fun _ => .ite (.refl _) ?_
    exact (below_concreteTypeName hprint _ _).bind fun _ => .refl _
  · exact below_substituteEntry hprint h args type _ _

end

theorem lasting_substituteType (args : List TypeId) (type : TypeId) : Lasting fun n => substituteType args n type := by
  intro n
  induction n generalizing type with
  | zero => exact fun s r h => absurd h (by simp [substituteType, failure, StateT.failure])
  | succ n ih =>
    simp only [substituteType]
    exact below_substituteStep (fun _ _ _ => TypeTable.typeToString_more) ih args type

/-! ### Substitution ends -/

/-- Types that a table knows. -/
def Known (id : TypeId) (D : TypeState) : Prop := id ≤ D.size

theorem Known.later {id : TypeId} (D E : TypeState) (h : (growing B).later D E) (hid : Known id D) : Known id E :=
  hid.trans h

theorem ends_intern {e : Entry} (rest : EntryRest) (hname : ∀ name kind, e ≠ .name name kind)
    (hprinted : ∀ p ∈ e.printed, Known p D) : (growing B).Ends D (fun _ => intern e rest) Known := by
  refine Growing.Ends.modifyGet (fun h => h.intern rest hname hprinted) (fun _ => ?_) fun _ => ?_
  · change D.size ≤ _
    simp [size, TypeTable.intern]
  · simp [Known, size, TypeTable.intern]

section
variable (hB : Built B) (hprint : ∀ id ≤ B.size, Acc (fun y x => B.table.Prints x y) id)
include hB hprint

/-- A name made of the texts of known types. -/
theorem ends_name {ids : List TypeId} (hids : ∀ id ∈ ids, Known id D) {join : List String → String}
    (hjoin : ∀ texts, '<' ∈ (join texts).toList) :
    (growing B).Ends D (fun n => do
      let D ← get
      let texts ← Lib.ofOption (ids.mapM (D.table.typeToString n))
      return join texts) fun name _ => '<' ∈ name.toList := by
  refine Growing.Ends.get fun hD => ?_
  refine Growing.Ends.bind (fun n => Below.ofOption fun _ => mapM_more fun _ _ => TypeTable.typeToString_more)
    (fun _ => .const _) (Q := fun _ _ => True) ?_ fun texts _ _ _ _ => Growing.Ends.pure (hjoin texts)
  refine Growing.Ends.ofOption fun _ => ?_
  obtain ⟨n, texts, htexts⟩ := TypeTable.exists_texts fun id hid => hD.acc hB hprint id (hids id hid)
  exact ⟨n, texts, htexts, trivial⟩

theorem ends_concreteTypeName (base : String) {args : List TypeId} (hargs : ∀ a ∈ args, Known a D) :
    (growing B).Ends D (fun n => concreteTypeName (fun T => T.typeToString n) base args)
      fun name _ => '<' ∈ name.toList := ends_name hB hprint hargs (by simp)

theorem ends_concreteStructName (base : String) {fields : List TypeId} (hfields : ∀ f ∈ fields, Known f D) :
    (growing B).Ends D (fun n => concreteStructName (fun T => T.typeToString n) base fields)
      fun name _ => '<' ∈ name.toList := ends_name hB hprint hfields (by simp)

end

theorem ends_reify {concrete : String} (hname : '<' ∈ concrete.toList) {existing : TypeState → TypeId}
    (hexisting : Later B D → Known (existing D) D) {make : ℕ → StateT TypeState Option TypeId} (hlast : Lasting make)
    (hmake : (growing B).Ends D make Known) :
    (growing B).Ends D (fun n => reify concrete existing (make n)) Known := by
  refine Growing.Ends.get fun hD => ?_
  split
  · exact Growing.Ends.pure (hexisting hD)
  · refine Growing.Ends.bind hlast (fun _ => .const _) hmake fun r E _ _ hr => ?_
    refine Growing.Ends.bind (.const _) (fun _ => .const _) (Q := fun _ E => Known r E) ?_ fun _ _ _ _ hr =>
      Growing.Ends.pure hr
    exact Growing.Ends.modifyGet (fun h => h.registerNamed hname hr) (fun _ => Nat.le_refl _) fun _ => hr

theorem Built.lookup_known (hB : Built B) (h : Later B D) (name : String) : Known (lookupNamed name D) D := by
  unfold lookupNamed
  cases hid : D.table.lookupNamed name with
  | none => exact Nat.zero_le _
  | some id => exact h.lookup_le hB hid

theorem Built.reified_known (hB : Built B) (h : Later B D) (name : String) (args : List TypeId) :
    Known (lookupReifiedStruct name args D) D := by
  unfold lookupReifiedStruct
  split
  · split
    · exact hB.lookup_known h name
    · exact Nat.zero_le _
  · exact Nat.zero_le _

section
variable {substitute : ℕ → TypeId → StateT TypeState Option TypeId} (hlast : ∀ p, Lasting fun n => substitute n p)
  {args : List TypeId} {type : TypeId}
include hlast

/-- One part is substituted, and an entry made of it. -/
theorem ends_one {p : TypeId} {entry : TypeId → Entry} {rest : TypeId → EntryRest}
    (hsub : ∀ E, (growing B).Ends E (fun n => substitute n p) Known)
    (hname : ∀ r name kind, entry r ≠ .name name kind) (hprinted : ∀ r, ∀ q ∈ (entry r).printed, q = r) :
    (growing B).Ends D (fun n => substitute n p >>= fun r => intern (entry r) (rest r)) Known :=
  Growing.Ends.bind (hlast p) (fun _ => .const _) (hsub D) fun r _ _ _ hr =>
    ends_intern _ (hname r) fun q hq => hprinted r q hq ▸ hr

theorem ends_all {l : List TypeId} (hsub : ∀ p ∈ l, ∀ E, (growing B).Ends E (fun n => substitute n p) Known) :
    (growing B).Ends D (fun n => l.mapM (substitute n)) fun rs E => ∀ r ∈ rs, Known r E :=
  Growing.Ends.mapM hlast (fun _ => Known.later (B := B)) fun p hp E _ _ => hsub p hp E

theorem ends_substituteEntry (hB : Built B) (hprint : ∀ id ≤ B.size, Acc (fun y x => B.table.Prints x y) id)
    (hargs : ∀ a ∈ args, Known a B) (hinv : Later B D) (htype : Known type D) {rest : EntryRest} {e : Option Entry}
    (hsub : ∀ p ∈ e.elim [] (Entry.inside rest), ∀ E, (growing B).Ends E (fun n => substitute n p) Known) :
    (growing B).Ends D (fun n => substituteEntry (fun T => T.typeToString n) (substitute n) args type rest e) Known := by
  have hargs' : ∀ {E : TypeState}, Later B E → ∀ a ∈ args, Known a E := fun hE a ha => (hargs a ha).trans hE.size_le
  unfold substituteEntry
  split
  · split
    · exact Growing.Ends.pure htype
    · next origin index _ =>
      refine Growing.Ends.pure ?_
      rw [List.getD_eq_getElem?_getD]
      cases ha : args[index]? with
      | none => exact htype
      | some a => exact hargs' hinv a (List.mem_of_getElem? ha)
  · exact ends_one hlast (hsub _ (by simp [Entry.inside])) (by simp) (by simp [Entry.printed])
  · exact ends_one hlast (hsub _ (by simp [Entry.inside])) (by simp) (by simp [Entry.printed])
  · exact ends_one hlast (hsub _ (by simp [Entry.inside])) (by simp) (by simp [Entry.printed])
  · exact ends_one hlast (hsub _ (by simp [Entry.inside])) (by simp) (by simp [Entry.printed])
  · next params result =>
    refine Growing.Ends.bind (fun n => Below.mapM (fun p => hlast p n) _)
      (fun _ n => (hlast result n).bind fun _ => .refl _)
      (ends_all hlast fun p hp => hsub p (by simp [Entry.inside, hp])) fun ps E _ _ hps => ?_
    refine Growing.Ends.bind (hlast result) (fun _ => .const _) (hsub result (by simp [Entry.inside]) E)
      fun r F _ hEF hr => ends_intern _ (by simp) fun p hp => ?_
    rcases List.mem_append.mp hp with hp | hp
    · exact (hps p hp).trans hEF
    · obtain rfl := List.mem_singleton.mp hp
      exact hr
  · next members =>
    exact Growing.Ends.bind (fun n => Below.mapM (fun p => hlast p n) _) (fun _ => .const _)
      (ends_all hlast fun p hp => hsub p hp) fun ms E _ _ hms => ends_intern _ (by simp) hms
  · next name fields _ origin =>
    refine Growing.Ends.bind (fun n => Below.mapM (fun p => hlast p n) _)
      (fun _ n => (lasting_concreteTypeName _ _ n).bind fun _ => .refl _) (ends_all hlast fun p hp => hsub p hp)
      fun fs E hE _ _ => ?_
    refine Growing.Ends.bind (lasting_concreteTypeName _ _) (fun _ => .const _)
      (ends_concreteTypeName hB hprint _ (hargs' hE)) fun concrete F _ _ hname => ?_
    exact ends_reify hname (fun hF => hB.reified_known hF _ _) (.const _)
      (ends_intern _ (by simp) (by simp [Entry.printed]))
  · next name origin _ =>
    refine Growing.Ends.bind (lasting_concreteTypeName _ _)
      (fun _ n => below_reify ((hlast _ n).bind fun _ => .refl _)) (ends_concreteTypeName hB hprint _ (hargs' hinv))
      fun concrete F _ _ hname => ?_
    exact ends_reify hname (fun hF => hB.lookup_known hF _) (fun n => (hlast _ n).bind fun _ => .refl _)
      (ends_one hlast (hsub _ (by simp [Entry.inside])) (by simp) (by simp [Entry.printed]))
  · next name origin _ =>
    refine Growing.Ends.bind (fun n => Below.mapM (fun p => hlast p n) _)
      (fun _ n => (lasting_concreteStructName _ _ n).bind fun _ => .refl _) (ends_all hlast fun p hp => hsub p hp)
      fun ms E _ _ hms => ?_
    refine Growing.Ends.bind (lasting_concreteStructName _ _) (fun _ => .const _)
      (ends_concreteStructName hB hprint _ hms) fun concrete F _ _ hname => ?_
    exact ends_reify hname (fun hF => hB.lookup_known hF _) (.const _)
      (ends_intern _ (by simp) (by simp [Entry.printed]))
  · exact ends_one hlast (hsub _ (by simp [Entry.inside])) (by simp) (by simp [Entry.printed])
  · exact Growing.Ends.pure htype

end

/-- The types that are substituted for a type. -/
def substitutes (D : TypeState) (type : TypeId) : List TypeId :=
  match (D.table.findEntry type).bind (Entry.shell (D.rests type)) with
  | some inner => [inner]
  | none =>
    (D.table.findEntry (D.table.stripQualifiers type)).elim []
      (Entry.inside (D.rests (D.table.stripQualifiers type)))

def substitution (D : TypeState) : BoundedRecursion TypeId where
  calls := D.substitutes
  ready _ _ := True
  ready_succ _ := trivial

/-- `y` is substituted on the way to the substitution of `x`. -/
def Substitutes (D : TypeState) (x y : TypeId) : Prop := D.substitution.Calls x y

variable {type : TypeId}

theorem Built.substitutes_known (hB : Built B) : ∀ p ∈ B.substitutes type, Known p B := by
  intro p hp
  unfold substitutes at hp
  split at hp
  · next inner hinner =>
    obtain rfl := List.mem_singleton.mp hp
    obtain ⟨e, he, hshell⟩ := Option.bind_eq_some_iff.mp hinner
    exact hB.shell type e he p hshell
  · cases he : B.table.findEntry (B.table.stripQualifiers type) with
    | none => simp [he] at hp
    | some e => exact hB.inside _ e he p (by simpa [he] using hp)

theorem ends_substituteStep (hB : Built B) (hprint : ∀ id ≤ B.size, Acc (fun y x => B.table.Prints x y) id)
    {args : List TypeId} (hargs : ∀ a ∈ args, Known a B)
    {substitute : ℕ → TypeId → StateT TypeState Option TypeId}
    (hlast : ∀ p, Lasting fun n => substitute n p) (htype : Known type B)
    (hsub : ∀ p ∈ B.substitutes type, ∀ E, (growing B).Ends E (fun n => substitute n p) Known) :
    (growing B).Ends D (fun n => substituteStep (fun T => T.typeToString n) (substitute n) args type) Known := by
  refine Growing.Ends.get fun hD => ?_
  rw [hD.findEntry htype, hD.rests type htype]
  have hshell : ∀ {e p}, B.table.findEntry type = some e → e.shell (B.rests type) = some p →
      ∀ E, (growing B).Ends E (fun n => substitute n p) Known := by
    intro e p he hp
    exact hsub p (by simp [substitutes, he, hp])
  split
  · next inner he => exact ends_one hlast (hshell he rfl) (by simp) (by simp [Entry.printed])
  · next target he =>
    refine Growing.Ends.bind (hlast target) (fun _ n => .ite (.refl _) ?_) (hshell he rfl D) fun r E hE _ hr => ?_
    · exact (lasting_concreteTypeName _ _ n).bind fun _ => .refl _
    split
    · exact ends_intern _ (by simp) (by simpa [Entry.printed] using hr)
    · refine Growing.Ends.bind (lasting_concreteTypeName _ _) (fun _ => .const _)
        (ends_concreteTypeName hB hprint _ fun a ha => (hargs a ha).trans hE.size_le) fun concrete F _ hEF hname => ?_
      exact ends_reify hname (fun hF => hB.lookup_known hF _) (.const _)
        (ends_intern _ (by simp) (List.forall_mem_singleton.mpr (hr.trans hEF)))
  · next name origin _ he =>
    refine Growing.Ends.bind (hlast _) (fun _ n => .ite (.refl _) ?_) (hshell he rfl D) fun r E hE _ hr => ?_
    · exact (lasting_concreteTypeName _ _ n).bind fun _ => .refl _
    split
    · exact ends_intern _ (by simp) (by simp [Entry.printed])
    · refine Growing.Ends.bind (lasting_concreteTypeName _ _) (fun _ => .const _)
        (ends_concreteTypeName hB hprint _ fun a ha => (hargs a ha).trans hE.size_le) fun concrete F _ _ hname => ?_
      exact ends_reify hname (fun hF => hB.lookup_known hF _) (.const _)
        (ends_intern _ (by simp) (by simp [Entry.printed]))
  · next hqualified halias hnominal =>
    obtain ⟨hstrip, hknown⟩ := hB.stripQualifiers hD htype
    simp only [hstrip, hD.findEntry hknown, hD.rests _ hknown]
    refine ends_substituteEntry hlast hB hprint hargs hD (htype.trans hD.size_le) fun p hp => hsub p ?_
    rw [substitutes, Entry.shell_eq_none hqualified halias hnominal]
    exact hp

/-- Substitution ends where going from a type to the types that are substituted for it does. -/
theorem ends_substituteType (hB : Built B) (hprint : ∀ id ≤ B.size, Acc (fun y x => B.table.Prints x y) id)
    {args : List TypeId} (hargs : ∀ a ∈ args, Known a B) (hacc : Acc (fun y x => B.Substitutes x y) type)
    (htype : Known type B) : ∀ D, (growing B).Ends D (fun n => substituteType args n type) Known := by
  induction hacc with
  | intro type _ ih =>
    intro D
    refine Growing.Ends.succ (fun _ => rfl) (ends_substituteStep hB hprint hargs (lasting_substituteType args) htype ?_)
    exact fun p hp => ih p hp (hB.substitutes_known p hp)

/-! ### What substitution needs to end -/

theorem substitutes_inside (h : (D.table.findEntry type).bind (Entry.shell (D.rests type)) = none) :
    D.substitutes type = (D.table.findEntry (D.table.stripQualifiers type)).elim []
      (Entry.inside (D.rests (D.table.stripQualifiers type))) := by
  rw [substitutes, h]

theorem substitutes_shell {type inner : TypeId} {e : Entry} (he : D.table.findEntry type = some e)
    (h : e.shell (D.rests type) = some inner) : D.substitutes type = [inner] := by
  simp [substitutes, he, h]

/-- The underlying type of an enum is substituted in a few steps. -/
theorem acc_integerBehind {id : TypeId} (h : IntegerBehind B.table id) : Acc (fun y x => B.Substitutes x y) id := by
  have hend : ∀ {id}, IntegerBehind B.table id → (B.table.findEntry id).bind (Entry.shell (B.rests id)) = none →
      Acc (fun y x => B.Substitutes x y) id := by
    intro id h hshell
    refine ⟨_, fun y hy => ?_⟩
    change y ∈ B.substitutes id at hy
    rw [substitutes_inside hshell, TypeTable.stripQualifiers, ((h.stripFrom 8).canonical).inside] at hy
    exact absurd hy List.not_mem_nil
  have hstep : ∀ {id inner : TypeId} {e : Entry}, B.table.findEntry id = some e → e.shell (B.rests id) = some inner →
      Acc (fun y x => B.Substitutes x y) inner → Acc (fun y x => B.Substitutes x y) id := by
    intro id inner e he hshell hacc
    refine ⟨_, fun y hy => ?_⟩
    change y ∈ B.substitutes id at hy
    rw [substitutes_shell he hshell] at hy
    obtain rfl := List.mem_singleton.mp hy
    exact hacc
  induction h with
  | integer he => exact hend (.integer he) (by simp [he, Entry.shell])
  | behindAlias he _ ih => exact hstep he rfl ih
  | behindQualifier he _ ih => exact hstep he rfl ih
  | behindName he h _ => exact hend (.behindName he h) (by simp [he, Entry.shell])

end TypeState

end Zith.Types
