import Zith.Types.DeclaredTypes

/-! Where one of the queries does not return, a type is a part of itself: of its own text, or of what is substituted
    for it. A run of a substitution that returns has substituted all parts of its type, so that going from a type to
    them ends. -/

namespace Zith.Types

open Lib (BoundedRecursion Growing)

namespace TypeState
variable {B D E : TypeState}

/-! ### What a substitution that returns has done -/

theorem from_intern {e : Entry} (rest : EntryRest) (hname : ∀ name kind, e ≠ .name name kind)
    (hprinted : ∀ p ∈ e.printed, Known p D) : (growing B).From D (intern e rest) Known := by
  intro hD r E hrun
  obtain ⟨rfl, rfl⟩ := Prod.mk.inj (Option.some.inj hrun)
  refine ⟨hD.intern rest hname hprinted, ?_, ?_⟩
  · change D.size ≤ _
    simp [size, TypeTable.intern]
  · simp [Known, size, TypeTable.intern]

section
variable {print : TypeTable → TypeId → Option String}

theorem from_concreteTypeName (base : String) (args : List TypeId) :
    (growing B).From D (concreteTypeName print base args) fun name _ => '<' ∈ name.toList :=
  .get fun _ => (Growing.From.ofOption (Q := fun _ _ => True) fun _ _ => trivial).bind fun _ _ _ _ _ =>
    .pure (by simp)

theorem from_concreteStructName (base : String) (fields : List TypeId) :
    (growing B).From D (concreteStructName print base fields) fun name _ => '<' ∈ name.toList :=
  .get fun _ => (Growing.From.ofOption (Q := fun _ _ => True) fun _ _ => trivial).bind fun _ _ _ _ _ =>
    .pure (by simp)

theorem from_reify {concrete : String} (hname : '<' ∈ concrete.toList) {existing : TypeState → TypeId}
    (hexisting : Later B D → Known (existing D) D) {make : StateT TypeState Option TypeId}
    (hmake : (growing B).From D make Known) : (growing B).From D (reify concrete existing make) Known := by
  refine .get fun hD => .ite (fun _ => .pure (hexisting hD)) fun _ => hmake.bind fun r E _ _ hr => ?_
  refine Growing.From.bind (Q := fun _ E => Known r E) ?_ fun _ _ _ _ hr => .pure hr
  intro hE a t hrun
  obtain ⟨rfl, rfl⟩ := Prod.mk.inj (Option.some.inj hrun)
  exact ⟨hE.registerNamed hname hr, Nat.le_refl _, hr⟩

end

section
variable {print : TypeTable → TypeId → Option String} {substitute : TypeId → StateT TypeState Option TypeId}
  {args : List TypeId} {type : TypeId} {C : TypeId → Prop}

/-- The part has been substituted where the new entry is there. -/
theorem from_one {p : TypeId} {entry : TypeId → Entry} {rest : TypeId → EntryRest}
    (hsub : ∀ E, (growing B).From E (substitute p) fun r E => Known r E ∧ C p)
    (hname : ∀ r name kind, entry r ≠ .name name kind) (hprinted : ∀ r, ∀ q ∈ (entry r).printed, q = r) :
    (growing B).From D (substitute p >>= fun r => intern (entry r) (rest r)) fun r E => Known r E ∧ C p :=
  (hsub D).bind fun r _ _ _ hr =>
    (from_intern _ (hname r) fun q hq => hprinted r q hq ▸ hr.1).mono fun _ _ _ _ hr' => ⟨hr', hr.2⟩

theorem from_all {l : List TypeId} (hsub : ∀ p ∈ l, ∀ E, (growing B).From E (substitute p) fun r E => Known r E ∧ C p) :
    (growing B).From D (l.mapM substitute) fun rs E => (∀ r ∈ rs, Known r E) ∧ ∀ p ∈ l, C p := by
  refine (Growing.From.mapM (R := fun p r E => Known r E ∧ C p) (fun p r E F hEF h => ⟨h.1.trans hEF, h.2⟩)
    fun p hp E _ _ => hsub p hp E).mono fun rs E _ _ h => ⟨fun r hr => ?_, fun p hp => ?_⟩
  · obtain ⟨p, -, hr, -⟩ := Lib.exists_of_forall₂ h r hr
    exact hr
  · obtain ⟨r, -, -, hp⟩ := Lib.exists_of_forall₂ h.flip p hp
    exact hp

theorem from_substituteEntry (hB : Built B) (hargs : ∀ a ∈ args, Known a B) (hinv : Later B D) (htype : Known type D)
    {rest : EntryRest} {e : Option Entry} (henum : ∀ name origin as, e = some (.enum name origin as) → C rest.underlying)
    (hsub : ∀ p ∈ e.elim [] (Entry.inside rest), ∀ E, (growing B).From E (substitute p) fun r E => Known r E ∧ C p) :
    (growing B).From D (substituteEntry print substitute args type rest e)
      fun r E => Known r E ∧ ∀ p ∈ e.elim [] (Entry.inside rest), C p := by
  have hone : ∀ {p : TypeId} {l : List TypeId}, l = [p] → ∀ r (E : TypeState), Later B E → (growing B).later D E →
      Known r E ∧ C p → Known r E ∧ ∀ q ∈ l, C q := by
    rintro p _ rfl r E _ _ ⟨hr, hp⟩
    exact ⟨hr, List.forall_mem_singleton.mpr hp⟩
  unfold substituteEntry
  split
  · refine .ite (fun _ => .pure ⟨htype, by simp [Entry.inside]⟩) fun _ => .pure ⟨?_, by simp [Entry.inside]⟩
    next origin index _ =>
    rw [List.getD_eq_getElem?_getD]
    cases ha : args[index]? with
    | none => exact htype
    | some a => exact (hargs a (List.mem_of_getElem? ha)).trans hinv.size_le
  · exact (from_one (hsub _ (by simp [Entry.inside])) (by simp) (by simp [Entry.printed])).mono (hone rfl)
  · exact (from_one (hsub _ (by simp [Entry.inside])) (by simp) (by simp [Entry.printed])).mono (hone rfl)
  · exact (from_one (hsub _ (by simp [Entry.inside])) (by simp) (by simp [Entry.printed])).mono (hone rfl)
  · exact (from_one (hsub _ (by simp [Entry.inside])) (by simp) (by simp [Entry.printed])).mono (hone rfl)
  · next params result =>
    refine (from_all fun p hp => hsub p (by simp [Entry.inside, hp])).bind fun ps E _ _ hps => ?_
    refine (hsub result (by simp [Entry.inside]) E).bind fun r F _ hEF hr => ?_
    refine (from_intern _ (by simp) fun p hp => ?_).mono fun _ _ _ _ hid => ⟨hid, ?_⟩
    · rcases List.mem_append.mp hp with hp | hp
      · exact (hps.1 p hp).trans hEF
      · obtain rfl := List.mem_singleton.mp hp
        exact hr.1
    · exact List.forall_mem_append.mpr ⟨hps.2, List.forall_mem_singleton.mpr hr.2⟩
  · next members =>
    exact (from_all fun p hp => hsub p hp).bind fun ms E _ _ hms =>
      (from_intern _ (by simp) (by exact hms.1)).mono fun _ _ _ _ hid => ⟨hid, hms.2⟩
  · next name fields _ origin =>
    refine (from_all fun p hp => hsub p hp).bind fun fs E _ _ hfs => ?_
    refine (from_concreteTypeName _ _).bind fun concrete F _ _ hname => ?_
    exact (from_reify hname (fun hF => hB.reified_known hF _ _) (from_intern _ (by simp) (by simp [Entry.printed]))).mono
      fun _ _ _ _ hid => ⟨hid, hfs.2⟩
  · next name origin _ =>
    refine (from_concreteTypeName _ _).bind fun concrete F _ _ hname => ?_
    refine (from_reify hname (fun hF => hB.lookup_known hF _) ?_).mono fun _ _ _ _ hid =>
      ⟨hid, List.forall_mem_singleton.mpr (henum _ _ _ rfl)⟩
    exact (from_one (hsub _ (by simp [Entry.inside])) (by simp) (by simp [Entry.printed])).mono fun _ _ _ _ h => h.1
  · next name origin _ =>
    refine (from_all fun p hp => hsub p hp).bind fun ms E _ _ hms => ?_
    refine (from_concreteStructName _ _).bind fun concrete F _ _ hname => ?_
    exact (from_reify hname (fun hF => hB.lookup_known hF _) (from_intern _ (by simp) (by simp [Entry.printed]))).mono
      fun _ _ _ _ hid => ⟨hid, hms.2⟩
  · exact (from_one (hsub _ (by simp [Entry.inside])) (by simp) (by simp [Entry.printed])).mono (hone rfl)
  · next hgeneric hpointer hoptional harray hslice hfunction hsum hstruct henum' hunion hfailable =>
    refine .pure ⟨htype, ?_⟩
    rcases e with _ | e
    · simp
    · cases e with
      | pointer => exact absurd rfl (hpointer _)
      | optional => exact absurd rfl (hoptional _)
      | array => exact absurd rfl (harray _ _)
      | slice => exact absurd rfl (hslice _)
      | function => exact absurd rfl (hfunction _ _)
      | sum => exact absurd rfl (hsum _)
      | struct => exact absurd rfl (hstruct _ _ _ _)
      | enum => exact absurd rfl (henum' _ _ _)
      | union => exact absurd rfl (hunion _ _ _)
      | failable => exact absurd rfl (hfailable _)
      | _ => simp [Entry.inside]

end

theorem from_substituteStep (hB : Built B) {print : TypeTable → TypeId → Option String}
    {substitute : TypeId → StateT TypeState Option TypeId} {args : List TypeId} (hargs : ∀ a ∈ args, Known a B)
    {type : TypeId} {C : TypeId → Prop} (henum : ∀ id name origin as, B.table.findEntry id = some (.enum name origin as) →
      C (B.rests id).underlying) (htype : Known type B)
    (hsub : ∀ p ∈ B.substitutes type, ∀ E, (growing B).From E (substitute p) fun r E => Known r E ∧ C p) :
    (growing B).From D (substituteStep print substitute args type)
      fun r E => Known r E ∧ ∀ p ∈ B.substitutes type, C p := by
  refine .get fun hD => ?_
  rw [hD.findEntry htype, hD.rests type htype]
  split
  · next inner he =>
    rw [substitutes_shell he rfl] at hsub ⊢
    exact (from_one (hsub _ (List.mem_singleton_self _)) (by simp) (by simp [Entry.printed])).mono fun _ _ _ _ h =>
      ⟨h.1, List.forall_mem_singleton.mpr h.2⟩
  · next target he =>
    rw [substitutes_shell he rfl] at hsub ⊢
    refine (hsub _ (List.mem_singleton_self _) D).bind fun r E hE _ hr => .ite (fun _ => ?_) fun _ => ?_
    · exact (from_intern _ (by simp) (by simpa [Entry.printed] using hr.1)).mono fun _ _ _ _ hid =>
        ⟨hid, List.forall_mem_singleton.mpr hr.2⟩
    · refine (from_concreteTypeName _ _).bind fun concrete F _ hEF hname => ?_
      exact (from_reify hname (fun hF => hB.lookup_known hF _)
        (from_intern _ (by simp) (by exact List.forall_mem_singleton.mpr (hr.1.trans hEF)))).mono fun _ _ _ _ hid =>
          ⟨hid, List.forall_mem_singleton.mpr hr.2⟩
  · next name origin _ he =>
    rw [substitutes_shell he rfl] at hsub ⊢
    refine (hsub _ (List.mem_singleton_self _) D).bind fun r E hE _ hr => .ite (fun _ => ?_) fun _ => ?_
    · exact (from_intern _ (by simp) (by simp [Entry.printed])).mono fun _ _ _ _ hid =>
        ⟨hid, List.forall_mem_singleton.mpr hr.2⟩
    · refine (from_concreteTypeName _ _).bind fun concrete F _ _ hname => ?_
      exact (from_reify hname (fun hF => hB.lookup_known hF _) (from_intern _ (by simp) (by simp [Entry.printed]))).mono
        fun _ _ _ _ hid => ⟨hid, List.forall_mem_singleton.mpr hr.2⟩
  · next hqualified halias hnominal =>
    obtain ⟨hstrip, hknown⟩ := hB.stripQualifiers hD htype
    have hnone : (B.table.findEntry type).bind (Entry.shell (B.rests type)) = none :=
      Entry.shell_eq_none hqualified halias hnominal
    rw [substitutes_inside hnone] at hsub ⊢
    simp only [hstrip, hD.findEntry hknown, hD.rests _ hknown]
    exact from_substituteEntry hB hargs hD (htype.trans hD.size_le) (fun _ _ _ he => henum _ _ _ _ he) hsub

/-- A substitution that returns has gone through all that is substituted for its type. -/
theorem from_substituteType (hB : Built B) {args : List TypeId} (hargs : ∀ a ∈ args, Known a B) : ∀ (depth : ℕ)
    {type : TypeId}, Known type B → ∀ D, (growing B).From D (substituteType args depth type)
      fun r E => Known r E ∧ Acc (fun y x => B.Substitutes x y) type
  | 0, _, _, _ => fun _ _ _ hrun => by simp [substituteType, failure, StateT.failure] at hrun
  | depth + 1, type, htype, D =>
    (from_substituteStep hB hargs (fun id _ _ _ he => acc_integerBehind (hB.underlying id _ _ _ he)) htype
      fun p hp E => from_substituteType hB hargs depth (hB.substitutes_known p hp) E).mono
        fun _ _ _ _ h => ⟨h.1, _, h.2⟩

/-! ### Tables without cycles -/

/-- Among the known types, going on ends everywhere exactly where no type is come back to. -/
theorem acc_iff_acyclic {R : BoundedRecursion TypeId} (hknown : ∀ id, ∀ p ∈ R.calls id, Known p B) :
    (∀ id, Known id B → Acc (fun y x => R.Calls x y) id) ↔ ∀ id, ¬Relation.TransGen R.Calls id id := by
  constructor
  · intro h id hcycle
    obtain ⟨x, -, hx⟩ := Relation.TransGen.tail'_iff.mp hcycle
    exact BoundedRecursion.not_cyclic_of_acc (h id (hknown x id hx)) hcycle
  · intro h id hid
    have hnodes : ∀ y, Relation.ReflTransGen R.Calls id y → y ∈ List.range (B.size + 1) := by
      intro y hy
      induction hy with
      | refl => exact List.mem_range.mpr (Nat.lt_succ_of_le hid)
      | tail _ hz _ => exact List.mem_range.mpr (Nat.lt_succ_of_le (hknown _ _ hz))
    exact BoundedRecursion.acc_of_acyclic hnodes fun y _ => h y

theorem canonical_unknown {id : TypeId} (h : B.table.findEntry id = none) : B.table.canonical id = id :=
  TypeTable.fixed_of_entry (by simp [h]) 8

/-- Nothing is rendered in a type that is not there. -/
theorem known_of_prints {id p : TypeId} (hp : p ∈ B.table.prints id) : Known id B := by
  cases he : B.table.findEntry id with
  | none => simp [TypeTable.prints, canonical_unknown he, he] at hp
  | some e => exact findEntry_size he

theorem known_of_substitutes {id p : TypeId} (hp : p ∈ B.substitutes id) : Known id B := by
  cases he : B.table.findEntry id with
  | none =>
    have hstrip : B.table.stripQualifiers id = id := by
      simp [TypeTable.stripQualifiers, TypeTable.stripFrom, canonical_unknown he, he]
    simp [substitutes, he, hstrip] at hp
  | some e => exact findEntry_size he

theorem Built.prints_known (hB : Built B) (id : TypeId) : ∀ p ∈ B.table.prints id, Known p B := by
  intro p hp
  rw [TypeTable.prints] at hp
  cases he : B.table.findEntry (B.table.canonical id) with
  | none => simp [he] at hp
  | some e => exact hB.printed _ e he p (by simpa [he] using hp)

theorem Built.typeToString_iff (hB : Built B) :
    (∀ id, Known id B → ∃ depth text, B.table.typeToString depth id = some text) ↔
      ∀ id, ¬Relation.TransGen B.table.Prints id id := by
  have hacc := acc_iff_acyclic (R := B.table.printing) hB.prints_known
  constructor
  · intro h id hcycle
    obtain ⟨x, -, hx⟩ := Relation.TransGen.tail'_iff.mp hcycle
    obtain ⟨depth, text, htext⟩ := h id (hB.prints_known x id hx)
    have hreturns : B.table.printing.Returns depth id := TypeTable.isSome_typeToString.mp (by simp [htext])
    exact BoundedRecursion.not_cyclic hreturns hcycle
  · exact fun h id hid => TypeTable.exists_typeToString (hacc.mpr h id hid)

/-- Given that types can be rendered, all types can be substituted exactly where none is substituted inside itself. -/
theorem Built.substituteType_iff (hB : Built B) (hprint : ∀ id, ¬Relation.TransGen B.table.Prints id id) :
    (∀ args, (∀ a ∈ args, Known a B) → ∀ id, Known id B → ∃ depth r, substituteType args depth id B = some r) ↔
      ∀ id, ¬Relation.TransGen B.Substitutes id id := by
  refine Iff.trans ?_ (acc_iff_acyclic (R := B.substitution) fun id => hB.substitutes_known)
  constructor
  · intro h id hid
    obtain ⟨depth, ⟨r, E⟩, hrun⟩ := h [] (by simp) id hid
    exact (from_substituteType hB (by simp) depth hid B (.refl B) r E hrun).2.2.2
  · intro h args hargs id hid
    have hacc := (acc_iff_acyclic (R := B.table.printing) hB.prints_known).mpr hprint
    obtain ⟨depth, r, E, hrun, -⟩ := ends_substituteType hB hacc hargs (h id hid) hid B (.refl B)
    exact ⟨depth, (r, E), hrun⟩

end TypeState

end Zith.Types

/-! All queries of the type table together. Two types are compared by their parts, side by side; this goes on without
    end only if two different types come to be compared inside their own comparison. -/

namespace Zith.Types

open Lib (BoundedRecursion)

/-! ### Comparison -/

theorem allSame_total_zip {same : TypeId → TypeId → Option Bool} : ∀ {as bs : List TypeId},
    (∀ p ∈ as.zip bs, ∃ r, same p.1 p.2 = some r) → ∃ r, PerModuleSema.allSame same as bs = some r
  | [], _, _ => ⟨true, by simp [PerModuleSema.allSame]⟩
  | _ :: _, [], _ => ⟨true, by simp [PerModuleSema.allSame]⟩
  | a :: as, b :: bs, h => by
    rw [List.zip_cons_cons] at h
    obtain ⟨hab, hrest⟩ := List.forall_mem_cons.mp h
    obtain ⟨r, hr⟩ := hab
    obtain ⟨r', hr'⟩ := allSame_total_zip hrest
    cases r with
    | false => exact ⟨false, by simp [PerModuleSema.allSame, hr]⟩
    | true => exact ⟨r', by simp [PerModuleSema.allSame, hr, hr']⟩

/-- The parts of two entries that are compared with each other. -/
def Entry.sideBySide (a b : Entry) : List (TypeId × TypeId) :=
  if a.head.isSome ∧ a.head = b.head ∧ a.parts.length = b.parts.length then a.parts.zip b.parts else []

theorem sameEntry_total_zip {same : TypeId → TypeId → Option Bool} {a b : Option Entry} (kind : TypeKind)
    (h : ∀ ea eb, a = some ea → b = some eb → ∀ p ∈ ea.sideBySide eb, ∃ r, same p.1 p.2 = some r) :
    ∃ r, PerModuleSema.sameEntry same a b kind = some r := by
  have hguarded : ∀ {p : Prop} [Decidable p] {r : Bool} {o : Option Bool}, (p → ∃ r', o = some r') →
      ∃ r', (if p then o else some r) = some r' := by
    intro p _ r o ho
    split
    · exact ho ‹_›
    · exact ⟨r, rfl⟩
  unfold PerModuleSema.sameEntry
  split <;> (try split) <;> first
    | exact ⟨_, rfl⟩
    | exact h _ _ rfl rfl (_, _) (by simp [Entry.sideBySide, Entry.head, Entry.parts])
    | exact hguarded fun hp => h _ _ rfl rfl (_, _) (by simp [Entry.sideBySide, Entry.head, Entry.parts, hp])
    | exact hguarded fun hp => allSame_total_zip fun p hmem => h _ _ rfl rfl p (by
        simpa [Entry.sideBySide, Entry.head, Entry.parts, hp] using hmem)
    | exact hguarded fun hp => hguarded fun hq => allSame_total_zip fun p hmem => h _ _ rfl rfl p (by
        simpa [Entry.sideBySide, Entry.head, Entry.parts, hp, hq] using hmem)

namespace PerModuleSema
variable {S : PerModuleSema}

/-- The comparisons that the comparison of two resolved types asks for. -/
def comparisons (S : PerModuleSema) (p : TypeId × TypeId) : List (TypeId × TypeId) :=
  if p.1 = p.2 then []
  else
    match S.table.findEntry p.1, S.table.findEntry p.2 with
    | some a, some b => (a.sideBySide b).map fun q => (S.resolve q.1, S.resolve q.2)
    | _, _ => []

def comparing (S : PerModuleSema) : BoundedRecursion (TypeId × TypeId) where
  calls := S.comparisons
  ready _ _ := True
  ready_succ _ := trivial

/-- `q` is compared on the way to the comparison of `p`. -/
def Compares (S : PerModuleSema) (p q : TypeId × TypeId) : Prop := S.comparing.Calls p q

theorem sameType_of_returns : ∀ {depth : ℕ} {a b : TypeId}, S.comparing.Returns depth (S.resolve a, S.resolve b) →
    ∃ r, S.sameType depth a b = some r
  | 0, _, _, h => h.elim
  | depth + 1, a, b, h => by
    rw [sameType, sameResolved]
    split
    · exact ⟨true, rfl⟩
    split
    · exact ⟨true, rfl⟩
    next hne =>
    split
    · exact ⟨_, rfl⟩
    split
    · exact ⟨_, rfl⟩
    split
    · exact ⟨_, rfl⟩
    refine sameEntry_total_zip _ fun ea eb hea heb p hp => sameType_of_returns (h.2 _ ?_)
    change _ ∈ S.comparisons _
    rw [comparisons, if_neg hne, hea, heb]
    exact List.mem_map_of_mem hp

end PerModuleSema

/-! ### Resolving and coercing -/

namespace Coercions
variable {S : Coercions}

/-- What a type resolves to is rendered on the way to rendering it. -/
theorem exists_resolved : ∀ (guard : ℕ) (id : TypeId), ∃ u, Relation.ReflTransGen S.table.Prints id u ∧
    S.table.canonical u = PerModuleSema.resolveFrom S.table guard (S.table.canonical id)
  | 0, id => ⟨id, .refl, rfl⟩
  | guard + 1, id => by
    have hnext : ∀ {next : TypeId} {e : Entry}, S.table.findEntry (S.table.canonical id) = some e → e.printed = [next] →
        ∃ u, Relation.ReflTransGen S.table.Prints id u ∧
          S.table.canonical u = PerModuleSema.resolveFrom S.table guard (S.table.canonical next) := by
      intro next e he hprinted
      obtain ⟨u, hu, heq⟩ := exists_resolved guard next
      have hstep : S.table.Prints id next := by
        change next ∈ S.table.prints id
        simp [TypeTable.prints, he, hprinted]
      exact ⟨u, hu.head hstep, heq⟩
    rw [PerModuleSema.resolveFrom]
    split
    · next target he => exact hnext he rfl
    · next inner he => exact hnext he rfl
    · exact ⟨id, .refl, rfl⟩

/-- The inner type of an optional is rendered inside it. -/
theorem prints_inner {target inner : TypeId} (he : S.table.findEntry (S.resolve target) = some (.optional inner)) :
    Relation.TransGen S.table.Prints target inner := by
  obtain ⟨u, hu, heq⟩ := exists_resolved (S := S) 16 target
  have hstep : S.table.Prints u inner := by
    change inner ∈ S.table.prints u
    rw [TypeTable.prints, heq]
    change inner ∈ (S.table.findEntry (S.resolve target)).elim [] Entry.printed
    simp [he, Entry.printed]
  exact Relation.TransGen.tail' hu hstep

theorem orTry_total {o next : Option Bool} (ho : ∃ r, o = some r) (hnext : ∃ r, next = some r) :
    ∃ r, orTry o next = some r := by
  obtain ⟨r, rfl⟩ := ho
  obtain ⟨r', rfl⟩ := hnext
  cases r with
  | true => exact ⟨true, rfl⟩
  | false => exact ⟨r', rfl⟩

theorem coercesByTarget_total {same coerces : TypeId → TypeId → Option Bool} (hsame : ∀ a b, ∃ r, same a b = some r)
    {target source : TypeId} (hinner : ∀ inner, S.table.findEntry (S.resolve target) = some (.optional inner) →
      ∃ r, coerces inner source = some r) : ∃ r, S.coercesByTarget same coerces target source = some r := by
  have hpointer : ∃ r, S.allowsUncheckedNullablePointer same target source = some r := by
    unfold allowsUncheckedNullablePointer
    split
    · exact hsame _ _
    · exact ⟨_, rfl⟩
  simp only [coercesByTarget]
  split
  · split <;> exact ⟨_, rfl⟩
  · split
    · split
      · exact hsame _ _
      · exact ⟨_, rfl⟩
    · exact ⟨_, rfl⟩
  · split
    · exact ⟨_, rfl⟩
    · split
      · next inner he => exact orTry_total (hsame _ _) (hinner inner he)
      · exact ⟨_, rfl⟩
  · exact ⟨_, rfl⟩
  · exact hpointer

theorem coercesByShape_total {same : TypeId → TypeId → Option Bool} (hsame : ∀ a b, ∃ r, same a b = some r)
    (target source : TypeId) : ∃ r, S.coercesByShape same target source = some r := by
  simp only [coercesByShape]
  split
  · exact ⟨_, rfl⟩
  · split
    · exact hsame _ _
    · next pointee element _ _ =>
      obtain ⟨r, hr⟩ := hsame (S.table.stripQualifiers pointee) S.charType
      rw [hr, Option.bind_some]
      split
      · exact hsame _ _
      · exact ⟨_, rfl⟩
    · split
      · exact allSame_total_zip fun p _ => hsame p.1 p.2
      · exact ⟨_, rfl⟩
    · exact ⟨_, rfl⟩

/-- Coercion ends where comparison does at a common depth, and rendering of the target does. -/
theorem coercesTo_total {bound : ℕ} (hsame : ∀ depth ≥ bound, ∀ a b, ∃ r, S.sameType depth a b = some r) (source : TypeId)
    {target : TypeId} (hacc : Acc (fun y x => Relation.TransGen S.table.Prints x y) target) :
    ∃ n, ∀ depth ≥ n, ∃ r, S.coercesTo depth target source = some r := by
  induction hacc with
  | intro target _ ih =>
    have hinner : ∃ n, ∀ inner, S.table.findEntry (S.resolve target) = some (.optional inner) →
        ∀ depth ≥ n, ∃ r, S.coercesTo depth inner source = some r := by
      cases he : S.table.findEntry (S.resolve target) with
      | none => exact ⟨0, by simp⟩
      | some e =>
        cases e with
        | optional inner =>
          obtain ⟨n, hn⟩ := ih inner (prints_inner he)
          exact ⟨n, by simpa using hn⟩
        | _ => exact ⟨0, by simp⟩
    obtain ⟨n, hn⟩ := hinner
    refine ⟨max bound n + 1, fun depth hdepth => ?_⟩
    obtain ⟨depth, rfl⟩ : ∃ d, depth = d + 1 := ⟨depth - 1, by omega⟩
    have hsame' := hsame (depth + 1) (by omega)
    rw [coercesTo]
    exact orTry_total (hsame' _ _) (orTry_total (coercesByTarget_total hsame' fun inner he => hn inner he depth (by omega))
      (coercesByShape_total hsame' _ _))

end Coercions

/-! ### All queries -/

/-- The sema of a module, with the table that it has built. -/
structure DeclaredSema extends Coercions where
  rests : TypeId → EntryRest
  built : TypeState.Built ⟨table, rests⟩

namespace DeclaredSema
open TypeState (Known substituteType)
variable (S : DeclaredSema)

def state : TypeState := ⟨S.table, S.rests⟩

/-- Every query returns, on every type of the table and for every list of arguments. -/
structure QueriesReturn : Prop where
  typeToString : ∀ id, Known id S.state → ∃ depth text, S.table.typeToString depth id = some text
  stripQualifiers : ∀ id, Known id S.state → Known (S.table.stripQualifiers id) S.state
  sameType : ∀ a b, Known a S.state → Known b S.state → ∃ depth r, S.sameType depth a b = some r
  coercesTo : ∀ target source, Known target S.state → Known source S.state →
    ∃ depth r, S.coercesTo depth target source = some r
  substituteType : ∀ args, (∀ a ∈ args, Known a S.state) → ∀ id, Known id S.state →
    ∃ depth r, substituteType args depth id S.state = some r

/-- No type is rendered inside itself, none is substituted inside itself, and no two types are compared inside their
    own comparison. -/
structure Acyclic : Prop where
  prints : ∀ id, ¬Relation.TransGen S.table.Prints id id
  substitutes : ∀ id, ¬Relation.TransGen S.state.Substitutes id id
  compares : ∀ p, ¬Relation.TransGen S.Compares p p

variable {S}

theorem resolve_known {id : TypeId} (hid : Known id S.state) : Known (S.resolve id) S.state := by
  have hresolve : ∀ (guard : ℕ) {id : TypeId}, Known id S.state →
      Known (PerModuleSema.resolveFrom S.table guard id) S.state := by
    intro guard
    induction guard with
    | zero => exact fun hid => hid
    | succ guard ih =>
      intro id hid
      rw [PerModuleSema.resolveFrom]
      split
      · next target he => exact ih (S.built.canonical (S.built.printed _ _ he target (by simp [Entry.printed])))
      · next inner he => exact ih (S.built.canonical (S.built.printed _ _ he inner (by simp [Entry.printed])))
      · exact hid
  exact hresolve 16 (S.built.canonical hid)

theorem comparisons_known {p q : TypeId × TypeId} (hq : q ∈ S.comparisons p) :
    (Known p.1 S.state ∧ Known p.2 S.state) ∧ Known q.1 S.state ∧ Known q.2 S.state := by
  unfold PerModuleSema.comparisons at hq
  split at hq
  · exact absurd hq List.not_mem_nil
  split at hq
  · next a b ha hb =>
    obtain ⟨⟨x, y⟩, hxy, rfl⟩ := List.mem_map.mp hq
    unfold Entry.sideBySide at hxy
    split at hxy
    · obtain ⟨hx, hy⟩ := List.of_mem_zip hxy
      exact ⟨⟨TypeState.findEntry_size ha, TypeState.findEntry_size hb⟩, resolve_known (S.built.parts _ a ha x hx),
        resolve_known (S.built.parts _ b hb y hy)⟩
    · exact absurd hxy List.not_mem_nil
  · exact absurd hq List.not_mem_nil

/-- Comparison ends at a common depth. -/
theorem exists_sameType (h : ∀ p, ¬Relation.TransGen S.Compares p p) :
    ∃ bound, ∀ depth ≥ bound, ∀ a b, ∃ r, S.sameType depth a b = some r := by
  let pairs := (List.range (S.state.size + 1)).product (List.range (S.state.size + 1))
  have hpairs : ∀ {p : TypeId × TypeId}, Known p.1 S.state → Known p.2 S.state → p ∈ pairs := fun h₁ h₂ =>
    List.pair_mem_product.mpr ⟨List.mem_range.mpr (Nat.lt_succ_of_le h₁), List.mem_range.mpr (Nat.lt_succ_of_le h₂)⟩
  have hreturns : ∀ p ∈ pairs, ∃ n, S.comparing.Returns n p := by
    intro p hp
    have hnodes : ∀ q, Relation.ReflTransGen S.comparing.Calls p q → q ∈ pairs := by
      intro q hq
      induction hq with
      | refl => exact hp
      | tail _ hz _ => exact hpairs (comparisons_known hz).2.1 (comparisons_known hz).2.2
    exact BoundedRecursion.exists_returns_of_acc (BoundedRecursion.acc_of_acyclic hnodes fun q _ => h q)
      fun _ _ => ⟨0, trivial⟩
  obtain ⟨n, hn⟩ := BoundedRecursion.exists_common S.comparing.Returns
    (fun hle => BoundedRecursion.returns_mono hle) hreturns
  refine ⟨n + 1, fun depth hdepth a b => PerModuleSema.sameType_of_returns ?_⟩
  by_cases hmem : (S.resolve a, S.resolve b) ∈ pairs
  · exact BoundedRecursion.returns_mono (by omega) (hn _ hmem)
  · -- Types that are not in the table have no parts.
    refine BoundedRecursion.returns_mono (m := 1) (by omega) ⟨trivial, fun q hq => ?_⟩
    exact absurd (hpairs (comparisons_known hq).1.1 (comparisons_known hq).1.2) hmem

theorem queriesReturn_of_acyclic (h : S.Acyclic) : S.QueriesReturn := by
  have hprints := (TypeState.acc_iff_acyclic (R := S.table.printing) (B := S.state) S.built.prints_known).mpr h.prints
  obtain ⟨bound, hsame⟩ := exists_sameType h.compares
  exact {
    typeToString := S.built.typeToString_iff.mpr h.prints
    stripQualifiers := fun id hid => (S.built.stripQualifiers (.refl S.state) hid).2
    sameType := fun a b _ _ => ⟨bound, hsame bound (Nat.le_refl _) a b⟩
    coercesTo := fun target source htarget _ => by
      have hacc : Acc (fun y x => Relation.TransGen S.table.Prints x y) target :=
        Subrelation.accessible (fun hxy => Relation.transGen_swap.mp hxy) (hprints target htarget).transGen
      obtain ⟨n, hn⟩ := Coercions.coercesTo_total hsame source hacc
      exact ⟨n, hn n (Nat.le_refl _)⟩
    substituteType := (S.built.substituteType_iff h.prints).mpr h.substitutes }

theorem QueriesReturn.prints (h : S.QueriesReturn) : ∀ id, ¬Relation.TransGen S.table.Prints id id :=
  S.built.typeToString_iff.mp h.typeToString

theorem QueriesReturn.substitutes (h : S.QueriesReturn) : ∀ id, ¬Relation.TransGen S.state.Substitutes id id :=
  (S.built.substituteType_iff h.prints).mp h.substituteType

/-- It is enough that parts have smaller ids. -/
theorem acyclic_of_entries
    (hprints : ∀ id ∈ List.range (S.state.size + 1), ∀ p ∈ S.table.prints id, S.table.canonical p < S.table.canonical id)
    (hsubstitutes : ∀ id ∈ List.range (S.state.size + 1), ∀ p ∈ S.state.substitutes id,
      S.table.canonical p < S.table.canonical id)
    (hcompares : ∀ x ∈ List.range (S.state.size + 1), ∀ y ∈ List.range (S.state.size + 1), ∀ q ∈ S.comparisons (x, y),
      q.1 < x) : S.Acyclic where
  prints := BoundedRecursion.not_cyclic_of_rank fun id p hp =>
    hprints id (List.mem_range.mpr (Nat.lt_succ_of_le (TypeState.known_of_prints (B := S.state) hp))) p hp
  substitutes := BoundedRecursion.not_cyclic_of_rank fun id p hp =>
    hsubstitutes id (List.mem_range.mpr (Nat.lt_succ_of_le (TypeState.known_of_substitutes hp))) p hp
  compares := BoundedRecursion.not_cyclic_of_rank fun p q hq =>
    hcompares p.1 (List.mem_range.mpr (Nat.lt_succ_of_le (comparisons_known hq).1.1)) p.2
      (List.mem_range.mpr (Nat.lt_succ_of_le (comparisons_known hq).1.2)) q hq

theorem typeToString_cyclic {id : TypeId} (hcycle : Relation.TransGen S.table.Prints id id) (depth : ℕ) :
    S.table.typeToString depth id = none := by
  by_contra hne
  have hreturns : S.table.printing.Returns depth id :=
    TypeTable.isSome_typeToString.mp (Option.isSome_iff_ne_none.mpr hne)
  exact BoundedRecursion.not_cyclic hreturns hcycle

theorem substituteType_cyclic {id : TypeId} (hid : Known id S.state) (hcycle : Relation.TransGen S.state.Substitutes id id)
    (depth : ℕ) : substituteType [] depth id S.state = none := by
  by_contra hne
  obtain ⟨⟨r, E⟩, hrun⟩ := Option.ne_none_iff_exists'.mp hne
  have hacc := (TypeState.from_substituteType S.built (by simp) depth hid S.state (.refl _) r E hrun).2.2.2
  exact BoundedRecursion.not_cyclic_of_acc hacc hcycle

/-- The first module of a compilation, with these declarations. -/
def firstModule (declarations : List TypeDeclaration) : ModuleTypes := ⟨"m", 1, 2, 6, declarations⟩

theorem built_firstModule (declarations : List TypeDeclaration) (h : ∀ decl ∈ declarations, '<' ∉ decl.name.toList) :
    (firstModule declarations).prepared.Built := by
  have herror : Known 1 primitiveTypes := show 1 ≤ primitiveTypes.size by decide +kernel
  exact ((firstModule declarations).ofDeclarations_prepared herror h).toBuilt

/-- `alias A = *A`. -/
def selfAliasTypes : List TypeDeclaration := [⟨"A", [], .alias (.pointer (.name "A"))⟩]

def selfAlias : DeclaredSema where
  table := (firstModule selfAliasTypes).prepared.table
  errorType := 1
  nullType := 3
  error_name := by decide +kernel
  null_name := by decide +kernel
  settled := by decide +kernel
  declared := by decide +kernel
  voidType := 6
  charType := 8
  void_name := by decide +kernel
  satisfiesConformance _ _ := false
  rests := (firstModule selfAliasTypes).prepared.rests
  built := built_firstModule selfAliasTypes (by decide +kernel)

/-- `struct Node { next: *Node }`. -/
def linkedNodeTypes : List TypeDeclaration := [⟨"Node", [], .struct [.pointer (.name "Node")]⟩]

def linkedNode : DeclaredSema where
  table := (firstModule linkedNodeTypes).prepared.table
  errorType := 1
  nullType := 3
  error_name := by decide +kernel
  null_name := by decide +kernel
  settled := by decide +kernel
  declared := by decide +kernel
  voidType := 6
  charType := 8
  void_name := by decide +kernel
  satisfiesConformance _ _ := false
  rests := (firstModule linkedNodeTypes).prepared.rests
  built := built_firstModule linkedNodeTypes (by decide +kernel)

/-- `struct Box<T> { *T, i32 }` and `alias Boxes = []Box`. -/
def boxesTypes : List TypeDeclaration :=
  [⟨"Box", ["T"], .struct [.pointer (.name "T"), .name "i32"]⟩, ⟨"Boxes", [], .alias (.slice (.name "Box"))⟩]

def boxes : DeclaredSema where
  table := (firstModule boxesTypes).prepared.table
  errorType := 1
  nullType := 3
  error_name := by decide +kernel
  null_name := by decide +kernel
  settled := by decide +kernel
  declared := by decide +kernel
  voidType := 6
  charType := 8
  void_name := by decide +kernel
  satisfiesConformance _ _ := false
  rests := (firstModule boxesTypes).prepared.rests
  built := built_firstModule boxesTypes (by decide +kernel)

end DeclaredSema

end Zith.Types
