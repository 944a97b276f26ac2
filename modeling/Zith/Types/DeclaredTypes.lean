import Mathlib.Data.List.ReduceOption
import Zith.Types.QueryTermination

/-! The table that sema builds of the types that a module declares. Each name gets a placeholder first, so that
    a declaration may use the names of later ones and its own; the declarations are then lowered in order.

        names ──registerNamedTypes──▶ placeholders ──lowerDeclarationTypes──▶ types, registered under the names -/

namespace Zith.Types

open Lib (Growing)

/-! ### Declarations -/

/-- Types as they are written, without arguments. -/
inductive TypeExpression
  | name (name : String)
  | pointer (inner : TypeExpression)
  | optional (inner : TypeExpression)
  | array (element : TypeExpression) (length : ℕ)
  | slice (element : TypeExpression)
  | qualified (inner : TypeExpression)

inductive TypeBody
  | alias (target : TypeExpression)
  | nominal (target : TypeExpression)
  | struct (fields : List TypeExpression)
  | union (members : List TypeExpression)

structure TypeDeclaration where
  name : String
  genericParams : List String
  body : TypeBody

/-- The kind of a placeholder. -/
def TypeBody.kind : TypeBody → TypeKind
  | .alias _ => .alias
  | .nominal _ => .alias
  | .struct _ => .struct
  | .union _ => .union

/-- A union that needs arguments. -/
def TypeDeclaration.isTemplate (decl : TypeDeclaration) : Bool :=
  match decl.body with
  | .union _ => !decl.genericParams.isEmpty
  | _ => false

/-- What the lowering of a module reads beside the table. -/
structure ModuleTypes where
  module : String
  errorType : TypeId
  invalidType : TypeId
  voidType : TypeId
  declarations : List TypeDeclaration

namespace ModuleTypes
open TypeState (intern registerNamed)
variable (M : ModuleTypes)

def findOrCreateNamed (name : String) (kind : TypeKind) : StateT TypeState Option TypeId := do
  let D ← get
  match D.table.lookupNamed name with
  | some existing => return existing
  | none =>
    let id ← intern (.name name kind) {}
    registerNamed name id
    return id

def registerNamedTypes : StateT TypeState Option PUnit :=
  M.declarations.forM fun decl => do
    let _ ← findOrCreateNamed decl.name decl.body.kind
    return ⟨⟩

/-- The type a name stands for: a parameter of the declaration that is lowered, a type that has been lowered
    before, or what is registered. -/
def lowerName (params declared : List (String × TypeId)) (name : String) : StateT TypeState Option TypeId := do
  let D ← get
  match params.lookup name with
  | some param => return param
  | none =>
    if params.isEmpty ∧ M.declarations.any fun decl => decl.name = name && decl.isTemplate then return M.errorType
    else return (declared.lookup name).getD ((D.table.lookupNamed name).getD M.errorType)

def resolve (T : TypeTable) (type : TypeId) : TypeId := PerModuleSema.resolveFrom T 16 (T.canonical type)

/-- A pointer to `void` is an error, and so is an optional of it. -/
def internUnlessVoid (entry : TypeId → Entry) (inner : TypeId) : StateT TypeState Option TypeId := do
  let D ← get
  if resolve D.table (D.table.stripQualifiers inner) = M.voidType then return M.errorType
  else intern (entry inner) {}

def lowerTypeExpr (params declared : List (String × TypeId)) : TypeExpression → StateT TypeState Option TypeId
  | .name name => M.lowerName params declared name
  | .pointer inner => do
      let inner ← lowerTypeExpr params declared inner
      M.internUnlessVoid .pointer inner
  | .optional inner => do
      let inner ← lowerTypeExpr params declared inner
      M.internUnlessVoid .optional inner
  | .array element length => do
      let element ← lowerTypeExpr params declared element
      intern (.array element length) {}
  | .slice element => do
      let element ← lowerTypeExpr params declared element
      intern (.slice element) {}
  | .qualified inner => do
      let inner ← lowerTypeExpr params declared inner
      intern (.qualified inner) {}

/-- A member of a union, unless it is not a concrete type. -/
def lowerMember (params declared : List (String × TypeId)) (type : TypeExpression) :
    StateT TypeState Option (Option TypeId) := do
  let member ← M.lowerTypeExpr params declared type
  let D ← get
  if member = M.errorType ∨ member = M.invalidType then return none
  else
    match D.table.kindOf (resolve D.table member) with
    | .void => return none
    | .unknown => return none
    | _ => return some member

def lowerBody (origin : Origin) (name : String) (params declared : List (String × TypeId)) :
    TypeBody → StateT TypeState Option TypeId
  | .alias target => do
      let target ← M.lowerTypeExpr params declared target
      intern (.alias target) {}
  | .nominal target => do
      let target ← M.lowerTypeExpr params declared target
      intern (.nominal name origin []) { target := target }
  | .struct fields => do
      let fields ← fields.mapM (M.lowerTypeExpr params declared)
      intern (.struct name fields [] origin) {}
  | .union members => do
      let members ← members.mapM (M.lowerMember params declared)
      intern (.union name origin []) { members := members.reduceOption }

/-- Lowers a declaration; `declared` are the types of those in front of it. -/
def lowerDeclaration (declared : List (String × TypeId)) (decl : TypeDeclaration × ℕ) :
    StateT TypeState Option (List (String × TypeId)) := do
  let origin : Origin := ⟨M.module, decl.2 + 1⟩
  let params ← decl.1.genericParams.zipIdx.mapM fun param => do
    let id ← intern (.genericParam origin param.2) {}
    return (param.1, id)
  let type ← M.lowerBody origin decl.1.name params declared decl.1.body
  registerNamed decl.1.name type
  return declared ++ [(decl.1.name, type)]

def prepareTypes : StateT TypeState Option (List (String × TypeId)) := do
  M.registerNamedTypes
  M.declarations.zipIdx.foldlM M.lowerDeclaration []

end ModuleTypes

/-! ### Tables of declarations -/

namespace TypeState
variable {D : TypeState}

/-- A table without enums, whose entries refer to types that are there. -/
structure OfDeclarations (D : TypeState) : Prop extends Built D where
  noEnum : ∀ id name origin args, D.table.findEntry id ≠ some (.enum name origin args)

/-- All that an entry refers to is there. -/
structure Refers (D : TypeState) (e : Entry) (rest : EntryRest) : Prop where
  printed : ∀ p ∈ e.printed, Known p D
  parts : ∀ p ∈ e.parts, Known p D
  shell : ∀ p, e.shell rest = some p → Known p D
  inside : ∀ p ∈ e.inside rest, Known p D

/-- An entry of one type. -/
theorem Refers.one {e : Entry} {rest : EntryRest} {r : TypeId} (hr : Known r D) (hprinted : ∀ p ∈ e.printed, p = r)
    (hparts : ∀ p ∈ e.parts, p = r) (hshell : ∀ p, e.shell rest = some p → p = r) (hinside : ∀ p ∈ e.inside rest, p = r) :
    Refers D e rest where
  printed p hp := hprinted p hp ▸ hr
  parts p hp := hparts p hp ▸ hr
  shell p hp := hshell p hp ▸ hr
  inside p hp := hinside p hp ▸ hr

theorem findEntry_intern {e e' : Entry} {id : TypeId} (h : (D.table.intern e).2.findEntry id = some e') :
    id = D.size + 1 ∧ e' = e ∨ id ≤ D.size ∧ D.table.findEntry id = some e' := by
  cases id with
  | zero => simp [TypeTable.findEntry] at h
  | succ i =>
    simp only [TypeTable.findEntry, TypeTable.intern] at h
    rcases Nat.lt_or_ge i D.table.entries.length with hlt | hge
    · rw [List.getElem?_append_left hlt] at h
      exact .inr ⟨hlt, h⟩
    · rw [List.getElem?_append_right hge] at h
      obtain ⟨hi, he⟩ := List.getElem?_eq_some_iff.mp h
      have hi : i = D.size := by simp only [List.length_singleton] at hi; unfold size; omega
      subst hi
      exact .inl ⟨rfl, by simpa using he.symm⟩

theorem OfDeclarations.intern (h : OfDeclarations D) {e : Entry} {rest : EntryRest} (hrefers : Refers D e rest)
    (hname : ∀ name kind, e = .name name kind → '<' ∉ name.toList) (henum : ∀ name origin args, e ≠ .enum name origin args) :
    OfDeclarations { table := (D.table.intern e).2
                     rests := Function.update D.rests (D.table.intern e).1 rest } := by
  have hsize : ∀ {p : TypeId}, p ≤ D.size → p ≤ size { table := (D.table.intern e).2
                                                       rests := Function.update D.rests (D.table.intern e).1 rest } :=
    fun hp => hp.trans (by simp [size, TypeTable.intern])
  have hrest : Function.update D.rests (D.table.intern e).1 rest (D.size + 1) = rest :=
    Function.update_self (D.table.intern e).1 rest D.rests
  have hrests : ∀ {id : TypeId}, id ≤ D.size → Function.update D.rests (D.table.intern e).1 rest id = D.rests id :=
    fun hid => Function.update_of_ne (Nat.ne_of_lt (Nat.lt_succ_of_le hid)) ..
  refine { printed := ?_, parts := ?_, shell := ?_, inside := ?_, registry := ?_, underlying := ?_, identifiers := ?_,
           noEnum := ?_ }
  · intro id e' he p hp
    rcases findEntry_intern he with ⟨rfl, rfl⟩ | ⟨-, he⟩
    · exact hsize (hrefers.printed p hp)
    · exact hsize (h.printed id e' he p hp)
  · intro id e' he p hp
    rcases findEntry_intern he with ⟨rfl, rfl⟩ | ⟨-, he⟩
    · exact hsize (hrefers.parts p hp)
    · exact hsize (h.parts id e' he p hp)
  · intro id e' he p hp
    rcases findEntry_intern he with ⟨rfl, rfl⟩ | ⟨hid, he⟩
    · exact hsize (hrefers.shell p (by simpa only [hrest] using hp))
    · exact hsize (h.shell id e' he p (by simpa only [hrests hid] using hp))
  · intro id e' he p hp
    rcases findEntry_intern he with ⟨rfl, rfl⟩ | ⟨hid, he⟩
    · exact hsize (hrefers.inside p (by simpa only [hrest] using hp))
    · exact hsize (h.inside id e' he p (by simpa only [hrests hid] using hp))
  · exact fun p hp => hsize (h.registry p hp)
  · intro id name origin args he
    rcases findEntry_intern he with ⟨rfl, heq⟩ | ⟨-, he⟩
    · exact absurd heq.symm (henum name origin args)
    · exact absurd he (h.noEnum id name origin args)
  · intro name kind hmem
    rcases List.mem_append.mp hmem with hmem | hmem
    · exact h.identifiers name kind hmem
    · exact hname name kind (List.mem_singleton.mp hmem).symm
  · intro id name origin args he
    rcases findEntry_intern he with ⟨rfl, heq⟩ | ⟨-, he⟩
    · exact henum name origin args heq.symm
    · exact h.noEnum id name origin args he

theorem OfDeclarations.registerNamed (h : OfDeclarations D) (name : String) {id : TypeId} (hid : Known id D) :
    OfDeclarations { D with table := D.table.registerNamed name id } :=
  { h with
    registry := List.forall_mem_cons.mpr ⟨hid, h.registry⟩
    underlying := fun id name origin args he => absurd he (h.noEnum id name origin args) }

/-- The states while the declarations of a module are lowered. -/
def declaring : Growing TypeState where
  inv := OfDeclarations
  later D E := D.size ≤ E.size
  refl := size_refl
  trans := size_trans

theorem declaring_intern {e : Entry} {rest : EntryRest} (hrefers : Refers D e rest)
    (hname : ∀ name kind, e = .name name kind → '<' ∉ name.toList) (henum : ∀ name origin args, e ≠ .enum name origin args) :
    declaring.From D (TypeState.intern e rest) Known := by
  intro hD r E hrun
  obtain ⟨rfl, rfl⟩ := Prod.mk.inj (Option.some.inj hrun)
  refine ⟨hD.intern hrefers hname henum, ?_, ?_⟩
  · change D.size ≤ _
    simp [size, TypeTable.intern]
  · simp [Known, size, TypeTable.intern]

theorem declaring_registerNamed (name : String) {id : TypeId} (hid : Known id D) :
    declaring.From D (TypeState.registerNamed name id) fun _ E => Known id E := by
  intro hD r E hrun
  obtain ⟨rfl, rfl⟩ := Prod.mk.inj (Option.some.inj hrun)
  exact ⟨hD.registerNamed name hid, Nat.le_refl _, hid⟩

end TypeState

namespace ModuleTypes
open TypeState
variable {M : ModuleTypes} {D : TypeState} {params declared : List (String × TypeId)}

/-- What names can stand for is there. -/
structure Ready (M : ModuleTypes) (params declared : List (String × TypeId)) (D : TypeState) : Prop where
  errorType : Known M.errorType D
  params : ∀ p ∈ params, Known p.2 D
  declared : ∀ p ∈ declared, Known p.2 D

theorem Ready.later {E : TypeState} (h : Ready M params declared D) (hle : D.size ≤ E.size) :
    Ready M params declared E :=
  ⟨h.errorType.trans hle, fun p hp => (h.params p hp).trans hle, fun p hp => (h.declared p hp).trans hle⟩

theorem from_lowerName (h : Ready M params declared D) (name : String) :
    declaring.From D (M.lowerName params declared name) Known := by
  refine .get fun hD => ?_
  split
  · next param hparam => exact .pure (h.params _ (mem_of_lookup hparam))
  · refine .ite (fun _ => .pure h.errorType) fun _ => .pure ?_
    cases hdeclared : declared.lookup name with
    | some id => exact h.declared _ (mem_of_lookup hdeclared)
    | none =>
      cases hregistered : D.table.lookupNamed name with
      | some id => exact hD.lookup hregistered
      | none => exact h.errorType

theorem from_internUnlessVoid (h : Known M.errorType D) {entry : TypeId → Entry} {inner : TypeId}
    (hintern : declaring.From D (intern (entry inner) {}) Known) : declaring.From D (M.internUnlessVoid entry inner) Known :=
  .get fun _ => .ite (fun _ => .pure h) fun _ => hintern

/-- A type made of one other. -/
theorem declaring_one {e : Entry} {rest : EntryRest} {r : TypeId} (hr : Known r D) (hprinted : ∀ p ∈ e.printed, p = r)
    (hparts : ∀ p ∈ e.parts, p = r) (hshell : ∀ p, e.shell rest = some p → p = r) (hinside : ∀ p ∈ e.inside rest, p = r)
    (hname : ∀ name kind, e ≠ .name name kind) (henum : ∀ name origin args, e ≠ .enum name origin args) :
    declaring.From D (intern e rest) Known :=
  declaring_intern (.one hr hprinted hparts hshell hinside) (fun name kind h => absurd h (hname name kind)) henum

theorem from_lowerTypeExpr : ∀ (type : TypeExpression) {D : TypeState}, Ready M params declared D →
    declaring.From D (M.lowerTypeExpr params declared type) Known
  | .name name, D, h => from_lowerName h name
  | .pointer inner, D, h =>
    (from_lowerTypeExpr inner h).bind fun r E _ hDE hr => from_internUnlessVoid (h.errorType.trans hDE)
      (declaring_one hr (by simp [Entry.printed]) (by simp [Entry.parts]) (by simp [Entry.shell])
        (by simp [Entry.inside]) (by simp) (by simp))
  | .optional inner, D, h =>
    (from_lowerTypeExpr inner h).bind fun r E _ hDE hr => from_internUnlessVoid (h.errorType.trans hDE)
      (declaring_one hr (by simp [Entry.printed]) (by simp [Entry.parts]) (by simp [Entry.shell])
        (by simp [Entry.inside]) (by simp) (by simp))
  | .array element length, D, h =>
    (from_lowerTypeExpr element h).bind fun r E _ _ hr =>
      declaring_one hr (by simp [Entry.printed]) (by simp [Entry.parts]) (by simp [Entry.shell])
        (by simp [Entry.inside]) (by simp) (by simp)
  | .slice element, D, h =>
    (from_lowerTypeExpr element h).bind fun r E _ _ hr =>
      declaring_one hr (by simp [Entry.printed]) (by simp [Entry.parts]) (by simp [Entry.shell])
        (by simp [Entry.inside]) (by simp) (by simp)
  | .qualified inner, D, h =>
    (from_lowerTypeExpr inner h).bind fun r E _ _ hr =>
      declaring_one hr (by simp [Entry.printed]) (by simp [Entry.parts]) (by simp [Entry.shell])
        (by simp [Entry.inside]) (by simp) (by simp)

theorem from_lowerMember (h : Ready M params declared D) (type : TypeExpression) :
    declaring.From D (M.lowerMember params declared type) fun r E => ∀ p ∈ r, Known p E := by
  refine (from_lowerTypeExpr type h).bind fun r E _ _ hr => .get fun _ => .ite (fun _ => .pure (by simp)) fun _ => ?_
  split
  · exact .pure (by simp)
  · exact .pure (by simp)
  · exact .pure (by simpa using hr)

theorem from_lowerBody (h : Ready M params declared D) (origin : Origin) (name : String) (body : TypeBody) :
    declaring.From D (M.lowerBody origin name params declared body) Known := by
  cases body with
  | «alias» target =>
    exact (from_lowerTypeExpr target h).bind fun r E _ _ hr =>
      declaring_one hr (by simp [Entry.printed]) (by simp [Entry.parts]) (by simp [Entry.shell])
        (by simp [Entry.inside]) (by simp) (by simp)
  | nominal target =>
    exact (from_lowerTypeExpr target h).bind fun r E _ _ hr =>
      declaring_one hr (by simp [Entry.printed]) (by simp [Entry.parts]) (by simp [Entry.shell])
        (by simp [Entry.inside]) (by simp) (by simp)
  | struct fields =>
    have hfields := Growing.From.mapM (G := declaring) (R := fun (_ : TypeExpression) r E => Known r E)
      (fun _ _ _ _ hle hr => hr.trans hle) fun field (_ : field ∈ fields) E _ hDE =>
        from_lowerTypeExpr field (h.later (E := E) hDE)
    refine hfields.bind fun rs E _ _ hrs => declaring_intern ⟨by simp [Entry.printed], by simp [Entry.parts],
      by simp [Entry.shell], fun r hr => ?_⟩ (by simp) (by simp)
    obtain ⟨-, -, hknown⟩ := Lib.exists_of_forall₂ hrs r hr
    exact hknown
  | union members =>
    have hmembers := Growing.From.mapM (G := declaring) (R := fun (_ : TypeExpression) r E => ∀ p ∈ r, Known p E)
      (fun _ _ _ _ hle hr p hp => (hr p hp).trans hle) fun member (_ : member ∈ members) E _ hDE =>
        from_lowerMember (h.later (E := E) hDE) member
    refine hmembers.bind fun rs E _ _ hrs => declaring_intern ⟨by simp [Entry.printed], by simp [Entry.parts],
      by simp [Entry.shell], fun r hr => ?_⟩ (by simp) (by simp)
    obtain ⟨-, -, hknown⟩ := Lib.exists_of_forall₂ hrs (some r) (List.reduceOption_mem_iff.mp hr)
    exact hknown r rfl

theorem from_lowerDeclaration (h : Ready M [] declared D) (decl : TypeDeclaration × ℕ) :
    declaring.From D (M.lowerDeclaration declared decl) fun declared E => Ready M [] declared E := by
  have hparams : ∀ (origin : Origin), declaring.From D (decl.1.genericParams.zipIdx.mapM fun param =>
      intern (.genericParam origin param.2) {} >>= fun id => (pure (param.1, id) : StateT TypeState Option _))
        fun params E => ∀ p ∈ params, Known p.2 E := by
    intro origin
    refine (Growing.From.mapM (R := fun _ p E => Known p.2 E) (fun _ _ _ _ hle hr => hr.trans hle) fun param _ E _ _ =>
      ?_).mono fun params E _ _ hall p hp => ?_
    · refine (declaring_intern ?_ (by simp) (by simp)).bind fun id F _ _ hid => .pure hid
      constructor <;> simp [Entry.printed, Entry.parts, Entry.shell, Entry.inside]
    · obtain ⟨-, -, hknown⟩ := Lib.exists_of_forall₂ hall p hp
      exact hknown
  refine (hparams _).bind fun params E _ hDE hps => ?_
  refine (from_lowerBody ⟨h.errorType.trans hDE, hps, (h.later hDE).declared⟩ _ _ _).bind fun type F _ hEF htype => ?_
  refine (declaring_registerNamed _ htype).bind fun _ K _ hFK htype => .pure ?_
  have hlater := h.later (hDE.trans (hEF.trans hFK))
  exact ⟨hlater.errorType, by simp, List.forall_mem_append.mpr ⟨hlater.declared, List.forall_mem_singleton.mpr htype⟩⟩

theorem from_lowerDeclarations {l : List (TypeDeclaration × ℕ)} (h : Ready M [] declared D) :
    declaring.From D (l.foldlM M.lowerDeclaration declared) fun declared E => Ready M [] declared E := by
  induction l generalizing declared D with
  | nil => exact .pure h
  | cons decl l ih =>
    rw [List.foldlM_cons]
    exact (from_lowerDeclaration h decl).bind fun _ _ _ _ hdeclared => ih hdeclared

theorem from_registerNamedTypes (hidentifiers : ∀ decl ∈ M.declarations, '<' ∉ decl.name.toList) :
    declaring.From D M.registerNamedTypes fun _ _ => True := by
  refine Growing.From.forM fun decl hdecl E _ _ => ?_
  refine Growing.From.bind (Q := fun _ _ => True) (.get fun _ => ?_) fun _ _ _ _ _ => .pure trivial
  split
  · exact .pure trivial
  · refine (declaring_intern (by constructor <;> simp [Entry.printed, Entry.parts, Entry.shell, Entry.inside]) ?_
      (by simp)).bind fun id F _ _ hid => ?_
    · rintro name kind heq
      obtain ⟨rfl, -⟩ := Entry.name.inj heq
      exact hidentifiers decl hdecl
    · exact (declaring_registerNamed _ hid).bind fun _ _ _ _ _ => .pure trivial

/-- What is declared with identifiers for names makes a table as the queries find it. -/
theorem built_prepareTypes (hD : OfDeclarations D) (herror : Known M.errorType D)
    (hidentifiers : ∀ decl ∈ M.declarations, '<' ∉ decl.name.toList) {types : List (String × TypeId)} {E : TypeState}
    (hrun : M.prepareTypes D = some (types, E)) : OfDeclarations E :=
  ((from_registerNamedTypes hidentifiers).bind fun _ _ _ hlater _ =>
    from_lowerDeclarations ⟨herror.trans hlater, by simp, by simp⟩) hD types E hrun |>.1

end ModuleTypes

/-! ### The types of every module -/

/-- An entry that refers to no other. -/
def Entry.isPrimitive : Entry → Bool
  | .name n _ => '<' ∉ n.toList
  | .invalid => true
  | .integer _ _ => true
  | .float _ => true
  | .opaqueTagged => true
  | .struct _ [] [] _ => true
  | _ => false

theorem Entry.refersToNone {e : Entry} (h : e.isPrimitive = true) :
    e.printed = [] ∧ e.parts = [] ∧ e.shell {} = none ∧ e.inside {} = [] := by
  cases e with
  | struct name fields args origin =>
    cases fields with
    | nil =>
      cases args with
      | nil => exact ⟨rfl, rfl, rfl, rfl⟩
      | cons => exact absurd h (by simp [isPrimitive])
    | cons => exact absurd h (by simp [isPrimitive])
  | name | invalid | integer | float | opaqueTagged => exact ⟨rfl, rfl, rfl, rfl⟩
  | _ => exact absurd h (by simp [isPrimitive])

theorem TypeState.ofDeclarations_primitive {T : TypeTable} (hentries : ∀ e ∈ T.entries, e.isPrimitive = true)
    (hregistry : ∀ p ∈ T.registry, p.2 ≤ T.entries.length) : OfDeclarations ⟨T, fun _ => {}⟩ := by
  have hentry : ∀ {id e}, T.findEntry id = some e → e.isPrimitive = true := fun he =>
    hentries _ (TypeTable.findEntry_mem he)
  have henum : ∀ id name origin args, T.findEntry id ≠ some (.enum name origin args) := by
    intro id name origin args he
    exact absurd (hentry he) (by simp [Entry.isPrimitive])
  refine { printed := ?_, parts := ?_, shell := ?_, inside := ?_, registry := hregistry,
           underlying := fun id name origin args he => absurd he (henum id name origin args), identifiers := ?_,
           noEnum := henum }
  · intro id e he p hp
    simp [(Entry.refersToNone (hentry he)).1] at hp
  · intro id e he p hp
    simp [(Entry.refersToNone (hentry he)).2.1] at hp
  · intro id e he p hp
    simp [(Entry.refersToNone (hentry he)).2.2.1] at hp
  · intro id e he p hp
    simp [(Entry.refersToNone (hentry he)).2.2.2] at hp
  · intro name kind hmem
    simpa [Entry.isPrimitive] using hentries _ hmem

/-- The table of a compilation before its first module is lowered. -/
def primitiveTypes : TypeState := ⟨(TypeTable.registerPrimitiveTypes ⟨[], []⟩).2, fun _ => {}⟩

theorem ofDeclarations_primitiveTypes : primitiveTypes.OfDeclarations :=
  TypeState.ofDeclarations_primitive (by decide +kernel) (by decide +kernel)

/-- The table after the declarations of a first module. -/
def ModuleTypes.prepared (M : ModuleTypes) : TypeState :=
  ((M.prepareTypes primitiveTypes).map Prod.snd).getD primitiveTypes

theorem ModuleTypes.ofDeclarations_prepared (M : ModuleTypes) (herror : TypeState.Known M.errorType primitiveTypes)
    (hidentifiers : ∀ decl ∈ M.declarations, '<' ∉ decl.name.toList) : M.prepared.OfDeclarations := by
  unfold ModuleTypes.prepared
  cases hrun : M.prepareTypes primitiveTypes with
  | none => exact ofDeclarations_primitiveTypes
  | some result => exact built_prepareTypes ofDeclarations_primitiveTypes herror hidentifiers hrun

end Zith.Types
