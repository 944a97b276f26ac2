import Zith.Frontend.Snapshot

/-! `checkOwnershipCoercion`: the arguments of a call that are annotated `lend` or `view`. A place that is borrowed is
    put down under a number, the local of a plain name and the expression of any other place, and a number that was put
    down before in the same call must not be lent again. -/

namespace Zith.Sema
open Zith.Frontend

/-- What sema knows of a module and its types. A type that is not qualified, or is no pointer, has nothing inside;
    `resolvedLocal` is 0 where no local is. -/
structure BorrowContext where
  expressions : List Expression
  canonical : ℕ → ℕ
  qualified : ℕ → Option (ℕ × OwnershipKind)
  pointer : ℕ → Option ℕ
  typeOfExpr : ExprId → ℕ
  resolvedLocal : ExprId → LocalId

inductive BorrowFault where
  | mismatch | missing | conflict
  deriving DecidableEq

structure BorrowError where
  fault : BorrowFault
  span : TextSpan
  message : Text
  deriving DecidableEq

/-- A number that is put down, and how it is borrowed. -/
abbrev SeenRoot := ExprId × OwnershipKind

def lendOrView (o : OwnershipKind) : OwnershipKind := if o = .lend then .lend else .view

def ownershipText (o : OwnershipKind) : Text := text (if o = .lend then "lend" else "view")

def isPlaceExpr (e : Expression) : Bool := e.kind == .name || e.kind == .field || e.kind == .arrow || e.kind == .index

namespace BorrowContext

variable (B : BorrowContext)

/-- The type behind the qualifiers of a parameter type. -/
def behindQualifiers : ℕ → ℕ → ℕ
  | 0, type => type
  | guard + 1, type =>
    match B.qualified (B.canonical type) with
    | some (inner, _) => behindQualifiers guard inner
    | none => B.canonical type

/-- The type behind the qualifiers of an argument type. -/
def behindSourceQualifiers : ℕ → ℕ → ℕ
  | 0, type => type
  | guard + 1, type =>
    match B.qualified type with
    | some (inner, _) => behindSourceQualifiers guard inner
    | none => type

def pointeeOwnership (type : ℕ) : Option OwnershipKind :=
  (B.pointer type).bind fun pointee => (B.qualified (B.canonical pointee)).map Prod.snd

def isBorrowParamType (type : ℕ) : Bool :=
  type != 0 && (B.pointeeOwnership (B.behindQualifiers 8 type)).any fun o => o == .lend || o == .view

/-- The ownership of an argument without annotation. -/
def sourceOwnership (inner : ExprId) : OwnershipKind :=
  let type := B.typeOfExpr inner
  if type = 0 then .default
  else
    let initial := ((B.qualified (B.canonical type)).map Prod.snd).getD .default
    let cursor := B.behindSourceQualifiers 8 (B.canonical type)
    match B.pointer cursor with
    | some pointee => ((B.qualified (B.canonical pointee)).map Prod.snd).getD initial
    | none => ((B.qualified cursor).map Prod.snd).getD initial

/-- `conflict_root`. -/
def conflictRoot (inner : ExprId) (e : Expression) : ExprId :=
  if e.kind = .name ∧ B.resolvedLocal inner ≠ 0 then B.resolvedLocal inner else inner

/-- The first part of the check: what an argument puts down for a parameter of a borrow type. -/
def borrowOf (arg : ExprId) (paramType : ℕ) : Except BorrowError (Option SeenRoot) :=
  match entry B.expressions arg with
  | none => .ok none
  | some annotated =>
    if !B.isBorrowParamType paramType then .ok none
    else
      let isAnnotated := annotated.kind == .ownershipCoerce && !annotated.operands.isEmpty
      let inner := if isAnnotated then annotated.operands.head?.getD 0 else arg
      match entry B.expressions inner with
      | none => .ok none
      | some innerExpr =>
        let target := (B.pointeeOwnership (B.behindQualifiers 8 paramType)).getD .default
        let source := if isAnnotated then annotated.ownership else B.sourceOwnership inner
        let alreadyBorrow := source == .lend || source == .view
        if isAnnotated && source != target then
          .error ⟨.mismatch, annotated.span, text "call argument annotation mismatch: parameter expects '" ++
            ownershipText target ++ text "', call site wrote '" ++ ownershipText source ++ text "'"⟩
        else if !isAnnotated && innerExpr.kind == .name && !alreadyBorrow then
          .error ⟨.missing, innerExpr.span, text "call to '" ++ innerExpr.text ++ text "' needs an explicit '" ++
            ownershipText target ++ text "' annotation for this borrow parameter"⟩
        else if !isAnnotated || !isPlaceExpr innerExpr then .ok none
        else .ok (some (B.conflictRoot inner innerExpr, lendOrView source))

end BorrowContext

/-- Two of what is put down of which one is lent. -/
def clash (b seen : SeenRoot) : Bool :=
  seen.1 == b.1 && ((b.2 == .lend && seen.2 == .lend) || (b.2 == .lend && seen.2 == .view) ||
    (b.2 == .view && seen.2 == .lend))

namespace BorrowContext

variable (B : BorrowContext) (callSpan : TextSpan)

/-- `checkOwnershipCoercion`: the error, or `seen_roots` after it. -/
def checkOwnershipCoercion (seen : List SeenRoot) (arg : ExprId) (paramType : ℕ) : Except BorrowError (List SeenRoot) :=
  match B.borrowOf arg paramType with
  | .error e => .error e
  | .ok none => .ok seen
  | .ok (some b) =>
    if seen.any (clash b) then
      .error ⟨.conflict, callSpan, text "the same binding cannot be borrowed more than once in this call"⟩
    else .ok (seen ++ [b])

/-- The errors of one loop over arguments. -/
def checkArguments : List (ExprId × ℕ) → List SeenRoot → List BorrowError
  | [], _ => []
  | (arg, paramType) :: args, seen =>
    match B.checkOwnershipCoercion callSpan seen arg paramType with
    | .ok seen' => checkArguments args seen'
    | .error e => e :: checkArguments args seen

end BorrowContext

/-- The loop a call checks an argument in: the one over the fixed parameters, the one over the collected tail, and none
    for the arguments behind the parameters of a C variadic function. -/
inductive ArgumentLoop where
  | fixed | tail | none
  deriving DecidableEq

structure CallArgument where
  expr : ExprId
  loop : ArgumentLoop
  paramType : ℕ := 0
  deriving DecidableEq

structure BorrowCall where
  span : TextSpan
  arguments : List CallArgument

def BorrowCall.loop (call : BorrowCall) (l : ArgumentLoop) : List (ExprId × ℕ) :=
  (call.arguments.filter fun a => a.loop = l).map fun a => (a.expr, a.paramType)

def BorrowContext.callErrors (B : BorrowContext) (call : BorrowCall) : List BorrowError :=
  B.checkArguments call.span (call.loop .fixed) [] ++ B.checkArguments call.span (call.loop .tail) []

end Zith.Sema

/-! Borrowed places that overlap. A place is a local with field, arrow and index steps behind it; the check of a call
    sees the local of a plain name and nothing of any other place. -/

namespace Zith.Sema
open Zith.Frontend

/-- An index is a constant or is not known. -/
inductive PlaceStep where
  | field (name : Text)
  | arrow (name : Text)
  | index (constant : Option ℤ)

/-- Two steps from one place that can lead to one place. -/
def PlaceStep.Meets : PlaceStep → PlaceStep → Prop
  | .index (some c), .index (some d) => c = d
  | .index _, .index _ => True
  | s, t => s = t

structure Place where
  root : LocalId
  steps : List PlaceStep := []
  viaPointer : Bool := false

/-- A place overlaps itself, its prefixes and its extensions. -/
def Place.Overlaps (p q : Place) : Prop := p.root = q.root ∧ ∀ s ∈ p.steps.zip q.steps, s.1.Meets s.2

def BorrowContext.isPointer (B : BorrowContext) (id : ExprId) : Bool :=
  (B.pointer (B.behindQualifiers 8 (B.typeOfExpr id))).isSome

section
variable (B : BorrowContext) (constant : ExprId → Option ℤ)

/-- The place that an expression stands for. -/
inductive IsPlace : ExprId → Place → Prop
  | name {id : ExprId} {e : Expression} (he : entry B.expressions id = some e) (hkind : e.kind = .name)
      (hlocal : B.resolvedLocal id ≠ 0) : IsPlace id { root := B.resolvedLocal id }
  | field {id base : ExprId} {e : Expression} {p : Place} (he : entry B.expressions id = some e)
      (hkind : e.kind = .field) (hbase : e.operands.head? = some base) (hp : IsPlace base p) :
      IsPlace id ⟨p.root, p.steps ++ [.field e.text], p.viaPointer || B.isPointer base⟩
  | arrow {id base : ExprId} {e : Expression} {p : Place} (he : entry B.expressions id = some e)
      (hkind : e.kind = .arrow) (hbase : e.operands.head? = some base) (hp : IsPlace base p) :
      IsPlace id ⟨p.root, p.steps ++ [.arrow e.text], true⟩
  | index {id base i : ExprId} {rest : List ExprId} {e : Expression} {p : Place}
      (he : entry B.expressions id = some e) (hkind : e.kind = .index) (hoperands : e.operands = base :: i :: rest)
      (hp : IsPlace base p) :
      IsPlace id ⟨p.root, p.steps ++ [.index (constant i)], p.viaPointer || B.isPointer base⟩

/-- An argument with an annotation on a place. -/
structure Borrowed (arg : ExprId) (o : OwnershipKind) (inner : ExprId) (p : Place) : Prop where
  annotated : ∃ e, entry B.expressions arg = some e ∧ e.kind = .ownershipCoerce ∧ e.operands.head? = some inner ∧
    e.ownership = o
  borrow : o = .lend ∨ o = .view
  place : IsPlace B constant inner p

def IsName (inner : ExprId) : Prop := ∃ e, entry B.expressions inner = some e ∧ e.kind = .name

/-- No two borrowed places overlap when one of them is lent. -/
def Exclusive (call : BorrowCall) : Prop :=
  call.arguments.Pairwise fun a b => ∀ o o' inner inner' p q, Borrowed B constant a.expr o inner p →
    Borrowed B constant b.expr o' inner' q → (o = .lend ∨ o' = .lend) → ¬p.Overlaps q

def RejectsAsConflict (span : TextSpan) (a b : CallArgument) : Prop :=
  ∃ seen e, B.checkOwnershipCoercion span [] a.expr a.paramType = .ok seen ∧
    B.checkOwnershipCoercion span seen b.expr b.paramType = .error e ∧ e.fault = .conflict

/-- Two arguments that are checked in one loop. -/
def Together (a b : CallArgument) : Prop := a.loop = b.loop ∧ a.loop ≠ .none

/-- Places of different locals, neither of them behind a pointer, are not taken for one. -/
def Fair (call : BorrowCall) : Prop :=
  call.arguments.Pairwise fun a b => Together a b → ∀ o o' inner inner' p q, Borrowed B constant a.expr o inner p →
    Borrowed B constant b.expr o' inner' q → p.root ≠ q.root → p.viaPointer = false → q.viaPointer = false →
    ¬RejectsAsConflict B call.span a b

/-- An argument has a wrong annotation or none, or two of a loop put down one number of which one is lent. -/
def Refused (call : BorrowCall) : Prop :=
  (∃ a ∈ call.arguments, a.loop ≠ .none ∧ ∃ e, B.borrowOf a.expr a.paramType = .error e) ∨
  ¬call.arguments.Pairwise fun a b => Together a b → ∀ x y, B.borrowOf a.expr a.paramType = .ok (some x) →
    B.borrowOf b.expr b.paramType = .ok (some y) → clash y x = false

/-- Parameters that take what the arguments are annotated with. -/
def Matches (o : OwnershipKind) (paramType : ℕ) : Prop :=
  B.isBorrowParamType paramType = true ∧ (B.pointeeOwnership (B.behindQualifiers 8 paramType)).getD .default = o

/-- The places of a call that overlap are plain names checked together, unless the call is refused; and the local of a
    plain name has not the number of the expression of another place. -/
structure Distinguished (call : BorrowCall) : Prop where
  overlaps : Refused B call ∨ call.arguments.Pairwise fun a b => ∀ o o' inner inner' p q,
    Borrowed B constant a.expr o inner p → Borrowed B constant b.expr o' inner' q → (o = .lend ∨ o' = .lend) →
    p.Overlaps q → Together a b ∧ IsName B inner ∧ IsName B inner' ∧ B.isBorrowParamType a.paramType = true ∧
      B.isBorrowParamType b.paramType = true
  numbers : call.arguments.Pairwise fun a b => Together a b → ∀ o o' inner inner' p q,
    Borrowed B constant a.expr o inner p → Borrowed B constant b.expr o' inner' q → Matches B o a.paramType →
    Matches B o' b.paramType → (o = .lend ∨ o' = .lend) → p.root ≠ q.root → p.viaPointer = false →
    q.viaPointer = false → (IsName B inner → ¬IsName B inner' → p.root ≠ inner') ∧
      (¬IsName B inner → IsName B inner' → q.root ≠ inner)

end

/-! ### What a call is checked for -/

section
variable {B : BorrowContext} {span : TextSpan}

theorem checkArguments_eq_nil_iff : ∀ {args : List (ExprId × ℕ)} {seen : List SeenRoot},
    B.checkArguments span args seen = [] ↔ (∀ a ∈ args, ∀ e, B.borrowOf a.1 a.2 ≠ .error e) ∧
      (∀ a ∈ args, ∀ y, B.borrowOf a.1 a.2 = .ok (some y) → ∀ x ∈ seen, clash y x = false) ∧
      args.Pairwise fun a b => ∀ x y, B.borrowOf a.1 a.2 = .ok (some x) → B.borrowOf b.1 b.2 = .ok (some y) →
        clash y x = false := by
  intro args
  induction args with
  | nil => simp [BorrowContext.checkArguments]
  | cons a args ih =>
    intro seen
    obtain ⟨arg, paramType⟩ := a
    rw [BorrowContext.checkArguments, BorrowContext.checkOwnershipCoercion]
    rcases hborrow : B.borrowOf arg paramType with e | - | b
    · simp [hborrow]
    · simp [hborrow, ih]
    · dsimp only
      by_cases hany : seen.any (clash b) = true
      · rw [if_pos hany]
        obtain ⟨x, hx, hclash⟩ := List.any_eq_true.mp hany
        refine iff_of_false (by simp) fun h => ?_
        rw [h.2.1 (arg, paramType) (by simp) b hborrow x hx] at hclash
        cases hclash
      · rw [if_neg hany]
        have hnone : ∀ x ∈ seen, clash b x = false := by simpa using hany
        simp only [ih, List.mem_append, List.mem_singleton, List.pairwise_cons, List.forall_mem_cons, hborrow]
        constructor
        · rintro ⟨hok, hseen, hpairs⟩
          refine ⟨⟨by simp, hok⟩, ⟨fun y hy => ?_, fun a ha y hy x hx => hseen a ha y hy x (Or.inl hx)⟩, ?_, hpairs⟩
          · cases hy
            exact hnone
          · intro a ha x y hx hy
            cases hx
            exact hseen a ha y hy b (Or.inr rfl)
        · rintro ⟨⟨-, hok⟩, ⟨-, hseen⟩, hfirst, hpairs⟩
          refine ⟨hok, fun a ha y hy x hx => ?_, hpairs⟩
          rcases hx with hx | rfl
          · exact hseen a ha y hy x hx
          · exact hfirst a ha x y rfl hy

theorem loop_eq_nil_iff (call : BorrowCall) (l : ArgumentLoop) : B.checkArguments call.span (call.loop l) [] = [] ↔
    (∀ a ∈ call.arguments, a.loop = l → ∀ e, B.borrowOf a.expr a.paramType ≠ .error e) ∧
      call.arguments.Pairwise fun a b => a.loop = l → b.loop = l → ∀ x y, B.borrowOf a.expr a.paramType = .ok (some x) →
        B.borrowOf b.expr b.paramType = .ok (some y) → clash y x = false := by
  rw [checkArguments_eq_nil_iff, BorrowCall.loop, List.pairwise_map, List.pairwise_filter]
  simp only [List.mem_map, List.mem_filter, decide_eq_true_eq, List.not_mem_nil, false_implies, implies_true, true_and]
  refine and_congr_left fun _ => ⟨?_, ?_⟩
  · exact fun h a ha hl => h _ ⟨a, ⟨ha, hl⟩, rfl⟩
  · rintro h - ⟨a, ⟨ha, hl⟩, rfl⟩
    exact h a ha hl

/-- There is no error just when the call is not refused. -/
theorem callErrors_eq_nil_iff {call : BorrowCall} : B.callErrors call = [] ↔ ¬Refused B call := by
  rw [BorrowContext.callErrors, List.append_eq_nil_iff, loop_eq_nil_iff, loop_eq_nil_iff, Refused, not_or, not_not]
  constructor
  · rintro ⟨⟨hok, hpairs⟩, hok', hpairs'⟩
    refine ⟨?_, (hpairs.and hpairs').imp ?_⟩
    · rintro ⟨a, ha, hloop, e, he⟩
      rcases hl : a.loop
      · exact hok a ha hl e he
      · exact hok' a ha hl e he
      · exact hloop hl
    · rintro a b ⟨hfixed, htail⟩ ⟨hloop, hchecked⟩
      rcases hl : a.loop
      · exact hfixed hl (hloop ▸ hl)
      · exact htail hl (hloop ▸ hl)
      · exact absurd hl hchecked
  · rintro ⟨hok, hpairs⟩
    have hchecked : ∀ {l : ArgumentLoop} {a : CallArgument}, l ≠ .none → a.loop = l → a.loop ≠ .none :=
      fun hl ha => ha ▸ hl
    refine ⟨⟨fun a ha hl e he => hok ⟨a, ha, hchecked (by decide) hl, e, he⟩, hpairs.imp ?_⟩,
      fun a ha hl e he => hok ⟨a, ha, hchecked (by decide) hl, e, he⟩, hpairs.imp ?_⟩
    · exact fun h ha hb => h ⟨ha.trans hb.symm, hchecked (by decide) ha⟩
    · exact fun h ha hb => h ⟨ha.trans hb.symm, hchecked (by decide) ha⟩

theorem borrowOf_fault {arg : ExprId} {paramType : ℕ} {e : BorrowError} (h : B.borrowOf arg paramType = .error e) :
    e.fault ≠ .conflict := by
  rw [BorrowContext.borrowOf] at h
  dsimp only at h
  split at h
  · cases h
  · split at h
    · cases h
    · split at h
      · cases h
      · split_ifs at h <;> cases h <;> exact nofun

theorem rejectsAsConflict_iff {a b : CallArgument} : RejectsAsConflict B span a b ↔
    ∃ x y, B.borrowOf a.expr a.paramType = .ok (some x) ∧ B.borrowOf b.expr b.paramType = .ok (some y) ∧
      clash y x = true := by
  constructor
  · rintro ⟨seen, e, ha, hb, hfault⟩
    rw [BorrowContext.checkOwnershipCoercion] at ha hb
    rcases hborrow : B.borrowOf b.expr b.paramType with e' | - | y
    · rw [hborrow] at hb
      cases hb
      exact absurd hfault (borrowOf_fault hborrow)
    · rw [hborrow] at hb
      cases hb
    · rw [hborrow] at hb
      rcases hborrow' : B.borrowOf a.expr a.paramType with e' | - | x
      · rw [hborrow'] at ha
        cases ha
      · rw [hborrow'] at ha
        cases ha
        simp at hb
      · rw [hborrow'] at ha
        simp only [List.any_nil, Bool.false_eq_true, if_false, List.nil_append, Except.ok.injEq] at ha
        subst ha
        refine ⟨x, y, rfl, rfl, ?_⟩
        by_contra hclash
        simp [hclash] at hb
  · rintro ⟨x, y, ha, hb, hclash⟩
    refine ⟨[x], ⟨.conflict, span, text "the same binding cannot be borrowed more than once in this call"⟩, ?_, ?_, rfl⟩
    · rw [BorrowContext.checkOwnershipCoercion, ha]
      rfl
    · rw [BorrowContext.checkOwnershipCoercion, hb]
      simp [hclash]

end

/-! ### What a borrowed place puts down -/

section
variable {B : BorrowContext} {constant : ExprId → Option ℤ} {arg inner : ExprId} {o : OwnershipKind} {p : Place}
  {paramType : ℕ}

theorem IsPlace.isPlaceExpr (h : IsPlace B constant inner p) :
    ∃ e, entry B.expressions inner = some e ∧ Sema.isPlaceExpr e = true := by
  cases h with
  | name he hkind => exact ⟨_, he, by simp [Sema.isPlaceExpr, hkind]⟩
  | field he hkind => exact ⟨_, he, by simp [Sema.isPlaceExpr, hkind]⟩
  | arrow he hkind => exact ⟨_, he, by simp [Sema.isPlaceExpr, hkind]⟩
  | index he hkind => exact ⟨_, he, by simp [Sema.isPlaceExpr, hkind]⟩

/-- A plain name is put down as its local, any other place as its expression. -/
theorem IsPlace.conflictRoot (h : IsPlace B constant inner p) {e : Expression} (he : entry B.expressions inner = some e) :
    (IsName B inner → B.conflictRoot inner e = p.root) ∧ (¬IsName B inner → B.conflictRoot inner e = inner) := by
  constructor
  · rintro ⟨e', he', hname⟩
    obtain rfl := Option.some.inj (he'.symm.trans he)
    rw [BorrowContext.conflictRoot]
    cases h with
    | name he'' hkind hlocal => rw [if_pos ⟨hname, hlocal⟩]
    | field he'' hkind =>
      obtain rfl := Option.some.inj (he''.symm.trans he)
      rw [hkind] at hname
      cases hname
    | arrow he'' hkind =>
      obtain rfl := Option.some.inj (he''.symm.trans he)
      rw [hkind] at hname
      cases hname
    | index he'' hkind =>
      obtain rfl := Option.some.inj (he''.symm.trans he)
      rw [hkind] at hname
      cases hname
  · intro hname
    exact if_neg fun h => hname ⟨e, he, h.1⟩

theorem IsPlace.unique {q : Place} (h : IsPlace B constant inner p) (h' : IsPlace B constant inner q) : p = q := by
  induction h generalizing q with
  | name he hkind hlocal =>
    cases h' with
    | name => rfl
    | field he' hkind' | arrow he' hkind' | index he' hkind' =>
      obtain rfl := Option.some.inj (he'.symm.trans he)
      rw [hkind] at hkind'
      cases hkind'
  | field he hkind hbase hp ih =>
    cases h' with
    | field he' hkind' hbase' hp' =>
      obtain rfl := Option.some.inj (he'.symm.trans he)
      obtain rfl := Option.some.inj (hbase'.symm.trans hbase)
      rw [ih hp']
    | name he' hkind' | arrow he' hkind' | index he' hkind' =>
      obtain rfl := Option.some.inj (he'.symm.trans he)
      rw [hkind] at hkind'
      cases hkind'
  | arrow he hkind hbase hp ih =>
    cases h' with
    | arrow he' hkind' hbase' hp' =>
      obtain rfl := Option.some.inj (he'.symm.trans he)
      obtain rfl := Option.some.inj (hbase'.symm.trans hbase)
      rw [ih hp']
    | name he' hkind' | field he' hkind' | index he' hkind' =>
      obtain rfl := Option.some.inj (he'.symm.trans he)
      rw [hkind] at hkind'
      cases hkind'
  | index he hkind hoperands hp ih =>
    cases h' with
    | index he' hkind' hoperands' hp' =>
      obtain rfl := Option.some.inj (he'.symm.trans he)
      rw [hoperands] at hoperands'
      cases hoperands'
      rw [ih hp']
    | name he' hkind' | field he' hkind' | arrow he' hkind' =>
      obtain rfl := Option.some.inj (he'.symm.trans he)
      rw [hkind] at hkind'
      cases hkind'

/-- What becomes of a borrowed place: the parameter takes no borrow, or takes the annotation, or takes another one. -/
theorem Borrowed.cases (h : Borrowed B constant arg o inner p) (paramType : ℕ) :
    ∃ e, entry B.expressions inner = some e ∧
      (B.isBorrowParamType paramType = false ∧ B.borrowOf arg paramType = .ok none ∨
        Matches B o paramType ∧ B.borrowOf arg paramType = .ok (some (B.conflictRoot inner e, o)) ∨
        ¬Matches B o paramType ∧ ∃ err, B.borrowOf arg paramType = .error err) := by
  obtain ⟨⟨annotated, hannotated, hkind, hinner, howner⟩, hborrow, hplace⟩ := h
  obtain ⟨e, he, hexpr⟩ := hplace.isPlaceExpr
  have hoperands : annotated.operands.isEmpty = false := by
    cases hops : annotated.operands with
    | nil => simp [hops] at hinner
    | cons => rfl
  have hview : lendOrView o = o := by
    rcases hborrow with rfl | rfl <;> rfl
  refine ⟨e, he, ?_⟩
  rw [BorrowContext.borrowOf, hannotated]
  rcases hparam : B.isBorrowParamType paramType
  · exact Or.inl ⟨rfl, by simp⟩
  · rcases eq_or_ne o ((B.pointeeOwnership (B.behindQualifiers 8 paramType)).getD .default) with htarget | htarget
    · refine Or.inr (Or.inl ⟨⟨hparam, htarget.symm⟩, ?_⟩)
      simp [hkind, hoperands, hinner, he, howner, ← htarget, hexpr, hview]
    · refine Or.inr (Or.inr ⟨fun hm => htarget hm.2.symm, ?_⟩)
      simp [hkind, hoperands, hinner, he, howner, htarget]

/-- The number that a borrowed place is put down under. -/
def Numbered (B : BorrowContext) (inner : ExprId) (p : Place) (n : ExprId) : Prop :=
  (IsName B inner → n = p.root) ∧ (¬IsName B inner → n = inner)

theorem Borrowed.puts (h : Borrowed B constant arg o inner p) {x : SeenRoot}
    (hx : B.borrowOf arg paramType = .ok (some x)) : Matches B o paramType ∧ Numbered B inner p x.1 ∧ x.2 = o := by
  obtain ⟨e, he, ⟨-, hnone⟩ | ⟨hmatches, hsome⟩ | ⟨-, err, herr⟩⟩ := h.cases paramType
  · rw [hnone] at hx
    cases hx
  · rw [hsome] at hx
    cases hx
    exact ⟨hmatches, h.place.conflictRoot he, rfl⟩
  · rw [herr] at hx
    cases hx

theorem Borrowed.put (h : Borrowed B constant arg o inner p) (hm : Matches B o paramType) :
    ∃ n, Numbered B inner p n ∧ B.borrowOf arg paramType = .ok (some (n, o)) := by
  obtain ⟨e, he, ⟨hno, -⟩ | ⟨-, hsome⟩ | ⟨hno, -⟩⟩ := h.cases paramType
  · rw [hm.1] at hno
    cases hno
  · exact ⟨_, h.place.conflictRoot he, hsome⟩
  · exact absurd hm hno

theorem Borrowed.matches (h : Borrowed B constant arg o inner p) (hparam : B.isBorrowParamType paramType = true)
    (hok : ∀ err, B.borrowOf arg paramType ≠ .error err) : Matches B o paramType := by
  obtain ⟨e, -, ⟨hno, -⟩ | ⟨hmatches, -⟩ | ⟨-, err, herr⟩⟩ := h.cases paramType
  · rw [hparam] at hno
    cases hno
  · exact hmatches
  · exact absurd herr (hok err)

theorem clash_iff {n n' : ExprId} {o o' : OwnershipKind} (ho : o = .lend ∨ o = .view) (ho' : o' = .lend ∨ o' = .view) :
    clash (n', o') (n, o) = true ↔ n = n' ∧ (o = .lend ∨ o' = .lend) := by
  rcases ho with rfl | rfl <;> rcases ho' with rfl | rfl <;> simp [clash]

end

/-- The places that overlap are kept apart, and no others, just when the numbers tell them apart. -/
theorem borrows_exclusive_iff (B : BorrowContext) (constant : ExprId → Option ℤ) (call : BorrowCall) :
    (B.callErrors call = [] → Exclusive B constant call) ∧ Fair B constant call ↔ Distinguished B constant call := by
  constructor
  · rintro ⟨hexclusive, hfair⟩
    refine ⟨?_, hfair.imp ?_⟩
    · by_cases hrefused : Refused B call
      · exact Or.inl hrefused
      · exact Or.inr ((hexclusive (callErrors_eq_nil_iff.mpr hrefused)).imp fun h o o' inner inner' p q ha hb hlend hover =>
          absurd hover (h o o' inner inner' p q ha hb hlend))
    · intro a b h htogether o o' inner inner' p q ha hb hma hmb hlend hne hp hq
      have hfair := h htogether o o' inner inner' p q ha hb hne hp hq
      obtain ⟨n, hn, hput⟩ := ha.put hma
      obtain ⟨n', hn', hput'⟩ := hb.put hmb
      have hdiffer : n ≠ n' := fun heq =>
        hfair (rejectsAsConflict_iff.mpr ⟨_, _, hput, hput', (clash_iff ha.borrow hb.borrow).mpr ⟨heq, hlend⟩⟩)
      refine ⟨fun hname hpath heq => ?_, fun hpath hname heq => ?_⟩
      · rw [hn.1 hname, hn'.2 hpath] at hdiffer
        exact hdiffer heq
      · rw [hn.2 hpath, hn'.1 hname] at hdiffer
        exact hdiffer heq.symm
  · rintro ⟨hoverlaps, hnumbers⟩
    refine ⟨fun hnil => ?_, hnumbers.imp ?_⟩
    · have hrefused := callErrors_eq_nil_iff.mp hnil
      rw [Refused, not_or, not_not] at hrefused
      obtain ⟨hok, hpairs⟩ := hrefused
      have hplain := hoverlaps.resolve_left fun h => callErrors_eq_nil_iff.mp hnil h
      refine (List.Pairwise.and_mem.mp (hplain.and hpairs)).imp ?_
      rintro a b ⟨ha, hb, hplain, hpair⟩ o o' inner inner' p q hborrowed hborrowed' hlend hover
      obtain ⟨htogether, hname, hname', hparam, hparam'⟩ := hplain o o' inner inner' p q hborrowed hborrowed' hlend hover
      have hma := hborrowed.matches hparam fun err herr => hok ⟨a, ha, htogether.2, err, herr⟩
      have hmb := hborrowed'.matches hparam' fun err herr => hok ⟨b, hb, htogether.1 ▸ htogether.2, err, herr⟩
      obtain ⟨n, hn, hput⟩ := hborrowed.put hma
      obtain ⟨n', hn', hput'⟩ := hborrowed'.put hmb
      have hclash : clash (n', o') (n, o) = true := by
        rw [clash_iff hborrowed.borrow hborrowed'.borrow, hn.1 hname, hn'.1 hname']
        exact ⟨hover.1, hlend⟩
      rw [hpair htogether _ _ hput hput'] at hclash
      cases hclash
    · intro a b h htogether o o' inner inner' p q ha hb hne hp hq hrejects
      obtain ⟨⟨n, k⟩, ⟨n', k'⟩, hx, hy, hclash⟩ := rejectsAsConflict_iff.mp hrejects
      obtain ⟨hma, hn, rfl⟩ := ha.puts hx
      obtain ⟨hmb, hn', rfl⟩ := hb.puts hy
      obtain ⟨heq, hlend⟩ := (clash_iff ha.borrow hb.borrow).mp hclash
      obtain ⟨hnumber, hnumber'⟩ := h htogether k k' inner inner' p q ha hb hma hmb hlend hne hp hq
      dsimp only at hn hn'
      by_cases hname : IsName B inner <;> by_cases hname' : IsName B inner'
      · exact hne ((hn.1 hname).symm.trans (heq.trans (hn'.1 hname')))
      · exact hnumber hname hname' ((hn.1 hname).symm.trans (heq.trans (hn'.2 hname')))
      · exact hnumber' hname hname' ((hn'.1 hname').symm.trans (heq.symm.trans (hn.2 hname)))
      · obtain rfl : inner = inner' := (hn.2 hname).symm.trans (heq.trans (hn'.2 hname'))
        exact hne (congrArg Place.root (ha.place.unique hb.place))

/-- The expressions `p.x` (2 and 5) and `q` (7) with `lend` in front of them (3, 6 and 8), for parameters of type 1, a
    pointer to `lend i32`. The locals are `p`, which is 1, and `q`, which is 2. -/
def lentFields : BorrowContext where
  expressions := [{ id := 1, kind := .name }, { id := 2, kind := .field, operands := [1] },
    { id := 3, kind := .ownershipCoerce, operands := [2], ownership := .lend }, { id := 4, kind := .name },
    { id := 5, kind := .field, operands := [4] },
    { id := 6, kind := .ownershipCoerce, operands := [5], ownership := .lend }, { id := 7, kind := .name },
    { id := 8, kind := .ownershipCoerce, operands := [7], ownership := .lend }]
  canonical := id
  qualified := fun type => if type = 2 then some (3, .lend) else none
  pointer := fun type => if type = 1 then some 2 else none
  typeOfExpr := fun _ => 3
  resolvedLocal := fun e => if e = 1 ∨ e = 4 then 1 else if e = 7 then 2 else 0

def lentTwice (a b : ExprId) : BorrowCall := ⟨⟨0, 0⟩, [⟨a, .fixed, 1⟩, ⟨b, .fixed, 1⟩]⟩

/-- `p.x` can be lent twice in one call, and `p.x` and `q` cannot both be lent. -/
theorem lentFields_overlap : lentFields.callErrors (lentTwice 3 6) = [] ∧
    ¬Exclusive lentFields (fun _ => none) (lentTwice 3 6) ∧ ¬Fair lentFields (fun _ => none) (lentTwice 3 8) := by
  have hp : ∀ id, id = 1 ∨ id = 4 → IsPlace lentFields (fun _ => none) id { root := 1 } := by
    rintro id (rfl | rfl)
    · exact IsPlace.name (e := { id := 1, kind := .name }) rfl rfl (show lentFields.resolvedLocal 1 ≠ 0 by decide)
    · exact IsPlace.name (e := { id := 4, kind := .name }) rfl rfl (show lentFields.resolvedLocal 4 ≠ 0 by decide)
  have hfirst : Borrowed lentFields (fun _ => none) 3 .lend 2 ⟨1, [.field []], false⟩ :=
    ⟨⟨_, rfl, rfl, rfl, rfl⟩, Or.inl rfl,
      IsPlace.field (e := { id := 2, kind := .field, operands := [1] }) rfl rfl rfl (hp 1 (Or.inl rfl))⟩
  have hsecond : Borrowed lentFields (fun _ => none) 6 .lend 5 ⟨1, [.field []], false⟩ :=
    ⟨⟨_, rfl, rfl, rfl, rfl⟩, Or.inl rfl,
      IsPlace.field (e := { id := 5, kind := .field, operands := [4] }) rfl rfl rfl (hp 4 (Or.inr rfl))⟩
  have hname : Borrowed lentFields (fun _ => none) 8 .lend 7 ⟨2, [], false⟩ :=
    ⟨⟨_, rfl, rfl, rfl, rfl⟩, Or.inl rfl,
      IsPlace.name (e := { id := 7, kind := .name }) rfl rfl (show lentFields.resolvedLocal 7 ≠ 0 by decide)⟩
  refine ⟨by decide, fun h => ?_, fun h => ?_⟩
  · have hpair := (List.pairwise_cons.mp h).1 _ (List.mem_singleton.mpr rfl)
    exact hpair _ _ _ _ _ _ hfirst hsecond (Or.inl rfl) ⟨rfl, by simp [PlaceStep.Meets]⟩
  · have hpair := (List.pairwise_cons.mp h).1 _ (List.mem_singleton.mpr rfl) ⟨rfl, by decide⟩
    exact hpair _ _ _ _ _ _ hfirst hname (by decide) rfl rfl
      (rejectsAsConflict_iff.mpr ⟨(2, .lend), (2, .lend), by decide, by decide, by decide⟩)

end Zith.Sema
