import Zith.Hir.GuardSoundness

/-! Guarded uses in the runs of a module that `HirVerifier::verify` accepts. The run has left a guard by the
    edge that answers it, and of what the guard saw only a store can change anything:

        s₀ ──condition──▶ at the guard ──left──▶ … no store of the operands … ──▶ the use -/

namespace Zith.Hir
open Lib
open Types (TypeIntern)

section
variable {m : HirModule} {types : TypeIntern} {internedId : Text → UInt32} {fn : HirFunction}

/-! ### The log of a run -/

/-- A slot is not stored between the two states. -/
def Quiet (m : HirModule) (slot : HirSlotId) (s s' : State) : Prop :=
  ∃ events, s'.log = events ++ s.log ∧ ∀ e ∈ events, ¬Stores m slot e

variable {block : HirBasicBlock} {s s' : State} {expr : HirExpr}

theorem Later.slots {slot : HirSlotId} (h : Later m s s') (hquiet : Quiet m slot s s') :
    s'.slots slot = s.slots slot := by
  obtain ⟨events, hlog, -, hslots⟩ := h
  obtain ⟨events', hlog', hstores⟩ := hquiet
  obtain rfl : events' = events := List.append_cancel_right (hlog'.symm.trans hlog)
  exact hslots slot hstores

theorem Quiet.right {s s₁ s' : State} {slot : HirSlotId} (h : Quiet m slot s s') (hleft : Later m s s₁)
    (hright : Later m s₁ s') : Quiet m slot s₁ s' := by
  obtain ⟨events, hlog, hstores⟩ := h
  obtain ⟨first, hfirst, -⟩ := hleft
  obtain ⟨second, hsecond, -⟩ := hright
  have hevents : events = second ++ first := by
    refine List.append_cancel_right (hlog.symm.trans ?_)
    rw [hsecond, hfirst, List.append_assoc]
  refine ⟨second, hsecond, fun e he => hstores e ?_⟩
  rw [hevents]
  exact List.mem_append_left _ he

/-- An event that is no evaluation has happened before the later states. -/
theorem Later.split (h : Later m s s') {recent old : List Event} {e : Event}
    (hlog : s'.log = recent ++ e :: old) (he : ∀ id operands, e ≠ .evaluated id operands) :
    ∃ recent', s.log = recent' ++ e :: old ∧ (∀ x ∈ recent', x ∈ recent) ∧
      ∀ slot, (∀ x ∈ recent, ¬Stores m slot x) → Quiet m slot s s' := by
  obtain ⟨events, hevents, hevaluated, -⟩ := h
  have happend := hevents.symm.trans hlog
  rcases List.append_eq_append_iff.mp happend with ⟨recent', rfl, hs⟩ | ⟨more, rfl, hold⟩
  · refine ⟨recent', hs, fun x hx => List.mem_append_right _ hx, fun slot hstores => ⟨events, hevents, ?_⟩⟩
    exact fun x hx => hstores x (List.mem_append_left _ hx)
  · cases more with
    | nil => exact ⟨[], hold.symm, fun x hx => absurd hx List.not_mem_nil, fun slot hstores =>
      ⟨recent, by rw [hevents, List.append_nil], hstores⟩⟩
    | cons x more =>
      obtain rfl : e = x := (List.cons.inj hold).1
      obtain ⟨id, operands, heq⟩ := hevaluated e (List.mem_append_right _ (List.mem_cons_self ..))
      exact absurd heq (he id operands)

/-- The blocks that a run has left, and how. -/
def departures (log : List Event) : List (ℕ × Exit) :=
  log.filterMap fun
    | .left block exit => some (block, exit)
    | _ => none

theorem Later.departures {s s' : State} (h : Later m s s') : departures s'.log = departures s.log := by
  obtain ⟨events, hlog, hevaluated, -⟩ := h
  have hnone : Hir.departures events = [] := by
    refine List.filterMap_eq_nil_iff.mpr fun e he => ?_
    obtain ⟨id, operands, rfl⟩ := hevaluated e he
    rfl
  rw [hlog, Hir.departures, List.filterMap_append]
  exact congrArg (· ++ _) hnone

theorem log_split {g : ℕ} {exit : Exit} : ∀ {log : List Event},
    (departures log).find? (fun p => p.1 = g) = some (g, exit) → log = since g log ++ .left g exit :: upTo g log := by
  intro log
  induction log with
  | nil => intro h; cases h
  | cons e log ih =>
    intro h
    cases e with
    | evaluated id operands =>
      exact congrArg (Event.evaluated id operands :: ·) (ih h)
    | fell block => exact congrArg (Event.fell block :: ·) (ih h)
    | left block exit' =>
      change List.find? _ ((block, exit') :: departures log) = _ at h
      by_cases hblock : block = g
      · subst hblock
        rw [List.find?_cons_of_pos (by simp)] at h
        cases h
        simp [since, upTo, Event.isLeft]
      · rw [List.find?_cons_of_neg (by simpa using hblock)] at h
        have hleft : (Event.left block exit').isLeft g = false := beq_eq_false_iff_ne.mpr hblock
        have hrest := congrArg (Event.left block exit' :: ·) (ih h)
        rw [since, upTo, List.takeWhile_cons_of_pos (by rw [hleft]; rfl),
          List.dropWhile_cons_of_pos (by rw [hleft]; rfl)]
        exact hrest

/-! ### Runs -/

theorem Leaves.later {terminator : Option HirExpr} {s s' : State} {exit : Exit} {target : ℕ}
    (h : Leaves m types internedId terminator s exit target s') : Later m s s' := by
  cases h with
  | branch _ _ hcond => exact hcond.later
  | jump => exact .refl

theorem Leaves.mem_exits {exit : Exit} {b target : ℕ}
    (h : Leaves m types internedId (terminator m fn b) s exit target s') : (exit, target) ∈ exits m fn b := by
  cases h with
  | branch answer hterm =>
    rw [exits, hterm]
    cases answer with
    | true => exact List.mem_cons_self ..
    | false => exact List.mem_cons_of_mem _ (List.mem_singleton_self _)
  | jump hterm =>
    rw [exits, hterm]
    exact List.mem_singleton_self _

theorem terminator_of_block {b : ℕ} (h : fn.blocks[b]? = some block) :
    terminator m fn b = m.tryExpr block.terminator := by rw [terminator, h, Option.bind_some]

/-- A run that falls through no block follows the edges. -/
theorem Reaches.path {b : ℕ} {s : State} (h : Reaches m types internedId fn b s)
    (hfall : ∀ c, .fell c ∉ s.log) (hb : b < blockCount fn) : Path m fn b (departures s.log) := by
  induction h with
  | start slots => exact .start
  | @leave b target block s s₁ s₂ values exit _ hblock hinsts hleaves ih =>
    have hlater : Later m s s₂ := hinsts.later.trans hleaves.later
    rw [← terminator_of_block hblock] at hleaves
    have hedge : Edge m fn b exit target := ⟨hleaves.mem_exits, hb⟩
    have hfall' : ∀ c, .fell c ∉ s.log := by
      intro c hc
      obtain ⟨events, hlog, -⟩ := hlater
      refine hfall c (List.mem_cons_of_mem _ ?_)
      rw [hlog]
      exact List.mem_append_right _ hc
    have hpath := ih hfall' (List.getElem?_eq_some_iff.mp hblock).1
    rw [← hlater.departures] at hpath
    exact hpath.step hedge
  | fall => exact absurd (List.mem_cons_self ..) (hfall _)

/-- At a departure from a block: what the run saw there, and what it still has. -/
theorem Reaches.departed {b : ℕ} {s : State} (h : Reaches m types internedId fn b s) :
    ∀ {g : ℕ} {exit : Exit} {recent old : List Event}, s.log = recent ++ .left g exit :: old →
        ∃ s₀ s', s'.log = old ∧ (∃ target, Leaves m types internedId (terminator m fn g) s₀ exit target s') ∧
          ∀ slot, (∀ e ∈ recent, ¬Stores m slot e) → s.slots slot = s'.slots slot := by
  induction h with
  | start slots =>
    intro g exit recent old hlog
    exact absurd (hlog ▸ List.mem_append_right recent (List.mem_cons_self ..)) List.not_mem_nil
  | @leave b target block s s₁ s₂ values exit' _ hblock hinsts hleaves ih =>
    intro g exit recent old hlog
    cases recent with
    | nil =>
      obtain ⟨hhead, hold⟩ := List.cons.inj hlog
      cases hhead
      rw [← terminator_of_block hblock] at hleaves
      exact ⟨s₁, s₂, hold, ⟨target, hleaves⟩, fun _ _ => rfl⟩
    | cons e recent =>
      have hlater : Later m s s₂ := hinsts.later.trans hleaves.later
      obtain ⟨recent', hs, hmem, hquiet⟩ := hlater.split (List.cons.inj hlog).2 fun _ _ h => by cases h
      obtain ⟨s₀, s', hold, hdeparture, hslots⟩ := ih hs
      refine ⟨s₀, s', hold, hdeparture, fun slot hstores => ?_⟩
      have hrecent := fun x hx => hstores x (List.mem_cons_of_mem e hx)
      exact (hlater.slots (hquiet slot hrecent)).trans (hslots slot fun x hx => hrecent x (hmem x hx))
  | @fall b block s s₁ values _ hblock hinsts _ ih =>
    intro g exit recent old hlog
    cases recent with
    | nil => cases (List.cons.inj hlog).1
    | cons e recent =>
      obtain ⟨recent', hs, hmem, hquiet⟩ := hinsts.later.split (List.cons.inj hlog).2 fun _ _ h => by cases h
      obtain ⟨s₀, s', hold, hdeparture, hslots⟩ := ih hs
      refine ⟨s₀, s', hold, hdeparture, fun slot hstores => ?_⟩
      have hrecent := fun x hx => hstores x (List.mem_cons_of_mem e hx)
      exact (hinsts.later.slots (hquiet slot hrecent)).trans (hslots slot fun x hx => hrecent x (hmem x hx))

/-! ### Expressions below an expression -/

def Child (m : HirModule) (id child : HirExprId) : Prop := ∃ expr, m.tryExpr id = some expr ∧ child ∈ children expr

/-- With an expression that is behind `out`, its operands are there, too. -/
def Closed (m : HirModule) (out out' : List HirExprId) : Prop :=
  (∀ id ∈ out, id ∈ out') ∧
    ∀ id ∈ out', id ∉ out → ∀ child, Child m id child → (m.tryExpr child).isSome = true → child ∈ out'

theorem Closed.trans {out out' out'' : List HirExprId} (h : Closed m out out') (h' : Closed m out' out'') :
    Closed m out out'' := by
  refine ⟨fun id hid => h'.1 id (h.1 id hid), ?_⟩
  intro id hid hnew child hchild hsome
  by_cases hmem : id ∈ out'
  · exact h'.1 child (h.2 id hmem hnew child hchild hsome)
  · exact h'.2 id hid hmem child hchild hsome

theorem Closed.refl {out : List HirExprId} : Closed m out out := ⟨fun _ h => h, fun _ hid hnew => absurd hid hnew⟩

/-- A search for each of the expressions, one after the other. -/
theorem foldlM_closed {append : List HirExprId → HirExprId → Option (List HirExprId)}
    (happend : ∀ {out out' : List HirExprId} {id : HirExprId}, append out id = some out' →
      Closed m out out' ∧ ((m.tryExpr id).isSome = true → id ∈ out')) :
    ∀ {ids out out' : List HirExprId}, ids.foldlM append out = some out' →
      Closed m out out' ∧ ∀ id ∈ ids, (m.tryExpr id).isSome = true → id ∈ out' := by
  intro ids
  induction ids with
  | nil =>
    intro out out' h
    cases h
    exact ⟨.refl, fun _ h => absurd h List.not_mem_nil⟩
  | cons id ids ih =>
    intro out out' h
    rw [List.foldlM_cons] at h
    obtain ⟨middle, hid, hids⟩ := Option.bind_eq_some_iff.mp h
    obtain ⟨hclosed, hmem⟩ := happend hid
    obtain ⟨hclosed', hmem'⟩ := ih hids
    refine ⟨hclosed.trans hclosed', ?_⟩
    intro x hx hsome
    rcases List.mem_cons.mp hx with rfl | hx
    · exact hclosed'.1 x (hmem hsome)
    · exact hmem' x hx hsome

/-- The search appends the expression and all that is below it. -/
theorem appendExprTree_closed : ∀ {fuel : ℕ} {out out' : List HirExprId} {id : HirExprId},
    appendExprTree m fuel out id = some out' → Closed m out out' ∧ ((m.tryExpr id).isSome = true → id ∈ out') := by
  intro fuel
  induction fuel with
  | zero => intro out out' id h; cases h
  | succ fuel ih =>
    intro out out' id h
    rw [appendExprTree] at h
    split at h
    · rename_i hnone
      cases h
      refine ⟨.refl, fun hsome => ?_⟩
      rw [hnone] at hsome
      cases hsome
    · rename_i expr hexpr
      split at h
      · rename_i hmem
        cases h
        exact ⟨.refl, fun _ => hmem⟩
      · obtain ⟨hclosed, hchildren⟩ := foldlM_closed ih h
        have hid : id ∈ out' := hclosed.1 id (List.mem_append_right _ (List.mem_singleton_self _))
        refine ⟨⟨fun x hx => hclosed.1 x (List.mem_append_left _ hx), ?_⟩, fun _ => hid⟩
        intro x hx hnew child hchild hsome
        by_cases heq : x = id
        · subst heq
          obtain ⟨expr', hexpr', hmem⟩ := hchild
          cases hexpr.symm.trans hexpr'
          exact hchildren child hmem hsome
        · refine hclosed.2 x hx ?_ child hchild hsome
          rw [List.mem_append, List.mem_singleton]
          exact not_or.mpr ⟨hnew, heq⟩

/-- What is evaluated while an expression is, is below it. -/
theorem Meets.reachable {id use : HirExprId} {operands : List Content}
    (h : Meets m types internedId id s use operands s') : Relation.ReflTransGen (Child m) id use := by
  induction h with
  | here => exact .refl
  | @inside id child _ expr before behind _ _ _ _ _ hexpr hids _ _ ih =>
    have hmem : child ∈ children expr := by
      rw [Operands] at hids
      split at hids
      · rw [← hids]
        exact List.mem_append_right _ (List.mem_cons_self ..)
      · exact hids child (List.mem_append_right _ (List.mem_cons_self ..))
    exact .head ⟨expr, hexpr, hmem⟩ ih

theorem mem_blockExprs {fuel : ℕ} {ids : List HirExprId} (h : blockExprs m fuel block = some ids)
    {root use : HirExprId} (hroot : root ∈ block.insts ++ [block.terminator])
    (hbelow : Relation.ReflTransGen (Child m) root use) (huse : (m.tryExpr use).isSome = true) : use ∈ ids := by
  obtain ⟨hclosed, hroots⟩ := foldlM_closed appendExprTree_closed h
  induction hbelow with
  | refl => exact hroots root hroot huse
  | @tail id child _ hchild ih =>
    have hsome : (m.tryExpr id).isSome = true := by
      obtain ⟨expr, hexpr, -⟩ := hchild
      exact Option.isSome_iff_exists.mpr ⟨expr, hexpr⟩
    exact hclosed.2 id (ih hsome) List.not_mem_nil child hchild huse

/-! ### What the verifier accepts -/

theorem guarded_of_guardReports {reachable : List Bool} {dominators : List (List Bool)} {fuel b : ℕ}
    {matching : HirExprId → Option Bool} {message : String}
    (huse : guardedUse m types internedId expr = some (matching, message))
    (h : guardReports m types internedId fn reachable dominators fuel b expr = some []) :
    hasDominatingGuard m fn reachable dominators fuel matching b = some true := by
  rw [guardReports, huse] at h
  obtain ⟨guarded, hguarded, hreport⟩ := Option.map_eq_some_iff.mp h
  cases guarded with
  | true => exact hguarded
  | false => cases hreport

theorem guardReports_of_blockReports {reachable : List Bool} {dominators : List (List Bool)} {fuel b : ℕ}
    {use : HirExprId} (h : blockReports m types internedId fn reachable dominators fuel b block = some [])
    (hexpr : m.tryExpr use = some expr) (hmem : ∀ ids, blockExprs m fuel block = some ids → use ∈ ids) :
    guardReports m types internedId fn reachable dominators fuel b expr = some [] := by
  obtain ⟨ids, hids, h⟩ := Option.bind_eq_some_iff.mp h
  obtain ⟨uses, huses, h⟩ := Option.bind_eq_some_iff.mp h
  have hflat : uses.flatten = [] := (List.append_eq_nil_iff.mp (Option.some.inj h)).2
  obtain ⟨reports, hreports, hone⟩ := exists_of_mapM huses expr (List.mem_filterMap.mpr ⟨use, hmem ids hids, hexpr⟩)
  obtain ⟨guards, hguards, hone⟩ := Option.bind_eq_some_iff.mp hone
  have hnil : guards ++ targetReports fn expr = [] :=
    (Option.some.inj hone).trans (List.flatten_eq_nil_iff.mp hflat reports hreports)
  rw [hguards, (List.append_eq_nil_iff.mp hnil).1]

theorem blockReports_of_functionReports {fuel b : ℕ} {defined : List HirSlotId}
    (h : functionReports m types internedId fuel fn = some ([], defined)) (hblock : fn.blocks[b]? = some block) :
    ∃ reachable dominators, dominatorsOf m fn fuel = some (reachable, dominators) ∧
      blockReports m types internedId fn reachable dominators fuel b block = some [] := by
  obtain ⟨⟨reachable, dominators⟩, hdominators, h⟩ := Option.bind_eq_some_iff.mp h
  obtain ⟨blocks, hblocks, h⟩ := Option.bind_eq_some_iff.mp h
  obtain ⟨⟨slots, used⟩, -, h⟩ := Option.bind_eq_some_iff.mp h
  have hnil := congrArg Prod.fst (Option.some.inj h)
  have hflat : blocks.flatten = [] := (List.append_eq_nil_iff.mp (List.append_eq_nil_iff.mp hnil).1).2
  obtain ⟨reports, hreports, hone⟩ := exists_of_mapM hblocks (block, b) (List.mk_mem_zipIdx_iff_getElem?.mpr hblock)
  refine ⟨reachable, dominators, hdominators, ?_⟩
  rw [← List.flatten_eq_nil_iff.mp hflat reports hreports]
  exact hone

theorem functionReports_of_verify {fuel : ℕ} (h : verify m types internedId fuel = some []) (hfn : fn ∈ m.fns) :
    ∃ defined, functionReports m types internedId fuel fn = some ([], defined) := by
  obtain ⟨functions, hfunctions, h⟩ := Option.bind_eq_some_iff.mp h
  have hflat : functions.flatMap Prod.fst = [] :=
    (List.append_eq_nil_iff.mp (List.append_eq_nil_iff.mp (Option.some.inj h)).1).2
  obtain ⟨⟨reports, defined⟩, hmem, hone⟩ := exists_of_mapM hfunctions fn hfn
  obtain rfl : reports = [] := List.flatMap_eq_nil_iff.mp hflat _ hmem
  exact ⟨defined, hone⟩

/-! ### Moments -/

/-- A moment comes behind the start of its block, on operands that were evaluated just before. -/
theorem Meets.operands {id use : HirExprId} {operands : List Content}
    (h : Meets m types internedId id s use operands s') :
    ∃ expr ids s₁, m.tryExpr use = some expr ∧ Operands expr ids ∧ Later m s s₁ ∧
      Evaluates m types internedId ids s₁ operands s' ∧ Takes types expr operands := by
  induction h with
  | here hexpr hids hoperands htakes => exact ⟨_, _, _, hexpr, hids, .refl, hoperands, htakes⟩
  | inside _ _ hbefore _ ih =>
    obtain ⟨expr, ids, s₁, hexpr, hids, hlater, hoperands, htakes⟩ := ih
    exact ⟨expr, ids, s₁, hexpr, hids, hbefore.later.trans hlater, hoperands, htakes⟩

theorem Moment.meets {b : ℕ} {use : HirExprId} {operands : List Content} {s' : State}
    (h : Moment m types internedId fn b use operands s') :
    ∃ block s s₁ root, Reaches m types internedId fn b s ∧ fn.blocks[b]? = some block ∧
      root ∈ block.insts ++ [block.terminator] ∧ Later m s s₁ ∧ Meets m types internedId root s₁ use operands s' := by
  cases h with
  | instruction hreaches hblock hinsts hbefore hmeets =>
    refine ⟨_, _, _, _, hreaches, hblock, ?_, hbefore.later, hmeets⟩
    rw [hinsts]
    exact List.mem_append_left _ (List.mem_append_right _ (List.mem_cons_self ..))
  | terminator hreaches hblock hinsts hmeets =>
    exact ⟨_, _, _, _, hreaches, hblock, List.mem_append_right _ (List.mem_singleton_self _), hinsts.later, hmeets⟩

/-- An operand in a slot that is not stored while the operands are evaluated is what the slot holds. -/
theorem Evaluates.contents {ids : List HirExprId} {values : List Content}
    (h : Evaluates m types internedId ids s values s')
    (hquiet : ∀ id ∈ ids, ∀ slot, slotOfValue m id = some slot → Quiet m slot s s') :
    List.Forall₂ (fun id content => ∀ slot, slotOfValue m id = some slot → content = s'.slots slot) ids values := by
  induction h with
  | nil => exact .nil
  | @cons id expr ids rest s s₁ s₂ operands values value hexpr hids hoperands htakes hgives hrest _ ih =>
    have hnode : Later m s (s₁.after id expr operands) := hoperands.later.trans (later_after hexpr)
    refine .cons ?_ (ih fun id' hid slot hslot => ?_)
    · intro slot hslot
      have hid : Evaluates m types internedId [id] s [value] (s₁.after id expr operands) :=
        .cons hexpr hids hoperands htakes hgives .nil
      have hsame := (hnode.trans hrest.later).slots (hquiet id (List.mem_cons_self ..) slot hslot)
      exact (hid.slot hslot).1.trans hsame.symm
    · exact (hquiet id' (List.mem_cons_of_mem _ hid) slot hslot).right hnode hrest.later

/-! ### Guarded uses -/

theorem forall₂_of_mem {α β : Type} {R S : α → β → Prop} {xs : List α} {ys : List β} (h : List.Forall₂ R xs ys)
    (himp : ∀ x y, x ∈ xs → R x y → S x y) : List.Forall₂ S xs ys := by
  induction h with
  | nil => exact .nil
  | cons hxy _ ih =>
    exact .cons (himp _ _ (List.mem_cons_self ..) hxy) (ih fun x y hx => himp x y (List.mem_cons_of_mem _ hx))

/-- The verifier finds this guard for an operation in block `b`. -/
def Guards (m : HirModule) (types : TypeIntern) (internedId : Text → UInt32) (fn : HirFunction) (fuel b : ℕ)
    (expr : HirExpr) (g : ℕ) (selected : Bool) : Prop :=
  ∃ reachable dominators matching message, dominatorsOf m fn fuel = some (reachable, dominators) ∧
    guardedUse m types internedId expr = some (matching, message) ∧ GuardOf m fn matching g selected ∧
    selectedEdgeDominates m fn reachable dominators b g selected = some true

theorem inOrder_of_guardedUse (h : (guardedUse m types internedId expr).isSome = true) : inOrder expr = true := by
  rw [guardedUse.eq_def] at h
  split at h
  · rfl
  · rfl
  · rfl
  · rfl
  · rfl
  · cases h

theorem Leaves.answer {s s' : State} {exit : Exit} {target : ℕ} {cond : HirExprId}
    {thenBlock elseBlock : HirBlockId} {terminator : Option HirExpr}
    (h : Leaves m types internedId terminator s exit target s')
    (hterm : terminator = some (.branch cond thenBlock elseBlock)) :
    ∃ answer value, exit = selectedExit answer ∧ Evaluates m types internedId [cond] s [value] s' ∧
      ∀ i, value = .int i → (i != 0) = answer := by
  cases h with
  | branch answer hterm' hcond hanswer =>
    cases hterm'.symm.trans hterm
    exact ⟨answer, _, rfl, hcond, hanswer⟩
  | jump hterm' => cases hterm'.symm.trans hterm

theorem selectedExit_injective {a b : Bool} (h : selectedExit a = selectedExit b) : a = b := by
  cases a <;> cases b <;> first | rfl | cases h

/-- The run has left the guard by the selected edge, and what it saw there is still so. -/
theorem holds_of_undisturbed {fuel b g : ℕ} {use : HirExprId} {operands : List Content} {s : State}
    {selected : Bool} (hmoment : Moment m types internedId fn b use operands s)
    (hexpr : m.tryExpr use = some expr) (hfall : ∀ c, .fell c ∉ s.log)
    (hguards : Guards m types internedId fn fuel b expr g selected)
    (hundisturbed : Undisturbed m s.log g expr operands) : Holds types expr operands ∧
      List.Forall₂ (fun id content => ∀ slot, slotOfValue m id = some slot → content = s.slots slot)
        (children expr) operands := by
  obtain ⟨reachable, dominators, matching, message, hdominators, huse, hguard, hselected⟩ := hguards
  obtain ⟨block, s₀, s₁, root, hreaches, hblock, -, hlater, hmeets⟩ := hmoment.meets
  obtain ⟨expr', ids, s₂, hexpr', hids, hlater', hoperands, htakes⟩ := hmeets.operands
  cases hexpr.symm.trans hexpr'
  rw [Operands, if_pos (inOrder_of_guardedUse (Option.isSome_iff_exists.mpr ⟨_, huse⟩))] at hids
  subst hids
  have hbefore : Later m s₀ s₂ := hlater.trans hlater'
  have hall : Later m s₀ s := hbefore.trans hoperands.later
  -- the guard was left last by the edge that answers it
  have hpath : Path m fn b (departures s₀.log) := by
    refine hreaches.path (fun c hc => hfall c ?_) (List.getElem?_eq_some_iff.mp hblock).1
    obtain ⟨events, hlog, -⟩ := hall
    rw [hlog]
    exact List.mem_append_right _ hc
  have hlast := (guard_taken_last hdominators).1 hselected hpath
  rw [← hall.departures] at hlast
  obtain ⟨recent, hs₀, hmem, hquiet⟩ := hall.split (log_split hlast) fun _ _ h => by cases h
  obtain ⟨sc, sg, hold, ⟨target, hleaves⟩, hslots⟩ := hreaches.departed hs₀
  obtain ⟨cond, thenBlock, elseBlock, hterm, -, hpolarity⟩ := hguard.branch
  obtain ⟨answer, value, hexit, hcond, hanswer⟩ := hleaves.answer hterm
  obtain rfl := selectedExit_injective hexit
  -- what the operands are now, and what they were at the guard
  have hstill := hoperands.contents fun id hid slot hslot =>
    (hquiet slot (hundisturbed.slots id hid slot hslot)).right hbefore hoperands.later
  have hagrees : Agrees m expr operands sg := by
    constructor
    · have hthen : ∀ id ∈ children expr, ∀ slot, slotOfValue m id = some slot → s.slots slot = sg.slots slot := by
        intro id hid slot hslot
        have hstores := hundisturbed.slots id hid slot hslot
        exact (hall.slots (hquiet slot hstores)).trans (hslots slot fun e he => hstores e (hmem e he))
      refine forall₂_of_mem hstill fun id content hid hcontent slot hslot => ?_
      exact (hcontent slot hslot).trans (hthen id hid slot hslot)
    · intro id hid hnone seen hseen
      rw [hold] at hseen
      exact hundisturbed.values id hid hnone seen hseen
  obtain ⟨truth, rfl, hholds⟩ := polarity_settles huse htakes hpolarity hcond hagrees
  refine ⟨hholds ?_, hstill⟩
  have htruth := hanswer _ rfl
  cases truth <;> exact htruth

/-- In every run of a function of an accepted module: a guarded operation has a guard, and when no store and
    no fall through a block without a terminator has come between one of its guards and it, its operands are
    what it needs, and those in slots are the contents of the slots. -/
theorem guarded_use_safe {fuel b : ℕ} {use : HirExprId} {expr : HirExpr} {operands : List Content} {s : State}
    (h : verify m types internedId fuel = some []) (hfn : fn ∈ m.fns)
    (hmoment : Moment m types internedId fn b use operands s) (hexpr : m.tryExpr use = some expr)
    (huse : (guardedUse m types internedId expr).isSome = true) (hfall : ∀ c, .fell c ∉ s.log) :
    (∃ g selected, Guards m types internedId fn fuel b expr g selected) ∧
      ∀ g selected, Guards m types internedId fn fuel b expr g selected → Undisturbed m s.log g expr operands →
          Holds types expr operands ∧
            List.Forall₂ (fun id content => ∀ slot, slotOfValue m id = some slot → content = s.slots slot)
              (children expr) operands := by
  refine ⟨?_, fun g selected => holds_of_undisturbed hmoment hexpr hfall⟩
  obtain ⟨block, s₀, s₁, root, -, hblock, hroot, -, hmeets⟩ := hmoment.meets
  obtain ⟨⟨matching, message⟩, hmatching⟩ := Option.isSome_iff_exists.mp huse
  obtain ⟨defined, hreports⟩ := functionReports_of_verify h hfn
  obtain ⟨reachable, dominators, hdominators, hblockReports⟩ := blockReports_of_functionReports hreports hblock
  have hmem : ∀ ids, blockExprs m fuel block = some ids → use ∈ ids := fun ids hids =>
    mem_blockExprs hids hroot hmeets.reachable (Option.isSome_iff_exists.mpr ⟨expr, hexpr⟩)
  have hguarded := guarded_of_guardReports hmatching (guardReports_of_blockReports hblockReports hexpr hmem)
  obtain ⟨g, selected, hguard, hselected⟩ := (guard_taken_last hdominators).2 hguarded
  exact ⟨g, selected, reachable, dominators, matching, message, hdominators, hmatching, hguard, hselected⟩

end

/-! ### An optional that is narrowed -/

/-- Row 6 is the optional of the integers of row 5. -/
def narrowedTypes : TypeIntern :=
  { types := [.error, .never, .void, .bool, .char, .int .i64, .optional 5] }

/-- `if (x is present) { …; return x; }`, where the instructions before the `return` are those given. -/
def narrowedFunction (insts : List HirExprId) : HirFunction where
  name := []
  params := []
  paramNames := []
  paramSlots := []
  returnType := 5
  isState := false
  usesTailCC := false
  machineReturnType := kInvalidType
  machineId := 0
  isVariadic := false
  variadicSliceParam := none
  isForeignC := false
  hasBody := true
  foreignAdapterName := none
  blocks := [⟨[0], 3⟩, ⟨insts, 7⟩, ⟨[], 8⟩]

def narrowedModule (insts : List HirExprId) : HirModule where
  exprs := [.slotAlloca 0 6 0, .slotAddr 0 6, .field 1 1 3 6 .requiredCheck, .branch 2 1 2, .makeNone 6,
    .slotStore 0 4, .field 1 0 5 6 .guarded, .ret 6, .ret kInvalidHirExpr]
  fns := [narrowedFunction insts]

/-- The optional is present, and the run has left the guard by its then edge. -/
def narrowedState : State where
  slots := fun _ => .optional true
  log := [.left 0 .thenBlock, .evaluated 2 [.optional true], .evaluated 1 [], .evaluated 0 []]

theorem narrowed_read (insts : List HirExprId) (s : State) :
    Evaluates (narrowedModule insts) narrowedTypes (fun _ => 0) [1] s [s.slots 0]
      ⟨s.slots, .evaluated 1 [] :: s.log⟩ := by
  have hexpr : (narrowedModule insts).tryExpr 1 = some (.slotAddr 0 6) := rfl
  exact .cons hexpr (fun _ h => h) .nil trivial rfl .nil

theorem narrowed_reaches (insts : List HirExprId) :
    Reaches (narrowedModule insts) narrowedTypes (fun _ => 0) (narrowedFunction insts) 1 narrowedState := by
  have halloca : Evaluates (narrowedModule insts) narrowedTypes (fun _ => 0) [0] ⟨fun _ => .optional true, []⟩
      [.other] ⟨fun _ => .optional true, [.evaluated 0 []]⟩ := by
    have hexpr : (narrowedModule insts).tryExpr 0 = some (.slotAlloca 0 6 0) := rfl
    exact .cons hexpr (fun _ h => h) .nil trivial trivial .nil
  have hflag : Evaluates (narrowedModule insts) narrowedTypes (fun _ => 0) [2]
      ⟨fun _ => .optional true, [.evaluated 0 []]⟩ [.ofBool true]
      ⟨fun _ => .optional true, [.evaluated 2 [.optional true], .evaluated 1 [], .evaluated 0 []]⟩ := by
    have hexpr : (narrowedModule insts).tryExpr 2 = some (.field 1 1 3 6 .requiredCheck) := rfl
    exact .cons hexpr rfl (narrowed_read insts _) ⟨true, rfl⟩ (fun _ => rfl) .nil
  have hblock : (narrowedFunction insts).blocks[0]? = some ⟨[0], 3⟩ := rfl
  have hleaves : Leaves (narrowedModule insts) narrowedTypes (fun _ => 0) (some (.branch 2 1 2))
      ⟨fun _ => .optional true, [.evaluated 0 []]⟩ (selectedExit true) 1 _ :=
    .branch true rfl hflag fun i hi => by cases hi; rfl
  exact .leave (.start fun _ => .optional true) hblock halloca hleaves

/-- The payload is about to be read, as the instructions have left the slots. -/
theorem narrowed_moment {insts : List HirExprId} {values : List Content} {s : State}
    (hinsts : Evaluates (narrowedModule insts) narrowedTypes (fun _ => 0) insts narrowedState values s)
    {present : Bool} (hpresent : s.slots 0 = .optional present) :
    Moment (narrowedModule insts) narrowedTypes (fun _ => 0) (narrowedFunction insts) 1 6 [.optional present]
      ⟨s.slots, .evaluated 1 [] :: s.log⟩ := by
  have hblock : (narrowedFunction insts).blocks[1]? = some ⟨insts, 7⟩ := rfl
  have hret : (narrowedModule insts).tryExpr 7 = some (.ret 6) := rfl
  have hfield : (narrowedModule insts).tryExpr 6 = some (.field 1 0 5 6 .guarded) := rfl
  have hread := narrowed_read insts s
  rw [hpresent] at hread
  have hids : Operands (.ret 6) ([] ++ 6 :: []) := fun id hid => hid
  have hmeets := Meets.here hfield rfl hread ⟨present, rfl⟩
  exact .terminator (narrowed_reaches insts) hblock hinsts (.inside hret hids .nil hmeets)

theorem guarded_use_safe_narrowed :
    ((∃ g selected, Guards (narrowedModule []) narrowedTypes (fun _ => 0) (narrowedFunction []) 10 1
        (.field 1 0 5 6 .guarded) g selected) ∧
      ∀ g selected, Guards (narrowedModule []) narrowedTypes (fun _ => 0) (narrowedFunction []) 10 1
          (.field 1 0 5 6 .guarded) g selected →
        Undisturbed (narrowedModule []) (.evaluated 1 [] :: narrowedState.log) g (.field 1 0 5 6 .guarded)
            [.optional true] → Holds narrowedTypes (.field 1 0 5 6 .guarded) [.optional true] ∧
            List.Forall₂ (fun id content => ∀ slot, slotOfValue (narrowedModule []) id = some slot →
              content = narrowedState.slots slot) (children (.field 1 0 5 6 .guarded)) [.optional true]) ∧
      Undisturbed (narrowedModule []) (.evaluated 1 [] :: narrowedState.log) 0 (.field 1 0 5 6 .guarded)
        [.optional true] := by
  have haccepted : verify (narrowedModule []) narrowedTypes (fun _ => 0) 10 = some [] := by decide +kernel
  have hmoment := narrowed_moment .nil (rfl : narrowedState.slots 0 = .optional true)
  refine ⟨guarded_use_safe haccepted (List.mem_singleton_self _) hmoment rfl rfl ?_, ?_, ?_⟩
  · intro c hc
    simp [narrowedState] at hc
  · intro id _ slot _ e he
    obtain rfl : e = .evaluated 1 [] := List.mem_singleton.mp he
    rintro ⟨value, hvalue⟩
    cases hvalue
  · intro id hid hnone
    obtain rfl := List.mem_singleton.mp hid
    cases hnone

/-- The verifier accepts a store of nothing behind the guard, and the payload of nothing is read. -/
theorem guarded_use_after_store : verify (narrowedModule [5]) narrowedTypes (fun _ => 0) 10 = some [] ∧
      (narrowedModule [5]).tryExpr 6 = some (.field 1 0 5 6 .guarded) ∧
      ∃ s, Moment (narrowedModule [5]) narrowedTypes (fun _ => 0) (narrowedFunction [5]) 1 6 [.optional false] s ∧
        s.slots 0 = .optional false ∧ (∀ c, .fell c ∉ s.log) ∧
          ¬Holds narrowedTypes (.field 1 0 5 6 .guarded) [.optional false] := by
  have hnone : Evaluates (narrowedModule [5]) narrowedTypes (fun _ => 0) [4] narrowedState [.optional false]
      ⟨narrowedState.slots, .evaluated 4 [] :: narrowedState.log⟩ := by
    have hexpr : (narrowedModule [5]).tryExpr 4 = some (.makeNone 6) := rfl
    exact .cons hexpr (fun _ h => h) .nil trivial trivial .nil
  have hstore : Evaluates (narrowedModule [5]) narrowedTypes (fun _ => 0) [5] narrowedState [.other]
      ⟨Function.update narrowedState.slots 0 (.optional false),
        .evaluated 5 [.optional false] :: .evaluated 4 [] :: narrowedState.log⟩ := by
    have hexpr : (narrowedModule [5]).tryExpr 5 = some (.slotStore 0 4) := rfl
    exact .cons hexpr rfl hnone trivial trivial .nil
  refine ⟨by decide +kernel, rfl, _, narrowed_moment hstore rfl, rfl, ?_, ?_⟩
  · intro c hc
    simp [narrowedState] at hc
  · intro hpresent
    cases hpresent

end Zith.Hir
