import Zith.Hir.Verifier
import Zith.Lib.Marking
import Zith.Vm.LowerModule

/-! The functions that `reachableFunctions` marks are closed under calls (`reachableFunctions_closed`). The scan of an
    expression is a search that enters each expression once; what it enters it also asks for callees.

        pending ──cursor──▶ roots of a function ──search──▶ expressions below ──▶ callees ──▶ pending

    What is marked waits, or has been scanned. At the end nothing waits. -/

namespace Zith.Vm
open Lib Hir Relation

/-- `id` is in the expression tree of `root`. -/
def InTree (hir : HirModule) (root id : HirExprId) : Prop :=
  ReflTransGen (fun a b => ∃ expr, hir.exprs[a.toNat]? = some expr ∧ b ∈ children expr) root id

/-- What an instruction calls, printing apart. -/
def callees (hir : HirModule) : HirExpr → List HirFunctionId
  | .call call | .stateTailCall call =>
    if hir.fns[call.resolvedFn.toNat]?.any fun fn => startsWith fn.name (text "std.io.console.print") then []
    else [call.resolvedFn]
  | .makeDyn _ _ _ vtableName _ | .dynCall _ vtableName _ _ _ _ _ _ =>
    (hir.vtables.find? (·.name == vtableName)).elim [] (·.slots)
  | _ => []

def HasBody (hir : HirModule) (id : HirFunctionId) : Prop := ∃ fn, hir.fns[id.toNat]? = some fn ∧ fn.hasBody

/-- The instructions and terminators of a function. -/
def bodyRoots (fn : HirFunction) : List HirExprId := fn.blocks.flatMap fun block => block.insts ++ [block.terminator]

/-- The scan goes to every operand. -/
theorem scanned_eq_children (expr : HirExpr) : scanned expr = children expr := by
  cases expr <;> rfl

section
variable {hir : HirModule} {s t : Reach} {id : HirFunctionId} {ids : List HirFunctionId} {x : HirExprId} {expr : HirExpr}

theorem enqueueCallees_eq_foldl : enqueueCallees hir s expr = (callees hir expr).foldl (enqueueFunction hir) s := by
  have hdirect (id : HirFunctionId) : enqueueDirectCall hir s id =
      (if hir.fns[id.toNat]?.any fun fn => startsWith fn.name (text "std.io.console.print") then [] else [id]).foldl
        (enqueueFunction hir) s := by
    cases hfn : hir.fns[id.toNat]? with
    | none => simp [enqueueDirectCall, enqueueFunction, hfn]
    | some fn => by_cases hprint : startsWith fn.name (text "std.io.console.print") <;>
        simp [enqueueDirectCall, hfn, hprint]
  have hvtable (name : Text) : enqueueVTable hir s name =
      ((hir.vtables.find? (·.name == name)).elim [] (·.slots)).foldl (enqueueFunction hir) s := by
    rw [enqueueVTable]
    cases hir.vtables.find? (·.name == name) <;> rfl
  cases expr with
  | call call => exact hdirect call.resolvedFn
  | stateTailCall call => exact hdirect call.resolvedFn
  | makeDyn _ _ _ vtableName _ => exact hvtable vtableName
  | dynCall _ vtableName _ _ _ _ _ _ => exact hvtable vtableName
  | _ => rfl

/-! ### The functions that wait -/

/-- Every marked function has been put among those that wait, each once, and has a body. -/
structure Reach.Queued (hir : HirModule) (s : Reach) : Prop where
  hasBody : ∀ id ∈ s.pending, HasBody hir id
  pending : ∀ i : ℕ, s.reachable[i]? = some true → ∃ id ∈ s.pending, id.toNat = i
  length : s.reachable.length = hir.fns.length
  count : s.pending.length + s.reachable.count false = hir.fns.length

/-- What is marked stays so, and what waits does. -/
structure Reach.Grows (s t : Reach) : Prop where
  reachable : ∀ i : ℕ, s.reachable[i]? = some true → t.reachable[i]? = some true
  pending : s.pending <+: t.pending

theorem Reach.Grows.refl (s : Reach) : s.Grows s := ⟨fun _ h => h, List.prefix_rfl⟩

theorem Reach.Grows.trans {u : Reach} (h : s.Grows t) (h' : t.Grows u) : s.Grows u :=
  ⟨fun i hi => h'.reachable i (h.reachable i hi), h.pending.trans h'.pending⟩

/-- A function is put among those that wait when it has a body and is not marked. -/
theorem enqueueFunction_cases (hir : HirModule) (s : Reach) (id : HirFunctionId) :
    enqueueFunction hir s id = s ∧ (HasBody hir id → s.reachable[id.toNat]? ≠ some false) ∨
      HasBody hir id ∧ s.reachable[id.toNat]? = some false ∧ enqueueFunction hir s id =
          { s with reachable := s.reachable.set id.toNat true, pending := s.pending ++ [id] } := by
  rw [enqueueFunction]
  split
  · rename_i fn hfn hmark
    split
    · exact Or.inr ⟨⟨fn, hfn, ‹_›⟩, hmark, rfl⟩
    · refine Or.inl ⟨rfl, ?_⟩
      rintro ⟨fn', hfn', hbody⟩
      cases hfn.symm.trans hfn'
      contradiction
  · rename_i hno
    refine Or.inl ⟨rfl, ?_⟩
    rintro ⟨fn, hfn, -⟩ hmark
    exact hno fn hfn hmark

theorem enqueueFunction_visited : (enqueueFunction hir s id).visited = s.visited := by
  rcases enqueueFunction_cases hir s id with ⟨h, -⟩ | ⟨-, -, h⟩ <;> rw [h]

theorem enqueueFunction_grows : s.Grows (enqueueFunction hir s id) := by
  rcases enqueueFunction_cases hir s id with ⟨h, -⟩ | ⟨-, hmark, h⟩
  · rw [h]
    exact .refl s
  · rw [h]
    exact ⟨fun i hi => (getElem?_set_true hmark).mpr (Or.inl hi), List.prefix_append _ _⟩

theorem Reach.Queued.enqueueFunction (h : s.Queued hir) (id : HirFunctionId) :
    (enqueueFunction hir s id).Queued hir := by
  rcases enqueueFunction_cases hir s id with ⟨heq, -⟩ | ⟨hbody, hmark, heq⟩
  · rwa [heq]
  · rw [heq]
    obtain ⟨hlt, hfalse⟩ := List.getElem?_eq_some_iff.mp hmark
    refine ⟨?_, fun i hi => ?_, by simpa using h.length, ?_⟩
    · simpa [List.mem_append, or_imp, forall_and] using ⟨h.hasBody, hbody⟩
    · rcases (getElem?_set_true hmark).mp hi with hi | rfl
      · obtain ⟨id', hid', hi'⟩ := h.pending i hi
        exact ⟨id', List.mem_append_left _ hid', hi'⟩
      · exact ⟨id, by simp, rfl⟩
    · have hcount := h.count
      have hpos : 0 < s.reachable.count false := List.count_pos_iff.mpr (List.mem_of_getElem? hmark)
      simp [List.count_set hlt, hfalse]
      omega

/-- A function with a body is marked when it has been called. -/
theorem Reach.Queued.marks (h : s.Queued hir) (hbody : HasBody hir id) :
    (Vm.enqueueFunction hir s id).reachable[id.toNat]? = some true := by
  have hknown := hbody
  obtain ⟨fn, hfn, -⟩ := hknown
  have hlt : id.toNat < s.reachable.length := by
    rw [h.length]
    exact (List.getElem?_eq_some_iff.mp hfn).1
  rcases enqueueFunction_cases hir s id with ⟨heq, hmark⟩ | ⟨-, -, heq⟩
  · rw [heq]
    have hne := hmark hbody
    rw [List.getElem?_eq_getElem hlt] at hne ⊢
    cases hb : s.reachable[id.toNat] <;> simp_all
  · rw [heq]
    simp [hlt]

theorem foldl_enqueueFunction (ids : List HirFunctionId) (h : s.Queued hir) : let t := ids.foldl (enqueueFunction hir) s
    t.Queued hir ∧ s.Grows t ∧ t.visited = s.visited ∧
      ∀ id ∈ ids, HasBody hir id → t.reachable[id.toNat]? = some true := by
  induction ids generalizing s with
  | nil => exact ⟨h, .refl s, rfl, by simp⟩
  | cons id ids ih =>
    obtain ⟨hqueued, hgrows, hvisited, hmarks⟩ := ih (h.enqueueFunction id)
    refine ⟨hqueued, enqueueFunction_grows.trans hgrows, hvisited.trans enqueueFunction_visited, ?_⟩
    simp only [List.mem_cons, forall_eq_or_imp]
    exact ⟨fun hbody => hgrows.reachable _ (h.marks hbody), hmarks⟩

/-! ### The scan of an expression -/

/-- An expression that is there and not yet visited is visited, and its callees are put among the functions that wait. -/
def enterExpression (hir : HirModule) (x : HirExprId) (s : Reach) : Option Reach :=
  match hir.exprs[x.toNat]?, s.visited[x.toNat]? with
  | some expr, some false => some (enqueueCallees hir { s with visited := s.visited.set x.toNat true } expr)
  | _, _ => none

/-- What an expression of the module calls. -/
def calleesAt (hir : HirModule) (x : HirExprId) : List HirFunctionId := (hir.exprs[x.toNat]?).elim [] (callees hir)

theorem enterExpression_eq_none :
    enterExpression hir x s = none ↔ hir.exprs[x.toNat]? = none ∨ s.visited[x.toNat]? ≠ some false := by
  rw [enterExpression]
  split
  · rename_i hexpr hvisited
    simp [hexpr, hvisited]
  · rename_i hno
    cases hexpr : hir.exprs[x.toNat]? with
    | none => simp
    | some expr => simpa using hno expr hexpr

theorem enterExpression_eq_some (h : enterExpression hir x s = some t) : s.visited[x.toNat]? = some false ∧
      t = (calleesAt hir x).foldl (enqueueFunction hir) { s with visited := s.visited.set x.toNat true } := by
  rw [enterExpression] at h
  split at h
  · rename_i expr hexpr hvisited
    rw [calleesAt, hexpr, ← Option.some.inj h]
    exact ⟨hvisited, enqueueCallees_eq_foldl⟩
  · cases h

theorem foldl_enqueueFunction_visited (ids : List HirFunctionId) :
    ∀ s, (ids.foldl (enqueueFunction hir) s).visited = s.visited := by
  induction ids with
  | nil => exact fun s => rfl
  | cons id ids ih => exact fun s => (ih _).trans enqueueFunction_visited

theorem enterExpression_visited (h : enterExpression hir x s = some t) : t.visited = s.visited.set x.toNat true := by
  rw [(enterExpression_eq_some h).2, foldl_enqueueFunction_visited]

variable (hir) in
/-- The scan as a search. -/
def expressionMarking : Marking HirExprId Reach where
  enter := enterExpression hir
  next x := (hir.exprs[x.toNat]?).elim [] scanned
  left s := s.visited.count false
  enter_self {x s t} h := by
    rw [enterExpression_eq_none, enterExpression_visited h]
    simp [List.getElem?_set]
  enter_done {x y s t} hx h := by
    rw [enterExpression_eq_none] at hx ⊢
    rw [enterExpression_visited h, List.getElem?_set]
    refine hx.imp_right fun hx => ?_
    split
    · simp
    · exact hx
  enter_other {x y s t} h hx := by
    rw [enterExpression_eq_none, enterExpression_visited h, List.getElem?_set] at hx
    by_cases heq : y.toNat = x.toNat
    · exact Or.inl (UInt32.toNat_inj.mp heq).symm
    · rw [if_neg heq] at hx
      exact Or.inr (enterExpression_eq_none.mpr hx)
  enter_left {x s t} h := by
    obtain ⟨hlt, hfalse⟩ := List.getElem?_eq_some_iff.mp (enterExpression_eq_some h).1
    have hpos : 0 < s.visited.count false := List.count_pos_iff.mpr (List.mem_of_getElem? (enterExpression_eq_some h).1)
    rw [enterExpression_visited h, List.count_set hlt, hfalse]
    simpa using hpos

theorem scanExpression_eq_search (fuel : ℕ) : scanExpression hir fuel = (expressionMarking hir).search fuel := by
  induction fuel with
  | zero =>
    funext s x
    rfl
  | succ fuel ih =>
    funext s x
    have henter : (expressionMarking hir).enter x s = enterExpression hir x s := rfl
    have hnext : (expressionMarking hir).next x = (hir.exprs[x.toNat]?).elim [] scanned := rfl
    rw [scanExpression, Marking.search, ih, henter, hnext, enterExpression]
    cases hir.exprs[x.toNat]? with
    | none => rfl
    | some expr =>
      cases s.visited[x.toNat]? with
      | none => rfl
      | some mark => cases mark <;> rfl

/-- The queue is in order, and what the visited expressions call is marked. -/
structure Reach.Scanning (hir : HirModule) (s : Reach) : Prop extends s.Queued hir where
  visited_length : s.visited.length = hir.exprs.length
  called : ∀ x, (expressionMarking hir).Done s x → ∀ id ∈ calleesAt hir x, HasBody hir id →
    s.reachable[id.toNat]? = some true

theorem Reach.Scanning.enter (h : s.Scanning hir) (henter : (expressionMarking hir).enter x s = some t) :
    t.Scanning hir ∧ s.Grows t := by
  obtain ⟨-, heq⟩ := enterExpression_eq_some henter
  have hmarked : Reach.Queued hir { s with visited := s.visited.set x.toNat true } :=
    ⟨h.hasBody, h.pending, h.length, h.count⟩
  obtain ⟨hqueued, hgrows, hvisited, hmarks⟩ := foldl_enqueueFunction (calleesAt hir x) hmarked
  rw [← heq] at hqueued hgrows hvisited hmarks
  have hgrows' : s.Grows t := ⟨hgrows.reachable, hgrows.pending⟩
  refine ⟨⟨hqueued, ?_, fun y hy id hid hbody => ?_⟩, hgrows'⟩
  · rw [hvisited, List.length_set]
    exact h.visited_length
  · -- `y` is the expression that has been entered, or it was done before
    rcases (expressionMarking hir).enter_other henter hy with rfl | hdone
    · exact hmarks id hid hbody
    · exact hgrows'.reachable _ (h.called y hdone id hid hbody)

theorem Reach.Scanning.searched {xs : List HirExprId} (h : s.Scanning hir)
    (hsearched : (expressionMarking hir).Searched s xs t) : t.Scanning hir ∧ s.Grows t := by
  refine hsearched.induct (P := fun t => t.Scanning hir ∧ s.Grows t) (fun henter hP => ?_) ⟨h, .refl s⟩
  obtain ⟨hscanning, hgrows⟩ := hP.1.enter henter
  exact ⟨hscanning, hP.2.trans hgrows⟩

/-! ### The loop over the functions that wait -/

/-- The functions in front of the cursor have been scanned. -/
structure Reach.Processed (hir : HirModule) (cursor : ℕ) (s : Reach) : Prop extends s.Scanning hir where
  cursor_le : cursor ≤ s.pending.length
  closed : ∀ x, (expressionMarking hir).Done s x → ∀ y ∈ (expressionMarking hir).next x,
    (expressionMarking hir).Done s y
  roots : ∀ k < cursor, ∀ id, s.pending[k]? = some id → ∀ fn, hir.fns[id.toNat]? = some fn →
    ∀ x ∈ bodyRoots fn, (expressionMarking hir).Done s x

theorem Reach.Processed.step {cursor : ℕ} {fn : HirFunction} (h : s.Processed hir cursor)
    (hpending : s.pending[cursor]? = some id) (hfn : hir.fns[id.toNat]? = some fn)
    (hsearched : (expressionMarking hir).Searched s (bodyRoots fn) t) : t.Processed hir (cursor + 1) := by
  obtain ⟨hscanning, hgrows⟩ := h.searched hsearched
  obtain ⟨hlt, -⟩ := List.getElem?_eq_some_iff.mp hpending
  have hsame : ∀ k ≤ cursor, t.pending[k]? = s.pending[k]? := fun k hk => by
    obtain ⟨more, hmore⟩ := hgrows.pending
    rw [← hmore, List.getElem?_append_left (by omega)]
  refine ⟨hscanning, ?_, fun x hx y hy => ?_, fun k hk id' hid' fn' hfn' x hx => ?_⟩
  · exact hlt.trans_le hgrows.pending.length_le
  · rcases hsearched.closed x hx with hdone | hnext
    · exact (h.closed x hdone y hy).later hsearched.later
    · exact hnext y hy
  · rw [hsame k (by omega)] at hid'
    rcases Nat.lt_succ_iff_lt_or_eq.mp hk with hk | rfl
    · exact (h.roots k hk id' hid' fn' hfn' x hx).later hsearched.later
    · cases hpending.symm.trans hid'
      cases hfn.symm.trans hfn'
      exact hsearched.done x hx

/-- The loop ends, with nothing that waits. -/
theorem scanFunctions_returns {cursor : ℕ} (h : s.Processed hir cursor) :
    ∃ t, t.Processed hir t.pending.length ∧ ∀ depth fuel, hir.exprs.length < depth →
      hir.fns.length < fuel + cursor → scanFunctions hir depth fuel cursor s = some t := by
  have hle : s.pending.length ≤ hir.fns.length := by
    have := h.count
    omega
  induction hn : hir.fns.length - cursor using Nat.strong_induction_on generalizing cursor s with
  | _ n ih =>
    subst hn
    cases hpending : s.pending[cursor]? with
    | none =>
      have hend : cursor = s.pending.length := le_antisymm h.cursor_le (List.getElem?_eq_none_iff.mp hpending)
      subst hend
      refine ⟨s, h, fun depth fuel _ hfuel => ?_⟩
      obtain ⟨fuel, rfl⟩ := Nat.exists_eq_add_one_of_ne_zero (n := fuel) (by omega)
      rw [scanFunctions, hpending]
    | some id =>
      obtain ⟨fn, hfn, -⟩ := h.hasBody id (List.mem_of_getElem? hpending)
      obtain ⟨u, hsearched, hsearch⟩ := Marking.searchAll_returns (M := expressionMarking hir) s (bodyRoots fn)
      have hu := h.step hpending hfn hsearched
      obtain ⟨hlt, -⟩ := List.getElem?_eq_some_iff.mp hpending
      obtain ⟨t, ht, hrun⟩ := ih (hir.fns.length - (cursor + 1)) (by omega) hu (by have := hu.count; omega) rfl
      refine ⟨t, ht, fun depth fuel hdepth hfuel => ?_⟩
      obtain ⟨fuel, rfl⟩ := Nat.exists_eq_add_one_of_ne_zero (n := fuel) (by omega)
      have hleft : (expressionMarking hir).left s < depth :=
        (List.count_le_length.trans_eq h.visited_length).trans_lt hdepth
      have hscan : (bodyRoots fn).foldlM (scanExpression hir depth) s = some u := by
        rw [scanExpression_eq_search]
        exact hsearch depth hleft
      rw [scanFunctions, hpending]
      simp only [hfn, Option.bind_eq_bind, Option.bind_some]
      rw [show (fn.blocks.flatMap fun block => block.insts ++ [block.terminator]) = bodyRoots fn from rfl, hscan]
      exact hrun depth fuel hdepth (by omega)

/-- InTree what is done, everything is done. -/
theorem Reach.Processed.inTree {cursor : ℕ} {root : HirExprId} (h : s.Processed hir cursor)
    (hroot : (expressionMarking hir).Done s root) (htree : InTree hir root x) : (expressionMarking hir).Done s x := by
  induction htree with
  | refl => exact hroot
  | tail _ hchild ih =>
    obtain ⟨expr, hexpr, hmem⟩ := hchild
    refine h.closed _ ih _ ?_
    simpa [expressionMarking, hexpr, scanned_eq_children] using hmem

end

end Zith.Vm
