import Zith.Hir.Dominators

/-! Guards of `HirVerifier::verify`: a branch whose condition says that a use is safe, on the one of its
    edges that every path to the use has taken last.

        guard ──then──▶ … ──▶ use            the search for `use` goes every way but this edge
          └────else──▶ …

    A negation may be its own operand, so the recursion through negations has fuel. -/

namespace Zith.Hir
open Zith.Lib

def HirUnaryOp.not : UInt8 := 1

/-- The edge of a branch that `selected_then` names. -/
def selectedExit (selectedThen : Bool) : Exit := if selectedThen then .thenBlock else .elseBlock

section
variable (m : HirModule) (fn : HirFunction) (reachable : List Bool) (dominators : List (List Bool))

/-- Where the search goes on from a block: not along the selected edge of the guard. -/
def targetsWithout (guardBlock : ℕ) (selectedThen : Bool) (source : ℕ) : List ℕ :=
  (match terminator m fn source with
    | some (.branch _ thenBlock elseBlock) =>
      if source = guardBlock then (if selectedThen then [elseBlock.toNat] else [thenBlock.toNat])
      else [thenBlock.toNat, elseBlock.toNat]
    | some (.jump target) => [target.toNat]
    | _ => []).filter (flag reachable)

def selectedEdgeDominates (useBlock guardBlock : ℕ) (selectedThen : Bool) : Option Bool :=
  if useBlock ≥ blockCount fn || guardBlock ≥ blockCount fn || !flag reachable useBlock ||
      !flag reachable guardBlock || !entry dominators useBlock guardBlock then some false
  else
    (search (targetsWithout m fn reachable guardBlock selectedThen) (· == useBlock) (blockCount fn) [0]
      ((List.replicate (blockCount fn) false).set 0 true)).map fun found => !found.1

/-- Whether the condition or its negation matches, and nothing when neither does. -/
def guardPolarity (matching : HirExprId → Option Bool) : ℕ → HirExprId → Option (Option Bool)
  | 0, _ => none
  | fuel + 1, condition =>
    match m.tryExpr condition with
    | none => some none
    | some expr =>
      match matching condition, expr with
      | some direct, _ => some (some direct)
      | none, .unary op operand _ =>
        if op = HirUnaryOp.not then (guardPolarity matching fuel operand).map (Option.map not) else some none
      | none, _ => some none

/-- One round of the loop of `hasDominatingGuard`. -/
def isDominatingGuard (fuel : ℕ) (matching : HirExprId → Option Bool) (useBlock guardBlock : ℕ) :
    Option Bool :=
  if !flag reachable guardBlock || !entry dominators useBlock guardBlock then some false
  else
    match terminator m fn guardBlock with
    | some (.branch cond thenBlock elseBlock) =>
      if thenBlock = elseBlock then some false
      else do
        match ← guardPolarity m matching fuel cond with
        | none => return false
        | some selectedThen => selectedEdgeDominates m fn reachable dominators useBlock guardBlock selectedThen
    | _ => some false

def hasDominatingGuard (fuel : ℕ) (matching : HirExprId → Option Bool) (useBlock : ℕ) : Option Bool :=
  if useBlock ≥ blockCount fn || !flag reachable useBlock then some false
  else (List.range (blockCount fn)).anyM (isDominatingGuard m fn reachable dominators fuel matching useBlock)

end

/-! ### The search around an edge -/

section
variable {m : HirModule} {fn : HirFunction} {reachable : List Bool} {dominators : List (List Bool)}

theorem mem_targetsWithout {g a b : ℕ} {s : Bool} {exit : Exit} (hexit : (exit, b) ∈ exits m fn a)
    (hother : ¬(a = g ∧ exit = selectedExit s)) (hreach : flag reachable b = true) :
    b ∈ targetsWithout m fn reachable g s a := by
  refine List.mem_filter.mpr ⟨?_, hreach⟩
  rw [exits] at hexit
  generalize terminator m fn a = t at hexit ⊢
  split at hexit
  · rename_i cond thenBlock elseBlock
    change b ∈ if a = g then if s = true then [elseBlock.toNat] else [thenBlock.toNat] else
      [thenBlock.toNat, elseBlock.toNat]
    split
    · rename_i hguard
      rcases List.mem_cons.mp hexit with h | h
      · cases h
        cases s with
        | true => exact absurd ⟨hguard, rfl⟩ hother
        | false => exact List.mem_singleton.mpr rfl
      · cases List.mem_singleton.mp h
        cases s with
        | true => exact List.mem_singleton.mpr rfl
        | false => exact absurd ⟨hguard, rfl⟩ hother
    · rcases List.mem_cons.mp hexit with h | h
      · cases h
        exact List.mem_cons_self ..
      · cases List.mem_singleton.mp h
        exact List.mem_cons_of_mem _ (List.mem_singleton.mpr rfl)
  · cases List.mem_singleton.mp hexit
    exact List.mem_singleton.mpr rfl
  · exact absurd hexit List.not_mem_nil

/-- A path that does not take the selected edge of the guard is one the search goes. -/
theorem goes_of_without (hmarks : MarksReachable m fn reachable) {g u : ℕ} {s : Bool} {steps : List (ℕ × Exit)}
    (walk : Walk (Without (Edge m fn) g (selectedExit s)) 0 u steps) : Path m fn u steps ∧
      Relation.ReflTransGen (Goes (targetsWithout m fn reachable g s) (blockCount fn)) 0 u := by
  induction walk with
  | start => exact ⟨.start, .refl⟩
  | @step a b exit steps walk edge ih =>
    obtain ⟨path, hgoes⟩ := ih
    have path' : Path m fn b ((a, exit) :: steps) := path.step edge.1
    refine ⟨path', hgoes.tail ⟨?_, edge.1.2⟩⟩
    exact mem_targetsWithout edge.1.1 edge.2 ((hmarks b edge.1.2).mpr ⟨_, path'⟩)

/-- Every path to the use takes the selected edge when it leaves the guard the last time. -/
theorem last_exit (hmarks : MarksReachable m fn reachable) {u g : ℕ} {s : Bool}
    (h : selectedEdgeDominates m fn reachable dominators u g s = some true) {steps : List (ℕ × Exit)}
    (path : Path m fn u steps) : steps.find? (fun p => p.1 = g) = some (g, selectedExit s) := by
  refine last_departure ?_ path
  rintro ⟨steps', walk⟩
  obtain ⟨-, hgoes⟩ := goes_of_without hmarks walk
  rw [selectedEdgeDominates] at h
  split at h
  · cases h
  · rename_i hguard
    simp only [Bool.or_eq_true, decide_eq_true_eq, not_or, not_le] at hguard
    have hpos : 0 < blockCount fn := Nat.zero_lt_of_lt hguard.1.1.1.1
    have hsearch := searched (targetsWithout m fn reachable g s) (· == u) hpos
    generalize search (targetsWithout m fn reachable g s) (· == u) (blockCount fn) [0]
      ((List.replicate (blockCount fn) false).set 0 true) = r at h hsearch
    cases hsearch with
    | stopped marks node hreached hstop => cases h
    | exhausted marks hlength hmarked hpassed =>
      have hstop := hpassed u hgoes
      rw [beq_self_eq_true] at hstop
      cases hstop

/-! ### Polarity -/

/-- The condition matches once its negations are undone; every negation turns the answer over. -/
inductive Polarity (m : HirModule) (matching : HirExprId → Option Bool) : HirExprId → Bool → Prop
  | direct {condition : HirExprId} {answer : Bool} (hmatch : matching condition = some answer) :
      Polarity m matching condition answer
  | negated {condition operand : HirExprId} {type : TypeId} {answer : Bool}
      (hnot : m.tryExpr condition = some (.unary HirUnaryOp.not operand type))
      (hoperand : Polarity m matching operand answer) : Polarity m matching condition !answer

theorem polarity_of_guardPolarity {matching : HirExprId → Option Bool} :
    ∀ {fuel : ℕ} {condition : HirExprId} {answer : Bool},
      guardPolarity m matching fuel condition = some (some answer) → Polarity m matching condition answer := by
  intro fuel
  induction fuel with
  | zero =>
    intro condition answer h
    cases h
  | succ fuel ih =>
    intro condition answer h
    rw [guardPolarity] at h
    split at h
    · cases h
    · rename_i expr hexpr
      split at h
      · rename_i direct _ hmatch
        cases h
        exact .direct hmatch
      · rename_i op operand type hmatch
        split at h
        · rename_i hop
          subst hop
          obtain ⟨inner, hinner, hmap⟩ := Option.map_eq_some_iff.mp h
          obtain ⟨nested, rfl, hnested⟩ := Option.map_eq_some_iff.mp hmap
          obtain rfl : (!nested) = answer := hnested
          exact .negated hexpr (ih hinner)
        · cases h
      · cases h

theorem anyM_eq_true {α : Type} {f : α → Option Bool} : ∀ {l : List α}, l.anyM f = some true →
    ∃ a ∈ l, f a = some true := by
  intro l
  induction l with
  | nil => intro h; cases h
  | cons a l ih =>
    intro h
    rw [List.anyM] at h
    cases hf : f a with
    | none =>
      rw [hf] at h
      cases h
    | some b =>
      rw [hf] at h
      cases b with
      | true => exact ⟨a, List.mem_cons_self .., hf⟩
      | false =>
        obtain ⟨b, hb, hfb⟩ := ih h
        exact ⟨b, List.mem_cons_of_mem _ hb, hfb⟩

/-- A branch on a matching condition, with the edge that answers it. -/
structure GuardOf (m : HirModule) (fn : HirFunction) (matching : HirExprId → Option Bool) (g : ℕ) (s : Bool) :
    Prop where
  branch : ∃ cond thenBlock elseBlock, terminator m fn g = some (.branch cond thenBlock elseBlock) ∧
    thenBlock ≠ elseBlock ∧ Polarity m matching cond s

theorem guard_of_hasDominatingGuard {fuel : ℕ} {matching : HirExprId → Option Bool} {u : ℕ}
    (h : hasDominatingGuard m fn reachable dominators fuel matching u = some true) :
    ∃ g s, GuardOf m fn matching g s ∧ selectedEdgeDominates m fn reachable dominators u g s = some true := by
  rw [hasDominatingGuard] at h
  split at h
  · cases h
  · obtain ⟨g, -, hg⟩ := anyM_eq_true h
    rw [isDominatingGuard] at hg
    split at hg
    · cases hg
    · split at hg
      · rename_i cond thenBlock elseBlock hterm
        split at hg
        · cases hg
        · rename_i hne
          obtain ⟨polarity, hpolarity, hselected⟩ := Option.bind_eq_some_iff.mp hg
          cases polarity with
          | none => cases hselected
          | some s =>
            exact ⟨g, s, ⟨cond, thenBlock, elseBlock, hterm, hne, polarity_of_guardPolarity hpolarity⟩, hselected⟩
      · cases hg

/-- A guard is taken last by the edge it is selected for, and a use is guarded only by a branch whose
    condition matches. -/
theorem guard_taken_last {fuel : ℕ} (h : dominatorsOf m fn fuel = some (reachable, dominators)) :
    (∀ {u g s}, selectedEdgeDominates m fn reachable dominators u g s = some true →
      ∀ {steps}, Path m fn u steps → steps.find? (fun p => p.1 = g) = some (g, selectedExit s)) ∧
    ∀ {fuel matching u}, hasDominatingGuard m fn reachable dominators fuel matching u = some true →
      ∃ g s, GuardOf m fn matching g s ∧ selectedEdgeDominates m fn reachable dominators u g s = some true := by
  obtain ⟨reachable', hreachable, -, hmarks⟩ := reachableBlocks_spec m fn
  obtain ⟨marks, hmarks', hrest⟩ := Option.bind_eq_some_iff.mp h
  obtain rfl : reachable' = marks := by rw [hreachable] at hmarks'; exact Option.some.inj hmarks'
  obtain ⟨D, -, hpair⟩ := Option.bind_eq_some_iff.mp hrest
  cases hpair
  exact ⟨fun hselected _ path => last_exit hmarks hselected path, fun hguard => guard_of_hasDominatingGuard hguard⟩

end

/-- Block 0 branches on a condition, is the target of its own else edge, and has block 1 behind its then edge. -/
def guardedModule : HirModule := { exprs := [.var [] 0, .branch 0 1 0, .ret kInvalidHirExpr] }

def guardedFunction : HirFunction where
  name := []
  params := []
  paramNames := []
  paramSlots := []
  returnType := 0
  isState := false
  usesTailCC := false
  machineReturnType := 0
  machineId := 0
  isVariadic := false
  variadicSliceParam := none
  isForeignC := false
  hasBody := true
  foreignAdapterName := none
  blocks := [⟨[], 1⟩, ⟨[], 2⟩]

def guardedMatching (condition : HirExprId) : Option Bool := if condition = 0 then some true else none

theorem guard_taken_last_loop : (Path guardedModule guardedFunction 1 [(0, .thenBlock), (0, .elseBlock)] ∧
      [(0, Exit.thenBlock), (0, Exit.elseBlock)].find? (fun p => p.1 = 0) = some (0, selectedExit true)) ∧
      ∃ g s, GuardOf guardedModule guardedFunction guardedMatching g s ∧
        selectedEdgeDominates guardedModule guardedFunction [true, true] [[true, false], [true, true]] 1 g s =
          some true := by
  have hdominators : dominatorsOf guardedModule guardedFunction 5 =
      some ([true, true], [[true, false], [true, true]]) := by decide +kernel
  have hpath : Path guardedModule guardedFunction 1 [(0, .thenBlock), (0, .elseBlock)] :=
    (Walk.start.step (b := 0) ⟨by decide +kernel, by decide +kernel⟩).step ⟨by decide +kernel, by decide +kernel⟩
  have hselected : selectedEdgeDominates guardedModule guardedFunction [true, true]
      [[true, false], [true, true]] 1 0 true = some true := by decide +kernel
  have hguard : hasDominatingGuard guardedModule guardedFunction [true, true] [[true, false], [true, true]] 1
      guardedMatching 1 = some true := by decide +kernel
  exact ⟨⟨hpath, (guard_taken_last hdominators).1 hselected hpath⟩, (guard_taken_last hdominators).2 hguard⟩

end Zith.Hir
