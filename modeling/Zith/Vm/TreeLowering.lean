import Zith.Vm.ConstantTrees

/-! `lowerModule` on a module whose only function `main` returns a tree of integer literals, and `runMain` on
    what it accepts: the run ends with the value of the tree whose literals are cut to 16 bits. -/

namespace Zith.Vm
open Lib Hir Layout
open Types (TypeIntern)

/-- The only function is `main`, and all it does is return the tree. -/
structure ReturnsTree (hir : HirModule) (types : TypeIntern) (main : HirFunction) (ret root : HirExprId)
    (tree : Tree) : Prop where
  fns : hir.fns = [main]
  name : sourceName main.name = text "main"
  hasBody : main.hasBody = true
  params : main.params = []
  paramNames : main.paramNames = []
  paramSlots : main.paramSlots = []
  returnType : IsWord types main.returnType
  blocks : main.blocks = [⟨[], ret⟩]
  valid : ret ≠ kInvalidHirExpr ∧ root ≠ kInvalidHirExpr
  isRet : hir.exprs[ret.toNat]? = some (.ret root)
  isTree : IsTree hir.exprs types root tree

/-! ### Enough fuel -/

section
variable {hir : HirModule} {types : TypeIntern}

/-- An expression that calls nothing is marked, then what is below it is scanned. -/
theorem scan_children {fuel : ℕ} {id : HirExprId} {expr : HirExpr} (hexpr : hir.exprs[id.toNat]? = some expr)
    (hcallees : ∀ {s}, enqueueCallees hir s expr = s) (s : Reach)
    (h : ∃ visited, (scanned expr).foldlM (scanExpression hir fuel)
      { s with visited := s.visited.set id.toNat true } = some { s with visited }) :
    ∃ visited, scanExpression hir (fuel + 1) s id = some { s with visited } := by
  rw [scanExpression, hexpr]
  split
  · rename_i heq _
    cases heq
    rwa [hcallees]
  · exact ⟨s.visited, rfl⟩

/-- How deep a tree is. -/
def Tree.depth : Tree → ℕ
  | .literal _ => 1
  | .binary _ lhs rhs => max lhs.depth rhs.depth + 1
  | .unary _ operand => operand.depth + 1

/-- A scan of a tree marks expressions and finds no call. -/
theorem scan_tree {id : HirExprId} {tree : Tree} (h : IsTree hir.exprs types id tree) :
    ∀ fuel ≥ tree.depth, ∀ s : Reach, ∃ visited, scanExpression hir fuel s id = some { s with visited } := by
  induction h with
  | literal h _ =>
    intro fuel hfuel s
    cases fuel with
    | zero => exact absurd hfuel (Nat.not_succ_le_zero _)
    | succ fuel => exact scan_children h rfl s ⟨_, rfl⟩
  | @binary id _ _ _ _ _ _ _ h _ _ _ ihl ihr =>
    intro fuel hfuel s
    cases fuel with
    | zero => exact absurd hfuel (Nat.not_succ_le_zero _)
    | succ fuel =>
      obtain ⟨hlfuel, hrfuel⟩ := max_le_iff.mp (Nat.le_of_succ_le_succ hfuel)
      obtain ⟨visited, hlhs⟩ := ihl fuel hlfuel { s with visited := s.visited.set id.toNat true }
      obtain ⟨visited', hrhs⟩ := ihr fuel hrfuel { s with visited }
      refine scan_children h rfl s ⟨visited', ?_⟩
      rw [scanned, List.foldlM_cons, hlhs, Option.bind_eq_bind, Option.bind_some, List.foldlM_cons, hrhs]
      rfl
  | @unary id _ _ _ _ h _ _ ih =>
    intro fuel hfuel s
    cases fuel with
    | zero => exact absurd hfuel (Nat.not_succ_le_zero _)
    | succ fuel =>
      obtain ⟨visited, hoperand⟩ :=
        ih fuel (Nat.le_of_succ_le_succ hfuel) { s with visited := s.visited.set id.toNat true }
      refine scan_children h rfl s ⟨visited, ?_⟩
      rw [scanned, List.foldlM_cons, hoperand]
      rfl

/-- `main` is the only function that is reached. -/
theorem reachable_main {main : HirFunction} {ret root : HirExprId} {tree : Tree}
    (h : ReturnsTree hir types main ret root tree) :
    ∀ fuel ≥ tree.depth + 2, reachableFunctions hir fuel = some [true] := by
  intro fuel hfuel
  have huser : isUserFunction main = true := by
    rw [isUserFunction, h.hasBody, h.name, beq_self_eq_true]
    rfl
  have hroots : (List.range hir.fns.length).filter (fun i => hir.fns[i]?.any isUserFunction) = [0] := by
    rw [h.fns]
    simp [List.range_succ, huser]
  have hstart (s : Reach) (hs : s.reachable = [false]) :
      [(0 : UInt32)].foldl (enqueueFunction hir) s = { s with reachable := [true], pending := s.pending ++ [0] } := by
    simp [enqueueFunction, h.fns, hs, h.hasBody]
  obtain ⟨fuel, rfl⟩ : ∃ n, fuel = n + 1 + 1 := ⟨fuel - 2, by omega⟩
  -- the return is scanned, then the tree behind it
  have hret (s : Reach) : ∃ visited, scanExpression hir (fuel + 1 + 1) s ret = some { s with visited } := by
    obtain ⟨visited, hroot⟩ := scan_tree h.isTree (fuel + 1) (by omega) { s with visited := s.visited.set ret.toNat true }
    refine scan_children h.isRet rfl s ⟨visited, ?_⟩
    rw [scanned, List.foldlM_cons, hroot]
    rfl
  have hfunctions (s : Reach) (hs : s.pending = [0]) :
      ∃ visited, scanFunctions hir (fuel + 1 + 1) (fuel + 1 + 1) 0 s = some { s with visited } := by
    obtain ⟨visited, hvisited⟩ := hret s
    refine ⟨visited, ?_⟩
    simp [scanFunctions, hs, h.fns, h.blocks, hvisited]
  rw [reachableFunctions, hroots]
  simp only [List.map_cons, List.map_nil]
  rw [show UInt32.ofNat 0 = 0 from rfl, hstart _ (by rw [h.fns]; rfl)]
  obtain ⟨visited, hvisited⟩ := hfunctions
    { reachable := [true], pending := [] ++ [0], visited := List.replicate hir.exprs.length false } rfl
  exact congrArg (fun o => o.bind fun s : Reach => some s.reachable) hvisited

end

section
variable {C : LowerContext} {R : Lowering}

/-- A part of the lowering that ends. -/
def Ends {α : Type} (m : LowerM α) : Prop := Succeeds m fun _ => True

theorem ends_pure {α : Type} {a : α} : Ends (pure a : LowerM α) := Succeeds.pure trivial

theorem ends_lowerOperand {id : HirExprId} {expr : HirExpr} (hexpr : C.hir.exprs[id.toNat]? = some expr)
    (h : Ends (lowerExpr C R expr)) : Ends (lowerOperand C R id) := by
  intro s
  rw [lowerOperand, run_bind_of_eq rfl]
  cases s.regs[id.toNat]? with
  | none => exact ends_pure s
  | some known =>
    dsimp only
    split
    · exact ends_pure s
    · rw [getExpr, hexpr, run_bind_of_eq rfl]
      obtain ⟨reg, t, hrun, -⟩ := h s
      rw [run_bind_of_eq hrun]
      exact ⟨reg, _, rfl, trivial⟩

variable {s t : LowerState} {type : TypeId}

theorem ends_lowerBinary {lhs rhs : HirExprId} {op : TreeOp} (hl : Ends (R.operand lhs))
    (hr : Ends (R.operand rhs)) : Ends (lowerBinary C R lhs rhs op.code type) := by
  refine hl.bind fun l _ => hr.bind fun r _ => ?_
  split
  · exact ends_pure
  · rw [binaryOps_code]
    exact fun s => ⟨_, _, rfl, trivial⟩

theorem ends_lowerUnary {operand : HirExprId} {op : TreeUnaryOp} (h : Ends (R.operand operand)) :
    Ends (lowerUnary C R op.code operand type) := by
  rw [lowerUnary, if_neg (by cases op <;> decide), if_neg (by cases op <;> decide)]
  refine Succeeds.bind h fun l _ => ?_
  split
  · exact ends_pure
  · rw [unaryOps_code]
    exact fun s => ⟨_, _, rfl, trivial⟩

theorem operand_ends {id : HirExprId} {tree : Tree} (h : IsTree C.hir.exprs C.types id tree) :
    ∀ fuel ≥ tree.depth, Ends ((lowering C fuel).operand id) := by
  induction h with
  | literal h htype =>
    intro fuel hfuel
    cases fuel with
    | zero => exact absurd hfuel (Nat.not_succ_le_zero _)
    | succ fuel => exact ends_lowerOperand h fun s => ⟨_, _, lowerLiteral_run htype _ s, trivial⟩
  | binary h _ _ _ ihl ihr =>
    intro fuel hfuel
    cases fuel with
    | zero => exact absurd hfuel (Nat.not_succ_le_zero _)
    | succ fuel =>
      obtain ⟨hlfuel, hrfuel⟩ := max_le_iff.mp (Nat.le_of_succ_le_succ hfuel)
      exact ends_lowerOperand h (ends_lowerBinary (ihl fuel hlfuel) (ihr fuel hrfuel))
  | unary h _ _ ih =>
    intro fuel hfuel
    cases fuel with
    | zero => exact absurd hfuel (Nat.not_succ_le_zero _)
    | succ fuel => exact ends_lowerOperand h (ends_lowerUnary (ih fuel (Nat.le_of_succ_le_succ hfuel)))

/-! ### The function -/

/-- The state behind the registers of a function that has none of its own: one register, so that there is one. -/
def preparedState (s : LowerState) : LowerState :=
  { s with
    fn := { s.fn with
      returnsSlice := false
      paramCount := 0
      regCount := 1
      regTypes := s.fn.regTypes ++ List.replicate (1 - s.fn.regTypes.length) .i64 }
    slotRegs := []
    slotWidths := []
    slotTypes := []
    slotAlignments := []
    slotBacked := [] }

theorem isAggregateType_of_isWord {types : TypeIntern} (h : IsWord types type) :
    isAggregateType types type.toNat = false := by
  rw [isAggregateType]
  rcases h with h | h
  · rw [h]
    simp [isAggregateKind]
  · rw [h]
    simp [isAggregateKind]

theorem isSlice_of_isWord {types : TypeIntern} (h : IsWord types type) : isSlice types type.toNat = false := by
  rw [isSlice]
  rcases h with h | h
  · rw [h]
  · rw [h]

variable {main : HirFunction} {ret root : HirExprId} {tree : Tree}

theorem prepare_main (h : ReturnsTree C.hir C.types main ret root tree) (hmain : C.hirFn = main) (s : LowerState) :
    prepareFunctionRegisters C s = some (true, preparedState s) := by
  have hexprs : instructions C = some [] := by
    rw [instructions, hmain, h.blocks]
    rfl
  have hret : prepareReturn C s = some (0, { s with fn := { s.fn with returnsSlice := false } }) := by
    rw [prepareReturn, hmain]
    dsimp only
    rw [isAggregateType_of_isWord h.returnType, isSlice_of_isWord h.returnType]
    rfl
  rw [prepareFunctionRegisters, hmain, if_neg (by rw [h.paramNames, h.params]; exact not_not.mpr rfl),
    run_bind_of_eq hret, h.params, hexprs, h.paramSlots]
  rfl

/-- The return behind the code of the value. -/
def LowerState.returned (s : LowerState) (reg : UInt16) : LowerState :=
  { s with fn := { s.fn with body := s.fn.body ++ [{ op := .ret, a := reg }] } }

theorem lowerRet_assigned {R : Lowering} {reg : UInt16} (hs : s.fn.returnsAggregate = false)
    (hroot : root ≠ kInvalidHirExpr) (hrun : R.operand root s = some (reg, t)) (hreg : reg ≠ kUnassignedReg) :
    lowerRet C R root s = some (some [], t.returned reg) := by
  rw [lowerRet, run_bind_of_eq rfl, run_bind_of_eq rfl, hs, if_neg Bool.false_ne_true, if_neg hroot,
    run_bind_of_eq hrun, if_neg hreg]
  rfl

theorem failReturn_run (message : String) (s : LowerState) :
    ∃ t, failReturn C message s = some (none, t) ∧ t.result.ok = false := by
  rw [failReturn, run_bind_of_eq (show isOk s = some (s.result.ok, s) from rfl)]
  split
  · exact ⟨_, rfl, rfl⟩
  · rename_i hok
    exact ⟨s, rfl, Bool.eq_false_iff.mpr hok⟩

theorem lowerRet_unassigned {R : Lowering} (hs : s.fn.returnsAggregate = false)
    (hroot : root ≠ kInvalidHirExpr) (hrun : R.operand root s = some (kUnassignedReg, t)) :
    ∃ u, lowerRet C R root s = some (none, u) ∧ u.result.ok = false := by
  rw [lowerRet, run_bind_of_eq rfl, run_bind_of_eq rfl, hs, if_neg Bool.false_ne_true, if_neg hroot,
    run_bind_of_eq hrun, if_pos rfl]
  exact failReturn_run _ t

theorem lowerBlocks_main (h : ReturnsTree C.hir C.types main ret root tree) {R : Lowering}
    {targets : Option (List PendingTarget)} (hrun : lowerRet C R root s = some (targets, t)) :
    lowerBlocks C R main.blocks s = some (targets.map fun targets => ([s.fn.body.length], targets ++ []), t) := by
  have hterminator : lowerTerminator C R ret s = some (targets, t) := by
    rw [lowerTerminator, getExpr, h.isRet]
    exact hrun
  rw [h.blocks, lowerBlocks, run_bind_of_eq rfl, run_bind_of_eq (show lowerInsts C R [] s = some (true, s) from rfl),
    if_neg (by decide), if_neg h.valid.1, run_bind_of_eq hterminator]
  cases targets with
  | none => rfl
  | some targets => rfl

/-- What is left to do when the blocks have been lowered. -/
def patchBlocks (code : Option (List ℕ × List PendingTarget)) : LowerM Bool := do
  match code with
  | none => return false
  | some (starts, targets) => patchTargets starts targets

/-- `main` is lowered if the tree has a register. -/
theorem lowerFunction_main (h : ReturnsTree C.hir C.types main ret root tree) (hmain : C.hirFn = main)
    {fuel : ℕ} {reg : UInt16} (hs : s.fn.returnsAggregate = false)
    (hrun : (lowering C fuel).operand root (preparedState s) = some (reg, t)) :
    (reg ≠ kUnassignedReg ∧ lowerFunction C fuel s = some (true, t.returned reg)) ∨
      ∃ u, lowerFunction C fuel s = some (false, u) ∧ u.result.ok = false := by
  have hstart : lowerFunction C fuel s =
      (lowerBlocks C (lowering C fuel) C.hirFn.blocks >>= patchBlocks) (preparedState s) := by
    rw [lowerFunction, run_bind_of_eq (prepare_main h hmain s)]
    rfl
  have hprepared : (preparedState s).fn.returnsAggregate = false := hs
  rw [hstart, hmain]
  rcases eq_or_ne reg kUnassignedReg with rfl | hreg
  · obtain ⟨u, hret, hok⟩ := lowerRet_unassigned (C := C) hprepared h.valid.2 hrun
    exact Or.inr ⟨u, by rw [run_bind_of_eq (lowerBlocks_main h hret)]; rfl, hok⟩
  · refine Or.inl ⟨hreg, ?_⟩
    rw [run_bind_of_eq (lowerBlocks_main h (lowerRet_assigned hprepared h.valid.2 hrun hreg))]
    rfl

end

/-! ### The module -/

section
variable {hir : HirModule} {types : TypeIntern} {main : HirFunction} {ret root : HirExprId} {tree : Tree}

/-- `main` has no receiver, so no vtable needs an adapter. -/
theorem assignAdapter_main (h : ReturnsTree hir types main ret root tree) (s : List UInt16 × ℕ)
    (id : HirFunctionId) : assignAdapter hir types [true] s id = .ok s := by
  rw [assignAdapter, h.fns]
  split
  · rfl
  · rename_i target htarget
    obtain rfl := List.mem_singleton.mp (List.mem_of_getElem? htarget)
    have hadapter : needsAdapter types target = false := by rw [needsAdapter, h.params]
    rw [if_pos (Or.inr (Or.inr hadapter))]

theorem foldlM_ok_self {α β ε : Type} {f : β → α → Except ε β} {b : β} (h : ∀ a, f b a = .ok b) :
    ∀ l : List α, l.foldlM f b = .ok b := by
  intro l
  induction l with
  | nil => rfl
  | cons a l ih =>
    rw [List.foldlM_cons, h]
    exact ih

def mainContext (hir : HirModule) (types : TypeIntern) (main : HirFunction) (fuel : ℕ) : LowerContext :=
  functionContext hir types [0] [kUnassignedReg] fuel main

/-- The state in which the code of `main` starts. -/
def mainStart (hir : HirModule) (types : TypeIntern) (main : HirFunction) : LowerState :=
  functionStart hir types main { out := { functions := [{}] }, events := [[]] }

theorem sound_start {fuel : ℕ} : Sound (mainContext hir types main fuel) (preparedState (mainStart hir types main)) := by
  have hnone : ∀ (i : ℕ) (reg : UInt16), (List.replicate hir.exprs.length kUnassignedReg)[i]? = some reg →
      reg = kUnassignedReg := fun i reg hi => List.eq_of_mem_replicate (List.mem_of_getElem? hi)
  constructor
  · rfl
  · intro vt hvt
    obtain rfl : vt = .i64 := List.mem_singleton.mp hvt
    decide
  · exact fun i reg hi hreg => absurd (hnone i reg hi) hreg
  · exact fun _ _ _ hmem => absurd hmem List.not_mem_nil
  · intro P fn env n _ _
    exact ⟨List.replicate n 0, List.length_replicate, .nil, fun id tree reg hi hreg => absurd (hnone _ reg hi) hreg⟩

/-- What is lowered for `main`: its code puts the value of the tree into a register and returns that. -/
structure MainLowered (C : LowerContext) (root : HirExprId) (t : LowerState) (reg : UInt16) : Prop where
  assigned : reg ≠ kUnassignedReg
  sound : Sound C t
  known : t.regs[root.toNat]? = some reg
  name : t.fn.name = text "main"
  returnsSlice : t.fn.returnsSlice = false

/-- All that a lowering of the module does is lower `main` into row 0. -/
theorem lowerModule_eq (h : ReturnsTree hir types main ret root tree) {fuel : ℕ} (hfuel : fuel ≥ tree.depth + 2)
    {done : Bool} {s : LowerState}
    (hrun : lowerFunction (mainContext hir types main fuel) fuel (mainStart hir types main) = some (done, s)) :
    lowerModule hir types {} fuel = some (setRow s.out [[]] s.result 0 s.fn s.events) := by
  have hadapters : (hir.vtables.flatMap HirVTable.slots).foldlM (assignAdapter hir types [true])
      (List.replicate hir.fns.length kUnassignedReg, 1) = .ok ([kUnassignedReg], 1) := by
    rw [foldlM_ok_self (assignAdapter_main h _), h.fns]
    rfl
  have hindices : assignIndices [true] 0 = .ok ([0], 1) := rfl
  have hnext : lowerNext hir types [true] [0] [kUnassignedReg] fuel 0 main
      { out := { functions := [{}] }, events := [[]] } =
        some (done, setRow s.out [[]] s.result 0 s.fn s.events) := by
    change (lowerFunction (mainContext hir types main fuel) fuel (mainStart hir types main)).bind _ = _
    rw [hrun]
    rfl
  rw [lowerModule, reachable_main h fuel hfuel, Option.bind_eq_bind, Option.bind_some, List.length_nil, hindices]
  dsimp only
  rw [hadapters]
  dsimp only
  rw [h.fns]
  change ((lowerNext hir types [true] [0] [kUnassignedReg] fuel 0 main
    { out := { functions := [{}] }, events := [[]] }).bind _).bind _ = _
  rw [hnext]
  cases done with
  | false => rfl
  | true => rfl

theorem lowerModule_main (h : ReturnsTree hir types main ret root tree) {fuel : ℕ} (hfuel : fuel ≥ tree.depth + 2) :
    ∃ l, lowerModule hir types {} fuel = some l ∧ (l.result.ok = true →
      ∃ t reg, MainLowered (mainContext hir types main fuel) root t reg ∧
        l.out = { functions := [(t.returned reg).fn] }) := by
  obtain ⟨reg, t, hrun, -⟩ := operand_ends (C := mainContext hir types main fuel) h.isTree fuel (by omega)
    (preparedState (mainStart hir types main))
  rcases lowerFunction_main (C := mainContext hir types main fuel) h rfl rfl hrun with ⟨hreg, hlower⟩ | ⟨u, hlower, hok⟩
  · obtain ⟨hsound, hgrown, hknown⟩ :=
      operand_lowered (C := mainContext hir types main fuel) h.isTree hrun sound_start hreg
    have hout : t.out = { functions := [{}] } := hgrown.out
    refine ⟨_, lowerModule_eq h hfuel hlower, fun _ => ⟨t, reg, ?_, ?_⟩⟩
    · exact ⟨hreg, hsound, hknown, hgrown.name.trans h.name, hgrown.returnsSlice⟩
    · dsimp only [setRow, LowerState.returned]
      rw [hout]
      rfl
  · refine ⟨_, lowerModule_eq h hfuel hlower, fun hok' => ?_⟩
    exact nomatch hok.symm.trans hok'

end

/-! ### The run -/

/-- `runMain` ends with this exit code. -/
def RunsTo (host : Host) (memory : LinearMemory) (m : Module) (value : Int64) : Prop :=
  ∃ P start n result env, startMain host memory m = .ok (P, start) ∧ (step P)^[n] start = .done result env ∧
    result.ok = true ∧ result.value = value

/-- A run that has ended stays where it is. -/
theorem iterate_done {P : Program} {result : FunctionReturn} {env : Env} :
    ∀ n, (step P)^[n] (.done result env) = .done result env := by
  intro n
  induction n with
  | zero => rfl
  | succ n ih => rw [Function.iterate_succ_apply]; exact ih

theorem RunsTo.unique {host : Host} {memory : LinearMemory} {m : Module} {value value' : Int64}
    (h : RunsTo host memory m value) (h' : RunsTo host memory m value') : value = value' := by
  obtain ⟨P, start, n, result, env, hstart, hdone, -, rfl⟩ := h
  obtain ⟨P', start', n', result', env', hstart', hdone', -, rfl⟩ := h'
  cases hstart.symm.trans hstart'
  rcases Nat.le_total n n' with hle | hle
  · obtain ⟨k, rfl⟩ := Nat.exists_eq_add_of_le' hle
    rw [Function.iterate_add_apply, hdone, iterate_done] at hdone'
    cases hdone'
    rfl
  · obtain ⟨k, rfl⟩ := Nat.exists_eq_add_of_le' hle
    rw [Function.iterate_add_apply, hdone', iterate_done] at hdone
    cases hdone
    rfl

section
variable {C : LowerContext} {root : HirExprId} {t : LowerState} {reg : UInt16} {tree : Tree}

theorem MainLowered.shape (h : MainLowered C root t reg) : validateFunctionShape (t.returned reg).fn = true := by
  have hbelow := h.sound.known _ reg h.known h.assigned
  refine List.all_eq_true.mpr fun instr hinstr => ?_
  rcases List.mem_append.mp hinstr with hcode | hret
  · exact h.sound.shape (t.returned reg).fn (le_refl _) instr hcode
  · cases List.mem_singleton.mp hret
    have hreg : missingRegister (t.returned reg).fn reg false = false := not_missingRegister hbelow
    simp [validInstr, hreg]

theorem MainLowered.start (h : MainLowered C root t reg) (host : Host) (memory : LinearMemory) :
    startMain host memory { functions := [(t.returned reg).fn] } =
      .ok ({ module := { functions := [(t.returned reg).fn] }, stringAddresses := [], host },
        runFunction (t.returned reg).fn (List.replicate t.fn.regCount.toNat 0) { memory }) := by
  have hfind : findFunction { functions := [(t.returned reg).fn] } (text "main") = some (t.returned reg).fn := by
    have hname : (t.returned reg).fn.name = text "main" := h.name
    rw [findFunction, List.find?_cons_of_pos (by rw [hname, beq_self_eq_true])]
  rw [startMain, hfind]
  dsimp only
  rw [List.all_cons, h.shape]
  rfl

/-- The code of `main` runs to its end, and returns the register of the tree. -/
theorem MainLowered.runs (h : MainLowered C root t reg) (htree : IsTree C.hir.exprs C.types root tree) (host : Host)
    (memory : LinearMemory) : RunsTo host memory { functions := [(t.returned reg).fn] } tree.lowLiterals.value := by
  have hwords : WordRegisters t (t.returned reg).fn := by
    intro r _
    refine beq_eq_false_iff_ne.mpr fun htype => ?_
    exact h.sound.words .f64 (List.mem_of_getElem? htype) rfl
  obtain ⟨regs, hlen, hrun, hholds⟩ :=
    h.sound.runs { module := { functions := [(t.returned reg).fn] }, stringAddresses := [], host } (t.returned reg).fn
      { memory } t.fn.regCount.toNat (le_refl _) hwords
  have hpad : padRegs (List.replicate t.fn.regCount.toNat 0) (t.returned reg).fn.regCount.toNat =
      List.replicate t.fn.regCount.toNat 0 := by
    rw [padRegs, List.length_replicate]
    change _ ++ List.replicate (t.fn.regCount.toNat - t.fn.regCount.toNat) 0 = _
    rw [Nat.sub_self, List.replicate_zero, List.append_nil]
  have hinstr : (t.returned reg).fn.body[t.fn.body.length]? = some { op := .ret, a := reg } :=
    List.getElem?_concat_length
  have hslice : (t.returned reg).fn.returnsSlice = false := h.returnsSlice
  have hvalue := getReg_of_eq (hholds root tree reg h.known h.assigned htree)
  refine ⟨_, _, t.fn.body.length + 1, { ok := true, value := getReg regs reg },
    leaveFrame ⟨(t.returned reg).fn, (t.returned reg).fn, t.fn.body.length, regs, memory.arenaWatermark⟩ { memory },
    h.start host memory, ?_, rfl, hvalue⟩
  rw [Function.iterate_succ_apply', runFunction, enterFrame, hpad, hrun.steps _ _ rfl, step]
  dsimp only [Frame.instr]
  rw [hinstr]
  dsimp only [exec]
  rw [hslice]
  rfl

end

/-! ### Constants of any size -/

section
variable {hir : HirModule} {types : TypeIntern} {main : HirFunction} {ret root : HirExprId} {tree : Tree}

/-- What is accepted runs to the value of the tree with its literals cut to 16 bits. -/
theorem runs_to_lowLiterals (h : ReturnsTree hir types main ret root tree) {fuel : ℕ} (hfuel : fuel ≥ tree.depth + 2) :
    ∃ l, lowerModule hir types {} fuel = some l ∧ (l.result.ok = true →
      ∀ host memory, RunsTo host memory l.out tree.lowLiterals.value) := by
  obtain ⟨l, hl, hout⟩ := lowerModule_main h hfuel
  refine ⟨l, hl, fun hok host memory => ?_⟩
  obtain ⟨t, reg, hmain, hmodule⟩ := hout hok
  rw [hmodule]
  exact hmain.runs h.isTree host memory

/-- **Integer constants and arithmetic**: the lowering ends, and what it accepts runs to the value of the tree if and
    only if the tree has the same value with its literals cut to 16 bits. -/
theorem runs_to_value_iff (h : ReturnsTree hir types main ret root tree) {fuel : ℕ} (hfuel : fuel ≥ tree.depth + 2) :
    ∃ l, lowerModule hir types {} fuel = some l ∧ (l.result.ok = true → ∀ host memory,
      (RunsTo host memory l.out tree.value ↔ tree.lowLiterals.value = tree.value)) := by
  obtain ⟨l, hl, hrun⟩ := runs_to_lowLiterals h hfuel
  refine ⟨l, hl, fun hok host memory => ?_⟩
  constructor
  · exact fun hvalue => (hrun hok host memory).unique hvalue
  · exact fun heq => heq ▸ hrun hok host memory

end

def wordTypes : TypeIntern := { types := [.error, .never, .void, .bool, .char, .int .i64] }

/-- `main` with the return in this expression. -/
def mainReturning (ret : HirExprId) : HirFunction :=
  { name := text "main", params := [], paramNames := [], paramSlots := [], returnType := 5, isState := false,
    usesTailCC := false, machineReturnType := 5, machineId := 0, isVariadic := false, variadicSliceParam := none,
    isForeignC := false, hasBody := true, foreignAdapterName := none, blocks := [⟨[], ret⟩] }

/-- `-((7 - 300) * (7 - 300))`, with one difference. -/
def squareModule : HirModule :=
  { exprs := [.literal (.i 7) 5, .literal (.i 300) 5, .binary 0 1 1 5 5, .binary 2 2 2 5 5, .unary 0 3 5, .ret 4]
    fns := [mainReturning 5] }

def squareTree : Tree :=
  .unary .neg (.binary .mul (.binary .sub (.literal 7) (.literal 300)) (.binary .sub (.literal 7) (.literal 300)))

theorem returnsTree_square : ReturnsTree squareModule wordTypes (mainReturning 5) 5 4 squareTree := by
  have hword : IsWord wordTypes 5 := Or.inl rfl
  have hseven : IsTree squareModule.exprs wordTypes 0 (.literal 7) := @IsTree.literal _ _ 0 5 7 rfl rfl
  have hhundreds : IsTree squareModule.exprs wordTypes 1 (.literal 300) := @IsTree.literal _ _ 1 5 300 rfl rfl
  have hdifference : IsTree squareModule.exprs wordTypes 2 (.binary .sub (.literal 7) (.literal 300)) :=
    .binary rfl hword hseven hhundreds
  exact ⟨rfl, by decide +kernel, rfl, rfl, rfl, rfl, hword, rfl, by decide, rfl,
    .unary rfl hword (.binary rfl hword hdifference hdifference)⟩

theorem runs_to_square :
    ∃ l, lowerModule squareModule wordTypes {} 9 = some l ∧ ∀ host memory, RunsTo host memory l.out (-85849) := by
  obtain ⟨l, hl, hrun⟩ := runs_to_value_iff returnsTree_square (show 9 ≥ squareTree.depth + 2 by decide)
  have hok : (lowerModule squareModule wordTypes {} 9).map (·.result.ok) = some true := by decide +kernel
  rw [hl] at hok
  exact ⟨l, hl, fun host memory => (hrun (Option.some.inj hok) host memory).mpr (by decide)⟩

/-- The least literal that 16 bits do not hold. -/
def overflowModule : HirModule :=
  { exprs := [.literal (.i 65536) 5, .ret 0], fns := [mainReturning 1] }

theorem runs_to_zero : ∃ l, lowerModule overflowModule wordTypes {} 9 = some l ∧ l.result.ok = true ∧
      ReturnsTree overflowModule wordTypes (mainReturning 1) 1 0 (.literal 65536) ∧
      ∀ host memory, RunsTo host memory l.out 0 ∧ ¬RunsTo host memory l.out (Tree.literal 65536).value := by
  have hreturns : ReturnsTree overflowModule wordTypes (mainReturning 1) 1 0 (.literal 65536) :=
    ⟨rfl, by decide +kernel, rfl, rfl, rfl, rfl, Or.inl rfl, rfl, by decide, rfl, @IsTree.literal _ _ 0 5 65536 rfl rfl⟩
  obtain ⟨l, hl, hrun⟩ := runs_to_lowLiterals hreturns (show 9 ≥ (Tree.literal 65536).depth + 2 by decide)
  have hok : (lowerModule overflowModule wordTypes {} 9).map (·.result.ok) = some true := by decide +kernel
  rw [hl] at hok
  refine ⟨l, hl, Option.some.inj hok, hreturns, fun host memory => ⟨hrun (Option.some.inj hok) host memory, ?_⟩⟩
  intro hvalue
  exact absurd ((hrun (Option.some.inj hok) host memory).unique hvalue) (by decide)

end Zith.Vm
