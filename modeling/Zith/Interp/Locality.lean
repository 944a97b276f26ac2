import Zith.Interp.HirInterpreter

/-! What a run reads. A set of expressions and functions is closed when it has the operands and the callees
    of its expressions, and the blocks of its functions. Two programs that agree on what is read there have
    the same runs from there, whatever their other tables hold.

        `Reads` (the rows) ──▶ `Agree` at a depth ──▶ `Agree` one deeper ──▶ the same `runMain`   -/

namespace Zith.Interp
open Hir (TypeId InternedId TypeKind TypeRow ExprRow FunctionRow HirExprId HirSlotId HirCall HirBasicBlock
  Program lookup kindOf kInvalidHirExpr kInvalidHirFunction kInvalidHirSlot kErrorType kInvalidType)

/-! ### Rows -/

/-- A row without what no evaluation reads: the alignment of a slot, and all but the kind of a tail call. -/
def bare : ExprRow → ExprRow
  | .slotAlloca slot type _ => .slotAlloca slot type 0
  | .stateTailCall c =>
    .stateTailCall { c with variadicSliceParam := 0xFFFFFFFF, isVariadicSlice := false, autoCollectTail := false }
  | e => e

/-- The expressions an evaluation of a row may evaluate. A dyn call that finds no target stops after its
    receiver. -/
def operands : ExprRow → List HirExprId
  | .binary lhs rhs _ _ _ => [lhs, rhs]
  | .unary _ operand _ => [operand]
  | .structLiteral ids _ | .arrayLiteral ids _ => ids
  | .field object _ _ _ _ => [object]
  | .index object index _ _ _ _ => [object, index]
  | .assign target value => [target, value]
  | .makeSome value _ | .cast value _ _ | .unionCast value _ _ _ _ | .makeDyn value _ _ _ _ => [value]
  | .makeSlice object lo hi _ _ _ _ _ _ => [object, lo, hi]
  | .layoutIntrinsic _ _ _ operand _ _ => [operand]
  | .slotStore _ value | .ret value => [value]
  | .call c => c.args
  | .branch cond _ _ => [cond]
  | .dynCall receiver _ _ _ _ _ _ _ => [receiver]
  | _ => []

/-- A row that asks for the targets of a dyn call, or for the definition of a struct, where there are any. -/
def asksForTables (p : Program) : ExprRow → Bool
  | .dynCall _ _ _ _ _ _ _ _ => !p.vtables.isEmpty
  | .structLiteral _ type => kindOf p.types type = .struct && (memberCount p type).isSome
  | _ => false

/-- A set of expressions and of functions that has all its expressions evaluate and call, none of which asks
    for a table of its own. -/
structure Closed (p : Program) (exprs : HirExprId → Prop) (fns : FunctionRow → Prop) : Prop where
  operands : ∀ id e, exprs id → p.exprs[id.toNat]? = some e → ∀ c ∈ operands e, exprs c
  callees : ∀ id c f, exprs id → p.exprs[id.toNat]? = some (.call c) → callee p c = some (some f) → fns f
  tables : ∀ id e, exprs id → p.exprs[id.toNat]? = some e → asksForTables p e = false
  blocks : ∀ f b, fns f → b ∈ f.blocks → (∀ id ∈ b.insts, exprs id) ∧ exprs b.terminator

/-- The same pool and kinds of types, and the same rows up to what is not read, with neither targets of dyn
    calls nor definitions of structs. -/
structure Reads (p q : Program) (image : FunctionRow → FunctionRow) : Prop where
  pool : q.pool = p.pool
  kinds : kindOf q.types = kindOf p.types
  vtables : q.vtables = []
  members : ∀ type, memberCount q type = if kindOf p.types type = .struct then none else memberCount p type
  exprs : q.exprs = p.exprs.map bare
  fns : q.fns = p.fns.map image
  image : ∀ f, ((image f).name = f.name ∧ (image f).hasBody = f.hasBody) ∧
    (image f).params = f.params ∧ (image f).paramNames = f.paramNames ∧ (image f).blocks = f.blocks

/-- Calls with the same results on a set of expressions and of functions. -/
structure Agree (image : FunctionRow → FunctionRow) (exprs : HirExprId → Prop) (fns : FunctionRow → Prop)
    (rec below : Calls) : Prop where
  depth : below.depth = rec.depth
  eval : ∀ frame id, exprs id → below.eval frame id = rec.eval frame id
  addressOf : ∀ frame id, exprs id → below.addressOf frame id = rec.addressOf frame id
  runFunction : ∀ f args, fns f → below.runFunction (image f) args = rec.runFunction f args

/-! ### Slots -/

theorem le_foldl_max {slots : List HirSlotId} : ∀ {count : ℕ},
    count ≤ slots.foldl (fun count slot => max count (slot.toNat + 1)) count ∧
      ∀ slot ∈ slots, slot.toNat < slots.foldl (fun count slot => max count (slot.toNat + 1)) count := by
  induction slots with
  | nil =>
    intro count
    simp
  | cons slot slots ih =>
    intro count
    obtain ⟨hle, hall⟩ := @ih (max count (slot.toNat + 1))
    refine ⟨le_trans (le_max_left ..) hle, ?_⟩
    rintro other (_ | ⟨_, hmem⟩)
    · exact lt_of_lt_of_le (Nat.lt_succ_self _) (le_trans (le_max_right ..) hle)
    · exact hall other hmem

theorem foldl_max_le {slots : List HirSlotId} {bound : ℕ} (h : ∀ slot ∈ slots, slot.toNat < bound) :
    ∀ {count : ℕ}, count ≤ bound → slots.foldl (fun count slot => max count (slot.toNat + 1)) count ≤ bound := by
  induction slots with
  | nil =>
    intro count hcount
    exact hcount
  | cons slot slots ih =>
    intro count hcount
    obtain ⟨hslot, hslots⟩ := List.forall_mem_cons.mp h
    exact ih hslots (max_le hcount hslot)

variable {eval eval' : HirExprId → Run Value} {id : HirExprId} {e : ExprRow}

theorem slotOf_ne_invalid {slot : HirSlotId} (h : slotOf e = some slot) : slot ≠ kInvalidHirSlot := by
  unfold slotOf at h
  split at h
  any_goals
    split at h
    · cases h
    · next hne => exact Option.some.inj h ▸ hne
  cases h

/-- A slot is in range exactly when it is one. -/
theorem lt_slotCount_iff (p : Program) {slot : HirSlotId} (he : p.exprs[id.toNat]? = some e)
    (hslot : slotOf e = if slot = kInvalidHirSlot then none else some slot) :
    slot.toNat < slotCount p ↔ slot ≠ kInvalidHirSlot := by
  constructor
  · rintro hlt rfl
    have hslots : ∀ s ∈ p.exprs.filterMap slotOf, s.toNat < 2 ^ 32 - 1 := by
      intro s hs
      obtain ⟨e', _, he'⟩ := List.mem_filterMap.mp hs
      have hne : s.toNat ≠ 2 ^ 32 - 1 := fun h => slotOf_ne_invalid he' (UInt32.toNat_inj.mp h)
      have := s.toNat_lt
      omega
    have hcount := foldl_max_le hslots (Nat.zero_le _)
    have := p.slots_lt
    rw [slotCount, show kInvalidHirSlot.toNat = 2 ^ 32 - 1 from rfl] at hlt
    omega
  · intro hne
    rw [if_neg hne] at hslot
    have hmem := List.mem_filterMap.mpr ⟨e, List.mem_of_getElem? he, hslot⟩
    exact lt_of_lt_of_le ((@le_foldl_max _ 0).2 slot hmem) (le_max_left ..)

variable {p q : Program} {image : FunctionRow → FunctionRow} {exprs : HirExprId → Prop}
  {fns : FunctionRow → Prop}

theorem slotOf_bare (e : ExprRow) : slotOf (bare e) = slotOf e := by cases e <;> rfl

theorem getElem?_exprs (hreads : Reads p q image) (id : HirExprId) :
    q.exprs[id.toNat]? = (p.exprs[id.toNat]?).map bare := by
  rw [hreads.exprs, List.getElem?_map]

/-- The slot of a row has the same cell in both. -/
theorem slotCell_eq (hreads : Reads p q image) {slot : HirSlotId} (he : p.exprs[id.toNat]? = some e)
    (hslot : slotOf e = if slot = kInvalidHirSlot then none else some slot) (frame : Frame) :
    slotCell q frame slot = slotCell p frame slot := by
  have heq : q.exprs[id.toNat]? = some (bare e) := by rw [getElem?_exprs hreads, he]; rfl
  have hiff : slot.toNat < slotCount q ↔ slot.toNat < slotCount p := by
    rw [lt_slotCount_iff p he hslot, lt_slotCount_iff q heq (slotOf_bare e ▸ hslot)]
  rw [slotCell, slotCell]
  exact if_congr hiff rfl rfl

/-! ### Callees -/

theorem findFunction_eq (hreads : Reads p q image) (name : Hir.StringRow) :
    findFunction q name = (findFunction p name).map image := by
  rw [findFunction, findFunction, hreads.fns, hreads.pool, List.find?_map]
  congr 2
  funext f
  exact congrArg (fun n => sourceName (lookup p.pool n) == name) (hreads.image f).1.1

theorem callee_eq (hreads : Reads p q image) (c : HirCall) : callee q c = (callee p c).map (Option.map image) := by
  have hfn : (if c.resolvedFn = kInvalidHirFunction then none else q.fns[c.resolvedFn.toNat]?) =
      (if c.resolvedFn = kInvalidHirFunction then none else p.fns[c.resolvedFn.toNat]?).map image := by
    split
    · rfl
    · rw [hreads.fns, List.getElem?_map]
  rw [callee, callee, hfn, getElem?_exprs hreads]
  rcases (if c.resolvedFn = kInvalidHirFunction then none else p.fns[c.resolvedFn.toNat]?) with _ | f
  · rcases p.exprs[c.callee.toNat]? with _ | e
    · rfl
    · cases e with
      | var name version => simp only [Option.map_none, Option.map_some, bare, hreads.pool, findFunction_eq hreads]
      | _ => rfl
  · rfl

theorem kindText_eq (hreads : Reads p q image) (id : HirExprId) : kindText q id = kindText p id := by
  have hkind : ∀ e, (bare e).kind = e.kind := by
    intro e
    cases e <;> rfl
  rw [kindText, kindText, getElem?_exprs hreads, Option.map_map]
  congr 1
  funext e
  rw [Function.comp_apply, hkind]

/-- A program without targets has the message of a target that is not found. -/
theorem dynTarget_eq (hreads : Reads p q image) (hvtables : p.vtables = []) (vtable : InternedId)
    (slotIndex : UInt32) : dynTarget q vtable slotIndex = dynTarget p vtable slotIndex := by
  rw [dynTarget, dynTarget, hreads.vtables, hvtables, hreads.pool]
  rfl

theorem dynTarget_fails (hvtables : p.vtables = []) (vtable : InternedId) (slotIndex : UInt32) :
    ∃ message, dynTarget p vtable slotIndex = .error message := by
  rw [dynTarget, hvtables]
  exact ⟨_, rfl⟩

/-! ### One step -/

variable {rec below : Calls}

theorem map_eval_eq (hagree : Agree image exprs fns rec below) (frame : Frame) {ids : List HirExprId}
    (h : ∀ id ∈ ids, exprs id) : ids.map (below.eval frame) = ids.map (rec.eval frame) :=
  List.map_congr_left fun id hid => hagree.eval frame id (h id hid)

theorem call_eq (hreads : Reads p q image) (hagree : Agree image exprs fns rec below) {c : HirCall}
    (hcallee : ∀ f, callee p c = some (some f) → fns f) (args : List (Run Value)) :
    call q below c.resolvedFn (callee q c) args = call p rec c.resolvedFn (callee p c) args := by
  rw [callee_eq hreads, call, call]
  rcases h : callee p c with _ | _ | f
  · rw [Option.map_none, orUndefined_none_bind, orUndefined_none_bind]
  · rw [Option.map_some, orUndefined_some_bind, orUndefined_some_bind]
    rfl
  · obtain ⟨hname, hbody⟩ := (hreads.image f).1
    have hrun : below.runFunction (image f) = rec.runFunction f :=
      funext fun args => hagree.runFunction f args (hcallee f h)
    rw [Option.map_some, orUndefined_some_bind, orUndefined_some_bind]
    change callFunction q below (image f) args = callFunction p rec f args
    simp only [callFunction, hbody, hname, hrun, hagree.depth, hreads.pool]

/-- Where there are no targets a dyn call evaluates its receiver and fails. -/
theorem dynCall_eq (hreads : Reads p q image) (hvtables : p.vtables = []) (slotIndex : UInt32)
    (hasReceiver : Bool) (receiver : Run Value) (args args' : List (Run Value)) :
    dynCall q below slotIndex hasReceiver receiver args' = dynCall p rec slotIndex hasReceiver receiver args := by
  have htarget : ∀ value : Value, ∃ message, dynTarget p value.vtable slotIndex = .error message :=
    fun value => dynTarget_fails hvtables value.vtable slotIndex
  rw [dynCall, dynCall]
  congr 1
  funext value
  obtain ⟨message, hmessage⟩ := htarget value
  simp only [dynTarget_eq hreads hvtables, hmessage]

theorem members_eq (hreads : Reads p q image) {values : List HirExprId} {type : TypeId}
    (h : asksForTables p (.structLiteral values type) = false) : memberCount q type = memberCount p type := by
  rw [hreads.members]
  split
  · next hstruct =>
    rw [asksForTables, decide_eq_true hstruct, Bool.true_and] at h
    exact (Option.isSome_eq_false_iff.mp h |> Option.isNone_iff_eq_none.mp).symm
  · rfl

/-- An expression of a closed set is evaluated alike when its operands are. -/
theorem evalExpr_eq (hclosed : Closed p exprs fns) (hreads : Reads p q image)
    (hagree : Agree image exprs fns rec below) (frame : Frame) (hid : exprs id)
    (he : p.exprs[id.toNat]? = some e) : evalExpr q below frame id (bare e) = evalExpr p rec frame id e := by
  have hops := hclosed.operands id e hid he
  have htables := hclosed.tables id e hid he
  cases e with
  | literal => simp only [bare, evalExpr, literal, hreads.kinds, hreads.pool]
  | binary lhs rhs =>
    have hl := hagree.eval frame lhs (hops lhs (by simp [operands]))
    have hr := hagree.eval frame rhs (hops rhs (by simp [operands]))
    simp only [bare, evalExpr, binary, hl, hr, kindText_eq hreads, hreads.pool]
  | unary op operand =>
    have ho := hops operand (by simp [operands])
    simp only [bare, evalExpr, hagree.eval frame operand ho, hagree.addressOf frame operand ho, hreads.kinds,
      hagree.depth]
  | structLiteral values type =>
    have hmembers := members_eq hreads htables
    have hvalues : (values.map fun e => if e = kInvalidHirExpr then none else some (below.eval frame e)) =
        values.map fun e => if e = kInvalidHirExpr then none else some (rec.eval frame e) :=
      List.map_congr_left fun e he => by rw [hagree.eval frame e (hops e he)]
    simp only [bare, evalExpr, hmembers, hvalues]
  | arrayLiteral elements type =>
    have helements : (elements.map fun e => some (below.eval frame e)) =
        elements.map fun e => some (rec.eval frame e) :=
      List.map_congr_left fun e he => by rw [hagree.eval frame e (hops e he)]
    simp only [bare, evalExpr, helements]
  | field => simp only [bare, evalExpr, hagree.addressOf frame id hid, hreads.kinds, hagree.depth]
  | index object i =>
    have ho := hagree.eval frame object (hops object (by simp [operands]))
    have hi := hagree.eval frame i (hops i (by simp [operands]))
    simp only [bare, evalExpr, index, ho, hi, kindText_eq hreads, hagree.depth]
  | assign target value =>
    have ht := hagree.addressOf frame target (hops target (by simp [operands]))
    have hv := hagree.eval frame value (hops value (by simp [operands]))
    simp only [bare, evalExpr, ht, hv, hagree.depth]
  | makeSome value | cast value | unionCast value =>
    simp only [bare, evalExpr, hagree.eval frame value (hops value (by simp [operands]))]
  | ret value => simp only [bare, evalExpr, hagree.eval frame value (hops value (by simp [operands]))]
  | makeSlice object lo hi =>
    have ho := hagree.eval frame object (hops object (by simp [operands]))
    have hlo := hagree.eval frame lo (hops lo (by simp [operands]))
    have hhi := hagree.eval frame hi (hops hi (by simp [operands]))
    simp only [bare, evalExpr, ho, hlo, hhi]
  | layoutIntrinsic which type fieldIndex operand =>
    have ho := hops operand (by simp [operands])
    simp only [bare, evalExpr, hagree.eval frame operand ho, hagree.addressOf frame operand ho]
  | makeDyn value =>
    have hv := hops value (by simp [operands])
    simp only [bare, evalExpr, hagree.eval frame value hv, hagree.addressOf frame value hv, hreads.kinds]
  | dynCall receiver =>
    have hvtables : p.vtables = [] := by simpa [asksForTables] using htables
    have hr := hops receiver (by simp [operands])
    simp only [bare, evalExpr, hagree.eval frame _ hr]
    exact dynCall_eq hreads hvtables _ _ _ _ _
  | slotAlloca slot => simp only [bare, evalExpr, slotCell_eq hreads he rfl]
  | slotLoad slot => simp only [bare, evalExpr, slotCell_eq hreads he rfl]
  | slotAddr slot => simp only [bare, evalExpr, slotCell_eq hreads he rfl]
  | slotStore slot value =>
    have hv := hagree.eval frame value (hops value (by simp [operands]))
    simp only [bare, evalExpr, slotCell_eq hreads he rfl, hv]
  | call c =>
    have hargs : c.args.map (below.eval frame) = c.args.map (rec.eval frame) := map_eval_eq hagree frame hops
    simp only [bare, evalExpr, hargs]
    exact call_eq hreads hagree (fun f hf => hclosed.callees id c f hid he hf) _
  | branch cond => simp only [bare, evalExpr, hagree.eval frame cond (hops cond (by simp [operands]))]
  | _ => rfl

theorem bare_kind (e : ExprRow) : (bare e).kind = e.kind := by cases e <;> rfl

theorem evalStep_eq (hclosed : Closed p exprs fns) (hreads : Reads p q image)
    (hagree : Agree image exprs fns rec below) (frame : Frame) (hid : exprs id) :
    evalStep q below frame id = evalStep p rec frame id := by
  rw [evalStep, evalStep, getElem?_exprs hreads]
  rcases he : p.exprs[id.toNat]? with _ | e
  · rw [Option.map_none, orUndefined_none_bind, orUndefined_none_bind]
  · rw [Option.map_some, orUndefined_some_bind, orUndefined_some_bind, bare_kind,
      evalExpr_eq hclosed hreads hagree frame hid he]

theorem addressOfExpr_eq (hclosed : Closed p exprs fns) (hreads : Reads p q image)
    (hagree : Agree image exprs fns rec below) (frame : Frame) (hid : exprs id) (he : p.exprs[id.toNat]? = some e) :
    addressOfExpr q below frame id (bare e) = addressOfExpr p rec frame id e := by
  have hops := hclosed.operands id e hid he
  cases e with
  | slotAddr slot => simp only [bare, addressOfExpr, slotCell_eq hreads he rfl]
  | var => rfl
  | field object =>
    have ho := hagree.eval frame object (hops object (by simp [operands]))
    simp only [bare, addressOfExpr, ho, hreads.kinds, hagree.depth]
  | index object i =>
    have ho := hagree.eval frame object (hops object (by simp [operands]))
    have hi := hagree.eval frame i (hops i (by simp [operands]))
    simp only [bare, addressOfExpr, ho, hi]
  | unary op operand =>
    have ho := hops operand (by simp [operands])
    simp only [bare, addressOfExpr, hagree.eval frame operand ho, hagree.addressOf frame operand ho]
  | _ => simp only [bare, addressOfExpr, hagree.eval frame id hid]

theorem addressOfStep_eq (hclosed : Closed p exprs fns) (hreads : Reads p q image)
    (hagree : Agree image exprs fns rec below) (frame : Frame) (hid : exprs id) :
    addressOfStep q below frame id = addressOfStep p rec frame id := by
  rw [addressOfStep, addressOfStep]
  by_cases hinvalid : id = kInvalidHirExpr
  · rw [if_pos hinvalid, if_pos hinvalid]
  · rw [if_neg hinvalid, if_neg hinvalid, getElem?_exprs hreads]
    rcases he : p.exprs[id.toNat]? with _ | e
    · rfl
    · exact addressOfExpr_eq hclosed hreads hagree frame hid he

/-! ### Functions -/

theorem runInsts_eq {failure : HirExprId → Text} : ∀ {insts : List HirExprId}, (∀ id ∈ insts, eval' id = eval id) →
      runInsts failure eval' insts = runInsts failure eval insts := by
  intro insts
  induction insts with
  | nil =>
    intro _
    rfl
  | cons inst insts ih =>
    intro h
    obtain ⟨hinst, hinsts⟩ := List.forall_mem_cons.mp h
    rw [runInsts, runInsts, hinst, ih hinsts]

/-- A terminator leads to the same block. -/
theorem runTerminator_eq (hreads : Reads p q image) (name : Text) (block : ℕ) {terminator : HirExprId}
    (heval : eval' terminator = eval terminator) :
    runTerminator q name block terminator eval' = runTerminator p name block terminator eval := by
  rw [runTerminator, runTerminator, getElem?_exprs hreads]
  split
  · rfl
  · rcases p.exprs[terminator.toNat]? with _ | e
    · rw [Option.map_none, orUndefined_none_bind, orUndefined_none_bind]
    · rw [Option.map_some, orUndefined_some_bind, orUndefined_some_bind, heval]
      cases e <;> rfl

theorem runBlocks_eq (hreads : Reads p q image) (name : Text) {blocks : List HirBasicBlock}
    (heval : ∀ b ∈ blocks, (∀ id ∈ b.insts, eval' id = eval id) ∧ eval' b.terminator = eval b.terminator) :
    ∀ fuel block, runBlocks q name blocks eval' fuel block = runBlocks p name blocks eval fuel block := by
  intro fuel
  induction fuel with
  | zero =>
    intro block
    rfl
  | succ fuel ih =>
    intro block
    rw [runBlocks, runBlocks]
    rcases hb : blocks[block]? with _ | b
    · rfl
    · obtain ⟨hinsts, hterminator⟩ := heval b (List.mem_of_getElem? hb)
      simp only [runInsts_eq hinsts, runTerminator_eq hreads name block hterminator, ih]

theorem runFunctionStep_eq (hclosed : Closed p exprs fns) (hreads : Reads p q image)
    (hagree : Agree image exprs fns rec below) {f : FunctionRow} (hf : fns f) (args : List Value) :
    runFunctionStep q below (image f) args = runFunctionStep p rec f args := by
  obtain ⟨⟨hname, _⟩, hparams, hnames, hblocks⟩ := hreads.image f
  have hruns : ∀ frame fuel block,
      runBlocks q (lookup p.pool f.name) f.blocks (below.eval frame) fuel block =
        runBlocks p (lookup p.pool f.name) f.blocks (rec.eval frame) fuel block := by
    intro frame
    refine runBlocks_eq hreads _ fun b hb => ?_
    obtain ⟨hinsts, hterminator⟩ := hclosed.blocks f b hf hb
    exact ⟨fun id hid => hagree.eval frame id (hinsts id hid), hagree.eval frame _ hterminator⟩
  simp only [runFunctionStep, hname, hparams, hnames, hblocks, hreads.kinds, hreads.pool, hagree.depth, hruns]

/-! ### Runs -/

/-- At every depth the two programs have the same results on a closed set. -/
theorem calls_agree (hclosed : Closed p exprs fns) (hreads : Reads p q image) (depth : ℕ) :
    Agree image exprs fns (calls p depth) (calls q depth) := by
  induction depth with
  | zero =>
    rw [calls, calls]
    exact ⟨rfl, fun _ _ _ => rfl, fun _ _ _ => rfl, fun _ _ _ => rfl⟩
  | succ depth ih =>
    rw [calls, calls]
    exact {
      depth := rfl
      eval := fun frame _ hid => evalStep_eq hclosed hreads ih frame hid
      addressOf := fun frame _ hid => addressOfStep_eq hclosed hreads ih frame hid
      runFunction := fun _ args hf => runFunctionStep_eq hclosed hreads ih hf args }

/-- Programs with the same rows where `main` runs have the same result, at every depth. -/
theorem runMain_eq (hclosed : Closed p exprs fns) (hreads : Reads p q image)
    (hmain : ∀ f, findMain p = some f → fns f) (depth : ℕ) : runMain q depth = runMain p depth := by
  have hfind : findMain q = (findMain p).map image := findFunction_eq hreads _
  rw [runMain, runMain, hfind]
  rcases h : findMain p with _ | main
  · rfl
  · rw [Option.map_some]
    dsimp only
    rw [(calls_agree hclosed hreads depth).runFunction main [] (hmain main h)]

end Zith.Interp
