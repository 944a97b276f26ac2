import Zith.Vm.RegisterMetadata

/-! The register metadata of a module that the lowering accepts: every row that it writes has them in step
    with its registers, if all that has happened to the registers of the row has fitted. -/

namespace Zith.Vm
open Lib Hir Layout
open Types (TypeIntern)

/-! ### A function writes no row -/

/-- A step that writes no row and forgets no failure. -/
structure Steady (s t : LowerState) : Prop where
  functions : t.out.functions = s.out.functions
  ok : t.result.ok = true → s.result.ok = true

theorem Steady.trans {s t u : LowerState} (h : Steady s t) (h' : Steady t u) : Steady s u :=
  ⟨h'.functions.trans h.functions, fun hok => h.ok (h'.ok hok)⟩

theorem steady_run {α : Type} {m : LowerM α} (h : Moves Steady m) {s t : LowerState} {a : α}
    (hrun : m s = some (a, t)) : Steady s t :=
  h.keeps (fun _ _ hstep hs => Steady.trans hs hstep) hrun ⟨rfl, id⟩

theorem steady_u16 {value : ℕ} {s t : LowerState} {n : UInt16} (h : u16 value s = some (n, t)) : Steady s t := by
  rcases run_u16 h with ⟨-, -, rfl⟩ | ⟨-, rfl⟩
  · exact ⟨rfl, id⟩
  · exact ⟨rfl, fun hok => nomatch hok⟩

theorem steady_step {s t : LowerState} (h : LowerStep s t) : Steady s t := by
  cases h with
  | failed message => exact ⟨rfl, fun hok => nomatch hok⟩
  | tables out h => exact ⟨h, id⟩
  | code body => exact ⟨rfl, id⟩
  | remembered regs => exact ⟨rfl, id⟩
  | made h =>
    cases h
    exact ⟨rfl, id⟩
  | padded h =>
    cases h
    exact ⟨rfl, id⟩
  | variadic h =>
    cases h
    exact ⟨rfl, id⟩
  | window h =>
    obtain ⟨_, s₁, hpush, h₁⟩ := run_bind h
    obtain rfl := run_modify hpush
    obtain ⟨_, s₂, hget, h₂⟩ := run_bind h₁
    obtain ⟨rfl, rfl⟩ := run_get hget
    obtain ⟨count, s₃, hcount, h₃⟩ := run_bind h₂
    obtain rfl := run_modify h₃
    exact ⟨(steady_u16 hcount).functions, (steady_u16 hcount).ok⟩

theorem steady_lowers {α : Type} {m : LowerM α} (h : Lowers m) : Moves Steady m := h.mono fun _ _ => steady_step

theorem steady_fail (message : List UInt8) : Moves Steady (fail message) := .modify fun _ => ⟨rfl, fun hok => nomatch hok⟩

section
variable {C : LowerContext}

theorem steady_allocaSlot (slot : HirSlotId) (type : TypeId) (alignmentBytes : UInt32) :
    Moves Steady (allocaSlot C slot type alignmentBytes) := by
  refine .update fun s b t h => .single ?_
  dsimp only at h
  cases hknown : s.slotWidths[slot.toNat]? with
  | none =>
    rw [hknown] at h
    cases h
    exact ⟨rfl, id⟩
  | some known =>
    rw [hknown] at h
    dsimp only at h
    split at h
    · cases h
      exact ⟨rfl, fun hok => nomatch hok⟩
    · cases h
      exact ⟨rfl, id⟩

theorem steady_paramSlots : ∀ params : List (HirSlotId × TypeId × UInt16), Moves Steady (paramSlots C params) := by
  intro params
  induction params with
  | nil => exact .pure
  | cons param params ih =>
    refine Moves.bind (.update fun s b t h => .single ?_) fun _ => .ite .pure ih
    dsimp only at h
    cases hknown : s.slotWidths[param.1.toNat]? with
    | none =>
      rw [hknown] at h
      cases h
      exact ⟨rfl, id⟩
    | some known =>
      rw [hknown] at h
      dsimp only at h
      split at h
      · cases h
        exact ⟨rfl, fun hok => nomatch hok⟩
      · cases h
        exact ⟨rfl, id⟩

theorem steady_paramRegisters : ∀ (types : List TypeId) (next : ℕ), Moves Steady (paramRegisters C types next) := by
  intro types
  induction types with
  | nil => exact fun _ => .pure
  | cons type types ih =>
    intro next
    refine .ite ((steady_fail _).bind fun _ => .pure) (Moves.bind ?_ fun _ => ih _)
    exact .modify fun _ => ⟨rfl, id⟩

theorem steady_slotRegisters : ∀ (slots : List HirSlotId) (next : ℕ), Moves Steady (slotRegisters slots next) := by
  intro slots
  induction slots with
  | nil => exact fun _ => .pure
  | cons slot slots ih =>
    refine fun next => ⟨fun s n t h => .single ?_⟩
    obtain ⟨_, s₁, hget, h₁⟩ := run_bind h
    obtain ⟨rfl, rfl⟩ := run_get hget
    obtain ⟨_, s₂, hset, h₂⟩ := run_bind h₁
    cases hset
    dsimp only at h₂
    split at h₂
    · have hrest := steady_run (ih _) h₂
      exact ⟨hrest.functions, hrest.ok⟩
    · generalize (if s₁.slotBacked[slot.toNat]?.getD false = true then 1 else _) = width at h₂
      split at h₂
      · cases h₂
        exact ⟨rfl, fun hok => nomatch hok⟩
      · obtain ⟨_, s₃, hmodify, h₃⟩ := run_bind h₂
        obtain rfl := run_modify hmodify
        have hrest := steady_run (ih _) h₃
        exact ⟨hrest.functions, hrest.ok⟩

theorem steady_allocaSlots : ∀ exprs : List HirExpr, Moves Steady (allocaSlots C exprs) := by
  intro exprs
  induction exprs with
  | nil => exact .pure
  | cons expr exprs ih =>
    cases expr with
    | slotAlloca => exact (steady_allocaSlot ..).bind fun _ => .ite .pure ih
    | _ => exact ih

theorem steady_prepareFunctionRegisters : Moves Steady (prepareFunctionRegisters C) := by
  refine .ite ((steady_fail _).bind fun _ => .pure) (Moves.bind ?_ fun firstParam => ?_)
  · refine .ite (Moves.bind (.modify fun _ => ⟨rfl, id⟩) fun _ => .pure) ?_
    exact Moves.bind (.modify fun _ => ⟨rfl, id⟩) fun _ => .pure
  refine (steady_paramRegisters ..).bind fun firstSlot => ?_
  cases firstSlot with
  | none => exact .pure
  | some firstSlot =>
    refine Moves.bind (.modify fun _ => ⟨rfl, id⟩) fun _ => .ofOption fun exprs => Moves.bind ?_ fun slotCount => ?_
    · exact .ite ((steady_fail _).bind fun _ => .pure) .pure
    cases slotCount with
    | none => exact .pure
    | some slotCount =>
      refine Moves.bind (.modify fun _ => ⟨rfl, id⟩) fun _ => (steady_allocaSlots _).bind fun _ => .ite .pure ?_
      refine .get fun _ => (steady_paramSlots _).bind fun _ => .ite .pure ?_
      refine Moves.bind (.modify fun _ => ⟨rfl, id⟩) fun _ => (steady_slotRegisters ..).bind fun count => ?_
      cases count with
      | none => exact .pure
      | some count =>
        refine Moves.bind (.modify fun _ => ⟨rfl, id⟩) fun _ => Moves.bind (.modify fun _ => ⟨rfl, id⟩) fun _ => .pure

theorem steady_lowerFunction (fuel : ℕ) : Moves Steady (lowerFunction C fuel) := by
  refine steady_prepareFunctionRegisters.bind fun _ => .ite .pure (steady_lowers ?_)
  refine .get fun _ => (lowers_allocateSlots _).bind fun _ => .ite .pure ?_
  refine (lowers_lowerBlocks (lowers_lowering fuel) _).bind fun blocks => ?_
  split
  · exact .pure
  · exact lowers_patchTargets ..

end

/-! ### Rows -/

/-- Every row has its events, and the rows agree as long as nothing has failed. -/
structure RowsAligned (base : ℕ) (l : Lowered) : Prop where
  length : l.events.length = l.out.functions.length
  aligned : l.result.ok = true → ∀ row fn happened, base ≤ row → l.out.functions[row]? = some fn →
    l.events[row]? = some happened → (∀ e ∈ happened, e.Fits) → Aligned fn happened

theorem aligned_default : Aligned {} [] := ⟨rfl, fun _ _ h => absurd h List.not_mem_nil⟩

/-- One more row, of a lowering that has come further. -/
theorem RowsAligned.setRow {base row : ℕ} {l : Lowered} {out : Module} {result : LowerResult} {fn : Function}
    {happened : List RegEvent} (h : RowsAligned base l) (hfunctions : out.functions = l.out.functions)
    (hok : result.ok = true → l.result.ok = true)
    (hrow : result.ok = true → (∀ e ∈ happened, e.Fits) → Aligned fn happened) :
    RowsAligned base (Vm.setRow out l.events result row fn happened) := by
  constructor
  · dsimp only [Vm.setRow]
    rw [List.length_set, List.length_set, hfunctions, h.length]
  · intro hok' row' fn' happened' hbase hfn hevents hfits
    dsimp only [Vm.setRow] at hok' hfn hevents
    rw [hfunctions] at hfn
    by_cases heq : row = row'
    · subst heq
      rw [List.getElem?_set_self'] at hfn hevents
      obtain ⟨_, -, rfl⟩ := Option.map_eq_some_iff.mp hfn
      obtain ⟨_, -, rfl⟩ := Option.map_eq_some_iff.mp hevents
      exact hrow hok' hfits
    · rw [List.getElem?_set_ne heq] at hfn hevents
      exact h.aligned (hok hok') row' fn' happened' hbase hfn hevents hfits

section
variable {hir : HirModule} {types : TypeIntern} {reachable : List Bool} {functionIndices adapterIndices : List UInt16}
  {fuel base : ℕ}

theorem lowerNext_rows {i : ℕ} {hirFn : HirFunction} {l l' : Lowered} {done : Bool}
    (h : lowerNext hir types reachable functionIndices adapterIndices fuel i hirFn l = some (done, l'))
    (hl : RowsAligned base l) : RowsAligned base l' := by
  rw [lowerNext] at h
  split at h
  · split at h
    · obtain ⟨⟨name, s⟩, hextern, h⟩ := Option.bind_eq_some_iff.mp h
      cases h
      have hsteady := steady_run (steady_lowers (lowers_findOrAddExtern _)) hextern
      constructor
      · exact hl.length.trans (congrArg List.length hsteady.functions.symm)
      · intro hok row fn happened hbase hfn
        exact hl.aligned (hsteady.ok hok) row fn happened hbase (hsteady.functions ▸ hfn)
    · cases h
      exact hl
  · obtain ⟨⟨done', s⟩, hfunction, h⟩ := Option.bind_eq_some_iff.mp h
    cases h
    have hsteady := steady_run (steady_lowerFunction fuel) hfunction
    exact hl.setRow hsteady.functions hsteady.ok (lowerFunction_keeps hfunction rfl rfl)

theorem lowerFunctions_rows : ∀ {fns : List (ℕ × HirFunction)} {l l' : Lowered} {done : Bool},
    lowerFunctions hir types reachable functionIndices adapterIndices fuel fns l = some (done, l') →
      RowsAligned base l → RowsAligned base l' := by
  intro fns
  induction fns with
  | nil =>
    intro l l' done h hl
    cases h
    exact hl
  | cons next fns ih =>
    intro l l' done h hl
    obtain ⟨⟨done', l₁⟩, hnext, h⟩ := Option.bind_eq_some_iff.mp h
    have hl₁ := lowerNext_rows hnext hl
    cases done' with
    | false =>
      cases h
      exact hl₁
    | true => exact ih h hl₁

theorem of_guard_ok {ε α : Type} {c : Prop} [Decidable c] {e : ε} {m : Except ε α} {a : α}
    (h : (if c then .error e else m) = .ok a) : ¬c ∧ m = .ok a := by
  split at h
  · cases h
  · exact ⟨‹_›, h⟩

theorem of_guard_error {ε α : Type} {c : Prop} [Decidable c] {e e' : ε} {a : α}
    (h : (if c then .error e else .ok a) = Except.error e') : e' = e := by
  split at h
  · cases h
    rfl
  · cases h

/-- An adapter has a type for each register: its parameters, the arguments of its call, the result. -/
theorem adapterFunction_aligned {target : HirFunction} {index : UInt16} {fn : Function}
    (h : adapterFunction types target index = .ok fn) : Aligned fn [] := by
  rw [adapterFunction] at h
  split at h
  · cases h
  · obtain ⟨-, h⟩ := of_guard_ok h
    obtain ⟨hmax, h⟩ := of_guard_ok h
    cases h
    refine ⟨?_, fun _ _ hmem => absurd hmem List.not_mem_nil⟩
    dsimp only
    rw [UInt16.toNat_ofNat_of_lt' (by unfold UInt16.size; omega)]
    rw [valueRegisterWidth]
    cases isSlice types target.returnType.toNat with
    | false =>
      split
      · simp only [List.length_append, List.length_cons, List.length_nil, reduceIte, Bool.false_eq_true]
        omega
      · simp only [List.length_append, List.length_cons, List.length_nil, reduceIte, Bool.false_eq_true,
          OfNat.one_ne_ofNat]
        omega
    | true =>
      split
      · simp only [List.length_append, List.length_cons, List.length_nil, reduceIte]
        omega
      · simp only [List.length_append, List.length_cons, List.length_nil, reduceIte, OfNat.one_ne_ofNat]
        omega

theorem adapterFunction_fails {target : HirFunction} {index : UInt16} {result : LowerResult}
    (h : adapterFunction types target index = .error result) : result.ok = false := by
  rw [adapterFunction] at h
  split at h
  · cases h
    rfl
  · split at h
    · cases h
      rfl
    · rw [of_guard_error h]

theorem lowerAdapters_rows : ∀ {adapters : List (ℕ × UInt16)} {l : Lowered},
    RowsAligned base l → RowsAligned base (lowerAdapters hir types functionIndices adapters l) := by
  intro adapters
  induction adapters with
  | nil => exact fun hl => hl
  | cons adapter adapters ih =>
    obtain ⟨id, row⟩ := adapter
    intro l hl
    rw [lowerAdapters]
    split
    · exact ih hl
    · split
      · exact ih hl
      · split
        · rename_i hfailed
          exact ⟨hl.length, fun hok => nomatch (adapterFunction_fails hfailed).symm.trans hok⟩
        · rename_i fn hfn
          exact ih (hl.setRow rfl (fun hok => hok) fun _ _ => adapterFunction_aligned hfn)

end

/-- The rows that a lowering starts with have no register. -/
theorem rowsAligned_start (out : Module) (next : ℕ) (result : LowerResult) :
    RowsAligned out.functions.length
      { result
        out := { out with functions := out.functions ++ List.replicate (next - out.functions.length) {} }
        events := (out.functions ++ List.replicate (next - out.functions.length) ({} : Function)).map fun _ => [] } := by
  refine ⟨List.length_map _, fun _ row fn happened hbase hfn hevents _ => ?_⟩
  dsimp only at hfn hevents
  rw [List.getElem?_append_right hbase] at hfn
  obtain rfl := List.eq_of_mem_replicate (List.mem_of_getElem? hfn)
  rw [List.getElem?_map] at hevents
  obtain ⟨_, -, rfl⟩ := Option.map_eq_some_iff.mp hevents
  exact aligned_default

theorem lowerModule_rows {hir : HirModule} {types : TypeIntern} {out : Module} {fuel : ℕ} {l : Lowered}
    (h : lowerModule hir types out fuel = some l) : RowsAligned out.functions.length l := by
  have hempty (result : LowerResult) :
      RowsAligned out.functions.length { result, out, events := out.functions.map fun _ => [] } := by
    have hstart := rowsAligned_start out 0 result
    rwa [Nat.zero_sub, List.replicate_zero, List.append_nil] at hstart
  obtain ⟨reachable, -, h⟩ := Option.bind_eq_some_iff.mp h
  split at h
  · cases h
    exact hempty _
  · split at h
    · cases h
      exact hempty _
    · rename_i adapterIndices next hadapters
      obtain ⟨⟨done, l'⟩, hfunctions, h⟩ := Option.bind_eq_some_iff.mp h
      have hl' := lowerFunctions_rows hfunctions (rowsAligned_start out next {})
      cases done with
      | false =>
        cases h
        exact hl'
      | true =>
        cases h
        exact lowerAdapters_rows hl'

/-- **The metadata of an accepted module**: each row that is written has a type for each register, and what was
    made for a type is told from an `f64` by it, if no call of a host function found fewer than five types
    and no register lies beyond the 65535th. -/
theorem lowerModule_aligned {hir : HirModule} {types : TypeIntern} {out : Module} {fuel : ℕ} {l : Lowered}
    (h : lowerModule hir types out fuel = some l) (hok : l.result.ok = true) {row : ℕ} {fn : Function}
    (hrow : out.functions.length ≤ row) (hfn : l.out.functions[row]? = some fn) :
    ∃ happened, l.events[row]? = some happened ∧ ((∀ e ∈ happened, e.Fits) →
      fn.regTypes.length = fn.regCount.toNat ∧
        ∀ reg vt, .made reg vt ∈ happened →
          fn.regTypes[reg.toNat]? = some vt ∧ (isF64Register fn reg = true ↔ vt = .f64)) := by
  have hrows := lowerModule_rows h
  have hlt : row < l.events.length := hrows.length ▸ (List.getElem?_eq_some_iff.mp hfn).1
  refine ⟨l.events[row], List.getElem?_eq_getElem hlt, fun hfits => ?_⟩
  obtain ⟨hcount, htyped⟩ := hrows.aligned hok row fn _ hrow hfn (List.getElem?_eq_getElem hlt) hfits
  refine ⟨hcount, fun reg vt hmade => ?_⟩
  have htype := htyped reg vt hmade
  refine ⟨htype, ?_⟩
  rw [isF64Register, htype]
  exact ⟨fun heq => by simpa using heq, fun heq => by simp [heq]⟩

/-! ### A call of `puts` -/

/-- A string, a number of either kind, addresses of bytes. -/
def putsTypes : TypeIntern :=
  { types := [.error, .never, .void, .bool, .char, .int .i32, .float .f64, .ptr 4 false .default] }

def putsDeclaration : HirFunction :=
  { name := text "puts", params := [7], paramNames := [text "s"], paramSlots := [], returnType := 5, isState := false,
    usesTailCC := false, machineReturnType := 5, machineId := 0, isVariadic := false, variadicSliceParam := none,
    isForeignC := true, hasBody := false, foreignAdapterName := none, blocks := [] }

def mainDeclaration (insts : List HirExprId) (terminator : HirExprId) : HirFunction :=
  { putsDeclaration with
    name := text "main"
    params := []
    paramNames := []
    isForeignC := false
    hasBody := true
    blocks := [⟨insts, terminator⟩] }

/-- `main` with these instructions and a result, and `puts`. -/
def putsModule (exprs : List HirExpr) (insts : List HirExprId) (terminator : HirExprId) : HirModule :=
  { exprs, fns := [mainDeclaration insts terminator, putsDeclaration] }

/-- `puts("hi")`, then a number that is no integer. -/
def putsEarly : HirModule :=
  putsModule [.literal (.strVal (text "hi")) 7, .call { callee := 0, args := [0], resolvedFn := 1, fnType := 5 },
    .literal (.f 0x3FF8000000000000) 6, .ret 1] [1, 2] 3

/-- Five numbers, then `puts("hi")`. -/
def putsLate : HirModule :=
  putsModule [.literal (.i 1) 5, .literal (.i 2) 5, .literal (.i 3) 5, .literal (.i 4) 5, .literal (.i 5) 5,
    .literal (.strVal (text "hi")) 7, .call { callee := 5, args := [5], resolvedFn := 1, fnType := 5 }, .ret 0]
    [0, 1, 2, 3, 4, 6] 7

/-- Row 0 of a lowering that has been accepted. -/
def firstRow (l : Lowered) : Option (Function × List RegEvent) :=
  match l.result.ok, l.out.functions, l.events with
  | true, fn :: _, happened :: _ => some (fn, happened)
  | _, _, _ => none

theorem of_firstRow {o : Option Lowered} {P : Function → List RegEvent → Prop}
    (h : ∃ p ∈ o.bind firstRow, P p.1 p.2) :
    ∃ l fn happened, o = some l ∧ l.result.ok = true ∧ l.out.functions[0]? = some fn ∧
      l.events[0]? = some happened ∧ P fn happened := by
  obtain ⟨⟨fn, happened⟩, hrow, hP⟩ := h
  obtain ⟨l, rfl, hl⟩ := Option.bind_eq_some_iff.mp hrow
  rw [firstRow] at hl
  split at hl
  · rename_i hok hfns hevents
    cases hl
    exact ⟨l, fn, happened, rfl, hok, by rw [hfns]; rfl, by rw [hevents]; rfl, hP⟩
  · cases hl

/-- Two types are missing when `puts` is called, so three are too many, and the number is taken for an integer. -/
theorem lowerModule_misaligned :
    ∃ l fn happened, lowerModule putsEarly putsTypes {} 9 = some l ∧ l.result.ok = true ∧
      l.out.functions[0]? = some fn ∧ l.events[0]? = some happened ∧ fn.regTypes.length ≠ fn.regCount.toNat ∧
      .made 3 .f64 ∈ happened ∧ isF64Register fn 3 = false :=
  of_firstRow (by decide +kernel)

/-- With six registers there is nothing to fill up. -/
theorem lowerModule_aligned_late :
    ∃ l fn happened, lowerModule putsLate putsTypes {} 9 = some l ∧ l.result.ok = true ∧
      l.out.functions[0]? = some fn ∧ l.events[0]? = some happened ∧ .padded 7 ∈ happened ∧
      fn.regTypes.length = fn.regCount.toNat := by
  obtain ⟨l, fn, happened, h, hok, hfn, hevents, hfits, hpadded⟩ :=
    of_firstRow (P := fun _ happened => (∀ e ∈ happened, e.Fits) ∧ .padded 7 ∈ happened)
      (o := lowerModule putsLate putsTypes {} 9) (by decide +kernel)
  obtain ⟨happened', hevents', haligned⟩ := lowerModule_aligned h hok (Nat.zero_le 0) hfn
  obtain rfl := Option.some.inj (hevents.symm.trans hevents')
  exact ⟨l, fn, happened, h, hok, hfn, hevents, hpadded, (haligned hfits).1⟩

end Zith.Vm
