import Zith.Vm.LoweringSteps

/-! The register metadata of a lowered function: as many register types as registers, and for every register
    that `newTypedReg` has returned the type it was returned for. `isF64Register` reads these types.

        newTypedReg, a call window     keep the two in step, up to 65535 registers
        padding before an extern       keeps them only when there are five types already -/

namespace Zith.Vm
open Lib Hir Layout

/-- The metadata agree with the registers. -/
structure Aligned (fn : Function) (events : List RegEvent) : Prop where
  count : fn.regTypes.length = fn.regCount.toNat
  typed : ∀ reg vt, RegEvent.made reg vt ∈ events → fn.regTypes[reg.toNat]? = some vt

/-- The register has a number of its own, the padding finds nothing to do, the window ends below the limit. -/
def RegEvent.Fits : RegEvent → Prop
  | .made reg _ => reg ≠ kUnassignedReg
  | .padded count => 5 ≤ count
  | .window count => count ≤ 0xFFFF

instance : DecidablePred RegEvent.Fits
  | .made reg _ => inferInstanceAs (Decidable (reg ≠ kUnassignedReg))
  | .padded count => inferInstanceAs (Decidable (5 ≤ count))
  | .window count => inferInstanceAs (Decidable (count ≤ 0xFFFF))

/-- As long as the lowering has not failed and all has fitted, the metadata agree. -/
def KeepsAligned (s : LowerState) : Prop := s.result.ok = true → (∀ e ∈ s.events, e.Fits) → Aligned s.fn s.events

/-! ### One step -/

variable {events : List RegEvent} {s t : LowerState}

theorem run_u16 {value : ℕ} {n : UInt16} (h : u16 value s = some (n, t)) :
    value ≤ 0xFFFF ∧ n = UInt16.ofNat value ∧ t = s ∨
      0xFFFF < value ∧ t = { s with result := ⟨false, text "v2 module table exceeds 65535 entries"⟩ } := by
  rcases Nat.lt_or_ge 0xFFFF value with hgt | hle
  · rw [u16, if_pos hgt] at h
    cases h
    exact Or.inr ⟨hgt, rfl⟩
  · rw [u16, if_neg (Nat.not_lt.mpr hle)] at h
    cases h
    exact Or.inl ⟨hle, rfl, rfl⟩

/-- More types behind the ones that are there. -/
theorem getElem?_append_of_some {α : Type} {l l' : List α} {i : ℕ} {a : α} (h : l[i]? = some a) :
    (l ++ l')[i]? = some a := by
  obtain ⟨hi, -⟩ := List.getElem?_eq_some_iff.mp h
  rw [List.getElem?_append_left hi, h]

theorem aligned_made {fn : Function} {vt : ValueType} (h : Aligned fn events)
    (hreg : fn.regCount ≠ kUnassignedReg) :
    Aligned { fn with regCount := fn.regCount + 1, regTypes := fn.regTypes ++ [vt] }
      (events ++ [.made fn.regCount vt]) := by
  constructor
  · rw [List.length_append, List.length_singleton, h.count]
    exact (toNat_succ_of_ne hreg).symm
  · intro reg v hmem
    rcases List.mem_append.mp hmem with hold | hnew
    · exact getElem?_append_of_some (h.typed reg v hold)
    · cases List.mem_singleton.mp hnew
      rw [← h.count, List.getElem?_concat_length]

theorem fits_of_append {events events' : List RegEvent} (h : ∀ e ∈ events ++ events', e.Fits) :
    (∀ e ∈ events, e.Fits) ∧ ∀ e ∈ events', e.Fits :=
  List.forall_mem_append.mp h

/-- An event that is not a new register. -/
theorem mem_made_append {e : RegEvent} {reg : UInt16} {vt : ValueType}
    (h : RegEvent.made reg vt ∈ events ++ [e]) (he : ∀ reg vt, e ≠ .made reg vt) :
    RegEvent.made reg vt ∈ events := by
  rcases List.mem_append.mp h with hold | hnew
  · exact hold
  · exact absurd (List.mem_singleton.mp hnew).symm (he reg vt)

/-- A padding that finds fewer than five types leaves more types than registers. -/
theorem aligned_padded_iff {fn : Function} (h : Aligned fn events) :
    Aligned { fn with regTypes := fn.regTypes ++ List.replicate (5 - fn.regTypes.length) .i64 }
      (events ++ [.padded fn.regTypes.length]) ↔ 5 ≤ fn.regTypes.length := by
  have hcount := h.count
  constructor
  · intro halign
    have hpadded := halign.count
    dsimp only at hpadded
    rw [List.length_append, List.length_replicate] at hpadded
    omega
  · intro hfive
    constructor
    · dsimp only
      rw [List.length_append, List.length_replicate]
      omega
    · intro reg vt hmem
      exact getElem?_append_of_some (h.typed reg vt (mem_made_append hmem fun _ _ heq => by cases heq))

theorem aligned_variadic {fn : Function} {count : ℕ} (h : Aligned fn events)
    (hle : fn.regTypes.length + count ≤ 0xFFFF) :
    Aligned { fn with
        regTypes := fn.regTypes ++ List.replicate count .i64
        regCount := UInt16.ofNat (fn.regTypes.length + count) }
      (events ++ [.window (fn.regTypes.length + count)]) := by
  constructor
  · dsimp only
    rw [List.length_append, List.length_replicate, UInt16.toNat_ofNat_of_lt' (Nat.lt_succ_of_le hle)]
  · intro reg vt hmem
    exact getElem?_append_of_some (h.typed reg vt (mem_made_append hmem fun _ _ heq => by cases heq))

theorem keepsAligned_window {types : List ValueType} (h : pushWindow types s = some ((), t))
    (hs : KeepsAligned s) : KeepsAligned t := by
  obtain ⟨_, s₁, hpush, h₁⟩ := run_bind h
  cases hpush
  obtain ⟨_, s₂, hget, h₂⟩ := run_bind h₁
  cases hget
  obtain ⟨count, s₃, hcount, h₃⟩ := run_bind h₂
  cases h₃
  intro hok hfits
  rcases run_u16 hcount with ⟨hle, rfl, rfl⟩ | ⟨-, rfl⟩
  · obtain ⟨-, htyped⟩ := hs hok hfits
    constructor
    · exact (UInt16.toNat_ofNat_of_lt' (Nat.lt_succ_of_le hle)).symm
    · exact fun reg vt hmem => getElem?_append_of_some (htyped reg vt hmem)
  · cases hok

theorem keepsAligned_step (h : LowerStep s t) (hs : KeepsAligned s) : KeepsAligned t := by
  cases h with
  | failed message => exact fun hok => by cases hok
  | tables out h => exact hs
  | code body => exact fun hok hfits => ⟨(hs hok hfits).count, (hs hok hfits).typed⟩
  | remembered regs => exact hs
  | made h =>
    cases h
    intro hok hfits
    obtain ⟨hold, hnew⟩ := fits_of_append hfits
    exact aligned_made (hs hok hold) (hnew _ (List.mem_singleton.mpr rfl))
  | padded h =>
    cases h
    intro hok hfits
    obtain ⟨hold, hnew⟩ := fits_of_append hfits
    exact (aligned_padded_iff (hs hok hold)).mpr (hnew _ (List.mem_singleton.mpr rfl))
  | variadic h =>
    cases h
    intro hok hfits
    obtain ⟨hold, hnew⟩ := fits_of_append hfits
    exact aligned_variadic (hs hok hold) (hnew _ (List.mem_singleton.mpr rfl))
  | window h => exact keepsAligned_window h hs

/-! ### Before the first instruction -/

/-- A step that leaves the types of registers, and what has happened to them, as they are. -/
structure Quiet (s t : LowerState) : Prop where
  regTypes : t.fn.regTypes = s.fn.regTypes
  events : t.events = s.events

theorem quiet_run {α : Type} {m : LowerM α} (h : Moves Quiet m) {a : α} (hrun : m s = some (a, t)) :
    Quiet s t := by
  refine h.keeps (I := fun u => Quiet s u) (fun u v huv hu => ?_) hrun ⟨rfl, rfl⟩
  exact ⟨huv.regTypes.trans hu.regTypes, huv.events.trans hu.events⟩

theorem quiet_fail (message : List UInt8) : Moves Quiet (fail message) := .modify fun _ => ⟨rfl, rfl⟩

section
variable {C : LowerContext}

theorem quiet_countSlots (slots : List HirSlotId) : Moves Quiet (countSlots slots) :=
  .ite ((quiet_fail _).bind fun _ => .pure) .pure

theorem quiet_allocaSlot (slot : HirSlotId) (type : TypeId) (alignmentBytes : UInt32) :
    Moves Quiet (allocaSlot C slot type alignmentBytes) := by
  refine .update fun s b t h => ?_
  dsimp only at h
  cases hknown : s.slotWidths[slot.toNat]? with
  | none =>
    rw [hknown] at h
    cases h
    exact .refl
  | some known =>
    rw [hknown] at h
    by_cases hwidth : known ≠ 0 ∧ known ≠ valueRegisterWidth C.types type.toNat
    · dsimp only at h
      rw [if_pos hwidth] at h
      cases h
      exact .single ⟨rfl, rfl⟩
    · dsimp only at h
      rw [if_neg hwidth] at h
      cases h
      exact .single ⟨rfl, rfl⟩

theorem quiet_allocaSlots : ∀ exprs : List HirExpr, Moves Quiet (allocaSlots C exprs) := by
  intro exprs
  induction exprs with
  | nil => exact .pure
  | cons expr exprs ih =>
    cases expr with
    | slotAlloca => exact (quiet_allocaSlot ..).bind fun _ => .ite .pure ih
    | _ => exact ih

theorem quiet_paramSlot (slot : HirSlotId) (type : TypeId) (reg : UInt16) :
    Moves Quiet (paramSlot C slot type reg) := by
  refine .update fun s b t h => ?_
  dsimp only at h
  cases hknown : s.slotWidths[slot.toNat]? with
  | none =>
    rw [hknown] at h
    cases h
    exact .refl
  | some known =>
    rw [hknown] at h
    by_cases hwidth : known ≠ 0 ∧ known ≠ valueRegisterWidth C.types type.toNat
    · dsimp only at h
      rw [if_pos hwidth] at h
      cases h
      exact .single ⟨rfl, rfl⟩
    · dsimp only at h
      rw [if_neg hwidth] at h
      cases h
      exact .single ⟨rfl, rfl⟩

theorem quiet_paramSlots : ∀ params : List (HirSlotId × TypeId × UInt16), Moves Quiet (paramSlots C params) := by
  intro params
  induction params with
  | nil => exact .pure
  | cons param params ih => exact (quiet_paramSlot ..).bind fun _ => .ite .pure ih

/-- As many types as registers for the parameters. -/
theorem paramRegisters_run : ∀ {types : List TypeId} {next n : ℕ} {s t : LowerState},
    paramRegisters C types next s = some (some n, t) → s.fn.regTypes.length = next → next ≤ 0xFFFF →
      t.fn.regTypes.length = n ∧ n ≤ 0xFFFF ∧ t.events = s.events := by
  intro types
  induction types with
  | nil =>
    intro next n s t h hlen hle
    cases h
    exact ⟨hlen, hle, rfl⟩
  | cons type types ih =>
    intro next n s t h hlen hle
    rw [paramRegisters] at h
    by_cases hgt : next + valueRegisterWidth C.types type.toNat > 0xFFFF
    · dsimp only at h
      rw [if_pos hgt] at h
      cases h
    · dsimp only at h
      rw [if_neg hgt] at h
      obtain ⟨_, s₁, hpush, hrest⟩ := run_bind h
      obtain rfl := run_modify hpush
      have hone : valueRegisterWidth C.types type.toNat = 1 + (if valueRegisterWidth C.types type.toNat = 2
          then [ValueType.i64] else []).length := by
        rw [valueRegisterWidth]
        split
        · rfl
        · rfl
      have hnext : (s.fn.regTypes ++ valueTypeOf C.types type.toNat ::
          (if valueRegisterWidth C.types type.toNat = 2 then [.i64] else [])).length =
            next + valueRegisterWidth C.types type.toNat := by
        rw [List.length_append, List.length_cons, hlen]
        omega
      obtain ⟨hn, hmax, hevents⟩ := ih hrest hnext (Nat.le_of_not_lt hgt)
      exact ⟨hn, hmax, hevents⟩

theorem slotRegisters_run : ∀ {slots : List HirSlotId} {next n : ℕ} {s t : LowerState},
    slotRegisters slots next s = some (some n, t) → next ≤ 0xFFFF →
      Quiet s t ∧ next ≤ n ∧ n ≤ 0xFFFF := by
  intro slots
  induction slots with
  | nil =>
    intro next n s t h hle
    cases h
    exact ⟨⟨rfl, rfl⟩, le_refl _, hle⟩
  | cons slot slots ih =>
    intro next n s t h hle
    obtain ⟨_, s₁, hget, h₁⟩ := run_bind h
    cases hget
    obtain ⟨_, s₂, hset, h₂⟩ := run_bind h₁
    cases hset
    dsimp only at h₂
    split at h₂
    · obtain ⟨hquiet, hn⟩ := ih h₂ hle
      exact ⟨⟨hquiet.regTypes, hquiet.events⟩, hn⟩
    · generalize (if s.slotBacked[slot.toNat]?.getD false = true then 1 else _) = width at h₂
      split at h₂
      · cases h₂
      · rename_i hgt
        obtain ⟨_, s₃, hmodify, h₃⟩ := run_bind h₂
        cases hmodify
        obtain ⟨hquiet, hnext, hn⟩ := ih h₃ (Nat.le_of_not_lt hgt)
        exact ⟨⟨hquiet.regTypes, hquiet.events⟩, by omega, hn⟩

theorem length_foldl_set {α : Type} (a : α) : ∀ (is : List ℕ) (l : List α),
    (is.foldl (fun l i => l.set i a) l).length = l.length := by
  intro is
  induction is with
  | nil => exact fun _ => rfl
  | cons i is ih => exact fun l => (ih _).trans List.length_set

variable {s t : LowerState}

theorem prepareReturn_run {n : ℕ} (h : prepareReturn C s = some (n, t)) (hs : s.fn.regTypes = []) :
    t.fn.regTypes.length = n ∧ n ≤ 1 ∧ t.events = s.events := by
  rw [prepareReturn] at h
  split at h
  · obtain ⟨_, s₁, hptr, hone⟩ := run_bind h
    obtain rfl := run_modify hptr
    obtain ⟨rfl, rfl⟩ := run_pure hone
    exact ⟨by rw [hs]; rfl, le_refl _, rfl⟩
  · obtain ⟨_, s₁, hslice, hzero⟩ := run_bind h
    obtain rfl := run_modify hslice
    obtain ⟨rfl, rfl⟩ := run_pure hzero
    exact ⟨by rw [hs]; rfl, Nat.zero_le _, rfl⟩

/-- A function starts with as many types as registers. -/
theorem prepareFunctionRegisters_run (h : prepareFunctionRegisters C s = some (true, t))
    (hs : s.fn.regTypes = []) : t.fn.regTypes.length = t.fn.regCount.toNat ∧ t.events = s.events := by
  rw [prepareFunctionRegisters] at h
  split at h
  · cases h
  · obtain ⟨firstParam, s₁, hreturn, h⟩ := run_bind h
    obtain ⟨hlen₁, hle₁, hevents₁⟩ := prepareReturn_run hreturn hs
    obtain ⟨firstSlot, s₂, hparams, h⟩ := run_bind h
    cases firstSlot with
    | none => cases h
    | some firstSlot =>
      obtain ⟨hlen₂, hle₂, hevents₂⟩ := paramRegisters_run hparams hlen₁ (by omega)
      obtain ⟨_, s₃, hcount, h⟩ := run_bind h
      cases hcount
      obtain ⟨exprs, s₄, hexprs, h⟩ := run_bind h
      obtain ⟨-, rfl⟩ := run_ofOption hexprs
      obtain ⟨slotCount, s₅, hslots, h⟩ := run_bind h
      have hquiet₅ := quiet_run (quiet_countSlots _) hslots
      cases slotCount with
      | none => cases h
      | some slotCount =>
        obtain ⟨_, s₆, htables, h⟩ := run_bind h
        cases htables
        obtain ⟨done, s₇, hallocas, h⟩ := run_bind h
        have hquiet₇ := quiet_run (quiet_allocaSlots _) hallocas
        cases done with
        | false => cases h
        | true =>
          obtain ⟨_, s₈, hget, h⟩ := run_bind h
          cases hget
          obtain ⟨done, s₉, hparamSlots, h⟩ := run_bind h
          have hquiet₉ := quiet_run (quiet_paramSlots _) hparamSlots
          cases done with
          | false => cases h
          | true =>
            obtain ⟨_, s₁₀, hbacked, h⟩ := run_bind h
            cases hbacked
            obtain ⟨count, s₁₁, hregisters, h⟩ := run_bind h
            cases count with
            | none => cases h
            | some count =>
              obtain ⟨hquiet, hle, hmax⟩ := slotRegisters_run hregisters hle₂
              cases h
              have htypes : s₁₁.fn.regTypes.length = firstSlot := by
                rw [hquiet.regTypes, ← hlen₂]
                exact congrArg List.length (hquiet₉.regTypes.trans (hquiet₇.regTypes.trans hquiet₅.regTypes))
              have hevents : s₁₁.events = s.events := by
                rw [hquiet.events, ← hevents₁, ← hevents₂]
                exact hquiet₉.events.trans (hquiet₇.events.trans hquiet₅.events)
              refine ⟨?_, hevents⟩
              dsimp only
              rw [length_foldl_set, List.length_append, List.length_replicate, htypes,
                UInt16.toNat_ofNat_of_lt' (Nat.lt_succ_of_le (by omega))]
              omega

/-! ### Preparing that fails -/

theorem paramRegisters_fails : ∀ {types : List TypeId} {next : ℕ} {s t : LowerState},
    paramRegisters C types next s = some (none, t) → t.result.ok = false := by
  intro types
  induction types with
  | nil =>
    intro next s t h
    cases h
  | cons type types ih =>
    intro next s t h
    rw [paramRegisters] at h
    dsimp only at h
    split at h
    · cases h
      rfl
    · obtain ⟨_, s₁, -, hrest⟩ := run_bind h
      exact ih hrest

theorem countSlots_fails {slots : List HirSlotId} (h : countSlots slots s = some (none, t)) :
    t.result.ok = false := by
  rw [countSlots] at h
  split at h
  · cases h
    rfl
  · cases h

theorem allocaSlot_fails {slot : HirSlotId} {type : TypeId} {alignmentBytes : UInt32}
    (h : allocaSlot C slot type alignmentBytes s = some (false, t)) : t.result.ok = false := by
  obtain ⟨_, s₁, hget, hrest⟩ := run_bind h
  obtain ⟨rfl, rfl⟩ := run_get hget
  cases hknown : s₁.slotWidths[slot.toNat]? with
  | none =>
    rw [hknown] at hrest
    cases hrest
  | some known =>
    rw [hknown] at hrest
    dsimp only at hrest
    split at hrest
    · cases hrest
      rfl
    · cases hrest

theorem allocaSlots_fails : ∀ {exprs : List HirExpr} {s t : LowerState},
    allocaSlots C exprs s = some (false, t) → t.result.ok = false := by
  intro exprs
  induction exprs with
  | nil =>
    intro s t h
    cases h
  | cons expr exprs ih =>
    intro s t h
    cases expr with
    | slotAlloca =>
      obtain ⟨done, s₁, hslot, h⟩ := run_bind h
      cases done with
      | false =>
        obtain ⟨-, rfl⟩ := run_pure h
        exact allocaSlot_fails hslot
      | true => exact ih h
    | _ => exact ih h

theorem paramSlot_fails {slot : HirSlotId} {type : TypeId} {reg : UInt16}
    (h : paramSlot C slot type reg s = some (false, t)) : t.result.ok = false := by
  obtain ⟨_, s₁, hget, hrest⟩ := run_bind h
  obtain ⟨rfl, rfl⟩ := run_get hget
  cases hknown : s₁.slotWidths[slot.toNat]? with
  | none =>
    rw [hknown] at hrest
    cases hrest
  | some known =>
    rw [hknown] at hrest
    dsimp only at hrest
    split at hrest
    · cases hrest
      rfl
    · cases hrest

theorem paramSlots_fails : ∀ {params : List (HirSlotId × TypeId × UInt16)} {s t : LowerState},
    paramSlots C params s = some (false, t) → t.result.ok = false := by
  intro params
  induction params with
  | nil =>
    intro s t h
    cases h
  | cons param params ih =>
    intro s t h
    obtain ⟨done, s₁, hslot, h⟩ := run_bind h
    cases done with
    | false =>
      obtain ⟨-, rfl⟩ := run_pure h
      exact paramSlot_fails hslot
    | true => exact ih h

theorem slotRegisters_fails : ∀ {slots : List HirSlotId} {next : ℕ} {s t : LowerState},
    slotRegisters slots next s = some (none, t) → t.result.ok = false := by
  intro slots
  induction slots with
  | nil =>
    intro next s t h
    cases h
  | cons slot slots ih =>
    intro next s t h
    obtain ⟨_, s₁, hget, h₁⟩ := run_bind h
    obtain ⟨rfl, rfl⟩ := run_get hget
    obtain ⟨_, s₂, -, h₂⟩ := run_bind h₁
    dsimp only at h₂
    split at h₂
    · exact ih h₂
    · generalize (if s₁.slotBacked[slot.toNat]?.getD false = true then 1 else _) = width at h₂
      split at h₂
      · cases h₂
        rfl
      · obtain ⟨_, s₃, -, h₃⟩ := run_bind h₂
        exact ih h₃

/-- A preparation that stops has noted a failure. -/
theorem prepareFunctionRegisters_fails (h : prepareFunctionRegisters C s = some (false, t)) :
    t.result.ok = false := by
  rw [prepareFunctionRegisters] at h
  split at h
  · cases h
    rfl
  · obtain ⟨firstParam, s₁, -, h⟩ := run_bind h
    obtain ⟨firstSlot, s₂, hparams, h⟩ := run_bind h
    cases firstSlot with
    | none =>
      obtain ⟨-, rfl⟩ := run_pure h
      exact paramRegisters_fails hparams
    | some firstSlot =>
      obtain ⟨_, s₃, -, h⟩ := run_bind h
      obtain ⟨exprs, s₄, -, h⟩ := run_bind h
      obtain ⟨slotCount, s₅, hslots, h⟩ := run_bind h
      cases slotCount with
      | none =>
        obtain ⟨-, rfl⟩ := run_pure h
        exact countSlots_fails hslots
      | some slotCount =>
        obtain ⟨_, s₆, -, h⟩ := run_bind h
        obtain ⟨done, s₇, hallocas, h⟩ := run_bind h
        cases done with
        | false =>
          obtain ⟨-, rfl⟩ := run_pure h
          exact allocaSlots_fails hallocas
        | true =>
          obtain ⟨_, s₈, -, h⟩ := run_bind h
          obtain ⟨done, s₉, hparamSlots, h⟩ := run_bind h
          cases done with
          | false =>
            obtain ⟨-, rfl⟩ := run_pure h
            exact paramSlots_fails hparamSlots
          | true =>
            obtain ⟨_, s₁₀, -, h⟩ := run_bind h
            obtain ⟨count, s₁₁, hregisters, h⟩ := run_bind h
            cases count with
            | none =>
              obtain ⟨-, rfl⟩ := run_pure h
              exact slotRegisters_fails hregisters
            | some count => cases h

/-! ### A function, a row, the module -/

/-- Behind a preparation all that happens is made of steps. -/
theorem lowerFunction_keeps {fuel : ℕ} {done : Bool} (h : lowerFunction C fuel s = some (done, t))
    (htypes : s.fn.regTypes = []) (hevents : s.events = []) : KeepsAligned t := by
  obtain ⟨prepared, s₁, hprepare, h⟩ := run_bind h
  cases prepared with
  | false =>
    obtain ⟨-, rfl⟩ := run_pure h
    intro hok
    rw [prepareFunctionRegisters_fails hprepare] at hok
    cases hok
  | true =>
    obtain ⟨hcount, hnone⟩ := prepareFunctionRegisters_run hprepare htypes
    have hstart : KeepsAligned s₁ := by
      refine fun _ _ => ⟨hcount, fun reg vt hmem => ?_⟩
      rw [hnone, hevents] at hmem
      exact absurd hmem List.not_mem_nil
    refine Moves.keeps (?_ : Lowers _) (fun _ _ => keepsAligned_step) h hstart
    refine .get fun _ => (lowers_allocateSlots _).bind fun _ => .ite .pure ?_
    refine (lowers_lowerBlocks (lowers_lowering fuel) _).bind fun blocks => ?_
    split
    · exact .pure
    · exact lowers_patchTargets ..

end

end Zith.Vm
