import Zith.Vm.Effects
import Zith.Vm.Snprintf

/-! When the two instructions that call `snprintf` do the same. What they write is cut to the capacity, so that two
    texts that differ further behind have one effect, and so have two texts of which neither fits the memory. -/

namespace Zith.Vm
open Zith.Lib

/-! ### When the two agree -/

section
variable {memory : LinearMemory} {buffer capacity : Int64} {t t' : List UInt8}

/-- A text is not written when the capacity is not positive or the text does not fit. -/
theorem putText_eq_none_iff : putText memory buffer capacity t = none ↔
    capacity ≤ 0 ∨ memory.bytes.length ≤ toSize buffer + min (toSize capacity - 1) t.length := by
  rw [putText]
  by_cases hcapacity : capacity ≤ 0
  · simp [hcapacity]
  · have hlength : (t.take (toSize capacity - 1) ++ [0]).length = min (toSize capacity - 1) t.length + 1 := by simp
    simp only [if_neg hcapacity, LinearMemory.writeString, LinearMemory.write, hlength]
    by_cases hbounds : toSize buffer > memory.bytes.length ∨
        min (toSize capacity - 1) t.length + 1 > memory.bytes.length - toSize buffer
    · rw [if_pos hbounds]
      exact iff_of_true rfl (Or.inr (by omega))
    · rw [if_neg hbounds]
      exact iff_of_false (by simp) (not_or.mpr ⟨hcapacity, by omega⟩)

theorem putText_eq_some (hcapacity : ¬capacity ≤ 0)
    (hroom : ¬memory.bytes.length ≤ toSize buffer + min (toSize capacity - 1) t.length) :
    putText memory buffer capacity t = some (Int64.ofNat (t.take (toSize capacity - 1)).length,
      { memory with bytes := memory.bytes.take (toSize buffer) ++ ((t.take (toSize capacity - 1) ++ [0]) ++
        memory.bytes.drop (toSize buffer + (t.take (toSize capacity - 1) ++ [0]).length)) }) := by
  rw [putText, if_neg hcapacity]
  simp only [LinearMemory.writeString, LinearMemory.write]
  rw [if_neg]
  simp only [List.length_append, List.length_take, List.length_singleton]
  omega

/-- Two texts have the same effect when their parts that are written are the same, or none is written. -/
theorem putText_eq_iff : putText memory buffer capacity t = putText memory buffer capacity t' ↔
    capacity ≤ 0 ∨ t.take (toSize capacity - 1) = t'.take (toSize capacity - 1) ∨
      (memory.bytes.length ≤ toSize buffer + min (toSize capacity - 1) t.length ∧
        memory.bytes.length ≤ toSize buffer + min (toSize capacity - 1) t'.length) := by
  by_cases hcapacity : capacity ≤ 0
  · simp [putText, hcapacity]
  · simp only [hcapacity, false_or]
    constructor
    · intro heq
      by_cases hfails : putText memory buffer capacity t = none
      · exact Or.inr ⟨(putText_eq_none_iff.mp hfails).resolve_left hcapacity,
          (putText_eq_none_iff.mp (heq.symm.trans hfails)).resolve_left hcapacity⟩
      · have hfails' : putText memory buffer capacity t' ≠ none := heq ▸ hfails
        rw [Ne, putText_eq_none_iff, not_or] at hfails'
        rw [putText_eq_none_iff, not_or] at hfails
        rw [putText_eq_some hcapacity hfails.2, putText_eq_some hcapacity hfails'.2] at heq
        obtain ⟨hresult, hmemory⟩ := Prod.mk.inj (Option.some.inj heq)
        have hbound : ∀ t : List UInt8, (t.take (toSize capacity - 1)).length < 2 ^ 64 := fun t => by
          have := capacity.toUInt64.toNat_lt
          rw [List.length_take]
          simp only [toSize]
          omega
        have hlength : (t.take (toSize capacity - 1)).length = (t'.take (toSize capacity - 1)).length := by
          rw [← toSize_ofNat (hbound t), hresult, toSize_ofNat (hbound t')]
        have hbytes := congrArg LinearMemory.bytes hmemory
        have hrest := List.append_cancel_left hbytes
        rw [List.append_assoc, List.append_assoc] at hrest
        exact Or.inl (List.append_inj_left hrest hlength)
    · rintro (hsame | ⟨hfails, hfails'⟩)
      · rw [putText, putText, hsame]
      · rw [putText_eq_none_iff.mpr (Or.inr hfails), putText_eq_none_iff.mpr (Or.inr hfails')]

end

/-- The condition on a call: `replaced` is what stands in the place of the format in `externSnprintf`, and `meant`
    what the format means. -/
inductive SnprintfsMatch (F : SnprintfFormat) (f64Text : Int64 → List UInt8) (memory : LinearMemory)
    (buffer capacity argument : Int64) : Prop
  | noCapacity (h : capacity ≤ 0)
  | noBuffer (h : memory.bytes.length ≤ toSize buffer)
  | plain (hne : F.pieces ≠ []) (h : F.Plain)
  | lone (h : F.Lone)
  /-- The capacity cuts a text off, before the two differ. -/
  | cut (hne : F.pieces ≠ [])
      (hlong : toSize capacity ≤ (F.replaced f64Text argument).length ∨
        toSize capacity ≤ (F.meant f64Text argument).length)
      (hsame : (F.replaced f64Text argument).take (toSize capacity - 1) =
        (F.meant f64Text argument).take (toSize capacity - 1))
  /-- Neither text fits the memory. -/
  | tooLong (hne : F.pieces ≠ [])
      (hreplaced : memory.bytes.length ≤ toSize buffer + min (toSize capacity - 1) (F.replaced f64Text argument).length)
      (hmeant : memory.bytes.length ≤ toSize buffer + min (toSize capacity - 1) (F.meant f64Text argument).length)

theorem spelled_eq_nil {F : SnprintfFormat} : F.spelled = [] ↔ F.pieces = [] := by
  rw [SnprintfFormat.spelled]
  cases F.pieces with
  | nil => simp [spelledPieces]
  | cons piece pieces => cases piece <;> simp [spelledPieces]

theorem outcomes_eq_iff {F : SnprintfFormat} {f64Text : Int64 → List UInt8} {memory : LinearMemory}
    {buffer capacity argument : Int64} (hf64 : ∀ v, 37 ∉ f64Text v) :
    (if F.spelled = [] then none else putText memory buffer capacity (F.replaced f64Text argument)) =
      putText memory buffer capacity (F.meant f64Text argument) ↔
    SnprintfsMatch F f64Text memory buffer capacity argument := by
  by_cases hempty : F.pieces = []
  · have hmeant : F.meant f64Text argument = [] := by rw [SnprintfFormat.meant, hempty]; rfl
    rw [if_pos (spelled_eq_nil.mpr hempty), eq_comm, putText_eq_none_iff, hmeant]
    simp only [List.length_nil, Nat.min_zero, Nat.add_zero]
    constructor
    · rintro (hcapacity | hbuffer)
      · exact .noCapacity hcapacity
      · exact .noBuffer hbuffer
    · intro h
      cases h with
      | noCapacity h => exact Or.inl h
      | noBuffer h => exact Or.inr h
      | plain hne h => exact absurd hempty hne
      | lone h =>
        obtain ⟨c, hc⟩ := h
        rw [hempty] at hc
        cases hc
      | cut hne => exact absurd hempty hne
      | tooLong hne => exact absurd hempty hne
  · rw [if_neg (mt spelled_eq_nil.mp hempty), putText_eq_iff]
    constructor
    · rintro (hcapacity | hsame | ⟨hreplaced, hmeant⟩)
      · exact .noCapacity hcapacity
      · by_cases hplain : F.Plain
        · exact .plain hempty hplain
        by_cases hlone : F.Lone
        · exact .lone hlone
        -- the texts differ, so that one of them is cut
        refine .cut hempty ?_ hsame
        by_contra hshort
        rw [List.take_of_length_le (by omega), List.take_of_length_le (by omega)] at hsame
        exact SnprintfFormat.replaced_ne hf64 hplain hlone hsame
      · exact .tooLong hempty hreplaced hmeant
    · intro h
      cases h with
      | noCapacity h => exact Or.inl h
      | noBuffer h => exact Or.inr (Or.inr ⟨by omega, by omega⟩)
      | plain hne h => exact Or.inr (Or.inl (by rw [SnprintfFormat.replaced_of_plain h]))
      | lone h => exact Or.inr (Or.inl (by rw [SnprintfFormat.replaced_of_lone h]))
      | cut hne hlong hsame => exact Or.inr (Or.inl hsame)
      | tooLong hne hreplaced hmeant => exact Or.inr (Or.inr ⟨hreplaced, hmeant⟩)

/-! ### The instructions -/

/-- Two instructions that call `snprintf` with the same arguments, one through each path. -/
structure SnprintfCalls (P : Program) (regs : List Int64) (env : Env) (F : SnprintfFormat) (scalar range : Instr)
    (buffer capacity format argument : Int64) : Prop where
  host : ∀ args env, P.host.dispatchScalarExtern (text "snprintf") args env =
    externSnprintf P.host.f64Text args env
  /-- `std::to_string` of a double writes digits, a sign and a point, or a word. -/
  f64Text : ∀ v, 37 ∉ P.host.f64Text v
  scalarOp : scalar.op = .callExtern
  rangeOp : range.op = .callExternRange
  scalarName : P.module.externs[scalar.imm.toNat]? = some (text "snprintf")
  rangeName : P.module.externs[range.imm.toNat]? = some (text "snprintf")
  /-- `validateFunctionShape` looks at the register of the result. -/
  dst : scalar.a.toNat < regs.length
  sameDst : range.a = scalar.a
  scalarArgs : [getReg regs scalar.b, getReg regs scalar.c, getReg regs scalar.d, getReg regs scalar.e] =
    [buffer, capacity, format, argument]
  count : range.c = 4
  rangeArgs : (regs.drop range.b.toNat).take 4 = [buffer, capacity, format, argument]
  spelled : env.memory.cstring (toSize format) = F.spelled

section
variable {P : Program} {regs : List Int64} {env : Env} {F : SnprintfFormat} {scalar range : Instr}
  {buffer capacity format argument : Int64}

theorem SnprintfCalls.scalar_eq (h : SnprintfCalls P regs env F scalar range buffer capacity format argument) :
    externOp P regs env scalar = finish regs env scalar.a (if F.spelled = [] then none
      else putText env.memory buffer capacity (F.replaced P.host.f64Text argument)) := by
  obtain ⟨hb, hc, hd, he⟩ : getReg regs scalar.b = buffer ∧ getReg regs scalar.c = capacity ∧
      getReg regs scalar.d = format ∧ getReg regs scalar.e = argument := by simpa using h.scalarArgs
  obtain ⟨himm, -⟩ := List.getElem?_eq_some_iff.mp h.scalarName
  have hscalar := @dispatch_snprintf P regs env scalar buffer capacity format argument h.host
  rw [h.spelled, formatScalar_eq] at hscalar
  simp only [externOp, h.scalarOp, if_neg (not_le.mpr himm), index, h.scalarName, bind, Except.bind, hb, hc, hd, he]
  exact hscalar

theorem SnprintfCalls.range_eq (h : SnprintfCalls P regs env F scalar range buffer capacity format argument) :
    externOp P regs env range = finish regs env scalar.a
      (putText env.memory buffer capacity (F.meant P.host.f64Text argument)) := by
  obtain ⟨himm, -⟩ := List.getElem?_eq_some_iff.mp h.rangeName
  have hroom : ¬(range.b.toNat > regs.length ∨ (4 : UInt16).toNat > regs.length - range.b.toNat) := by
    have := congrArg List.length h.rangeArgs
    simp only [List.length_take, List.length_drop, List.length_cons, List.length_nil] at this
    have hfour : (4 : UInt16).toNat = 4 := rfl
    omega
  have hname : text "snprintf" ≠ text "printf" := by decide +kernel
  have hargs : (regs.drop range.b.toNat).take (4 : UInt16).toNat = [buffer, capacity, format, argument] := h.rangeArgs
  have hrange := @callVariadic_snprintf P regs env range buffer capacity format argument
  rw [h.spelled, SnprintfFormat.spelled, formatVariadic_pieces F.literal F.one, h.sameDst] at hrange
  have hchecks : ¬(text "snprintf" ≠ text "printf" ∧ text "snprintf" ≠ text "snprintf") := by simp
  have hcount : ¬(text "snprintf" = text "printf" ∧ (4 : UInt16).toNat < 1 ∨
      True ∧ (4 : UInt16).toNat < 3) := by
    rintro (⟨heq, -⟩ | ⟨-, hlt⟩)
    · exact hname heq
    · exact absurd hlt (by decide)
  simp only [externOp, h.rangeOp, if_neg (not_le.mpr himm), index, h.rangeName, h.count, if_neg hroom, bind,
    Except.bind, if_neg hchecks, hargs]
  rw [if_neg hcount]
  exact hrange

theorem finish_inj {dst : UInt16} (hdst : dst.toNat < regs.length) {o o' : Option (Int64 × LinearMemory)} :
    finish regs env dst o = finish regs env dst o' ↔ o = o' := by
  refine ⟨fun heq => ?_, fun heq => by rw [heq]⟩
  have hset : ∀ value, setReg regs dst value = some (regs.set dst.toNat value) := fun value =>
    if_neg (not_le.mpr hdst)
  cases o with
  | none =>
    cases o' with
    | none => rfl
    | some pair => simp [finish, setNext, hset] at heq
  | some pair =>
    cases o' with
    | none => simp [finish, setNext, hset] at heq
    | some pair' =>
      simp only [finish, setNext, hset, Except.ok.injEq, Effect.next.injEq, Env.mk.injEq, and_true] at heq
      obtain ⟨hregs, hmemory⟩ := heq
      have hvalue := congrArg (·[dst.toNat]?) hregs
      simp only [List.getElem?_set_self hdst, Option.some.injEq] at hvalue
      exact congrArg some (Prod.ext hvalue hmemory)

/-- The two instructions do the same exactly when the condition holds. -/
theorem SnprintfCalls.agree_iff (h : SnprintfCalls P regs env F scalar range buffer capacity format argument) :
    externOp P regs env scalar = externOp P regs env range ↔
      SnprintfsMatch F P.host.f64Text env.memory buffer capacity argument := by
  rw [h.scalar_eq, h.range_eq, finish_inj h.dst]
  exact outcomes_eq_iff h.f64Text

end

/-! ### Two calls -/

/-- A module that calls `snprintf`. -/
def printer : Program where
  module := { externs := [text "snprintf"] }
  stringAddresses := []
  host := { (default : Host) with
    f64Text := fun _ => []
    dispatchScalarExtern := fun _ args env => externSnprintf (fun _ => []) args env }

/-- Sixteen bytes for the text, and the format behind them. -/
def printerMemory (F : SnprintfFormat) : LinearMemory :=
  { bytes := List.replicate 16 0 ++ F.spelled ++ [0], bump := 17 + F.spelled.length }

def scalarCall : Instr := { op := .callExtern, a := 4, b := 0, c := 1, d := 2, e := 3 }

def rangeCall : Instr := { op := .callExternRange, a := 4, b := 0, c := 4 }

/-- `"%u"`. -/
def loneFormat : SnprintfFormat := ⟨[.conversion .u], by simp, by decide⟩

/-- `"n=%u"`. -/
def labelledFormat : SnprintfFormat := ⟨[.literal 110, .literal 61, .conversion .u], by simp, by decide⟩

/-- `snprintf(0, 16, format, 42)`, through both paths. -/
theorem printer_calls (F : SnprintfFormat) (hspelled : (printerMemory F).cstring 16 = F.spelled) :
    SnprintfCalls printer [0, 16, 16, 42, 0] { memory := printerMemory F } F scalarCall rangeCall 0 16 16 42 where
  host _ _ := rfl
  f64Text _ := List.not_mem_nil
  scalarOp := rfl
  rangeOp := rfl
  scalarName := rfl
  rangeName := rfl
  dst := by decide
  sameDst := rfl
  scalarArgs := rfl
  count := rfl
  rangeArgs := rfl
  spelled := hspelled

theorem snprintf_lone : externOp printer [0, 16, 16, 42, 0] { memory := printerMemory loneFormat } scalarCall =
    externOp printer [0, 16, 16, 42, 0] { memory := printerMemory loneFormat } rangeCall :=
  (SnprintfCalls.agree_iff (printer_calls loneFormat (by decide +kernel))).mpr (.lone ⟨.u, rfl⟩)

/-- The literal text around the conversion is lost on the one path. -/
theorem snprintf_labelled : externOp printer [0, 16, 16, 42, 0] { memory := printerMemory labelledFormat } scalarCall ≠
    externOp printer [0, 16, 16, 42, 0] { memory := printerMemory labelledFormat } rangeCall := by
  have h := printer_calls labelledFormat (by decide +kernel)
  rw [h.scalar_eq, h.range_eq, Ne, finish_inj h.dst]
  decide +kernel

end Zith.Vm
