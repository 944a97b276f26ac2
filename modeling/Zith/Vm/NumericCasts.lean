import Zith.Vm.TreeLowering

/-! Numeric casts. The lowering of a cast is the register of its operand, and no code: the cast has the value
    it should have if the conversion leaves the 64 bits of the operand as they are.

        integer   v      in a register as Int64.ofInt v, whatever its width
        double    bits   in a register as they are, for single precision too -/

namespace Zith.Vm
open Lib Hir Layout
open Types (TypeIntern IntWidth FloatWidth intWidthBits)

/-! ### Values and conversions -/

/-- The types a numeric cast is between. -/
inductive Numeric where
  | int (width : IntWidth)
  | float (width : FloatWidth)
  deriving DecidableEq

def numeric (types : TypeIntern) (type : TypeId) : Option Numeric :=
  match types.lookup type.toNat with
  | some (.int width) => some (.int width)
  | some (.float width) => some (.float width)
  | _ => none

/-- A number. A floating-point number is given by the bits of the double with its value. -/
inductive NumericValue where
  | int (value : ℤ)
  | float (bits : Int64)

/-- What a register holds for it. -/
def NumericValue.word : NumericValue → Int64
  | .int value => Int64.ofInt value
  | .float bits => bits

def isSignedWidth : IntWidth → Bool
  | .i8 | .i16 | .i32 | .i64 | .i128 => true
  | _ => false

/-- Truncated to a width, and read with its signedness. Literals have no width. -/
def wrapInt (width : IntWidth) (value : ℤ) : ℤ :=
  if width = .literal then value
  else if isSignedWidth width then value.bmod (2 ^ (intWidthBits width).toNat)
  else value % 2 ^ (intWidthBits width).toNat

/-- The conversions of the platform: to the nearest number of a precision, and to an integer, towards zero. -/
structure FloatConversions where
  ofInt : FloatWidth → ℤ → Int64
  toInt : Int64 → ℤ
  round : FloatWidth → Int64 → Int64

def convert (F : FloatConversions) : Numeric → NumericValue → NumericValue
  | .int width, .int value => .int (wrapInt width value)
  | .int width, .float bits => .int (wrapInt width (F.toInt bits))
  | .float width, .int value => .float (F.ofInt width value)
  | .float width, .float bits => .float (F.round width bits)

/-! ### Words that a conversion keeps -/

/-- The word is a number of the width: every word is one of 64 bits or more. -/
def FitsWord (width : IntWidth) (word : Int64) : Prop :=
  let bits := (intWidthBits width).toNat
  width = .literal ∨ 64 ≤ bits ∨
    if isSignedWidth width then -2 ^ (bits - 1) ≤ word.toInt ∧ word.toInt < 2 ^ (bits - 1)
    else 0 ≤ word.toInt ∧ word.toInt < 2 ^ bits

instance (width : IntWidth) (word : Int64) : Decidable (FitsWord width word) :=
  inferInstanceAs (Decidable (_ ∨ _ ∨ _))

/-- The conversion has the word of its operand. -/
def KeepsWord (F : FloatConversions) : Numeric → NumericValue → Prop
  | .int width, .int value => FitsWord width (Int64.ofInt value)
  | .int width, .float bits => Int64.ofInt (wrapInt width (F.toInt bits)) = bits
  | .float width, .int value => F.ofInt width value = Int64.ofInt value
  | .float width, .float bits => F.round width bits = bits

/-- Wrapping to a width keeps the 64 bits of a number of that width, and of no other. -/
theorem wrapInt_word_iff (width : IntWidth) (value : ℤ) :
    Int64.ofInt (wrapInt width value) = Int64.ofInt value ↔ FitsWord width (Int64.ofInt value) := by
  have hsize : Int64.size = 2 ^ 64 := rfl
  rw [← Int64.toInt_inj, FitsWord, Int64.toInt_ofInt, Int64.toInt_ofInt, hsize]
  cases width with
  | literal => simp [wrapInt]
  | i64 => simp [wrapInt, isSignedWidth, intWidthBits]
  | i128 | u64 | u128 =>
    -- a multiple of 2 ^ 64
    simp only [wrapInt, isSignedWidth, intWidthBits, Int.bmod_def, UInt32.reduceToNat, Nat.reducePow, Int.reducePow,
      Nat.reduceLeDiff, reduceIte, reduceCtorEq, Bool.false_eq_true, or_true, true_or, iff_true]
    omega
  | _ =>
    simp only [wrapInt, isSignedWidth, intWidthBits, Int.bmod_def, UInt32.reduceToNat, Nat.reducePow, Int.reducePow,
      Nat.reduceLeDiff, Nat.reduceSub, reduceIte, reduceCtorEq, Bool.false_eq_true, false_or]
    omega

/-- Whether a conversion leaves the 64 bits of its operand as they are. -/
theorem convert_word_iff (F : FloatConversions) (target : Numeric) (value : NumericValue) :
    (convert F target value).word = value.word ↔ KeepsWord F target value := by
  cases target with
  | int width =>
    cases value with
    | int value => exact wrapInt_word_iff width value
    | float bits => exact Iff.rfl
  | float width =>
    cases value with
    | int value => exact Iff.rfl
    | float bits => exact Iff.rfl

/-! ### The lowering of a cast -/

section
variable {C : LowerContext}

/-- A cast adds no code to that of its operand, and has the register of the operand. -/
theorem lowerOperand_cast {fuel : ℕ} {id value : HirExprId} {source target : TypeId} {s t : LowerState} {reg : UInt16}
    (hexpr : C.hir.exprs[id.toNat]? = some (.cast value source target))
    (hrun : (lowering C (fuel + 1)).operand id s = some (reg, t)) (hreg : reg ≠ kUnassignedReg)
    (hnew : s.regs[id.toNat]? = some kUnassignedReg) :
    ∃ u, (lowering C fuel).operand value s = some (reg, u) ∧ t.fn = u.fn := by
  rcases lowerOperand_cases hexpr hrun hreg with ⟨hknown, -⟩ | ⟨-, u, hcast, rfl⟩
  · exact absurd (Option.some.inj (hknown.symm.trans hnew)) hreg
  · obtain ⟨reg', s₁, hvalue, hcast⟩ := run_bind hcast
    split at hcast
    · obtain ⟨rfl, -⟩ := run_pure hcast
      exact absurd rfl hreg
    · obtain ⟨rfl, rfl⟩ := run_pure hcast
      exact ⟨u, hvalue, rfl⟩

/-- **Numeric casts**: behind the code of the cast, which is that of its operand, the register of the cast holds the
    converted value if and only if the conversion keeps the word of the operand. -/
theorem cast_converts_iff (F : FloatConversions) {fuel : ℕ} {id value : HirExprId} {source target : TypeId}
    {s t : LowerState} {reg : UInt16} (hexpr : C.hir.exprs[id.toNat]? = some (.cast value source target))
    (hrun : (lowering C (fuel + 1)).operand id s = some (reg, t)) (hreg : reg ≠ kUnassignedReg)
    (hnew : s.regs[id.toNat]? = some kUnassignedReg) :
    ∃ valueReg u, (lowering C fuel).operand value s = some (valueReg, u) ∧ t.fn = u.fn ∧
      ∀ type, numeric C.types target = some type → ∀ (regs : List Int64) (v : NumericValue),
        getReg regs valueReg = v.word → (getReg regs reg = (convert F type v).word ↔ KeepsWord F type v) := by
  obtain ⟨u, hvalue, hfn⟩ := lowerOperand_cast hexpr hrun hreg hnew
  refine ⟨reg, u, hvalue, hfn, fun type _ regs v hv => ?_⟩
  rw [hv, ← convert_word_iff, eq_comm]

end

/-! ### A cast that truncates -/

/-- The result of `runMain` on a fresh memory, if `n` steps are enough. -/
def runFor (n : ℕ) (m : Module) : Option FunctionReturn :=
  match startMain default {} m with
  | .error _ => none
  | .ok (P, start) =>
    match (step P)^[n] start with
    | .done result _ => some result
    | _ => none

theorem runsTo_of_runFor {n : ℕ} {m : Module} {value : Int64} (h : runFor n m = some { ok := true, value }) :
    RunsTo default {} m value := by
  rw [runFor] at h
  split at h
  · cases h
  · rename_i P start hstart
    split at h
    · rename_i result env hdone
      cases h
      exact ⟨P, start, n, _, env, hstart, hdone, rfl, rfl⟩
    · cases h

/-- `i64`, `i32` and `u8`. -/
def castTypes : TypeIntern := { types := [.error, .never, .void, .bool, .char, .int .i64, .int .i32, .int .u8] }

/-- `300 as u8`, from an `i32`. -/
def castModule : HirModule :=
  { exprs := [.literal (.i 300) 6, .cast 0 6 7, .ret 1], fns := [mainReturning 2] }

theorem cast_keeps_bits :
    ∃ l, lowerModule castModule castTypes {} 9 = some l ∧ l.result.ok = true ∧ RunsTo default {} l.out 300 ∧
      numeric castTypes 7 = some (.int .u8) ∧ ∀ F, (convert F (.int .u8) (.int 300)).word = 44 := by
  have hrun : ((lowerModule castModule castTypes {} 9).bind fun l => if l.result.ok then runFor 2 l.out else none) =
      some { ok := true, value := 300 } := by decide +kernel
  obtain ⟨l, hl, hrun⟩ := Option.bind_eq_some_iff.mp hrun
  split at hrun
  · rename_i hok
    exact ⟨l, hl, hok, runsTo_of_runFor hrun, rfl, fun _ => rfl⟩
  · cases hrun

/-- Conversions that are right for zero. -/
def zeroConversions : FloatConversions :=
  { ofInt := fun _ value => Int64.ofInt value, toInt := Int64.toInt, round := fun _ bits => bits }

theorem cast_converts_small : ∃ reg t, (lowering (mainContext castModule castTypes (mainReturning 2) 9) 9).operand 1
        (preparedState (mainStart castModule castTypes (mainReturning 2))) = some (reg, t) ∧
      getReg [0, 200] reg = (convert zeroConversions (.int .u8) (.int 200)).word := by
  have hrun : (lowering (mainContext castModule castTypes (mainReturning 2) 9) 9).operand 1
      (preparedState (mainStart castModule castTypes (mainReturning 2))) = some (1, _) := rfl
  obtain ⟨valueReg, u, hvalue, -, hconverts⟩ := cast_converts_iff zeroConversions rfl hrun (by decide) rfl
  cases hvalue
  exact ⟨1, _, hrun, (hconverts (.int .u8) rfl [0, 200] (.int 200) rfl).mpr (show FitsWord .u8 (Int64.ofInt 200) by decide)⟩

end Zith.Vm
