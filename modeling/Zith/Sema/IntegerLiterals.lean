import Mathlib.Tactic.Ring
import Zith.Frontend.Lexer
import Zith.Lib.Numeral

/-! Integer literals: an optional sign, an optional radix prefix, digits and an optional type suffix. What does not fit
    64 bits is an overflow; a magnitude from `2 ^ 63` on is kept as its bit pattern, so that masks survive. A signed
    64-bit number is an integer in its range. -/

namespace Zith.Sema
open Zith.Frontend Zith.Lib

/-- The range of `int64_t`. -/
def InInt64 (v : ℤ) : Prop := -2 ^ 63 ≤ v ∧ v < 2 ^ 63

instance (v : ℤ) : Decidable (InInt64 v) := inferInstanceAs (Decidable (_ ∧ _))

def integerSuffixes : List Text :=
  ["u128", "i128", "u64", "i64", "u32", "i32", "u16", "i16", "u8", "i8", "usize", "isize"].map text

/-- The first suffix that the text ends with, or none. -/
def integerSuffix (literal : Text) : Text := (integerSuffixes.find? fun suffix => suffix.isSuffixOf literal).getD []

theorem append_integerSuffix (rest : Text) :
    rest.take (rest.length - (integerSuffix rest).length) ++ integerSuffix rest = rest := by
  have hsuffix : integerSuffix rest <:+ rest := by
    rw [integerSuffix]
    cases hfind : integerSuffixes.find? fun suffix => suffix.isSuffixOf rest with
    | none => exact List.nil_suffix
    | some suffix => exact List.isSuffixOf_iff_suffix.mp (List.find?_some (p := fun s => List.isSuffixOf s rest) hfind)
  obtain ⟨digits, hdigits⟩ := hsuffix
  conv_rhs => rw [← hdigits]
  have hlen : rest.length = digits.length + (integerSuffix rest).length := by
    rw [← hdigits, List.length_append, hdigits]
  have htake : rest.take digits.length = digits := by
    conv_lhs => rw [← hdigits]
    exact List.take_left
  rw [hlen, Nat.add_sub_cancel, htake]

structure IntLiteralShape where
  negative : Bool
  base : ℕ
  digits : Text
  deriving DecidableEq

/-- `0x` hexadecimal, `0c` octal, `0b` binary. -/
def radixOf (prefixByte : UInt8) : ℕ :=
  if prefixByte = 120 ∨ prefixByte = 88 then 16
  else if prefixByte = 99 ∨ prefixByte = 67 then 8
  else if prefixByte = 98 ∨ prefixByte = 66 then 2
  else 10

/-- The radix, and what stands behind its prefix. -/
def splitRadix : Text → ℕ × Text
  | 48 :: c :: rest => if radixOf c = 10 then (10, 48 :: c :: rest) else (radixOf c, rest)
  | literal => (10, literal)

def splitSign : Text → Bool × Text
  | 45 :: rest => (true, rest)
  | 43 :: rest => (false, rest)
  | literal => (false, literal)

def shapeOf (literal : Text) : Option IntLiteralShape :=
  let (negative, unsigned) := splitSign literal
  let (base, rest) := splitRadix unsigned
  let digits := rest.take (rest.length - (integerSuffix rest).length)
  if literal = [] ∨ digits = [] then none
  else if digits.all fun c => (digitValue base c).isSome then some ⟨negative, base, digits⟩
  else none

def looksInteger (literal : Text) : Bool := (shapeOf literal).isSome

/-- The loop over the digits; none is an overflow of 64 bits. -/
def magnitudeOf (base : ℕ) : ℕ → Text → Option ℕ
  | magnitude, [] => some magnitude
  | magnitude, c :: digits =>
    let digit := (digitValue base c).getD 0
    if magnitude > (2 ^ 64 - 1 - digit) / base then none else magnitudeOf base (magnitude * base + digit) digits

inductive IntLiteralStatus
  | ok (value : ℤ)
  | notInteger
  | overflow
  deriving DecidableEq

def parseIntegerLiteral (literal : Text) : IntLiteralStatus :=
  match shapeOf literal with
  | none => .notInteger
  | some shape =>
    match magnitudeOf shape.base 0 shape.digits with
    | none => .overflow
    | some magnitude =>
      if shape.negative then if magnitude > 2 ^ 63 then .overflow else .ok (-magnitude)
      else .ok (if magnitude < 2 ^ 63 then magnitude else magnitude - 2 ^ 64)

/-! ### What a literal spells -/

/-- The number that the sign and the digits of a literal stand for. -/
def Spelled (literal : Text) (v : ℤ) : Prop :=
  ∃ shape magnitude, shapeOf literal = some shape ∧ number shape.base 0 shape.digits = some magnitude ∧
    v = if shape.negative then -(magnitude : ℤ) else magnitude

theorem Spelled.unique {literal : Text} {v w : ℤ} (hv : Spelled literal v) (hw : Spelled literal w) : v = w := by
  obtain ⟨shape, magnitude, hshape, hnumber, rfl⟩ := hv
  obtain ⟨shape', magnitude', hshape', hnumber', rfl⟩ := hw
  obtain rfl := Option.some.inj (hshape.symm.trans hshape')
  obtain rfl := Option.some.inj (hnumber.symm.trans hnumber')
  rfl

theorem radixOf_pos (c : UInt8) : 0 < radixOf c := by
  rw [radixOf]
  split_ifs <;> decide

theorem shapeOf_base {literal : Text} {shape : IntLiteralShape} (h : shapeOf literal = some shape) :
    0 < shape.base ∧ ∀ c ∈ shape.digits, (digitValue shape.base c).isSome := by
  simp only [shapeOf] at h
  split_ifs at h with hempty hdigits
  obtain rfl := Option.some.inj h
  refine ⟨?_, by simpa using hdigits⟩
  dsimp only
  rw [splitRadix.eq_def]
  split
  · split_ifs with hten
    · exact Nat.succ_pos _
    · exact radixOf_pos _
  · exact Nat.succ_pos _

theorem digitValue_lt {base : ℕ} {c : UInt8} {v : ℕ} (h : digitValue base c = some v) : v < 16 := by
  simp only [digitValue, Option.filter_eq_some_iff] at h
  obtain ⟨hvalue, -⟩ := h
  split_ifs at hvalue with hten hlower hupper
  all_goals
    obtain rfl := Option.some.inj hvalue
    omega

/-- What the loop returns is the number, and fits 64 bits. -/
theorem magnitudeOf_eq {base : ℕ} (hbase : 0 < base) : ∀ {digits : Text} {magnitude n : ℕ}, magnitude < 2 ^ 64 →
    (∀ c ∈ digits, (digitValue base c).isSome) → magnitudeOf base magnitude digits = some n →
    number base magnitude digits = some n ∧ n < 2 ^ 64
  | [], magnitude, n, hm, _, h => by
    obtain rfl := Option.some.inj h
    exact ⟨rfl, hm⟩
  | c :: digits, magnitude, n, hm, hdigits, h => by
    obtain ⟨hc, hdigits⟩ := List.forall_mem_cons.mp hdigits
    obtain ⟨v, hv⟩ := Option.isSome_iff_exists.mp hc
    have hlt := digitValue_lt hv
    rw [magnitudeOf, hv] at h
    simp only [Option.getD_some] at h
    split_ifs at h with hover
    have hle : magnitude * base ≤ 2 ^ 64 - 1 - v := (Nat.le_div_iff_mul_le hbase).mp (Nat.le_of_not_lt hover)
    obtain ⟨hnumber, hn⟩ := magnitudeOf_eq hbase (by omega) hdigits h
    refine ⟨?_, hn⟩
    rw [number, hv, Nat.mul_comm base magnitude]
    exact hnumber

/-- A parsed literal is a signed 64-bit number, and the one it spells unless that is too large. -/
theorem parseIntegerLiteral_spelled {literal : Text} {v : ℤ} (h : parseIntegerLiteral literal = .ok v) :
    InInt64 v ∧ ∃ w, Spelled literal w ∧ w < 2 ^ 64 ∧ v = if w < 2 ^ 63 then w else w - 2 ^ 64 := by
  rw [parseIntegerLiteral] at h
  cases hshape : shapeOf literal with
  | none => simp [hshape] at h
  | some shape =>
    obtain ⟨hbase, hdigits⟩ := shapeOf_base hshape
    cases hmagnitude : magnitudeOf shape.base 0 shape.digits with
    | none => simp [hshape, hmagnitude] at h
    | some magnitude =>
      obtain ⟨hnumber, hlt⟩ := magnitudeOf_eq hbase (by decide) hdigits hmagnitude
      have hspelled : Spelled literal (if shape.negative then -(magnitude : ℤ) else magnitude) :=
        ⟨shape, magnitude, hshape, hnumber, rfl⟩
      simp only [hshape, hmagnitude] at h
      by_cases hnegative : shape.negative
      · rw [if_pos hnegative] at h hspelled
        split_ifs at h with hlarge
        obtain rfl := IntLiteralStatus.ok.inj h
        refine ⟨⟨by omega, by omega⟩, _, hspelled, by omega, ?_⟩
        rw [if_pos (by omega)]
      · rw [if_neg hnegative] at h hspelled
        obtain rfl := IntLiteralStatus.ok.inj h
        refine ⟨?_, _, hspelled, by omega, ?_⟩
        · split_ifs with hsmall
          · exact ⟨by omega, by omega⟩
          · exact ⟨by omega, by omega⟩
        · by_cases hsmall : magnitude < 2 ^ 63
          · rw [if_pos hsmall, if_pos (by omega)]
          · rw [if_neg hsmall, if_neg (by omega)]

end Zith.Sema
