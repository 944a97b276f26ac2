import Mathlib.Algebra.Group.Nat.Defs
import Mathlib.Data.Nat.Log

/-! Numerals in a base up to sixteen, as bytes: the digits of a number, most significant first, and the
    number a string of digits stands for. Writing is in lower case, reading takes both cases. -/

namespace Zith.Lib

/-- The digit of a value below sixteen. -/
def digitByte (n : ℕ) : UInt8 := UInt8.ofNat (if n < 10 then 48 + n else 87 + n)

/-- The value of a digit of the base. -/
def digitValue (base : ℕ) (c : UInt8) : Option ℕ :=
  let value :=
    if 48 ≤ c.toNat ∧ c.toNat ≤ 57 then some (c.toNat - 48)
    else if 97 ≤ c.toNat ∧ c.toNat ≤ 102 then some (c.toNat - 87)
    else if 65 ≤ c.toNat ∧ c.toNat ≤ 70 then some (c.toNat - 55)
    else none
  value.filter fun v => v < base

/-- The `w` low-order digits of `n`. -/
def digits (base : ℕ) : ℕ → ℕ → List UInt8
  | 0, _ => []
  | w + 1, n => digits base w (n / base) ++ [digitByte (n % base)]

/-- The number with as many digits as it needs. -/
def numeral (base n : ℕ) : List UInt8 := digits base (Nat.log base n + 1) n

/-- The number a string of digits stands for, read after `acc`. -/
def number (base acc : ℕ) : List UInt8 → Option ℕ
  | [] => some acc
  | c :: cs => do number base (base * acc + (← digitValue base c)) cs

theorem digitValue_digitByte {base n : ℕ} (hbase : base ≤ 16) (h : n < base) :
    digitValue base (digitByte n) = some n := by
  have hall : ∀ n < 16, digitValue 16 (digitByte n) = some n := by decide
  have hsixteen := hall n (by omega)
  simp only [digitValue, Option.filter_eq_some_iff] at hsixteen ⊢
  exact ⟨hsixteen.1, by simpa using h⟩

theorem number_append (base : ℕ) : ∀ (cs ds : List UInt8) (acc : ℕ),
    number base acc (cs ++ ds) = (number base acc cs).bind fun n => number base n ds
  | [], _, _ => rfl
  | c :: cs, ds, acc => by
    simp only [List.cons_append, number, bind]
    cases digitValue base c with
    | none => rfl
    | some v => exact number_append base cs ds _

theorem number_digits {base : ℕ} (hpos : 0 < base) (hbase : base ≤ 16) : ∀ (w n : ℕ), n < base ^ w →
    number base 0 (digits base w n) = some n
  | 0, n, h => by
    obtain rfl : n = 0 := by simpa using h
    rfl
  | w + 1, n, h => by
    have hdiv : n / base < base ^ w := Nat.div_lt_of_lt_mul (by rwa [Nat.pow_succ, Nat.mul_comm] at h)
    rw [digits, number_append, number_digits hpos hbase w _ hdiv]
    simp only [Option.bind_some, number, bind, digitValue_digitByte hbase (Nat.mod_lt n hpos), Nat.div_add_mod]

theorem number_numeral {base : ℕ} (hone : 1 < base) (hbase : base ≤ 16) (n : ℕ) :
    number base 0 (numeral base n) = some n :=
  number_digits (by omega) hbase _ n (Nat.lt_pow_succ_log_self hone n)

theorem numeral_ne_nil (base n : ℕ) : numeral base n ≠ [] := by
  simp [numeral, digits]

/-- Digits are what the digit of a value can be. -/
theorem mem_digits {base : ℕ} (hpos : 0 < base) {c : UInt8} : ∀ {w n : ℕ}, c ∈ digits base w n →
    ∃ v < base, c = digitByte v
  | 0, _, h => absurd h List.not_mem_nil
  | w + 1, n, h => by
    rw [digits, List.mem_append, List.mem_singleton] at h
    rcases h with h | rfl
    · exact mem_digits hpos h
    · exact ⟨n % base, Nat.mod_lt n hpos, rfl⟩

/-- A byte that is no digit does not occur in a numeral. -/
theorem not_mem_numeral {base : ℕ} (hone : 1 < base) (hbase : base ≤ 16) {c : UInt8}
    (hc : digitValue 16 c = none) (n : ℕ) : c ∉ numeral base n := by
  intro hmem
  obtain ⟨v, hv, rfl⟩ := mem_digits (by omega) hmem
  rw [digitValue_digitByte (Nat.le_refl 16) (by omega)] at hc
  cases hc

end Zith.Lib
