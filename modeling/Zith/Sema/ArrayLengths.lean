import Zith.Sema.IntegerLiterals

/-! The length of a fixed-size array type. `parseType` reads the literal between the brackets of `[N]T` with
    `strtoull` in base ten, not with `parseIntegerLiteral`: it stops at the letter of a radix prefix, and reads
    the 0 before it. -/

namespace Zith.Sema
open Zith.Frontend Zith.Lib

/-- `std::strtoull(text, nullptr, 10)`: spaces, a sign, and digits up to the first byte that is none. What does
    not fit is the largest number, and a minus sign negates modulo `2 ^ 64`. -/
def strtoull (literal : Text) : ℕ :=
  let (negative, unsigned) := splitSign (literal.dropWhile isWhitespace)
  let value := (number 10 0 (unsigned.takeWhile isDigit)).getD 0
  if 2 ^ 64 ≤ value then 2 ^ 64 - 1 else if negative then (2 ^ 64 - value) % 2 ^ 64 else value

structure ArrayLength where
  arrayLength : ℕ := 0
  rest : List (TokenKind × Text)
  diagnostics : List Text := []
  deriving DecidableEq

/-- The length of an array type in `parseType`, from behind the `[` to behind the `]`. -/
def parseArrayLength (tokens : List (TokenKind × Text)) : ArrayLength :=
  let length : ArrayLength :=
    match tokens with
    | (.literal, literal) :: rest => { arrayLength := strtoull literal, rest }
    | _ => { rest := tokens, diagnostics := [text "expected an array length"] }
  match length.rest with
  | [] => { length with diagnostics := length.diagnostics ++ [text "expected ']' after array length"] }
  | token :: rest =>
    if token.2 = text "]" then { length with rest }
    else { length with diagnostics := length.diagnostics ++ [text "expected ']' after array length"] }

/-! ### What is accepted spells a number -/

/-- A literal that fits: 64 bits unsigned, or `2 ^ 63` behind a minus sign. -/
def FitsLiteral (w : ℤ) : Prop := -2 ^ 63 ≤ w ∧ w < 2 ^ 64

theorem number_isSome {base : ℕ} : ∀ {digits : Text} (acc : ℕ), (∀ c ∈ digits, (digitValue base c).isSome) →
    ∃ n, number base acc digits = some n ∧ acc * base ^ digits.length ≤ n
  | [], acc, _ => ⟨acc, rfl, by simp⟩
  | c :: digits, acc, h => by
    obtain ⟨hc, hdigits⟩ := List.forall_mem_cons.mp h
    obtain ⟨v, hv⟩ := Option.isSome_iff_exists.mp hc
    obtain ⟨n, hn, hle⟩ := number_isSome (base * acc + v) hdigits
    refine ⟨n, by rw [number, hv]; exact hn, ?_⟩
    calc acc * base ^ (c :: digits).length = base * acc * base ^ digits.length := by
          rw [List.length_cons, pow_succ]; ring
      _ ≤ (base * acc + v) * base ^ digits.length := Nat.mul_le_mul_right _ (Nat.le_add_right _ _)
      _ ≤ n := hle

variable {shape : IntLiteralShape} {literal : Text}

theorem exists_spelled (h : shapeOf literal = some shape) : ∃ w, Spelled literal w := by
  obtain ⟨n, hn, -⟩ := number_isSome 0 (shapeOf_base h).2
  exact ⟨_, shape, n, h, hn, rfl⟩

/-- The loop ends early only where the number does not fit. -/
theorem magnitudeOf_isSome {base : ℕ} (hbase : 0 < base) : ∀ {digits : Text} {magnitude n : ℕ},
    (∀ c ∈ digits, (digitValue base c).isSome) → number base magnitude digits = some n → n < 2 ^ 64 →
    magnitudeOf base magnitude digits = some n
  | [], magnitude, n, _, h, _ => h
  | c :: digits, magnitude, n, hdigits, h, hlt => by
    obtain ⟨hc, hdigits⟩ := List.forall_mem_cons.mp hdigits
    obtain ⟨v, hv⟩ := Option.isSome_iff_exists.mp hc
    rw [number, hv] at h
    obtain ⟨m, hm, hle⟩ := number_isSome (base * magnitude + v) hdigits
    obtain rfl : m = n := Option.some.inj (hm.symm.trans h)
    have hstep : base * magnitude + v ≤ m := le_trans (Nat.le_mul_of_pos_right _ (Nat.pow_pos hbase)) hle
    have hroom : ¬magnitude > (2 ^ 64 - 1 - v) / base := by
      rw [Nat.not_lt, Nat.le_div_iff_mul_le hbase, Nat.mul_comm]
      omega
    rw [magnitudeOf, hv]
    simp only [Option.getD_some, if_neg hroom]
    rw [Nat.mul_comm magnitude base]
    exact magnitudeOf_isSome hbase hdigits h hlt

/-- What `parseIntegerLiteral` returns of a literal: its number modulo `2 ^ 64` when it fits. -/
theorem parseIntegerLiteral_eq {w : ℤ} (h : Spelled literal w) :
    (FitsLiteral w → parseIntegerLiteral literal = .ok (w.bmod (2 ^ 64))) ∧
      (¬FitsLiteral w → parseIntegerLiteral literal = .overflow) := by
  obtain ⟨shape, magnitude, hshape, hnumber, hw⟩ := h
  obtain ⟨hbase, hdigits⟩ := shapeOf_base hshape
  have hmagnitude : magnitude < 2 ^ 64 → magnitudeOf shape.base 0 shape.digits = some magnitude :=
    magnitudeOf_isSome hbase hdigits hnumber
  have hnone : ¬magnitude < 2 ^ 64 → magnitudeOf shape.base 0 shape.digits = none := fun hge => by
    cases hm : magnitudeOf shape.base 0 shape.digits with
    | none => rfl
    | some n =>
      obtain ⟨hn, hlt⟩ := magnitudeOf_eq hbase (by decide) hdigits hm
      obtain rfl := Option.some.inj (hn.symm.trans hnumber)
      exact absurd hlt hge
  by_cases hlt : magnitude < 2 ^ 64
  · simp only [parseIntegerLiteral, hshape, hmagnitude hlt, FitsLiteral]
    by_cases hnegative : shape.negative
    · rw [if_pos hnegative] at hw ⊢
      subst hw
      by_cases hlarge : magnitude > 2 ^ 63
      · rw [if_pos hlarge]
        exact ⟨fun hfits => by omega, fun _ => rfl⟩
      · rw [if_neg hlarge]
        refine ⟨fun _ => ?_, fun hfits => absurd ⟨by omega, by omega⟩ hfits⟩
        rw [Int.bmod_eq_of_le (by omega) (by omega)]
    · rw [if_neg hnegative] at hw ⊢
      subst hw
      refine ⟨fun _ => ?_, fun hfits => absurd ⟨by omega, by omega⟩ hfits⟩
      split_ifs with hsmall
      · rw [Int.bmod_eq_of_le (by omega) (by omega)]
      · have hwrapped : (magnitude : ℤ).bmod (2 ^ 64) = magnitude - 2 ^ 64 := by
          rw [Int.bmod_def]
          omega
        rw [hwrapped]
  · simp only [parseIntegerLiteral, hshape, hnone hlt, FitsLiteral]
    refine ⟨fun hfits => ?_, fun _ => by trivial⟩
    split_ifs at hw <;> omega

/-! ### What `strtoull` reads -/

theorem isDigit_of_digitValue {c : UInt8} (h : (digitValue 10 c).isSome) : isDigit c = true := by
  obtain ⟨v, hv⟩ := Option.isSome_iff_exists.mp h
  simp only [digitValue, Option.filter_eq_some_iff, decide_eq_true_eq] at hv
  obtain ⟨hvalue, hlt⟩ := hv
  split_ifs at hvalue with hten hlower hupper
  · simp only [isDigit, Bool.and_eq_true, decide_eq_true_eq, UInt8.le_iff_toNat_le]
    exact hten
  all_goals
    obtain rfl := Option.some.inj hvalue
    omega

/-- A suffix begins with no digit. -/
theorem takeWhile_integerSuffix (rest : Text) : (integerSuffix rest).takeWhile isDigit = [] := by
  rw [integerSuffix]
  cases hfind : integerSuffixes.find? fun suffix => suffix.isSuffixOf rest with
  | none => rfl
  | some suffix =>
    have hall : ∀ suffix ∈ integerSuffixes, suffix.takeWhile isDigit = [] := by decide +kernel
    exact hall suffix (List.mem_of_find?_eq_some hfind)

/-- What stands before the digits of a literal and behind them. -/
theorem shapeOf_parts (h : shapeOf literal = some shape) :
    shape.negative = (splitSign literal).1 ∧ shape.base = (splitRadix (splitSign literal).2).1 ∧
      shape.digits ++ integerSuffix (splitRadix (splitSign literal).2).2 = (splitRadix (splitSign literal).2).2 ∧
      shape.digits ≠ [] := by
  simp only [shapeOf] at h
  split_ifs at h with hempty hdigits
  obtain rfl := Option.some.inj h
  exact ⟨rfl, rfl, append_integerSuffix _, (not_or.mp hempty).2⟩

theorem splitRadix_decimal {unsigned : Text} (h : (splitRadix unsigned).1 = 10) :
    (splitRadix unsigned).2 = unsigned := by
  rw [splitRadix.eq_def] at h ⊢
  split
  · split_ifs with hten
    · rfl
    · simp [hten] at h
  · rfl

theorem not_isDigit_of_radixOf {c : UInt8} (h : radixOf c ≠ 10) : isDigit c = false := by
  rw [radixOf] at h
  split_ifs at h with hhex hoctal hbinary
  · rcases hhex with rfl | rfl <;> rfl
  · rcases hoctal with rfl | rfl <;> rfl
  · rcases hbinary with rfl | rfl <;> rfl
  · exact absurd rfl h

/-- Behind a radix prefix nothing is read. -/
theorem takeWhile_splitRadix {unsigned : Text} (h : (splitRadix unsigned).1 ≠ 10) :
    unsigned.takeWhile isDigit = [48] := by
  rw [splitRadix.eq_def] at h
  split at h
  · next c rest =>
    split_ifs at h with hten
    · exact absurd rfl h
    · rw [List.takeWhile_cons_of_pos rfl, List.takeWhile_cons_of_neg (by simp [not_isDigit_of_radixOf hten])]
  · exact absurd rfl h

/-- The digits that `strtoull` reads. -/
theorem takeWhile_unsigned (h : shapeOf literal = some shape) :
    (splitSign literal).2.takeWhile isDigit = if shape.base = 10 then shape.digits else [48] := by
  obtain ⟨-, hbase, happend, -⟩ := shapeOf_parts h
  split_ifs with hten
  · rw [splitRadix_decimal (hbase ▸ hten)] at happend
    have hall : ∀ c ∈ shape.digits, isDigit c = true := fun c hc =>
      isDigit_of_digitValue (hten ▸ (shapeOf_base h).2 c hc)
    rw [← happend, List.takeWhile_append_of_pos hall, takeWhile_integerSuffix, List.append_nil]
  · exact takeWhile_splitRadix (hbase ▸ hten)

theorem dropWhile_isWhitespace (h : (splitSign literal).2.takeWhile isDigit ≠ []) :
    literal.dropWhile isWhitespace = literal := by
  rw [splitSign.eq_def] at h
  split at h
  · rfl
  · rfl
  · cases literal with
    | nil => rfl
    | cons c rest =>
      by_cases hc : isDigit c = true
      · have hspace : isWhitespace c = false := by
          simp only [isDigit, Bool.and_eq_true, decide_eq_true_eq, UInt8.le_iff_toNat_le] at hc
          simp only [isWhitespace, Bool.or_eq_false_iff, beq_eq_false_iff_ne, Bool.and_eq_false_iff,
            decide_eq_false_iff_not, UInt8.le_iff_toNat_le, ne_eq]
          refine ⟨?_, Or.inr ?_⟩
          · rintro rfl
            revert hc
            decide
          · have h13 : (0x0D : UInt8).toNat = 13 := rfl
            have h48 : (0x30 : UInt8).toNat = 48 := rfl
            omega
        exact List.dropWhile_cons_of_neg (by simp [hspace])
      · rw [List.takeWhile_cons_of_neg hc] at h
        exact absurd rfl h

/-- What `strtoull` reads of a literal: its number in base ten, and 0 behind a radix prefix. -/
theorem strtoull_eq {w : ℤ} (hshape : shapeOf literal = some shape) (h : Spelled literal w)
    (hfits : FitsLiteral w) : (strtoull literal : ℤ) = if shape.base = 10 then w % 2 ^ 64 else 0 := by
  obtain ⟨shape', magnitude, hshape', hnumber, rfl⟩ := h
  obtain rfl := Option.some.inj (hshape.symm.trans hshape')
  obtain ⟨hnegative, -, -, hne⟩ := shapeOf_parts hshape
  have hdigits := takeWhile_unsigned hshape
  have hrun : (splitSign literal).2.takeWhile isDigit ≠ [] := by
    rw [hdigits]
    split_ifs
    · exact hne
    · exact List.cons_ne_nil _ _
  simp only [strtoull, dropWhile_isWhitespace hrun, hdigits, ← hnegative]
  by_cases hten : shape.base = 10
  · rw [hten] at hnumber
    simp only [if_pos hten, hnumber, Option.getD_some, FitsLiteral] at hfits ⊢
    split_ifs at hfits ⊢ <;> omega
  · simp only [if_neg hten]
    have hzero : number 10 0 [48] = some 0 := rfl
    simp [hzero]

/-! ### Literals that mean the same in both places -/

/-- What a literal that spells `w` means: its number modulo `2 ^ 64` if it fits, which is also the length of an
    array, and an overflow otherwise. -/
structure MeansTheSame (literal : Text) (w : ℤ) : Prop where
  value : FitsLiteral w → parseIntegerLiteral literal = .ok (w.bmod (2 ^ 64))
  overflow : ¬FitsLiteral w → parseIntegerLiteral literal = .overflow
  length : ∀ v rest, parseIntegerLiteral literal = .ok v →
    ((parseArrayLength ((.literal, literal) :: rest)).arrayLength : ℤ) = v % 2 ^ 64

theorem parseArrayLength_literal (literal : Text) (rest : List (TokenKind × Text)) :
    (parseArrayLength ((.literal, literal) :: rest)).arrayLength = strtoull literal := by
  cases rest with
  | nil => rfl
  | cons token rest =>
    simp only [parseArrayLength]
    split_ifs <;> rfl

theorem bmod_emod_word (w : ℤ) : w.bmod (2 ^ 64) % 2 ^ 64 = w % 2 ^ 64 := by
  exact_mod_cast Int.bmod_emod (x := w) (m := 2 ^ 64)

/-- A literal means the same as an array length exactly when it has no radix prefix, is 0, or is too large. -/
theorem meansTheSame_iff {literal : Text} {shape : IntLiteralShape} (h : shapeOf literal = some shape) :
    ∃ w, Spelled literal w ∧ (MeansTheSame literal w ↔ shape.base = 10 ∨ w = 0 ∨ ¬FitsLiteral w) := by
  obtain ⟨w, hw⟩ := exists_spelled h
  obtain ⟨hvalue, hoverflow⟩ := parseIntegerLiteral_eq hw
  refine ⟨w, hw, fun hsame => ?_, fun hcond => ⟨hvalue, hoverflow, fun v rest hv => ?_⟩⟩
  · by_cases hten : shape.base = 10
    · exact Or.inl hten
    · by_cases hfits : FitsLiteral w
      · have hlen := hsame.length _ [] (hvalue hfits)
        rw [parseArrayLength_literal, strtoull_eq h hw hfits, if_neg hten, bmod_emod_word] at hlen
        obtain ⟨hlow, hhigh⟩ := hfits
        exact Or.inr (Or.inl (by omega))
      · exact Or.inr (Or.inr hfits)
  · by_cases hfits : FitsLiteral w
    · obtain rfl := IntLiteralStatus.ok.inj ((hvalue hfits).symm.trans hv)
      rw [parseArrayLength_literal, strtoull_eq h hw hfits, bmod_emod_word]
      split_ifs with hten
      · rfl
      · rcases hcond with hbase | rfl | hnot
        · exact absurd hbase hten
        · rfl
        · exact absurd hfits hnot
    · rw [hoverflow hfits] at hv
      cases hv

/-- A mask that is kept as its bit pattern, `18446744073709551615u64`. -/
theorem meansTheSame_mask : ∃ w, Spelled (text "18446744073709551615u64") w ∧
    MeansTheSame (text "18446744073709551615u64") w :=
  have ⟨w, hw, hsame⟩ := @meansTheSame_iff (text "18446744073709551615u64")
    ⟨false, 10, text "18446744073709551615"⟩ (by decide +kernel)
  ⟨w, hw, hsame.mpr (Or.inl rfl)⟩

/-- `[0x10]T` has no elements. -/
theorem hexadecimal_length : Spelled (text "0x10") 16 ∧ parseIntegerLiteral (text "0x10") = .ok 16 ∧
    (parseArrayLength [(.literal, text "0x10"), (.punctuation, text "]")]).arrayLength = 0 ∧
    ¬MeansTheSame (text "0x10") 16 := by
  have hspelled : Spelled (text "0x10") 16 := ⟨⟨false, 16, text "10"⟩, 16, by decide +kernel, by decide +kernel, rfl⟩
  have hvalue : parseIntegerLiteral (text "0x10") = .ok 16 := by decide +kernel
  have hlength : (parseArrayLength [(.literal, text "0x10"), (.punctuation, text "]")]).arrayLength = 0 := by
    decide +kernel
  refine ⟨hspelled, hvalue, hlength, fun h => ?_⟩
  have := h.length 16 [(.punctuation, text "]")] hvalue
  rw [hlength] at this
  exact absurd this (by decide)

end Zith.Sema
