import Mathlib.Data.Nat.Bitwise
import Mathlib.Data.Nat.ModEq
import Mathlib.Tactic.Ring

/-! A `while` loop that only walks: from `a` it applies `next` until `stop` holds, and the place it
    stops at is all it returns. `fuel` bounds the number of places it looks at; running out of fuel
    is the outcome `none`. `scan_eq_some_iff` is the whole specification (the first place of the walk
    that satisfies `stop`), and `scan_none_of_le` says when running out of fuel means that the loop
    never stops: the walk is back where it began after `fuel` steps at most. -/

namespace Zith.Lib

variable {α : Type*} (next : α → α) (stop : α → Bool)

/-- Walk along `next` to the first place that satisfies `stop`, looking at `fuel` places. -/
def scan : ℕ → α → Option α
  | 0, _ => none
  | fuel + 1, a => if stop a then some a else scan fuel (next a)

variable {next stop}

/-- The scan returns the first place of the walk that satisfies `stop`. -/
theorem scan_eq_some_iff {b : α} : ∀ {fuel : ℕ} {a : α}, scan next stop fuel a = some b ↔
      ∃ d < fuel, next^[d] a = b ∧ stop b = true ∧ ∀ j < d, stop (next^[j] a) = false
  | 0, a => by simp [scan]
  | fuel + 1, a => by
    rw [scan]
    by_cases hs : stop a = true
    · rw [if_pos hs]
      constructor
      · rintro h
        obtain rfl : a = b := by simpa using h
        exact ⟨0, Nat.succ_pos _, rfl, hs, fun j hj => absurd hj (Nat.not_lt_zero j)⟩
      · rintro ⟨d, _, hb, _, hfirst⟩
        rcases Nat.eq_zero_or_pos d with rfl | hd
        · exact congrArg some hb
        · have h0 := hfirst 0 hd
          rw [Function.iterate_zero_apply, hs] at h0
          exact absurd h0 (by simp)
    · rw [if_neg hs, scan_eq_some_iff]
      constructor
      · rintro ⟨d, hd, hb, hsb, hfirst⟩
        refine ⟨d + 1, Nat.succ_lt_succ hd, by rwa [Function.iterate_succ_apply], hsb, ?_⟩
        intro j hj
        cases j with
        | zero => simpa using hs
        | succ j => exact hfirst j (Nat.lt_of_succ_lt_succ hj)
      · rintro ⟨d, hd, hb, hsb, hfirst⟩
        cases d with
        | zero =>
          rw [Function.iterate_zero_apply] at hb
          exact absurd (hb ▸ hsb) hs
        | succ d =>
          exact ⟨d, Nat.lt_of_succ_lt_succ hd, hb, hsb, fun j hj => hfirst (j + 1) (Nat.succ_lt_succ hj)⟩

/-- The scan runs out of fuel exactly when no place it looks at satisfies `stop`. -/
theorem scan_eq_none_iff : ∀ {fuel : ℕ} {a : α}, scan next stop fuel a = none ↔ ∀ d < fuel, stop (next^[d] a) = false
  | 0, a => by simp [scan]
  | fuel + 1, a => by
    rw [scan]
    by_cases hs : stop a = true
    · rw [if_pos hs]
      constructor
      · intro h; exact absurd h (by simp)
      · intro h
        have h0 := h 0 (Nat.succ_pos _)
        rw [Function.iterate_zero_apply, hs] at h0
        exact absurd h0 (by simp)
    · rw [if_neg hs, scan_eq_none_iff]
      constructor
      · intro h d hd
        cases d with
        | zero => simpa using hs
        | succ d => exact h d (Nat.lt_of_succ_lt_succ hd)
      · intro h d hd
        exact h (d + 1) (Nat.succ_lt_succ hd)

/-- A walk that is back at its start after `period ≤ fuel` steps sees nothing new with more fuel: if
    the scan ran out once, it runs out for every fuel, that is, the loop never stops. -/
theorem scan_none_of_period {fuel period : ℕ} {a : α} (hpos : 0 < period) (hle : period ≤ fuel)
    (hper : next^[period] a = a) (hnone : scan next stop fuel a = none) (more : ℕ) : scan next stop more a = none := by
  rw [scan_eq_none_iff] at hnone ⊢
  intro d _
  have hmod : next^[d] a = next^[d % period] a := by
    conv_lhs => rw [← Nat.mod_add_div d period, Function.iterate_add_apply]
    congr 1
    rw [Function.iterate_mul]
    exact Function.iterate_fixed hper _
  rw [hmod]
  exact hnone _ (lt_of_lt_of_le (Nat.mod_lt _ hpos) hle)

/-! ### The circular walk of open addressing -/

/-- The next slot of a circular table whose size is a power of two. -/
def nextSlot (cap idx : ℕ) : ℕ := (idx + 1) &&& (cap - 1)

theorem and_pred_two_pow (x k : ℕ) : x &&& (2 ^ k - 1) = x % 2 ^ k := Nat.and_two_pow_sub_one_eq_mod x k

/-- `d` steps of the circular walk add `d` modulo the table's size. -/
theorem nextSlot_iterate {k idx : ℕ} (hidx : idx < 2 ^ k) : ∀ d, (nextSlot (2 ^ k))^[d] idx = (idx + d) % 2 ^ k
  | 0 => by simp [Nat.mod_eq_of_lt hidx]
  | d + 1 => by
    rw [Function.iterate_succ_apply', nextSlot_iterate hidx d, nextSlot, and_pred_two_pow,
      Nat.mod_add_mod, Nat.add_assoc]

/-- Every slot of the table is met within one round. -/
theorem exists_round {k : ℕ} (idx : ℕ) {i : ℕ} (hi : i < 2 ^ k) : ∃ d < 2 ^ k, (idx + d) % 2 ^ k = i := by
  have hpos : 0 < 2 ^ k := Nat.two_pow_pos k
  refine ⟨(i + (2 ^ k - idx % 2 ^ k)) % 2 ^ k, Nat.mod_lt _ hpos, ?_⟩
  have hlt := Nat.mod_lt idx hpos
  rw [Nat.add_mod, Nat.mod_mod, ← Nat.add_mod]
  have hsplit := Nat.mod_add_div idx (2 ^ k)
  have hsum : idx + (i + (2 ^ k - idx % 2 ^ k)) = i + 2 ^ k * (idx / 2 ^ k + 1) := by
    rw [Nat.mul_add, Nat.mul_one]; omega
  rw [hsum, Nat.add_mul_mod_self_left, Nat.mod_eq_of_lt hi]

/-- Two distances of one round that lead to the same slot are equal. -/
theorem round_inj {cap idx d e : ℕ} (hd : d < cap) (he : e < cap) (h : (idx + d) % cap = (idx + e) % cap) : d = e := by
  have hmod : d % cap = e % cap := Nat.ModEq.add_left_cancel' idx h
  rwa [Nat.mod_eq_of_lt hd, Nat.mod_eq_of_lt he] at hmod

/-! ### Rounding up to a power of two -/

/-- The least power of two that is at least `n`, by doubling from one. -/
def roundUpPow2 (n : ℕ) : ℕ := (scan (2 * ·) (fun p => decide (n ≤ p)) (n + 1) 1).getD 0

theorem iterate_double (d : ℕ) : (2 * · : ℕ → ℕ)^[d] 1 = 2 ^ d := by
  induction d with
  | zero => rfl
  | succ d ih => rw [Function.iterate_succ_apply', ih, pow_succ]; ring

theorem roundUpPow2_spec (n : ℕ) : ∃ k, roundUpPow2 n = 2 ^ k ∧ n ≤ 2 ^ k := by
  unfold roundUpPow2
  cases hscan : scan (2 * ·) (fun p => decide (n ≤ p)) (n + 1) 1 with
  | none =>
    rw [scan_eq_none_iff] at hscan
    have hn := hscan n (Nat.lt_succ_self n)
    rw [iterate_double, decide_eq_false_iff_not] at hn
    exact absurd (Nat.lt_two_pow_self).le hn
  | some p =>
    rw [scan_eq_some_iff] at hscan
    obtain ⟨d, _, hp, hstop, _⟩ := hscan
    rw [iterate_double] at hp
    exact ⟨d, by simp [hp], by simpa [← hp] using hstop⟩

end Zith.Lib
