import Mathlib.Data.List.Infix

/-! Interning into a table that only grows: what has the key of an earlier entry gets the index of that entry,
    and anything else a new one. The first `reserved` entries are never looked at, and what is `fresh`
    always gets an entry of its own.

        table ──intern a──▶ table, or table ++ [a], and an index whose entry has the key of a -/

namespace Zith.Lib
universe u v
variable {α : Type u} {κ : Type v} [DecidableEq κ]

structure Interner (α : Type u) (κ : Type v) where
  key : α → κ
  fresh : α → Bool
  reserved : ℕ
  fresh_of_key : ∀ a b, key a = key b → fresh a = fresh b

namespace Interner
variable (I : Interner α κ)

def find (table : List α) (a : α) : Option ℕ :=
  ((table.drop I.reserved).findIdx? fun b => decide (I.key b = I.key a)).map (· + I.reserved)

def intern (table : List α) (a : α) : List α × ℕ :=
  match if I.fresh a then none else I.find table a with
  | some i => (table, i)
  | none => (table ++ [a], table.length)

/-- Interning one after the other: the table at the end, and the indices. -/
def run (table : List α) : List α → List α × List ℕ
  | [] => (table, [])
  | a :: as =>
    let (table, i) := I.intern table a
    let (table, is) := run table as
    (table, i :: is)

/-! ### One call -/

/-- Entries that are looked at have different keys. -/
def Distinct (table : List α) : Prop :=
  ∀ i j a b, I.reserved ≤ i → i < j → table[i]? = some a → table[j]? = some b → I.fresh b = false → I.key a ≠ I.key b

variable {table : List α}

theorem find_eq_some {a : α} {i : ℕ} (h : I.find table a = some i) :
    I.reserved ≤ i ∧ ∃ b, table[i]? = some b ∧ I.key b = I.key a := by
  obtain ⟨j, hj, rfl⟩ := Option.map_eq_some_iff.mp h
  obtain ⟨hlt, hkey, -⟩ := List.findIdx?_eq_some_iff_getElem.mp hj
  refine ⟨by omega, (table.drop I.reserved)[j], ?_, by simpa using hkey⟩
  rw [Nat.add_comm, ← List.getElem?_drop]
  exact List.getElem?_eq_getElem hlt

theorem find_eq_none {a b : α} {i : ℕ} (h : I.find table a = none) (hi : I.reserved ≤ i)
    (hb : table[i]? = some b) : I.key b ≠ I.key a := by
  have hnone := List.findIdx?_eq_none_iff.mp (Option.map_eq_none_iff.mp h)
  have hmem : b ∈ table.drop I.reserved := by
    apply List.mem_of_getElem? (i := i - I.reserved)
    rwa [List.getElem?_drop, Nat.add_sub_cancel' hi]
  simpa using hnone b hmem

/-- A call answers with an entry of the same key, in the table or behind it. -/
theorem intern_cases (table : List α) (a : α) :
    (∃ i b, I.intern table a = (table, i) ∧ I.fresh a = false ∧ I.reserved ≤ i ∧ table[i]? = some b ∧
        I.key b = I.key a) ∨
      (I.intern table a = (table ++ [a], table.length) ∧ (I.fresh a = false → I.find table a = none)) := by
  rw [intern]
  by_cases hf : I.fresh a = true
  · exact .inr ⟨by simp [hf], by simp [hf]⟩
  · cases hfind : I.find table a with
    | none => exact .inr ⟨by simp [hf], fun _ => rfl⟩
    | some i =>
      obtain ⟨hi, b, hb, hkey⟩ := I.find_eq_some hfind
      exact .inl ⟨i, b, by simp [hf], by simpa using hf, hi, hb, hkey⟩

theorem extends_intern (table : List α) (a : α) : table <+: (I.intern table a).1 := by
  rcases I.intern_cases table a with ⟨i, b, h, -⟩ | ⟨h, -⟩ <;> rw [h]
  exact List.prefix_append table [a]

theorem entry_intern (table : List α) (a : α) :
    ∃ b, (I.intern table a).1[(I.intern table a).2]? = some b ∧ I.key b = I.key a := by
  rcases I.intern_cases table a with ⟨i, b, h, -, -, hb, hkey⟩ | ⟨h, -⟩ <;> rw [h]
  · exact ⟨b, hb, hkey⟩
  · exact ⟨a, by simp, rfl⟩

theorem reserved_le_intern (hr : I.reserved ≤ table.length) (a : α) : I.reserved ≤ (I.intern table a).2 := by
  rcases I.intern_cases table a with ⟨i, b, h, -, hi, -⟩ | ⟨h, -⟩ <;> rw [h]
  · exact hi
  · exact hr

theorem Distinct.intern (h : I.Distinct table) (a : α) : I.Distinct (I.intern table a).1 := by
  rcases I.intern_cases table a with ⟨i, b, hi, -⟩ | ⟨hi, hnone⟩ <;> rw [hi]
  · exact h
  · intro i j b c hr hij hb hc hfresh
    have hi : i < table.length := by
      have := (List.getElem?_eq_some_iff.mp hc).1
      simp only [List.length_append, List.length_singleton] at this
      omega
    rw [List.getElem?_append_left hi] at hb
    by_cases hj : j < table.length
    · rw [List.getElem?_append_left hj] at hc
      exact h i j b c hr hij hb hc hfresh
    · obtain rfl : c = a := by
        rw [List.getElem?_append_right (by omega)] at hc
        exact List.mem_singleton.mp (List.mem_of_getElem? hc)
      exact I.find_eq_none (hnone hfresh) hr hb

/-! ### A run -/

@[simp] theorem run_nil (table : List α) : I.run table [] = (table, []) := rfl

theorem run_cons (table : List α) (a : α) (as : List α) : I.run table (a :: as) =
      ((I.run (I.intern table a).1 as).1, (I.intern table a).2 :: (I.run (I.intern table a).1 as).2) := rfl

@[simp] theorem length_run : ∀ (as table : List α), (I.run table as).2.length = as.length
  | [], _ => rfl
  | a :: as, table => by simp [run_cons, length_run as]

theorem extends_run : ∀ (as table : List α), table <+: (I.run table as).1
  | [], table => List.prefix_refl table
  | a :: as, table => (I.extends_intern table a).trans (extends_run as _)

theorem run_append (table as bs : List α) : I.run table (as ++ bs) =
      ((I.run (I.run table as).1 bs).1, (I.run table as).2 ++ (I.run (I.run table as).1 bs).2) := by
  induction as generalizing table with
  | nil => rfl
  | cons a as ih => simp [run_cons, ih]

theorem Distinct.run {as : List α} : ∀ {table : List α}, I.Distinct table → I.Distinct (I.run table as).1 := by
  induction as with
  | nil => exact id
  | cons a as ih => exact fun h => ih (Distinct.intern I h a)

theorem getElem?_extends {table table' : List α} (h : table <+: table') {i : ℕ} {a : α}
    (ha : table[i]? = some a) : table'[i]? = some a := by
  obtain ⟨rest, rfl⟩ := h
  rw [List.getElem?_append_left (List.getElem?_eq_some_iff.mp ha).1]
  exact ha

/-- At the end every call's entry has the key of what was interned, and is not reserved. -/
theorem entry_run {as : List α} : ∀ {table : List α} {k i : ℕ} {a : α}, I.reserved ≤ table.length →
    as[k]? = some a → (I.run table as).2[k]? = some i →
    I.reserved ≤ i ∧ ∃ b, (I.run table as).1[i]? = some b ∧ I.key b = I.key a := by
  induction as with
  | nil =>
    intro table k i a _ ha
    simp at ha
  | cons c as ih =>
    intro table k i a hr ha hi
    rw [run_cons] at hi ⊢
    cases k with
    | zero =>
      obtain rfl : c = a := by simpa using ha
      obtain rfl : (I.intern table c).2 = i := by simpa using hi
      obtain ⟨b, hb, hkey⟩ := I.entry_intern table c
      exact ⟨I.reserved_le_intern hr c, b, getElem?_extends (I.extends_run as _) hb, hkey⟩
    | succ k =>
      have hr' : I.reserved ≤ (I.intern table c).1.length := hr.trans (I.extends_intern table c).length_le
      exact ih hr' (by simpa using ha) (by simpa using hi)

/-- An entry that the run adds is what a call with its index was made for. -/
theorem exists_call_of_entry {as : List α} : ∀ {table : List α} {i : ℕ} {b : α}, table.length ≤ i →
    (I.run table as).1[i]? = some b → ∃ l : ℕ, as[l]? = some b ∧ (I.run table as).2[l]? = some i := by
  induction as with
  | nil =>
    intro table i b hi hb
    exact absurd (List.getElem?_eq_some_iff.mp hb).1 (Nat.not_lt_of_le hi)
  | cons a as ih =>
    intro table i b hi hb
    rw [run_cons] at hb ⊢
    by_cases hlt : i < (I.intern table a).1.length
    · rcases I.intern_cases table a with ⟨j, c, h, -⟩ | ⟨h, -⟩ <;> rw [h] at hlt
      · exact absurd hlt (Nat.not_lt_of_le hi)
      · obtain rfl : i = table.length := by
          simp only [List.length_append, List.length_singleton] at hlt
          omega
        have ha : (I.intern table a).1[table.length]? = some a := by
          rw [h]
          simp
        obtain rfl : a = b := Option.some.inj ((getElem?_extends (I.extends_run as _) ha).symm.trans hb)
        exact ⟨0, rfl, by simp [h]⟩
    · obtain ⟨l, hl, hi⟩ := ih (Nat.le_of_not_lt hlt) hb
      exact ⟨l + 1, by simpa using hl, by simpa using hi⟩

/-- Two calls get one index exactly when what they intern has one key. -/
theorem run_index_eq_iff {as table : List α} (h : I.Distinct table) (hr : I.reserved ≤ table.length)
    {k l i j : ℕ} {a b : α} (ha : as[k]? = some a) (hb : as[l]? = some b)
    (hi : (I.run table as).2[k]? = some i) (hj : (I.run table as).2[l]? = some j)
    (hfa : I.fresh a = false) (hfb : I.fresh b = false) : i = j ↔ I.key a = I.key b := by
  obtain ⟨hri, a', ha', hka⟩ := I.entry_run hr ha hi
  obtain ⟨hrj, b', hb', hkb⟩ := I.entry_run hr hb hj
  constructor
  · rintro rfl
    obtain rfl : a' = b' := Option.some.inj (ha'.symm.trans hb')
    exact hka.symm.trans hkb
  · intro hkey
    have hdistinct : I.Distinct (I.run table as).1 := Distinct.run I h
    rcases Nat.lt_trichotomy i j with hlt | heq | hlt
    · refine absurd (hka.trans (hkey.trans hkb.symm)) (hdistinct i j a' b' hri hlt ha' hb' ?_)
      rw [I.fresh_of_key b' b hkb]
      exact hfb
    · exact heq
    · refine absurd (hkb.trans (hkey.symm.trans hka.symm)) (hdistinct j i b' a' hrj hlt hb' ha' ?_)
      rw [I.fresh_of_key a' a hka]
      exact hfa

end Interner

end Zith.Lib
