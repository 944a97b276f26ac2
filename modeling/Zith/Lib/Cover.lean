import Mathlib.Data.List.Sort

/-! Blocks of an address range, counted byte by byte. `cover l n` is the number of blocks of `l` that
    hold byte `n`. Splitting a block, merging two neighbours, reordering a list or moving a block to
    another list conserve the count, so an allocator's operations are checked one byte at a time, and
    a count of at most one everywhere says that the blocks are pairwise apart. -/

namespace Zith.Lib

/-- A block: its offset and its size. -/
abbrev Block := ℕ × ℕ

namespace Block

/-- The first byte after the block. -/
def stop (b : Block) : ℕ := b.1 + b.2

def Covers (b : Block) (n : ℕ) : Prop := b.1 ≤ n ∧ n < b.stop

instance (b : Block) (n : ℕ) : Decidable (b.Covers n) := inferInstanceAs (Decidable (_ ∧ _))

/-- No byte lies in both blocks. -/
def Apart (a b : Block) : Prop := ∀ n, a.Covers n → ¬ b.Covers n

theorem Apart.symm {a b : Block} (h : a.Apart b) : b.Apart a := fun n hb ha => h n ha hb

instance : Std.Symm Apart := ⟨fun _ _ => Apart.symm⟩

/-- `1` on the bytes of the block, `0` elsewhere. -/
def weight (b : Block) (n : ℕ) : ℕ := if b.Covers n then 1 else 0

theorem weight_split (offset a b n : ℕ) :
    weight (offset, a + b) n = weight (offset, a) n + weight (offset + a, b) n := by
  have hall : Covers (offset, a + b) n ↔ Covers (offset, a) n ∨ Covers (offset + a, b) n := by
    simp only [Covers, stop]
    omega
  by_cases hleft : Covers (offset, a) n
  · have hright : ¬ Covers (offset + a, b) n := fun hr => absurd hleft.2 (not_lt.mpr hr.1)
    simp [weight, hall, hleft, hright]
  · simp [weight, hall, hleft]

theorem weight_of_covers {b : Block} {n : ℕ} (h : b.Covers n) : b.weight n = 1 := if_pos h

theorem weight_of_lt {b : Block} {n : ℕ} (h : n < b.1) : b.weight n = 0 :=
  if_neg fun hc => absurd hc.1 (by omega)

theorem weight_of_stop_le {b : Block} {n : ℕ} (h : b.stop ≤ n) : b.weight n = 0 :=
  if_neg fun hc => absurd hc.2 (by omega)

theorem weight_le_one (b : Block) (n : ℕ) : b.weight n ≤ 1 := by
  simp only [weight]
  split <;> omega

end Block

open Block

/-- How many blocks of the list hold byte `n`. -/
def cover : List Block → ℕ → ℕ
  | [], _ => 0
  | b :: l, n => b.weight n + cover l n

@[simp] theorem cover_nil (n : ℕ) : cover [] n = 0 := rfl

@[simp] theorem cover_cons (b : Block) (l : List Block) (n : ℕ) : cover (b :: l) n = b.weight n + cover l n := rfl

@[simp] theorem cover_append : ∀ (k l : List Block) (n : ℕ), cover (k ++ l) n = cover k n + cover l n
  | [], l, n => by simp
  | b :: k, l, n => by rw [List.cons_append, cover_cons, cover_cons, cover_append, Nat.add_assoc]

theorem cover_perm {k l : List Block} (h : k.Perm l) (n : ℕ) : cover k n = cover l n := by
  induction h with
  | nil => rfl
  | cons b _ ih => rw [cover_cons, cover_cons, ih]
  | swap a b l => simp only [cover_cons]; omega
  | trans _ _ ih₁ ih₂ => exact ih₁.trans ih₂

theorem cover_eraseIdx : ∀ {l : List Block} {i : ℕ} {b : Block}, l[i]? = some b → ∀ n,
    b.weight n + cover (l.eraseIdx i) n = cover l n
  | [], _, _, h, _ => by simp at h
  | a :: l, 0, b, h, n => by
    obtain rfl : a = b := by simpa using h
    rfl
  | a :: l, i + 1, b, h, n => by
    have ih := cover_eraseIdx (l := l) (i := i) (by simpa using h) n
    simp only [List.eraseIdx_cons_succ, cover_cons]
    omega

theorem cover_set : ∀ {l : List Block} {i : ℕ} {b : Block}, l[i]? = some b → ∀ (c : Block) (n : ℕ),
    b.weight n + cover (l.set i c) n = c.weight n + cover l n
  | [], _, _, h, _, _ => by simp at h
  | a :: l, 0, b, h, c, n => by
    obtain rfl : a = b := by simpa using h
    simp only [List.set_cons_zero, cover_cons]
    omega
  | a :: l, i + 1, b, h, c, n => by
    have ih := cover_set (l := l) (i := i) (by simpa using h) c n
    simp only [List.set_cons_succ, cover_cons]
    omega

theorem weight_le_cover : ∀ {l : List Block} {b : Block}, b ∈ l → ∀ n, b.weight n ≤ cover l n
  | a :: l, b, h, n => by
    rcases List.mem_cons.mp h with rfl | h
    · exact Nat.le_add_right _ _
    · exact le_trans (weight_le_cover h n) (Nat.le_add_left _ _)

theorem exists_covers_of_cover_pos : ∀ {l : List Block} {n : ℕ}, 0 < cover l n → ∃ b ∈ l, b.Covers n
  | [], n, h => absurd h (lt_irrefl 0)
  | b :: l, n, h => by
    by_cases hb : b.Covers n
    · exact ⟨b, List.mem_cons_self .., hb⟩
    · have hpos : 0 < cover l n := by simpa [weight, hb] using h
      obtain ⟨c, hc, hcov⟩ := exists_covers_of_cover_pos hpos
      exact ⟨c, List.mem_cons_of_mem _ hc, hcov⟩

/-- A byte of one list is no byte of the other when together they hold it once. -/
theorem apart_of_cover_le_one {k l : List Block} (h : ∀ n, cover k n + cover l n ≤ 1) {a b : Block}
    (ha : a ∈ k) (hb : b ∈ l) : a.Apart b := by
  intro n hna hnb
  have hka := weight_le_cover ha n
  have hlb := weight_le_cover hb n
  rw [weight_of_covers hna] at hka
  rw [weight_of_covers hnb] at hlb
  have := h n
  omega

theorem pairwise_apart_of_cover_le_one : ∀ {l : List Block}, (∀ n, cover l n ≤ 1) → l.Pairwise Apart
  | [], _ => List.Pairwise.nil
  | b :: l, h => by
    refine List.Pairwise.cons (fun c hc => ?_) (pairwise_apart_of_cover_le_one fun n => ?_)
    · exact apart_of_cover_le_one (k := [b]) (by simpa using h) (List.mem_singleton_self b) hc
    · exact le_trans (Nat.le_add_left _ _) (h n)

/-- The position a search finds holds a block that passes it. -/
theorem exists_of_findIdx? {l : List Block} {p : Block → Bool} {i : ℕ} (h : l.findIdx? p = some i) :
    ∃ b, l[i]? = some b ∧ p b = true := by
  obtain ⟨hi, hp, _⟩ := List.findIdx?_eq_some_iff_getElem.mp h
  exact ⟨l[i], List.getElem?_eq_getElem hi, hp⟩

/-! ### Merging neighbours -/

/-- Merge each block into the last one kept when it starts where that one stops. -/
def mergeInto (back : Block) : List Block → List Block
  | [] => [back]
  | b :: rest =>
    if back.1 + back.2 = b.1 then mergeInto (back.1, back.2 + b.2) rest
    else back :: mergeInto b rest

theorem cover_mergeInto : ∀ (back : Block) (l : List Block) (n : ℕ),
    cover (mergeInto back l) n = back.weight n + cover l n
  | back, [], n => rfl
  | back, b :: l, n => by
    rw [mergeInto]
    split
    · next hadj =>
      rw [cover_mergeInto, cover_cons, weight_split, hadj, Nat.add_assoc]
    · rw [cover_cons, cover_mergeInto, cover_cons]

/-- The order of `std::pair`. -/
def pairLE (a b : Block) : Prop := a.1 < b.1 ∨ (a.1 = b.1 ∧ a.2 ≤ b.2)

instance : DecidableRel pairLE := fun _ _ => inferInstanceAs (Decidable (_ ∨ _))

/-- Sort by offset, then merge neighbours. -/
def coalesce (l : List Block) : List Block :=
  match l.insertionSort pairLE with
  | [] => []
  | b :: rest => mergeInto b rest

theorem cover_coalesce (l : List Block) (n : ℕ) : cover (coalesce l) n = cover l n := by
  rw [← cover_perm (List.perm_insertionSort pairLE l) n, coalesce]
  split
  · next h => rw [h]
  · next b rest h => rw [h, cover_mergeInto, cover_cons]

end Zith.Lib
