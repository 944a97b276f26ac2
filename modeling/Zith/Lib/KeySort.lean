import Mathlib.Data.List.Sort

/-! Sorting by a key, as a library may promise it: the same elements in the order of their keys, and
    nothing about elements of one key. Two such sorts agree on lists whose keys are all different; on
    others one of them reverses what another one keeps. -/

namespace Zith.Lib

section
variable {α : Type} {key : α → ℕ}

/-- A sort by `key`. -/
structure KeySort (key : α → ℕ) where
  run : List α → List α
  perm : ∀ l, (run l).Perm l
  sorted : ∀ l, (run l).Pairwise (key · ≤ key ·)

/-- A list with increasing keys is sorted already, for every sort. -/
theorem KeySort.run_of_increasing (sort : KeySort key) {l : List α} (h : l.Pairwise (key · < key ·)) :
    sort.run l = l := by
  refine List.Perm.eq_of_pairwise (fun a b ha hb hab hba => ?_) (sort.sorted l) (h.imp fun hlt => hlt.le) (sort.perm l)
  have hinj : ∀ x ∈ l, ∀ y ∈ l, key x = key y → x = y := by
    have hne : (l.map key).Nodup := by
      rw [List.Nodup, List.pairwise_map]
      exact h.imp fun hlt => hlt.ne
    exact fun x hx y hy heq => List.inj_on_of_nodup_map hne hx hy heq
  exact hinj a ((sort.perm l).subset ha) b hb (le_antisymm hab hba)

/-- The sort that keeps the order of elements of one key. -/
def stableSort (key : α → ℕ) : KeySort key where
  run l := l.insertionSort (key · ≤ key ·)
  perm l := List.perm_insertionSort _ l
  sorted l := List.pairwise_insertionSort _ l

/-- The sort that reverses the order of elements of one key. -/
def reversingSort (key : α → ℕ) : KeySort key where
  run l := l.reverse.insertionSort (key · ≤ key ·)
  perm l := (List.perm_insertionSort _ l.reverse).trans l.reverse_perm
  sorted l := List.pairwise_insertionSort _ l.reverse

theorem reversingSort_swaps {l : List α} {a b : α} (h : [a, b].Sublist l) (hkey : key a = key b) :
    [b, a].Sublist ((reversingSort key).run l) :=
  List.sublist_insertionSort (by simp [hkey]) h.reverse

end

end Zith.Lib
