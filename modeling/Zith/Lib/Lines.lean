import Mathlib.Data.List.Basic

/-! Lines: texts one after the other, each with a terminator behind it. As long as no line contains the terminator,
    the lines can be read back from the text: a known number of them, or all up to a byte that starts no line. -/

namespace Zith.Lib

variable {α : Type*} {sep stop : α}

/-- Every line with the terminator behind it. -/
def unlines (sep : α) (lines : List (List α)) : List α := lines.flatMap fun line => line ++ [sep]

@[simp] theorem unlines_nil : unlines sep [] = [] := rfl

@[simp] theorem unlines_cons (line : List α) (lines : List (List α)) :
    unlines sep (line :: lines) = line ++ sep :: unlines sep lines := by
  simp [unlines]

@[simp] theorem unlines_append (lines lines' : List (List α)) :
    unlines sep (lines ++ lines') = unlines sep lines ++ unlines sep lines' := by
  simp [unlines]

/-- A text ends at the first terminator. -/
theorem line_inj : ∀ {line line' : List α} {rest rest' : List α}, sep ∉ line → sep ∉ line' →
    line ++ sep :: rest = line' ++ sep :: rest' → line = line' ∧ rest = rest'
  | [], [], _, _, _, _, h => ⟨rfl, (List.cons.inj h).2⟩
  | [], c :: _, _, _, _, hmem, h => absurd (List.cons.inj h).1 (List.ne_of_not_mem_cons hmem)
  | c :: _, [], _, _, hmem, _, h => absurd (List.cons.inj h).1.symm (List.ne_of_not_mem_cons hmem)
  | c :: line, c' :: line', rest, rest', hmem, hmem', h => by
    obtain ⟨rfl, htail⟩ := List.cons.inj h
    obtain ⟨rfl, hrest⟩ := line_inj (List.not_mem_of_not_mem_cons hmem) (List.not_mem_of_not_mem_cons hmem') htail
    exact ⟨rfl, hrest⟩

/-- As many lines can be read back as are known to be there. -/
theorem unlines_inj : ∀ {lines lines' : List (List α)} {rest rest' : List α}, lines.length = lines'.length →
    (∀ line ∈ lines, sep ∉ line) → (∀ line ∈ lines', sep ∉ line) →
    unlines sep lines ++ rest = unlines sep lines' ++ rest' → lines = lines' ∧ rest = rest'
  | [], [], _, _, _, _, _, h => ⟨rfl, h⟩
  | line :: lines, line' :: lines', rest, rest', hlen, hsep, hsep', h => by
    rw [List.forall_mem_cons] at hsep hsep'
    rw [unlines_cons, unlines_cons, List.append_assoc, List.append_assoc, List.cons_append, List.cons_append] at h
    obtain ⟨rfl, hlines⟩ := line_inj hsep.1 hsep'.1 h
    obtain ⟨rfl, hrest⟩ := unlines_inj (Nat.succ.inj hlen) hsep.2 hsep'.2 hlines
    exact ⟨rfl, hrest⟩

theorem unlines_ne_stop (hstop : stop ≠ sep) {line : List α} (hline : line.head? ≠ some stop) {rest rest' : List α} :
    line ++ sep :: rest ≠ stop :: rest' := by
  intro h
  cases line with
  | nil => exact hstop (List.cons.inj h).1.symm
  | cons c line => exact hline (congrArg some (List.cons.inj h).1)

/-- All lines can be read back that stand in front of a byte that starts none of them. -/
theorem unlines_stop_inj (hstop : stop ≠ sep) : ∀ {lines lines' : List (List α)} {rest rest' : List α},
    (∀ line ∈ lines, sep ∉ line ∧ line.head? ≠ some stop) → (∀ line ∈ lines', sep ∉ line ∧ line.head? ≠ some stop) →
    unlines sep lines ++ stop :: rest = unlines sep lines' ++ stop :: rest' → lines = lines' ∧ rest = rest'
  | [], [], _, _, _, _, h => ⟨rfl, (List.cons.inj h).2⟩
  | [], line' :: lines', _, _, _, hsep', h => by
    rw [unlines_cons, List.append_assoc] at h
    exact absurd h.symm (unlines_ne_stop hstop (hsep' line' List.mem_cons_self).2)
  | line :: lines, [], _, _, hsep, _, h => by
    rw [unlines_cons, List.append_assoc] at h
    exact absurd h (unlines_ne_stop hstop (hsep line List.mem_cons_self).2)
  | line :: lines, line' :: lines', rest, rest', hsep, hsep', h => by
    rw [List.forall_mem_cons] at hsep hsep'
    rw [unlines_cons, unlines_cons, List.append_assoc, List.append_assoc, List.cons_append, List.cons_append] at h
    obtain ⟨rfl, hlines⟩ := line_inj hsep.1.1 hsep'.1.1 h
    obtain ⟨rfl, hrest⟩ := unlines_stop_inj hstop hsep.2 hsep'.2 hlines
    exact ⟨rfl, hrest⟩

/-! ### Splitting a text at its terminators -/

theorem not_mem_of_mem_splitOn [DecidableEq α] : ∀ {s line : List α}, line ∈ s.splitOn sep → sep ∉ line
  | [], line, h => by
    obtain rfl : line = [] := by simpa using h
    exact List.not_mem_nil
  | c :: s, line, h => by
    rw [List.splitOn_cons_eq_if_modifyHead] at h
    split at h
    · rcases List.mem_cons.mp h with rfl | h
      · exact List.not_mem_nil
      · exact not_mem_of_mem_splitOn h
    · next hc =>
      cases hs : s.splitOn sep with
      | nil => exact absurd hs (List.splitOn_ne_nil sep s)
      | cons first rest =>
        rw [hs, List.modifyHead_cons] at h
        rcases List.mem_cons.mp h with rfl | h
        · have hfirst := not_mem_of_mem_splitOn (hs ▸ List.mem_cons_self : first ∈ s.splitOn sep)
          simp only [beq_iff_eq] at hc
          exact List.not_mem_cons_of_ne_of_not_mem (Ne.symm hc) hfirst
        · exact not_mem_of_mem_splitOn (hs ▸ List.mem_cons_of_mem _ h : line ∈ s.splitOn sep)

/-- The lines before the line `k`, that line, and each line after it with the terminator in front. -/
theorem intercalate_eq : ∀ {lines : List (List α)} {k : ℕ} {line : List α}, lines[k]? = some line →
    [sep].intercalate lines = unlines sep (lines.take k) ++ (line ++ (lines.drop (k + 1)).flatMap fun l => sep :: l)
  | [], _, _, h => by simp at h
  | l :: ls, 0, line, h => by
    obtain rfl : l = line := by simpa using h
    induction ls generalizing l with
    | nil => simp
    | cons l' ls ih =>
      rw [List.intercalate_cons_cons, ih l' (by simp)]
      simp
  | l :: ls, k + 1, line, h => by
    rw [List.getElem?_cons_succ] at h
    have hne : ls ≠ [] := by rintro rfl; simp at h
    rw [List.intercalate_cons_of_ne_nil hne, intercalate_eq h]
    simp

/-- The text in front of its line `k`, that line, and what follows it. -/
theorem eq_unlines_append [DecidableEq α] {s line : List α} {k : ℕ} (h : (s.splitOn sep)[k]? = some line) :
    s = unlines sep ((s.splitOn sep).take k) ++ (line ++ ((s.splitOn sep).drop (k + 1)).flatMap fun l => sep :: l) := by
  rw [← intercalate_eq h, List.intercalate_splitOn]

end Zith.Lib
