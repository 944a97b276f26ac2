import Mathlib.Algebra.Group.Nat.Defs
import Zith.Frontend.Lexer
import Zith.Lib.Lines

/-! `positionAt` and `offsetAt`: byte offsets of a source as lines and characters, and back. Both scan from
    the start; the first counts up to the offset, the second looks for the line and adds the character.
    The sum is a `uint32_t`, and it is held back at the end of the source only, so a character beyond the
    end of a line that is not the last one runs on into the lines after it. -/

namespace Zith.Ide
open Zith.Lib Zith.Frontend

structure Position where
  line : ℕ
  character : ℕ
  deriving DecidableEq, Repr

/-- One round of the loop of `positionAt`. -/
def Position.advance (p : Position) (c : UInt8) : Position :=
  if c = newline then ⟨p.line + 1, 0⟩ else { p with character := p.character + 1 }

def positionAt (source : Text) (offset : ℕ) : Position := (source.take offset).foldl Position.advance ⟨0, 0⟩

/-- The loop of `offsetAt`: where the line starts. -/
def seekLine (line : ℕ) : Text → ℕ → ℕ → ℕ
  | [], _, offset => offset
  | c :: rest, currentLine, offset =>
    if currentLine < line then seekLine line rest (if c = newline then currentLine + 1 else currentLine) (offset + 1)
    else offset

def offsetAt (source : Text) (line character : ℕ) : ℕ :=
  min ((seekLine line source 0 0 + character) % 2 ^ 32) source.length

/-! ### Lines -/

/-- The lines of a source, without their newlines; behind a final newline there is one more, empty line. -/
def lines (source : Text) : List Text := source.splitOn newline

/-- The bytes in front of the line `k`. -/
def lineStart (source : Text) (k : ℕ) : ℕ := (unlines newline ((lines source).take k)).length

theorem advance_line : ∀ {line : Text} {p : Position}, newline ∉ line →
    line.foldl Position.advance p = { p with character := p.character + line.length }
  | [], p, _ => rfl
  | c :: line, p, h => by
    rw [List.foldl_cons, advance_line (List.not_mem_of_not_mem_cons h), Position.advance,
      if_neg (List.ne_of_not_mem_cons h).symm, List.length_cons, Nat.add_assoc, Nat.add_comm 1]

theorem advance_unlines : ∀ {ls : List Text} {n : ℕ}, (∀ l ∈ ls, newline ∉ l) →
    (unlines newline ls).foldl Position.advance ⟨n, 0⟩ = ⟨n + ls.length, 0⟩
  | [], n, _ => rfl
  | l :: ls, n, h => by
    rw [List.forall_mem_cons] at h
    rw [unlines_cons, List.foldl_append, advance_line h.1, List.foldl_cons, Position.advance, if_pos rfl,
      advance_unlines h.2, List.length_cons, Nat.add_assoc, Nat.add_comm 1]

/-- The loop of `offsetAt` runs over a line it is not looking for. -/
theorem seekLine_line {line : ℕ} : ∀ {l : Text} {rest : Text} {current offset : ℕ}, newline ∉ l → current < line →
    seekLine line (l ++ rest) current offset = seekLine line rest current (offset + l.length)
  | [], rest, current, offset, _, _ => rfl
  | c :: l, rest, current, offset, h, hlt => by
    rw [List.cons_append, seekLine, if_pos hlt, if_neg (List.ne_of_not_mem_cons h).symm,
      seekLine_line (List.not_mem_of_not_mem_cons h) hlt, List.length_cons, Nat.add_assoc, Nat.add_comm 1]

theorem seekLine_stop {line : ℕ} (rest : Text) (offset : ℕ) : seekLine line rest line offset = offset := by
  cases rest with
  | nil => rfl
  | cons c rest => rw [seekLine, if_neg (Nat.lt_irrefl line)]

theorem seekLine_unlines : ∀ {ls : List Text} {rest : Text} {current offset : ℕ}, (∀ l ∈ ls, newline ∉ l) →
    seekLine (current + ls.length) (unlines newline ls ++ rest) current offset = offset + (unlines newline ls).length
  | [], rest, current, offset, _ => seekLine_stop rest offset
  | l :: ls, rest, current, offset, h => by
    rw [List.forall_mem_cons] at h
    have hlt : current < current + (l :: ls).length := by simp
    rw [unlines_cons, List.append_assoc, seekLine_line h.1 hlt, List.cons_append, seekLine, if_pos hlt, if_pos rfl]
    have hlen : current + (l :: ls).length = current + 1 + ls.length := by
      rw [List.length_cons, Nat.add_assoc, Nat.add_comm 1]
    rw [hlen, seekLine_unlines h.2]
    simp only [List.length_append, List.length_cons]
    omega

/-! ### A place in a line -/

/-- The source around one of its lines: the lines in front of it, the line, and the rest, which is empty for
    the last line. -/
structure Around (source : Text) (k : ℕ) (line : Text) where
  before : List Text
  rest : Text
  eq : source = unlines newline before ++ (line ++ rest)
  count : before.length = k
  start : (unlines newline before).length = lineStart source k
  clean : ∀ l ∈ before, newline ∉ l
  single : newline ∉ line
  last : rest = [] ↔ k + 1 = (lines source).length

def around {source line : Text} {k : ℕ} (h : (lines source)[k]? = some line) : Around source k line where
  before := (lines source).take k
  rest := ((lines source).drop (k + 1)).flatMap fun l => newline :: l
  eq := eq_unlines_append h
  count := by
    obtain ⟨hlt, -⟩ := List.getElem?_eq_some_iff.mp h
    rw [List.length_take]; omega
  start := rfl
  clean := fun l hl => not_mem_of_mem_splitOn (List.mem_of_mem_take hl)
  single := not_mem_of_mem_splitOn (List.mem_of_getElem? h)
  last := by
    obtain ⟨hlt, -⟩ := List.getElem?_eq_some_iff.mp h
    simp only [List.flatMap_eq_nil_iff, reduceCtorEq, imp_false, ← List.eq_nil_iff_forall_not_mem, List.drop_eq_nil_iff]
    omega

variable {source line : Text} {k character : ℕ}

/-- An offset within a line, or at its end. -/
theorem Around.positionAt (a : Around source k line) (h : character ≤ line.length) :
    positionAt source (lineStart source k + character) = ⟨k, character⟩ := by
  have htake : source.take (lineStart source k + character) = unlines newline a.before ++ line.take character := calc
    source.take (lineStart source k + character)
      = (unlines newline a.before ++ (line ++ a.rest)).take ((unlines newline a.before).length + character) := by
        rw [a.start, ← a.eq]
    _ = unlines newline a.before ++ line.take character := by
        rw [List.take_length_add_append, List.take_append_of_le_length h]
  have hclean : newline ∉ line.take character := fun hmem => a.single (List.mem_of_mem_take hmem)
  rw [Ide.positionAt, htake, List.foldl_append, advance_unlines a.clean, advance_line hclean, List.length_take,
    Nat.min_eq_left h, a.count]
  simp

/-- Where `offsetAt` goes. -/
theorem Around.offsetAt (a : Around source k line) (character : ℕ) :
    offsetAt source k character = min ((lineStart source k + character) % 2 ^ 32) source.length := by
  have hseek : seekLine k source 0 0 = lineStart source k := by
    have hrun := @seekLine_unlines a.before (line ++ a.rest) 0 0 a.clean
    rw [← a.eq, a.count, a.start, Nat.zero_add, Nat.zero_add] at hrun
    exact hrun
  rw [Ide.offsetAt, hseek]

theorem Around.length_eq (a : Around source k line) :
    source.length = lineStart source k + line.length + a.rest.length := by
  conv_lhs => rw [a.eq]
  rw [List.length_append, List.length_append, a.start, Nat.add_assoc]

/-! ### Back and forth -/

theorem lineStart_succ (h : (lines source)[k]? = some line) :
    lineStart source (k + 1) = lineStart source k + line.length + 1 := by
  obtain ⟨hlt, hline⟩ := List.getElem?_eq_some_iff.mp h
  rw [lineStart, lineStart, List.take_succ_eq_append_getElem hlt, hline, unlines_append]
  simp [Nat.add_assoc]

/-- From a line that starts at an offset or before it, the line of the offset. -/
theorem exists_line_from {o : ℕ} (h : o ≤ source.length) (k : ℕ) (hk : k < (lines source).length)
    (hle : lineStart source k ≤ o) : ∃ k line character, (lines source)[k]? = some line ∧ character ≤ line.length ∧
      o = lineStart source k + character := by
  have hline := List.getElem?_eq_getElem hk
  by_cases hin : o ≤ lineStart source k + (lines source)[k].length
  · exact ⟨k, _, o - lineStart source k, hline, by omega, by omega⟩
  · have hlen := (around hline).length_eq
    have hmore : k + 1 < (lines source).length := by
      by_contra hlast
      have hrest := (around hline).last.mpr (by omega)
      rw [hrest, List.length_nil] at hlen
      omega
    have hnext := lineStart_succ hline
    exact exists_line_from h (k + 1) hmore (by omega)
termination_by (lines source).length - k

/-- Every offset of a source is in one of its lines, or at the end of one. -/
theorem exists_line {o : ℕ} (h : o ≤ source.length) :
    ∃ k line character, (lines source)[k]? = some line ∧ character ≤ line.length ∧ o = lineStart source k + character :=
  exists_line_from h 0 (List.length_pos_iff.mpr (List.splitOn_ne_nil newline source)) (by simp [lineStart])

/-- The offset of a position is found again. -/
theorem offsetAt_positionAt (hsize : source.length < 2 ^ 32) {o : ℕ} (h : o ≤ source.length) :
    offsetAt source (positionAt source o).line (positionAt source o).character = o := by
  obtain ⟨k, line, character, hline, hin, rfl⟩ := exists_line h
  rw [(around hline).positionAt hin, (around hline).offsetAt]
  dsimp only
  rw [Nat.mod_eq_of_lt (by omega), Nat.min_eq_left h]

/-- For every source that 32-bit offsets can address: offsets are found again from their positions; and a
    position on a line comes back, with the character held back at the end of the line, exactly when the
    character is within the line or the line is the last one and the sum does not wrap around. -/
theorem positions_inverse_iff (source : Text) (hsize : source.length < 2 ^ 32) :
    (∀ o ≤ source.length, offsetAt source (positionAt source o).line (positionAt source o).character = o) ∧
      ∀ k line, (lines source)[k]? = some line → ∀ character < 2 ^ 32,
        (positionAt source (offsetAt source k character) = ⟨k, min character line.length⟩ ↔
          character ≤ line.length ∨ (k + 1 = (lines source).length ∧ lineStart source k + character < 2 ^ 32)) := by
  refine ⟨fun o h => offsetAt_positionAt hsize h, fun k line hline character hchar => ?_⟩
  have a := around hline
  have hlen := a.length_eq
  have hend := a.positionAt (Nat.min_le_right character line.length)
  have hle : offsetAt source k character ≤ source.length := by rw [a.offsetAt]; exact Nat.min_le_right _ _
  -- a position has one offset, so the two offsets are compared
  have hoffset : positionAt source (offsetAt source k character) = ⟨k, min character line.length⟩ ↔
      offsetAt source k character = lineStart source k + min character line.length := by
    constructor
    · intro heq
      have hback := offsetAt_positionAt hsize hle
      rw [heq, ← hend, offsetAt_positionAt hsize (by omega)] at hback
      exact hback.symm
    · intro heq
      rw [heq, hend]
  rw [hoffset, a.offsetAt]
  have hlast := a.last
  rw [← List.length_eq_zero_iff] at hlast
  by_cases hin : character ≤ line.length
  · rw [Nat.mod_eq_of_lt (by omega)]
    omega
  · by_cases hwrap : lineStart source k + character < 2 ^ 32
    · rw [Nat.mod_eq_of_lt hwrap]
      omega
    · rw [Nat.mod_eq_sub_mod (Nat.le_of_not_lt hwrap), Nat.mod_eq_of_lt (by omega)]
      omega

/-- A source with an empty line and no final newline. -/
theorem positions_inverse_iff_lines :
    (∀ o ≤ (text "ab\n\ncd").length, offsetAt (text "ab\n\ncd") (positionAt (text "ab\n\ncd") o).line
        (positionAt (text "ab\n\ncd") o).character = o) ∧
      ∀ k line, (lines (text "ab\n\ncd"))[k]? = some line → ∀ character < 2 ^ 32,
        (positionAt (text "ab\n\ncd") (offsetAt (text "ab\n\ncd") k character) = ⟨k, min character line.length⟩ ↔
          character ≤ line.length ∨
            (k + 1 = (lines (text "ab\n\ncd")).length ∧ lineStart (text "ab\n\ncd") k + character < 2 ^ 32)) :=
  positions_inverse_iff (text "ab\n\ncd") (by decide +kernel)

/-- A character beyond the end of the first line comes back on the second. -/
theorem position_runs_on : (lines [0x61, 0x62, newline, 0x63, 0x64])[0]? = some [0x61, 0x62] ∧
      positionAt [0x61, 0x62, newline, 0x63, 0x64] (offsetAt [0x61, 0x62, newline, 0x63, 0x64] 0 5) = ⟨1, 2⟩ ∧
      (⟨1, 2⟩ : Position) ≠ ⟨0, min 5 2⟩ := by
  decide

end Zith.Ide
