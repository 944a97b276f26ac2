import Mathlib.Data.List.TakeWhile
import Mathlib.Tactic.Common

/-! Lists with separators, and the reader that takes them apart. What a reader of single items reads back, in front
    of a separator or of what closes the list, the reader of lists reads back too. -/

namespace Zith.Lib

section
variable {β : Type} {p : β → Bool} {word rest : List β}

/-- The longest start of a list that satisfies a predicate. -/
def readWhile (p : β → Bool) (l : List β) : List β × List β := (l.takeWhile p, l.dropWhile p)

theorem readWhile_append (hword : ∀ c ∈ word, p c) (hrest : ∀ c ∈ rest.head?, p c = false) :
    readWhile p (word ++ rest) = (word, rest) := by
  have hstop : rest.takeWhile p = [] ∧ rest.dropWhile p = rest := by
    cases rest with
    | nil => exact ⟨rfl, rfl⟩
    | cons c rest =>
      have hc := hrest c rfl
      simp [hc]
  rw [readWhile, List.takeWhile_append_of_pos hword, List.dropWhile_append_of_pos hword, hstop.1, hstop.2,
    List.append_nil]

end

section
variable {α β : Type} [DecidableEq β]

/-- Items with a separator between each two of them. -/
def separated (separator : β) : List (List β) → List β
  | [] => []
  | a :: l => a ++ l.flatMap (separator :: ·)

/-- The items behind the first one, up to what closes the list. -/
def readBehind (read : List β → Option (α × List β)) (separator close : β) : ℕ → List β → Option (List α × List β)
  | 0, _ => none
  | _, [] => none
  | fuel + 1, c :: rest =>
    if c = close then some ([], rest)
    else if c = separator then do
      let (a, rest) ← read rest
      let (as, rest) ← readBehind read separator close fuel rest
      return (a :: as, rest)
    else none

def readSeparated (read : List β → Option (α × List β)) (separator close : β) (fuel : ℕ) :
    List β → Option (List α × List β)
  | [] => none
  | c :: rest =>
    if c = close then some ([], rest)
    else do
      let (a, rest) ← read (c :: rest)
      let (as, rest) ← readBehind read separator close fuel rest
      return (a :: as, rest)

variable {read : List β → Option (α × List β)} {write : α → List β} {separator close : β} {a : α} {as : List α}
  {fuel : ℕ} {rest : List β}

/-- A reader gives an item back in front of a separator and in front of what closes the list. -/
def ReadsBack (read : List β → Option (α × List β)) (write : α → List β) (separator close : β) (a : α) : Prop :=
  ∀ c rest, c = separator ∨ c = close → read (write a ++ c :: rest) = some (a, c :: rest)

omit [DecidableEq β] in
/-- Behind an item there is another one, or what closes the list. -/
theorem ReadsBack.behind (h : ReadsBack read write separator close a) (as : List α) (rest : List β) :
    read (write a ++ (as.flatMap (fun a => separator :: write a) ++ close :: rest)) =
      some (a, as.flatMap (fun a => separator :: write a) ++ close :: rest) := by
  cases as with
  | nil => exact h close rest (Or.inr rfl)
  | cons b as => exact h separator _ (Or.inl rfl)

theorem readBehind_written (hne : separator ≠ close) (h : ∀ a ∈ as, ReadsBack read write separator close a)
    (hfuel : as.length < fuel) :
    readBehind read separator close fuel (as.flatMap (fun a => separator :: write a) ++ close :: rest) =
      some (as, rest) := by
  induction as generalizing fuel with
  | nil =>
    obtain ⟨n, rfl⟩ := Nat.exists_eq_add_of_lt hfuel
    simp [readBehind]
  | cons a as ih =>
    obtain ⟨ha, has⟩ := List.forall_mem_cons.mp h
    obtain ⟨fuel, rfl⟩ : ∃ n, fuel = n + 1 := ⟨fuel - 1, by omega⟩
    have hlt : as.length < fuel := Nat.lt_of_succ_lt_succ hfuel
    have hitem := ha.behind as rest
    rw [List.flatMap_cons, List.append_assoc, List.cons_append, readBehind, if_neg hne, if_pos rfl, hitem]
    simp only [Option.bind_eq_bind, Option.bind_some, ih has hlt]
    rfl

theorem readSeparated_written (hne : separator ≠ close) (h : ∀ a ∈ as, ReadsBack read write separator close a)
    (hfirst : ∀ a ∈ as, ∃ c tail, write a = c :: tail ∧ c ≠ close) (hfuel : as.length < fuel) :
    readSeparated read separator close fuel (separated separator (as.map write) ++ close :: rest) =
      some (as, rest) := by
  cases as with
  | nil => simp [separated, readSeparated]
  | cons a as =>
    obtain ⟨ha, has⟩ := List.forall_mem_cons.mp h
    obtain ⟨c, tail, hwrite, hc⟩ := hfirst a List.mem_cons_self
    have hitem := ha.behind as rest
    rw [hwrite] at hitem
    rw [List.map_cons, separated, List.flatMap_map, List.append_assoc, hwrite, List.cons_append, readSeparated, if_neg hc,
      ← List.cons_append, hitem]
    simp only [Option.bind_eq_bind, Option.bind_some, readBehind_written hne has (Nat.lt_of_succ_lt hfuel)]
    rfl

end

end Zith.Lib
