import Mathlib.Data.List.Basic

/-! Sequences of tokens and the place where two of them part. Two sequences are `Apart` when the tokens
    they part at differ in a given sense; what is written for the tokens is then different as soon as it
    is for these two, whatever follows. -/

namespace Zith.Lib

section
variable {τ β : Type}

/-- After a common beginning come two tokens that differ. -/
def Apart (Differ : τ → τ → Prop) (l l' : List τ) : Prop :=
  ∃ p u v r r', l = p ++ u :: r ∧ l' = p ++ v :: r' ∧ Differ u v

variable {Differ : τ → τ → Prop}

theorem Apart.head {u v : τ} (h : Differ u v) (l l' : List τ) : Apart Differ (u :: l) (v :: l') :=
  ⟨[], u, v, l, l', rfl, rfl, h⟩

theorem Apart.cons {l l' : List τ} (u : τ) : Apart Differ l l' → Apart Differ (u :: l) (u :: l')
  | ⟨p, a, b, r, r', hl, hl', h⟩ => ⟨u :: p, a, b, r, r', by rw [hl]; rfl, by rw [hl']; rfl, h⟩

theorem Apart.append {l l' : List τ} : ∀ (p : List τ), Apart Differ l l' → Apart Differ (p ++ l) (p ++ l')
  | [], h => h
  | u :: p, h => (Apart.append p h).cons u

variable [DecidableEq τ]

/-- A test of the two tokens two sequences part at. -/
def firstDifference (test : τ → τ → Bool) : List τ → List τ → Bool
  | u :: l, v :: l' => if u = v then firstDifference test l l' else test u v
  | _, _ => false

theorem firstDifference_append (test : τ → τ → Bool) {u v : τ} (hne : u ≠ v) (r r' : List τ) :
    ∀ p : List τ, firstDifference test (p ++ u :: r) (p ++ v :: r') = test u v
  | [] => by rw [List.nil_append, List.nil_append, firstDifference, if_neg hne]
  | t :: p => by
    rw [List.cons_append, List.cons_append, firstDifference, if_pos rfl]
    exact firstDifference_append test hne r r' p

/-- Sequences that are apart, at tokens that are not open to doubt, are written differently. -/
theorem Apart.flatMap_ne {write : τ → List β} (test : τ → τ → Bool)
    (hwrite : ∀ u v, Differ u v → test u v = false → ∀ r r', write u ++ r ≠ write v ++ r')
    (hirrefl : ∀ u v, Differ u v → u ≠ v) {l l' : List τ} (h : Apart Differ l l')
    (hclear : firstDifference test l l' = false) : l.flatMap write ≠ l'.flatMap write := by
  obtain ⟨p, u, v, r, r', rfl, rfl, hdiffer⟩ := h
  rw [firstDifference_append test (hirrefl u v hdiffer)] at hclear
  simp only [List.flatMap_append, List.flatMap_cons]
  exact fun heq => hwrite u v hdiffer hclear _ _ (List.append_cancel_left heq)

end

end Zith.Lib
