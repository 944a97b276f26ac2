import Mathlib.Data.List.Forall2
import Mathlib.Data.List.Infix
import Zith.Lib.ByteCodec

/-! Readers that carry a state from one value to the next. The state may only grow: a run that ends with
    the state it began with had that state all along, so what holds of one value at that state holds of
    every value of the run.

        one value, exactly  ──▶  a row of values, exactly -/

namespace Zith.Lib.Reader

variable {σ α : Type}

/-- What holds of each value that is read holds of all values of a repetition. -/
theorem Ensures.replicate {rd : Reader α} {P : α → Prop} (h : Ensures rd P) (n : ℕ) :
    Ensures (rd.replicate n) fun l => l.length = n ∧ ∀ a ∈ l, P a :=
  fun _ _ _ hrun => ⟨replicate_length hrun, forall_of_replicate h hrun⟩

/-- `n` values in a row, each read with the state the one before it left. -/
def thread (rd : σ → Reader (α × σ)) : ℕ → σ → Reader (List α × σ)
  | 0, s => pure ([], s)
  | n + 1, s => do
    let (a, s) ← rd s
    let (as, s) ← thread rd n s
    pure (a :: as, s)

theorem thread_succ_eq_some {rd : σ → Reader (α × σ)} {n : ℕ} {s s' : σ} {bs rest : List UInt8}
    {l : List α} (h : thread rd (n + 1) s bs = some ((l, s'), rest)) :
    ∃ a as mid between, rd s bs = some ((a, mid), between) ∧
      thread rd n mid between = some ((as, s'), rest) ∧ l = a :: as := by
  obtain ⟨⟨a, mid⟩, between, ha, h⟩ := bind_eq_some h
  obtain ⟨⟨as, last⟩, between', has, h⟩ := bind_eq_some h
  obtain ⟨hl, rfl⟩ := pure_eq_some h
  obtain ⟨rfl, rfl⟩ := Prod.mk.injEq .. ▸ hl
  exact ⟨a, as, mid, between, ha, has, rfl⟩

variable {R : σ → σ → Prop} [IsPartialOrder σ R] {rd : σ → Reader (α × σ)}

/-- A run grows the state when every step does. -/
theorem thread_grows (hrd : ∀ s bs a s' rest, rd s bs = some ((a, s'), rest) → R s s') :
    ∀ {n : ℕ} {s s' : σ} {bs rest : List UInt8} {l : List α}, thread rd n s bs = some ((l, s'), rest) → R s s' := by
  intro n
  induction n with
  | zero =>
    intro s s' bs rest l h
    obtain ⟨hl, _⟩ := pure_eq_some h
    obtain ⟨_, rfl⟩ := Prod.mk.injEq .. ▸ hl
    exact refl_of R s
  | succ n ih =>
    intro s s' bs rest l h
    obtain ⟨a, as, mid, between, ha, has, _⟩ := thread_succ_eq_some h
    exact trans_of R (hrd _ _ _ _ _ ha) (ih has)

variable {enc : α → List UInt8} {good : α → Prop} {s : σ}

/-- Values that are read back exactly are so in a row. -/
theorem thread_inverts (hgood : ∀ a rest, good a → rd s (enc a ++ rest) = some ((a, s), rest)) :
    ∀ {l : List α}, (∀ a ∈ l, good a) → ∀ rest, thread rd l.length s (l.flatMap enc ++ rest) = some ((l, s), rest) := by
  intro l
  induction l with
  | nil =>
    intro _ rest
    simp [thread]
  | cons a l ih =>
    intro h rest
    obtain ⟨ha, hl⟩ := List.forall_mem_cons.mp h
    rw [List.length_cons, List.flatMap_cons, List.append_assoc, thread, bind_apply, hgood a _ ha, Option.bind_some]
    dsimp only
    rw [bind_apply, ih hl rest]
    rfl

/-- Values that are each read as something they are related to. -/
theorem exists_thread {β : Type} {rd : σ → Reader (β × σ)} {Q : α → β → Prop}
    (hread : ∀ a, good a → ∃ b, Q a b ∧ ∀ rest, rd s (enc a ++ rest) = some ((b, s), rest)) :
    ∀ {l : List α}, (∀ a ∈ l, good a) →
      ∃ l', List.Forall₂ Q l l' ∧ ∀ rest, thread rd l.length s (l.flatMap enc ++ rest) = some ((l', s), rest) := by
  intro l
  induction l with
  | nil =>
    intro _
    exact ⟨[], List.Forall₂.nil, fun _ => rfl⟩
  | cons a l ih =>
    intro h
    obtain ⟨ha, hl⟩ := List.forall_mem_cons.mp h
    obtain ⟨b, hb, hrow⟩ := hread a ha
    obtain ⟨l', hl', hrows⟩ := ih hl
    refine ⟨b :: l', List.Forall₂.cons hb hl', fun rest => ?_⟩
    rw [List.length_cons, List.flatMap_cons, List.append_assoc, thread, bind_apply, hrow, Option.bind_some]
    dsimp only
    rw [bind_apply, hrows rest]
    rfl

/-- A run that ends with the values that were written, and with its first state, read each of them
    exactly. -/
theorem good_of_thread (hrd : ∀ s bs a s' rest, rd s bs = some ((a, s'), rest) → R s s')
    (hexact : ∀ a rest rest', rd s (enc a ++ rest) = some ((a, s), rest') → good a ∧ rest' = rest) :
    ∀ {l : List α} {rest rest' : List UInt8}, thread rd l.length s (l.flatMap enc ++ rest) = some ((l, s), rest') →
        (∀ a ∈ l, good a) ∧ rest' = rest := by
  intro l
  induction l with
  | nil =>
    intro rest rest' h
    obtain ⟨_, rfl⟩ := pure_eq_some h
    simp
  | cons a l ih =>
    intro rest rest' h
    rw [List.flatMap_cons, List.append_assoc] at h
    obtain ⟨b, bs, mid, between, ha, has, hl⟩ := thread_succ_eq_some h
    obtain ⟨rfl, rfl⟩ := List.cons.inj hl
    have hmid : s = mid := antisymm_of R (hrd _ _ _ _ _ ha) (thread_grows hrd has)
    subst hmid
    obtain ⟨hgood, rfl⟩ := hexact a _ _ ha
    obtain ⟨hall, rfl⟩ := ih has
    exact ⟨List.forall_mem_cons.mpr ⟨hgood, hall⟩, rfl⟩

end Zith.Lib.Reader
