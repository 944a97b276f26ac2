import Mathlib.Logic.Relation
import Mathlib.Data.List.Basic

/-! Directed graphs whose edges have labels, and the walks from a root. A walk is the list of its
    departures, the last one first:

        root ──l₁──▶ a ──l₂──▶ b      [(a, l₂), (root, l₁)] is a walk to b

    `d` dominates `b` when no walk to `b` gets around `d`. The dominators are the greatest solution of
    equations between neighbours. -/

namespace Zith.Lib

section
variable {κ ℓ : Type}

/-- The departures of a walk from `root`. -/
inductive Walk (E : κ → ℓ → κ → Prop) (root : κ) : κ → List (κ × ℓ) → Prop
  | start : Walk E root root []
  | step {a b : κ} {l : ℓ} {steps : List (κ × ℓ)} (walk : Walk E root a steps) (edge : E a l b) :
      Walk E root b ((a, l) :: steps)

/-- The nodes of a walk to `b`. -/
def nodes (b : κ) (steps : List (κ × ℓ)) : List κ := b :: steps.map Prod.fst

def Dominates (E : κ → ℓ → κ → Prop) (root d b : κ) : Prop := ∀ steps, Walk E root b steps → d ∈ nodes b steps

variable {E : κ → ℓ → κ → Prop} {root : κ}

theorem exists_walk_iff {b : κ} :
    (∃ steps, Walk E root b steps) ↔ Relation.ReflTransGen (fun a b => ∃ l, E a l b) root b := by
  constructor
  · rintro ⟨steps, walk⟩
    induction walk with
    | start => exact .refl
    | step _ edge ih => exact ih.tail ⟨_, edge⟩
  · intro h
    induction h with
    | refl => exact ⟨[], .start⟩
    | tail _ hedge ih =>
      obtain ⟨steps, walk⟩ := ih
      obtain ⟨l, edge⟩ := hedge
      exact ⟨_, walk.step edge⟩

variable {steps : List (κ × ℓ)}

/-- A walk comes to every node on it. -/
theorem exists_walk_of_mem {b d : κ} (walk : Walk E root b steps) (h : d ∈ nodes b steps) :
    ∃ steps, Walk E root d steps := by
  induction walk with
  | start =>
    obtain rfl := List.mem_singleton.mp h
    exact ⟨[], .start⟩
  | @step a b l steps walk edge ih =>
    rcases List.mem_cons.mp h with rfl | h
    · exact ⟨_, walk.step edge⟩
    · exact ih h

/-! ### Dominators -/

theorem dominates_root {d : κ} (h : Dominates E root d root) : d = root := List.mem_singleton.mp (h [] .start)

/-- What dominates a node and is not the node dominates the nodes before it. -/
theorem Dominates.before {a b d : κ} {l : ℓ} (h : Dominates E root d b) (hne : d ≠ b) (edge : E a l b) :
    Dominates E root d a := by
  intro steps walk
  exact (List.mem_cons.mp (h _ (walk.step edge))).resolve_left hne

/-- A solution of the equations: only the root dominates the root, and a dominator of another node is the
    node or dominates every node before it. -/
structure Solution (E : κ → ℓ → κ → Prop) (root : κ) (D : κ → κ → Prop) : Prop where
  start : ∀ d, D root d → d = root
  step : ∀ {b d}, b ≠ root → D b d → d = b ∨ ∀ a l, (∃ steps, Walk E root a steps) → E a l b → D a d

/-- What a solution says of a node is so: along a walk, what is claimed of its end is met. -/
theorem Solution.dominates {D : κ → κ → Prop} (h : Solution E root D) {b d : κ} (hD : D b d) :
    Dominates E root d b := by
  intro steps walk
  induction walk with
  | start => exact List.mem_singleton.mpr (h.start d hD)
  | @step a b l steps walk edge ih =>
    by_cases hb : b = root
    · subst hb
      exact List.mem_cons.mpr (Or.inl (h.start d hD))
    · rcases h.step hb hD with rfl | hbefore
      · exact List.mem_cons_self ..
      · exact List.mem_cons_of_mem _ (ih (hbefore a l ⟨steps, walk⟩ edge))

/-! ### Graphs without an edge -/

/-- The edges except the one from `g` with the label `s`. -/
def Without (E : κ → ℓ → κ → Prop) (g : κ) (s : ℓ) (a : κ) (l : ℓ) (b : κ) : Prop := E a l b ∧ ¬(a = g ∧ l = s)

/-- The first visit of `g` needs no edge from `g`. -/
theorem walk_without {g b : κ} {s : ℓ} (walk : Walk E root b steps) :
    (∃ steps, Walk (Without E g s) root b steps) ∨ ∃ steps, Walk (Without E g s) root g steps := by
  induction walk with
  | start => exact Or.inl ⟨[], .start⟩
  | @step a b l steps walk edge ih =>
    rcases ih with ⟨steps', walk'⟩ | hg
    · by_cases ha : a = g
      · exact Or.inr ⟨steps', ha ▸ walk'⟩
      · exact Or.inl ⟨_, walk'.step ⟨edge, fun h => ha h.1⟩⟩
    · exact Or.inr hg

/-- When `u` is out of reach without the edge, every walk to `u` departs from `g` the last time by it. -/
theorem last_departure [DecidableEq κ] {g u : κ} {s : ℓ}
    (hcut : ¬∃ steps, Walk (Without E g s) root u steps) (walk : Walk E root u steps) :
    steps.find? (fun p => p.1 = g) = some (g, s) := by
  suffices h : (∃ steps, Walk (Without E g s) root u steps) ∨ steps.find? (fun p => p.1 = g) = some (g, s) from
    h.resolve_left hcut
  clear hcut
  induction walk with
  | start => exact Or.inl ⟨[], .start⟩
  | @step a b l steps walk edge ih =>
    by_cases ha : a = g
    · subst ha
      by_cases hl : l = s
      · subst hl
        exact Or.inr (by simp)
      · -- another edge from `g`: the walk up to the first visit of `g`, then this edge
        have hg : ∃ steps, Walk (Without E a s) root a steps := by
          rcases walk_without (g := a) (s := s) walk with h | h <;> exact h
        obtain ⟨steps', walk'⟩ := hg
        exact Or.inl ⟨_, walk'.step ⟨edge, fun h => hl h.2⟩⟩
    · rcases ih with ⟨steps', walk'⟩ | hfind
      · exact Or.inl ⟨_, walk'.step ⟨edge, fun h => ha h.1⟩⟩
      · exact Or.inr (by rw [List.find?_cons_of_neg (by simpa using ha), hfind])

end

end Zith.Lib
