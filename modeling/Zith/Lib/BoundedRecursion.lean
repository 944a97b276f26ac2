import Mathlib.Data.Set.Finite.Basic

/-! Recursion to a bounded depth over a finite set of nodes. A node can be done at a depth when its own
    part can and each node it calls can be done one level further down. Some depth does exactly when
    nothing that is called, directly or not, calls itself or cannot do its own part (`returns_iff`). -/

namespace Zith.Lib

/-- The nodes a node calls, and the depths at which the rest of its work is done. -/
structure BoundedRecursion (κ : Type) where
  calls : κ → List κ
  ready : ℕ → κ → Prop
  ready_succ : ∀ {n x}, ready n x → ready (n + 1) x

namespace BoundedRecursion
variable {κ : Type} (R : BoundedRecursion κ)

def Returns : ℕ → κ → Prop
  | 0, _ => False
  | n + 1, x => R.ready n x ∧ ∀ y ∈ R.calls x, Returns n y

/-- `x` calls `y`. -/
def Calls (x y : κ) : Prop := y ∈ R.calls x

variable {R}
variable {x : κ}

theorem ready_mono {m n : ℕ} (hle : m ≤ n) (h : R.ready m x) : R.ready n x := by
  induction hle with
  | refl => exact h
  | step _ ih => exact R.ready_succ ih

theorem returns_mono : ∀ {m n : ℕ} {x : κ}, m ≤ n → R.Returns m x → R.Returns n x
  | 0, _, _, _, h => h.elim
  | m + 1, n + 1, _, hle, h =>
    ⟨ready_mono (by omega) h.1, fun y hy => returns_mono (by omega) (h.2 y hy)⟩

/-- What is called is done at a smaller depth. -/
theorem returns_of_transGen {x y : κ} (h : Relation.TransGen R.Calls x y) :
    ∀ {n}, R.Returns n x → ∃ m < n, R.Returns m y := by
  induction h with
  | single hy =>
    rintro (_ | n) hx
    · exact hx.elim
    · exact ⟨n, Nat.lt_succ_self n, hx.2 _ hy⟩
  | tail _ hz ih =>
    intro n hx
    obtain ⟨m, hm, hy⟩ := ih hx
    obtain _ | m := m
    · exact hy.elim
    · exact ⟨m, by omega, hy.2 _ hz⟩

theorem not_cyclic : ∀ {n}, R.Returns n x → ¬Relation.TransGen R.Calls x x := by
  intro n
  induction n using Nat.strong_induction_on with
  | _ n ih =>
    intro hx hcycle
    obtain ⟨m, hm, hx'⟩ := returns_of_transGen hcycle hx
    exact ih m hm hx' hcycle

theorem not_cyclic_of_acc (h : Acc (fun y x => R.Calls x y) x) : ¬Relation.TransGen R.Calls x x := by
  induction h with
  | intro x _ ih =>
    intro hcycle
    obtain ⟨y, hy, hrest⟩ := Relation.TransGen.head'_iff.mp hcycle
    exact ih y hy (Relation.TransGen.tail' hrest hy)

/-- Calls that go down in some rank. -/
theorem not_cyclic_of_rank {rank : κ → ℕ} (h : ∀ x y, R.Calls x y → rank y < rank x) (x : κ) :
    ¬Relation.TransGen R.Calls x x := by
  have hdown : ∀ {y}, Relation.TransGen R.Calls x y → rank y < rank x := by
    intro y hy
    induction hy with
    | single hy => exact h _ _ hy
    | tail _ hz ih => exact (h _ _ hz).trans ih
  exact fun hcycle => Nat.lt_irrefl _ (hdown hcycle)

/-- Finitely many nodes that are done at some depth are done at a common one. -/
theorem exists_common (P : ℕ → κ → Prop) (hmono : ∀ {m n x}, m ≤ n → P m x → P n x) :
    ∀ {xs : List κ}, (∀ x ∈ xs, ∃ n, P n x) → ∃ n, ∀ x ∈ xs, P n x
  | [], _ => ⟨0, fun _ h => absurd h List.not_mem_nil⟩
  | x :: xs, h => by
    obtain ⟨m, hm⟩ := h x (.head _)
    obtain ⟨n, hn⟩ := exists_common P hmono fun y hy => h y (.tail _ hy)
    refine ⟨max m n, fun y hy => ?_⟩
    rcases List.mem_cons.mp hy with rfl | hy
    · exact hmono (Nat.le_max_left ..) hm
    · exact hmono (Nat.le_max_right ..) (hn y hy)

theorem exists_returns_of_acc (hacc : Acc (fun y x => R.Calls x y) x)
    (hready : ∀ y, Relation.ReflTransGen R.Calls x y → ∃ n, R.ready n y) : ∃ n, R.Returns n x := by
  induction hacc with
  | intro x _ ih =>
    obtain ⟨m, hm⟩ := hready x .refl
    obtain ⟨n, hn⟩ := exists_common R.Returns (fun hle => returns_mono hle)
      (fun y (hy : y ∈ R.calls x) => ih y hy fun z hz => hready z (.head hy hz))
    exact ⟨max m n + 1, ready_mono (Nat.le_max_left ..) hm, fun y hy => returns_mono (Nat.le_max_right ..) (hn y hy)⟩

/-- Among finitely many nodes, calling without a cycle ends. -/
theorem acc_of_acyclic {nodes : List κ} (hnodes : ∀ y, Relation.ReflTransGen R.Calls x y → y ∈ nodes)
    (hacyclic : ∀ y, Relation.ReflTransGen R.Calls x y → ¬Relation.TransGen R.Calls y y) :
    Acc (fun y x => R.Calls x y) x := by
  let Reached := { y // Relation.ReflTransGen R.Calls x y }
  have hfinite : Finite Reached := Set.Finite.to_subtype ((List.finite_toSet nodes).subset hnodes)
  let below : Reached → Reached → Prop := fun z y => Relation.TransGen R.Calls y.1 z.1
  have htrans : IsTrans Reached below := ⟨fun _ _ _ hab hbc => hbc.trans hab⟩
  have hirrefl : Std.Irrefl below := ⟨fun y => hacyclic y.1 y.2⟩
  have hwf : WellFounded below := Finite.wellFounded_of_trans_of_irrefl below
  have hacc : ∀ y : Reached, Acc (fun y x => R.Calls x y) y.1 := by
    intro y
    induction y using hwf.induction with
    | _ y ih => exact ⟨_, fun z hz => ih ⟨z, y.2.tail hz⟩ (.single hz)⟩
  exact hacc ⟨x, .refl⟩

/-- Some depth is enough exactly when everything called does its own part and nothing calls itself. -/
theorem returns_iff {nodes : List κ} (hnodes : ∀ {n y}, R.ready n y → y ∈ nodes) :
    (∃ n, R.Returns n x) ↔ ∀ y, Relation.ReflTransGen R.Calls x y →
      (∃ n, R.ready n y) ∧ ¬Relation.TransGen R.Calls y y := by
  constructor
  · rintro ⟨n, hx⟩ y hy
    obtain ⟨m, hm⟩ : ∃ m, R.Returns m y := by
      rcases Relation.reflTransGen_iff_eq_or_transGen.mp hy with rfl | hy
      · exact ⟨n, hx⟩
      · obtain ⟨m, -, hm⟩ := returns_of_transGen hy hx
        exact ⟨m, hm⟩
    obtain _ | m := m
    · exact hm.elim
    · exact ⟨⟨m, hm.1⟩, not_cyclic hm⟩
  · intro h
    have hreached : ∀ y, Relation.ReflTransGen R.Calls x y → y ∈ nodes := by
      intro y hy
      obtain ⟨n, hn⟩ := (h y hy).1
      exact hnodes hn
    exact exists_returns_of_acc (acc_of_acyclic hreached fun y hy => (h y hy).2) fun y hy => (h y hy).1

end BoundedRecursion

end Zith.Lib
