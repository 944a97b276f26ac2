import Mathlib.Control.Monad.Basic
import Mathlib.Order.Nat

/-! A search that enters each node once. To enter a node may change more of the state than its mark.

        search x ──▶ enter x ──▶ search each of next x

    The search ends when its fuel exceeds the number of nodes that are left. What it was started from is done then,
    and so is what the nodes that it has entered lead to (`search_returns`). -/

namespace Zith.Lib
open Relation

/-- What is done to enter a node, `none` once it is done, and where the node leads. -/
structure Marking (ν σ : Type) where
  enter : ν → σ → Option σ
  next : ν → List ν
  left : σ → ℕ
  enter_self : ∀ {x : ν} {s t : σ}, enter x s = some t → enter x t = none
  enter_done : ∀ {x y : ν} {s t : σ}, enter x s = none → enter y s = some t → enter x t = none
  enter_other : ∀ {x y : ν} {s t : σ}, enter y s = some t → enter x t = none → x = y ∨ enter x s = none
  enter_left : ∀ {x : ν} {s t : σ}, enter x s = some t → left t < left s

namespace Marking
variable {ν σ : Type} (M : Marking ν σ)

def search : ℕ → σ → ν → Option σ
  | 0, _, _ => none
  | fuel + 1, s, x =>
    match M.enter x s with
    | none => some s
    | some t => (M.next x).foldlM (search fuel) t

def Done (s : σ) (x : ν) : Prop := M.enter x s = none

def Enters (s t : σ) : Prop := ∃ x, M.enter x s = some t

/-- From `s`, a search from each of `xs` leads to `t`. -/
structure Searched (s : σ) (xs : List ν) (t : σ) : Prop where
  later : ReflTransGen M.Enters s t
  done : ∀ x ∈ xs, M.Done t x
  closed : ∀ x, M.Done t x → M.Done s x ∨ ∀ y ∈ M.next x, M.Done t y

variable {M} {s t u : σ} {x : ν} {xs ys : List ν}

theorem Done.later (h : M.Done s x) (hlater : ReflTransGen M.Enters s t) : M.Done t x := by
  induction hlater with
  | refl => exact h
  | tail _ hstep ih =>
    obtain ⟨y, hy⟩ := hstep
    exact M.enter_done ih hy

theorem left_le_of_later (hlater : ReflTransGen M.Enters s t) : M.left t ≤ M.left s := by
  induction hlater with
  | refl => exact le_rfl
  | tail _ hstep ih =>
    obtain ⟨y, hy⟩ := hstep
    exact (M.enter_left hy).le.trans ih

theorem Searched.nil (s : σ) : M.Searched s [] s := ⟨.refl, by simp, fun _ hx => Or.inl hx⟩

theorem Searched.of_done (h : M.Done s x) : M.Searched s [x] s := ⟨.refl, by simpa using h, fun _ hx => Or.inl hx⟩

/-- One search after another. -/
theorem Searched.append (h : M.Searched s xs t) (h' : M.Searched t ys u) : M.Searched s (xs ++ ys) u := by
  refine ⟨h.later.trans h'.later, fun x hx => ?_, fun x hx => ?_⟩
  · rcases List.mem_append.mp hx with hx | hx
    · exact (h.done x hx).later h'.later
    · exact h'.done x hx
  · rcases h'.closed x hx with ht | hnext
    · exact (h.closed x ht).imp_right fun hnext y hy => (hnext y hy).later h'.later
    · exact Or.inr hnext

/-- A node, and then what it leads to. -/
theorem Searched.enter (henter : M.enter x s = some t) (h : M.Searched t (M.next x) u) : M.Searched s [x] u := by
  refine ⟨.head ⟨x, henter⟩ h.later, fun y hy => ?_, fun y hy => ?_⟩
  · rw [List.mem_singleton.mp hy]
    exact Done.later (M.enter_self henter) h.later
  · rcases h.closed y hy with ht | hnext
    · rcases M.enter_other henter ht with rfl | hs
      · exact Or.inr h.done
      · exact Or.inl hs
    · exact Or.inr hnext

/-- Searches one after the other, when a single one returns from every state with no more nodes left. -/
theorem foldlM_search {n : ℕ} (hsearch : ∀ s, M.left s ≤ n → ∀ x,
      ∃ t, M.Searched s [x] t ∧ ∀ fuel, M.left s < fuel → M.search fuel s x = some t) :
    ∀ (xs : List ν) (s : σ), M.left s ≤ n →
      ∃ t, M.Searched s xs t ∧ ∀ fuel, M.left s < fuel → xs.foldlM (M.search fuel) s = some t := by
  intro xs
  induction xs with
  | nil => exact fun s _ => ⟨s, .nil s, fun _ _ => rfl⟩
  | cons x xs ih =>
    intro s hs
    obtain ⟨t, hst, ht⟩ := hsearch s hs x
    have hle : M.left t ≤ M.left s := left_le_of_later hst.later
    obtain ⟨u, htu, hu⟩ := ih t (hle.trans hs)
    refine ⟨u, hst.append htu, fun fuel hfuel => ?_⟩
    rw [List.foldlM_cons, ht fuel hfuel]
    exact hu fuel (hle.trans_lt hfuel)

theorem search_returns (s : σ) (x : ν) :
    ∃ t, M.Searched s [x] t ∧ ∀ fuel, M.left s < fuel → M.search fuel s x = some t := by
  induction hn : M.left s using Nat.strong_induction_on generalizing s x with
  | _ n ih =>
    subst hn
    cases henter : M.enter x s with
    | none =>
      refine ⟨s, .of_done henter, fun fuel hfuel => ?_⟩
      obtain ⟨fuel, rfl⟩ := Nat.exists_eq_add_one_of_ne_zero (Nat.ne_zero_of_lt hfuel)
      rw [search, henter]
    | some s' =>
      have hlt := M.enter_left henter
      obtain ⟨t, ht, hrun⟩ := foldlM_search (n := M.left s')
        (fun s hs x => ih (M.left s) (hs.trans_lt hlt) s x rfl) (M.next x) s' le_rfl
      refine ⟨t, .enter henter ht, fun fuel hfuel => ?_⟩
      obtain ⟨fuel, rfl⟩ := Nat.exists_eq_add_one_of_ne_zero (Nat.ne_zero_of_lt hfuel)
      rw [search, henter]
      exact hrun fuel (by omega)

theorem searchAll_returns (s : σ) (xs : List ν) :
    ∃ t, M.Searched s xs t ∧ ∀ fuel, M.left s < fuel → xs.foldlM (M.search fuel) s = some t :=
  foldlM_search (fun s _ x => search_returns s x) xs s le_rfl

/-- What every step keeps, a search keeps. -/
theorem Searched.induct {P : σ → Prop} (hstep : ∀ {x : ν} {s t : σ}, M.enter x s = some t → P s → P t)
    (h : M.Searched s xs t) (hs : P s) : P t := by
  obtain ⟨hlater, -, -⟩ := h
  induction hlater with
  | refl => exact hs
  | tail _ hlast ih =>
    obtain ⟨x, hx⟩ := hlast
    exact hstep hx ih

end Marking
end Zith.Lib
