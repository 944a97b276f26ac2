import Mathlib.Data.List.Forall2

/-! Nodes that have a head and parts, which are nodes again. Two nodes are alike to a depth if they are the
    same, or have the same head and, place by place, parts that are alike to a depth one less. A node
    without a head is like itself only. -/

namespace Zith.Lib

structure PartGraph (κ β : Type) where
  head : κ → Option β
  parts : κ → List κ

namespace PartGraph

variable {κ β γ : Type} {G : PartGraph κ β} {H : PartGraph κ γ}

def Alike (G : PartGraph κ β) : Nat → κ → κ → Prop
  | 0, _, _ => False
  | n + 1, x, y => x = y ∨
      (∃ h, G.head x = some h ∧ G.head y = some h) ∧ List.Forall₂ (Alike G n) (G.parts x) (G.parts y)

theorem Alike.symm : ∀ {n : Nat} {x y : κ}, G.Alike n x y → G.Alike n y x
  | _ + 1, _, _, .inl h => .inl h.symm
  | _ + 1, _, _, .inr ⟨⟨h, hx, hy⟩, hparts⟩ =>
    .inr ⟨⟨h, hy, hx⟩, (hparts.imp fun _ _ => Alike.symm).flip⟩

theorem forall₂_congr {α : Type} {R R' : α → α → Prop} : ∀ {xs ys : List α},
    (∀ x ∈ xs, ∀ y ∈ ys, (R x y ↔ R' x y)) → (List.Forall₂ R xs ys ↔ List.Forall₂ R' xs ys)
  | [], [], _ => by simp
  | [], _ :: _, _ => by simp
  | _ :: _, [], _ => by simp
  | x :: xs, y :: ys, h => by
    rw [List.forall₂_cons, List.forall₂_cons, h x (by simp) y (by simp),
      forall₂_congr fun x' hx y' hy => h x' (by simp [hx]) y' (by simp [hy])]

theorem forall₂_trans {R : κ → κ → Prop} (hR : ∀ x y z, R x y → R y z → R x z) :
    ∀ {xs ys zs : List κ}, List.Forall₂ R xs ys → List.Forall₂ R ys zs → List.Forall₂ R xs zs
  | [], _, _, .nil, .nil => .nil
  | _ :: _, _, _, .cons h hs, .cons h' hs' => .cons (hR _ _ _ h h') (forall₂_trans hR hs hs')

theorem Alike.trans : ∀ {n : Nat} {x y z : κ}, G.Alike n x y → G.Alike n y z → G.Alike n x z
  | _ + 1, _, _, _, .inl rfl, h' => h'
  | _ + 1, _, _, _, h, .inl rfl => h
  | _ + 1, _, _, _, .inr ⟨⟨h, hx, hy⟩, hp⟩, .inr ⟨⟨h', hy', hz⟩, hp'⟩ => by
    obtain rfl := Option.some.inj (hy.symm.trans hy')
    exact .inr ⟨⟨h, hx, hz⟩, forall₂_trans (R := G.Alike _) (fun _ _ _ => Alike.trans) hp hp'⟩

theorem Alike.succ : ∀ {n : Nat} {x y : κ}, G.Alike n x y → G.Alike (n + 1) x y
  | _ + 1, _, _, .inl h => .inl h
  | _ + 1, _, _, .inr ⟨hhead, hp⟩ => .inr ⟨hhead, hp.imp fun _ _ => Alike.succ⟩

theorem Alike.mono {n m : Nat} {x y : κ} (h : G.Alike n x y) (hnm : n ≤ m) : G.Alike m x y := by
  induction hnm with
  | refl => exact h
  | step _ ih => exact ih.succ

/-- Parts that are alike each to some depth are so to one depth. -/
theorem forall₂_alike : ∀ {xs ys : List κ}, List.Forall₂ (fun x y => ∃ n, G.Alike n x y) xs ys →
    ∃ n, List.Forall₂ (G.Alike n) xs ys
  | [], _, .nil => ⟨0, .nil⟩
  | _ :: _, _, .cons ⟨n, h⟩ hs => by
    obtain ⟨m, hm⟩ := forall₂_alike hs
    exact ⟨max n m, .cons (h.mono (Nat.le_max_left n m)) (hm.imp fun _ _ h => h.mono (Nat.le_max_right n m))⟩

/-- A graph that tells less of its nodes finds the same nodes to be alike. -/
theorem Alike.coarsen (hhead : ∀ x y h, H.head x = some h → H.head y = some h →
      ∃ g, G.head x = some g ∧ G.head y = some g)
    (hparts : ∀ x y h (R : κ → κ → Prop), H.head x = some h → H.head y = some h →
      List.Forall₂ R (H.parts x) (H.parts y) → List.Forall₂ R (G.parts x) (G.parts y)) :
    ∀ {n : Nat} {x y : κ}, H.Alike n x y → G.Alike n x y
  | _ + 1, _, _, .inl h => .inl h
  | _ + 1, x, y, .inr ⟨⟨h, hx, hy⟩, hp⟩ =>
    .inr ⟨hhead x y h hx hy, (hparts x y h _ hx hy hp).imp fun _ _ => Alike.coarsen hhead hparts⟩

end PartGraph

end Zith.Lib
