import Mathlib.Data.Set.Finite.Basic

/-! Lists in which everything is new and comes after what it needs. What is in such a list needs, directly or not,
    only what is in it, and never itself. A search that goes to the bottom before it finishes anything makes one,
    and there is one of finitely many elements when none needs itself (`exists_of_acyclic`). -/

namespace Zith.Lib
open Relation

inductive PostOrder {α : Type} (needs : α → α → Prop) : List α → Prop
  | nil : PostOrder needs []
  | snoc {l : List α} {a : α} (h : PostOrder needs l) (hnew : a ∉ l) (hneeds : ∀ b, needs a b → b ∈ l) :
      PostOrder needs (l ++ [a])

namespace PostOrder
variable {α : Type} {needs : α → α → Prop} {l : List α} {a b : α}

theorem nodup (h : PostOrder needs l) : l.Nodup := by
  induction h with
  | nil => exact List.nodup_nil
  | snoc _ hnew _ ih =>
    refine ih.append (List.nodup_singleton _) fun x hx hx' => ?_
    rw [List.mem_singleton] at hx'
    exact hnew (hx' ▸ hx)

theorem closed (h : PostOrder needs l) : a ∈ l → needs a b → b ∈ l := by
  induction h with
  | nil => simp
  | snoc _ _ hneeds ih =>
    intro ha hab
    rcases List.mem_append.mp ha with ha | ha
    · exact List.mem_append_left _ (ih ha hab)
    · obtain rfl := List.mem_singleton.mp ha
      exact List.mem_append_left _ (hneeds _ hab)

theorem reaches (h : PostOrder needs l) (ha : a ∈ l) (hab : ReflTransGen needs a b) : b ∈ l := by
  induction hab with
  | refl => exact ha
  | tail _ hbc ih => exact h.closed ih hbc

/-- Nothing needs itself. -/
theorem acyclic (h : PostOrder needs l) : a ∈ l → ¬TransGen needs a a := by
  induction h with
  | nil => simp
  | snoc hl hnew hneeds ih =>
    intro ha hcycle
    rcases List.mem_append.mp ha with ha | ha
    · exact ih ha hcycle
    · obtain rfl := List.mem_singleton.mp ha
      obtain ⟨b, hab, hba⟩ := TransGen.head'_iff.mp hcycle
      exact hnew (hl.reaches (hneeds b hab) hba)

/-- Each of a list of elements can be added when each of them can be added to any longer list. -/
theorem exists_extend_all {bs : List α} (h : ∀ b ∈ bs, ∀ l, PostOrder needs l →
    ∃ l', PostOrder needs l' ∧ l ⊆ l' ∧ b ∈ l') :
    ∀ l, PostOrder needs l → ∃ l', PostOrder needs l' ∧ l ⊆ l' ∧ bs ⊆ l' := by
  induction bs with
  | nil => exact fun l hl => ⟨l, hl, fun _ => id, by simp⟩
  | cons b bs ih =>
    obtain ⟨hb, hbs⟩ := List.forall_mem_cons.mp h
    intro l hl
    obtain ⟨l₁, hl₁, hsub₁, hmem⟩ := hb l hl
    obtain ⟨l₂, hl₂, hsub₂, hall⟩ := ih hbs l₁ hl₁
    exact ⟨l₂, hl₂, fun x hx => hsub₂ (hsub₁ hx), List.cons_subset.mpr ⟨hsub₂ hmem, hall⟩⟩

/-- Finitely many elements, none of which needs itself, can be put in such an order. -/
theorem exists_of_acyclic {nodes : List α} (hclosed : ∀ a b, needs a b → b ∈ nodes)
    (hacyclic : ∀ a, ¬TransGen needs a a) : ∃ order, PostOrder needs order ∧ nodes ⊆ order := by
  have hfinite : Finite { a // a ∈ nodes } := Set.Finite.to_subtype (List.finite_toSet nodes)
  let below : { a // a ∈ nodes } → { a // a ∈ nodes } → Prop := fun b a => TransGen needs a.1 b.1
  have htrans : IsTrans _ below := ⟨fun _ _ _ hab hbc => hbc.trans hab⟩
  have hirrefl : Std.Irrefl below := ⟨fun a => hacyclic a.1⟩
  have hwf : WellFounded below := Finite.wellFounded_of_trans_of_irrefl below
  have hextend : ∀ a : { a // a ∈ nodes }, ∀ l, PostOrder needs l →
      ∃ l', PostOrder needs l' ∧ l ⊆ l' ∧ a.1 ∈ l' := by
    classical
    intro a
    induction a using hwf.induction with
    | _ a ih =>
      intro l hl
      by_cases hmem : a.1 ∈ l
      · exact ⟨l, hl, fun _ => id, hmem⟩
      · -- what it needs comes first
        have hneeded : ∀ b ∈ nodes.filter fun b => needs a.1 b, ∀ l, PostOrder needs l →
            ∃ l', PostOrder needs l' ∧ l ⊆ l' ∧ b ∈ l' := fun b hb => by
          obtain ⟨hnode, hneed⟩ := List.mem_filter.mp hb
          exact ih ⟨b, hnode⟩ (.single (of_decide_eq_true hneed))
        obtain ⟨l', hl', hsub, hneeds⟩ := exists_extend_all hneeded l hl
        have hall : ∀ b, needs a.1 b → b ∈ l' := fun b hb =>
          hneeds (List.mem_filter.mpr ⟨hclosed _ _ hb, decide_eq_true hb⟩)
        by_cases hnew : a.1 ∈ l'
        · exact ⟨l', hl', hsub, hnew⟩
        · exact ⟨l' ++ [a.1], hl'.snoc hnew hall, fun x hx => List.mem_append_left _ (hsub hx), by simp⟩
  obtain ⟨order, horder, -, hall⟩ := exists_extend_all (fun a ha => hextend ⟨a, ha⟩) [] .nil
  exact ⟨order, horder, hall⟩

end PostOrder

end Zith.Lib
