import Mathlib.Data.List.Forall2
import Zith.Lib.Succeeds

/-! Programs over a state that grows, with results that the state at the end of a longer run tells: an index
    that is handed out means the same from then on, so it is best named by what it is in the last state.

        one step ──▶ a sequence of steps (`bind`) ──▶ a step for each element of a list (`mapM`, `forM`) -/

namespace Zith.Lib

/-- How a state may grow, which states a last state can still come from, and an invariant. -/
structure Foretold (σ : Type) where
  grows : σ → σ → Prop
  below : σ → Prop
  inv : σ → Prop
  refl : ∀ s, grows s s
  trans : ∀ {s t u}, grows s t → grows t u → grows s u
  back : ∀ {s t}, grows s t → below t → below s

namespace Foretold
variable {σ α β : Type} {F G : Foretold σ} {m : StateT σ Option α} {Q R : α → Prop}

/-- A run lets the state grow; below the last state it keeps the invariant, and its result is as told. -/
def Makes (F : Foretold σ) (m : StateT σ Option α) (R : α → Prop) : Prop :=
  ∀ s a t, m s = some (a, t) → F.grows s t ∧ (F.below t → F.inv s → F.inv t ∧ R a)

theorem Makes.pure {a : α} (h : R a) : F.Makes (pure a) R := by
  intro s b t hrun
  obtain ⟨rfl, rfl⟩ := Prod.mk.inj (Option.some.inj hrun)
  exact ⟨F.refl s, fun _ hs => ⟨hs, h⟩⟩

variable {f : α → StateT σ Option β}

/-- One step after another: what is told of the first result may be used for the second. -/
theorem Makes.bind {P : β → Prop} (hm : F.Makes m Q) (hf : ∀ a, F.Makes (f a) fun b => Q a → P b) :
    F.Makes (m >>= f) P := by
  intro s b u hrun
  obtain ⟨⟨a, t⟩, ha, hb⟩ := Option.bind_eq_some_iff.mp hrun
  obtain ⟨hst, hQ⟩ := hm s a t ha
  obtain ⟨htu, hP⟩ := hf a t b u hb
  refine ⟨F.trans hst htu, fun hu hs => ?_⟩
  obtain ⟨ht, hQa⟩ := hQ (F.back htu hu) hs
  obtain ⟨hinv, hPb⟩ := hP hu ht
  exact ⟨hinv, hPb hQa⟩

theorem Makes.mono (hm : F.Makes m Q) (h : ∀ a, Q a → R a) : F.Makes m R := by
  intro s a t hrun
  obtain ⟨hst, hQ⟩ := hm s a t hrun
  exact ⟨hst, fun ht hs => ⟨(hQ ht hs).1, h a (hQ ht hs).2⟩⟩

theorem Makes.and (hQ : F.Makes m Q) (hR : F.Makes m R) : F.Makes m fun a => Q a ∧ R a := by
  intro s a t hrun
  refine ⟨(hQ s a t hrun).1, fun ht hs => ?_⟩
  obtain ⟨hinv, hQa⟩ := (hQ s a t hrun).2 ht hs
  exact ⟨hinv, hQa, ((hR s a t hrun).2 ht hs).2⟩

theorem Makes.ite {c : Prop} [Decidable c] {m' : StateT σ Option α} (ht : c → F.Makes m R)
    (hf : ¬c → F.Makes m' R) : F.Makes (if c then m else m') R := by
  split
  · exact ht ‹_›
  · exact hf ‹_›

/-- A run that may grow in more ways, or is told by fewer states. -/
theorem Makes.lift (hm : F.Makes m R) (hgrows : ∀ s t, F.grows s t → G.grows s t)
    (hbelow : ∀ s, G.below s → F.below s) (hinv : F.inv = G.inv) : G.Makes m R := by
  intro s a t hrun
  obtain ⟨hst, hR⟩ := hm s a t hrun
  refine ⟨hgrows s t hst, fun ht hs => ?_⟩
  rw [← hinv] at hs ⊢
  exact hR (hbelow t ht) hs

theorem Makes.ofOption {o : Option α} (h : ∀ a, o = some a → R a) : F.Makes (Lib.ofOption o) R := by
  intro s a t hrun
  obtain ⟨b, hb, hpair⟩ := Option.map_eq_some_iff.mp hrun
  obtain ⟨rfl, rfl⟩ := Prod.mk.inj hpair
  exact ⟨F.refl s, fun _ hs => ⟨hs, h b hb⟩⟩

theorem Makes.mapM {R : α → β → Prop} : ∀ {l : List α},
    (∀ a ∈ l, F.Makes (f a) (R a)) → F.Makes (l.mapM f) (List.Forall₂ R l) := by
  intro l
  induction l with
  | nil => exact fun _ => Makes.pure List.Forall₂.nil
  | cons a l ih =>
    intro h
    obtain ⟨ha, hl⟩ := List.forall_mem_cons.mp h
    rw [List.mapM_cons]
    refine ha.bind fun b => (ih hl).bind fun bs => Makes.pure ?_
    exact fun hbs hb => List.Forall₂.cons hb hbs

theorem Makes.any (hm : F.Makes m Q) : F.Makes m fun _ => True := hm.mono fun _ _ => trivial

/-- Results that do not matter. -/
theorem Makes.mapM_any {l : List α} (h : ∀ a ∈ l, F.Makes (f a) fun _ => True) :
    F.Makes (l.mapM f) fun _ => True := (Makes.mapM h).any

theorem Makes.mapM_length {l : List α} (h : ∀ a ∈ l, F.Makes (f a) fun _ => True) :
    F.Makes (l.mapM f) fun bs => bs.length = l.length := (Makes.mapM h).mono fun _ hbs => hbs.length_eq.symm

theorem Makes.forM {f : α → StateT σ Option PUnit} : ∀ {l : List α},
    (∀ a ∈ l, F.Makes (f a) fun _ => True) → F.Makes (l.forM f) fun _ => True := by
  intro l
  induction l with
  | nil => exact fun _ => Makes.pure trivial
  | cons a l ih =>
    intro h
    obtain ⟨ha, hl⟩ := List.forall_mem_cons.mp h
    exact ha.bind fun _ => (ih hl).mono fun _ _ _ => trivial

end Foretold

/-- What holds of the elements done so far, their results and the state, holds at the end of all of them. -/
theorem invariant_mapM_from {σ α β : Type} {f : α → StateT σ Option β} {P : List α → List β → σ → Prop} :
    ∀ {l done : List α} {bs results : List β} {s t : σ}, P done bs s → l.mapM f s = some (results, t) →
      (∀ done' a rest bs s b t, done ++ l = done' ++ a :: rest → P done' bs s → f a s = some (b, t) →
        P (done' ++ [a]) (bs ++ [b]) t) → P (done ++ l) (bs ++ results) t := by
  intro l
  induction l with
  | nil =>
    intro done bs results s t hP hrun _
    obtain ⟨rfl, rfl⟩ := Prod.mk.inj (Option.some.inj hrun)
    simpa using hP
  | cons a l ih =>
    intro done bs results s t hP hrun hstep
    rw [List.mapM_cons] at hrun
    obtain ⟨⟨b, s₁⟩, ha, hrun⟩ := Option.bind_eq_some_iff.mp hrun
    obtain ⟨⟨rest, s₂⟩, hl, hrun⟩ := Option.bind_eq_some_iff.mp hrun
    obtain ⟨rfl, rfl⟩ := Prod.mk.inj (Option.some.inj hrun)
    have hP' := ih (hstep done a l bs s b s₁ rfl hP ha) hl (by simpa using hstep)
    simpa using hP'

theorem invariant_mapM {σ α β : Type} {f : α → StateT σ Option β} (P : List α → List β → σ → Prop) {l : List α}
    {results : List β} {s t : σ} (h : P [] [] s) (hrun : l.mapM f s = some (results, t))
    (hstep : ∀ done a rest bs s b t, l = done ++ a :: rest → P done bs s → f a s = some (b, t) →
      P (done ++ [a]) (bs ++ [b]) t) : P l results t :=
  invariant_mapM_from h hrun hstep

/-- Results that are told by a function of the elements are its map. -/
theorem eq_map_of_forall₂ {α β : Type} {f : α → β} {l : List α} {l' : List β}
    (h : List.Forall₂ (fun a b => b = f a) l l') : l' = l.map f := by
  induction h with
  | nil => rfl
  | cons hab _ ih => rw [hab, ih, List.map_cons]

end Zith.Lib
