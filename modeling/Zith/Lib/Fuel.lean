import Mathlib.Data.List.Forall2
import Zith.Lib.Succeeds

/-! Programs over a state that grows, and that may fail. A step is taken from a state with an invariant,
    keeps the invariant and leads to a later state; what is known of a result then stays true if later
    states keep it.

        one step ──▶ a sequence of steps (`bind`) ──▶ a step for each element of a list (`mapM`, `forM`) -/

namespace Zith.Lib

/-- Every element of the second of two related lists is related to one of the first. -/
theorem exists_of_forall₂ {α β : Type} {R : α → β → Prop} {l : List α} {l' : List β}
    (h : List.Forall₂ R l l') : ∀ b ∈ l', ∃ a ∈ l, R a b := by
  induction h with
  | nil => nofun
  | cons hab _ ih =>
    rintro b (_ | ⟨_, hb⟩)
    · exact ⟨_, List.mem_cons_self .., hab⟩
    · obtain ⟨a, ha, hR⟩ := ih b hb
      exact ⟨a, List.mem_cons_of_mem _ ha, hR⟩

/-- An invariant of the states, and which states are later than which. -/
structure Growing (σ : Type) where
  inv : σ → Prop
  later : σ → σ → Prop
  refl : ∀ s, later s s
  trans : ∀ {s t u}, later s t → later t u → later s u

namespace Growing
variable {σ α β : Type} {G : Growing σ} {s : σ} {m : StateT σ Option α} {Q : α → σ → Prop}

/-- From `s` a run keeps the invariant, leads to a later state, and has a result that has a property there. -/
def From (G : Growing σ) (s : σ) (m : StateT σ Option α) (Q : α → σ → Prop) : Prop :=
  G.inv s → ∀ a t, m s = some (a, t) → G.inv t ∧ G.later s t ∧ Q a t

theorem From.pure {a : α} (h : Q a s) : G.From s (pure a) Q := by
  intro hs b t hrun
  obtain ⟨rfl, rfl⟩ := Prod.mk.inj (Option.some.inj hrun)
  exact ⟨hs, G.refl s, h⟩

variable {f : α → StateT σ Option β}

theorem bind_eq_some {b : β} {u : σ} (h : (m >>= f) s = some (b, u)) :
    ∃ a t, m s = some (a, t) ∧ f a t = some (b, u) := by
  obtain ⟨⟨a, t⟩, ha, hb⟩ := Option.bind_eq_some_iff.mp h
  exact ⟨a, t, ha, hb⟩

/-- One step after another. -/
theorem From.bind {P : β → σ → Prop} (hm : G.From s m Q)
    (hf : ∀ a t, G.inv t → G.later s t → Q a t → G.From t (f a) P) : G.From s (m >>= f) P := by
  intro hs b u hrun
  obtain ⟨a, t, ha, hb⟩ := bind_eq_some hrun
  obtain ⟨ht, hlater, hQ⟩ := hm hs a t ha
  obtain ⟨hu, hlater', hP⟩ := hf a t ht hlater hQ ht b u hb
  exact ⟨hu, G.trans hlater hlater', hP⟩

theorem From.mono {P : α → σ → Prop} (hm : G.From s m Q) (h : ∀ a t, G.inv t → G.later s t → Q a t → P a t) :
    G.From s m P := by
  intro hs a t hrun
  obtain ⟨ht, hlater, hQ⟩ := hm hs a t hrun
  exact ⟨ht, hlater, h a t ht hlater hQ⟩

/-- The state is looked at. -/
theorem From.get {f : σ → StateT σ Option β} {P : β → σ → Prop} (hf : G.inv s → G.From s (f s) P) :
    G.From s (MonadState.get >>= f) P := fun hs => hf hs hs

theorem From.modify {f : σ → σ} {P : PUnit → σ → Prop} (hinv : G.inv s → G.inv (f s))
    (hlater : G.later s (f s)) (hP : P ⟨⟩ (f s)) : G.From s (modifyGet fun s => (⟨⟩, f s)) P := by
  intro hs a t hrun
  obtain ⟨rfl, rfl⟩ := Prod.mk.inj (Option.some.inj hrun)
  exact ⟨hinv hs, hlater, hP⟩

theorem From.ite {c : Prop} [Decidable c] {m' : StateT σ Option α} (ht : c → G.From s m Q)
    (hf : ¬c → G.From s m' Q) : G.From s (if c then m else m') Q := by
  split
  · exact ht ‹_›
  · exact hf ‹_›

/-- A step for each element; what is known of an element's result is still true at the end. -/
theorem From.mapM {R : α → β → σ → Prop} (hR : ∀ a b t u, G.later t u → R a b t → R a b u) : ∀ {l : List α} {s : σ},
      (∀ a ∈ l, ∀ t, G.inv t → G.later s t → G.From t (f a) (R a)) →
        G.From s (l.mapM f) fun bs t => List.Forall₂ (fun a b => R a b t) l bs := by
  intro l
  induction l with
  | nil =>
    intro s _
    exact From.pure List.Forall₂.nil
  | cons a l ih =>
    intro s h
    obtain ⟨ha, hl⟩ := List.forall_mem_cons.mp h
    rw [List.mapM_cons]
    intro hs
    refine (ha s hs (G.refl s)).bind (fun b t _ hst hb => ?_) hs
    refine (ih fun x hx u hu htu => hl x hx u hu (G.trans hst htu)).bind fun bs u _ htu hbs => ?_
    exact From.pure (List.Forall₂.cons (hR a b t u htu hb) hbs)

/-- A step for each element, without results. -/
theorem From.forM {f : α → StateT σ Option PUnit} : ∀ {l : List α} {s : σ},
    (∀ a ∈ l, ∀ t, G.inv t → G.later s t → G.From t (f a) fun _ _ => True) → G.From s (l.forM f) fun _ _ => True := by
  intro l
  induction l with
  | nil =>
    intro s _
    exact From.pure trivial
  | cons a l ih =>
    intro s h
    obtain ⟨ha, hl⟩ := List.forall_mem_cons.mp h
    intro hs
    refine (ha s hs (G.refl s)).bind (fun _ t _ hst _ => ?_) hs
    exact ih fun x hx u hu htu => hl x hx u hu (G.trans hst htu)

end Growing
end Zith.Lib

/-! Programs over a state that grows, which need fuel. More fuel does not change what a program does once it
    has ended (`Lasting`), so that the parts of a program may each be given the fuel they need.

        one part ends ──▶ a sequence of parts (`bind`) ──▶ a part for each element of a list (`mapM`) -/

namespace Zith.Lib

section
variable {σ α β : Type}

/-- Where the first program ends, the second one does the same. -/
def Below (m m' : StateT σ Option α) : Prop := ∀ ⦃s r⦄, m s = some r → m' s = some r

theorem Below.refl (m : StateT σ Option α) : Below m m := fun _ _ h => h

theorem Below.bind {m m' : StateT σ Option α} {f f' : α → StateT σ Option β} (hm : Below m m')
    (hf : ∀ a, Below (f a) (f' a)) : Below (m >>= f) (m' >>= f') := by
  intro s r h
  obtain ⟨a, t, ha, hb⟩ := Growing.bind_eq_some (m := m) (b := r.1) (u := r.2) h
  exact Option.bind_eq_some_iff.mpr ⟨(a, t), hm ha, hf a hb⟩

/-- The state is looked at. -/
theorem Below.get {f f' : σ → StateT σ Option β} (hf : ∀ s, Below (f s) (f' s)) :
    Below (MonadState.get >>= f) (MonadState.get >>= f') := (Below.refl _).bind hf

theorem Below.mapM {f f' : α → StateT σ Option β} (hf : ∀ a, Below (f a) (f' a)) :
    ∀ l : List α, Below (l.mapM f) (l.mapM f')
  | [] => .refl _
  | a :: l => by
    rw [List.mapM_cons, List.mapM_cons]
    exact (hf a).bind fun b => (mapM hf l).bind fun bs => .refl _

theorem Below.ite {c : Prop} [Decidable c] {m m' k k' : StateT σ Option α} (hm : Below m m') (hk : Below k k') :
    Below (if c then m else k) (if c then m' else k') := by
  split
  · exact hm
  · exact hk

theorem Below.ofOption {o o' : Option α} (h : ∀ a, o = some a → o' = some a) :
    Below (Lib.ofOption o : StateT σ Option α) (Lib.ofOption o') := by
  intro s r hr
  obtain ⟨a, ha, rfl⟩ := Option.map_eq_some_iff.mp hr
  exact Option.map_eq_some_iff.mpr ⟨a, h a ha, rfl⟩

/-- More fuel changes nothing. -/
def Lasting (f : ℕ → StateT σ Option α) : Prop := ∀ n, Below (f n) (f (n + 1))

theorem Lasting.le {f : ℕ → StateT σ Option α} (hf : Lasting f) {m n : ℕ} (hle : m ≤ n) : Below (f m) (f n) := by
  induction hle with
  | refl => exact .refl _
  | step _ ih => exact fun s r h => hf _ (ih h)

theorem Lasting.const (m : StateT σ Option α) : Lasting fun _ => m := fun _ => .refl m

end

namespace Growing
variable {σ α β : Type} {G : Growing σ} {s : σ} {f : ℕ → StateT σ Option α} {Q : α → σ → Prop}

/-- From `s` some fuel is enough, and the run keeps the invariant, leads to a later state, and has a result
    that has a property there. -/
def Ends (G : Growing σ) (s : σ) (f : ℕ → StateT σ Option α) (Q : α → σ → Prop) : Prop :=
  G.inv s → ∃ n a t, f n s = some (a, t) ∧ G.inv t ∧ G.later s t ∧ Q a t

theorem Ends.pure {a : α} (h : Q a s) : G.Ends s (fun _ => Pure.pure a) Q :=
  fun hs => ⟨0, a, s, rfl, hs, G.refl s, h⟩

theorem Ends.bind {g : ℕ → α → StateT σ Option β} {P : β → σ → Prop} (hlast : Lasting f)
    (hlast' : ∀ a, Lasting fun n => g n a) (hf : G.Ends s f Q)
    (hg : ∀ a t, G.inv t → G.later s t → Q a t → G.Ends t (fun n => g n a) P) : G.Ends s (fun n => f n >>= g n) P := by
  intro hs
  obtain ⟨m, a, t, hm, ht, hst, hQ⟩ := hf hs
  obtain ⟨n, b, u, hn, hu, htu, hP⟩ := hg a t ht hst hQ ht
  refine ⟨max m n, b, u, ?_, hu, G.trans hst htu, hP⟩
  exact Option.bind_eq_some_iff.mpr ⟨(a, t), hlast.le (Nat.le_max_left m n) hm, (hlast' a).le (Nat.le_max_right m n) hn⟩

theorem Ends.get {g : ℕ → σ → StateT σ Option β} {P : β → σ → Prop}
    (hg : G.inv s → G.Ends s (fun n => g n s) P) : G.Ends s (fun n => MonadState.get >>= g n) P :=
  fun hs => hg hs hs

/-- A program that needs no fuel. -/
theorem Ends.modifyGet {φ : σ → α × σ} (hinv : G.inv s → G.inv (φ s).2) (hlater : G.inv s → G.later s (φ s).2)
    (hQ : G.inv s → Q (φ s).1 (φ s).2) : G.Ends s (fun _ => MonadStateOf.modifyGet φ) Q :=
  fun hs => ⟨0, (φ s).1, (φ s).2, rfl, hinv hs, hlater hs, hQ hs⟩

theorem Ends.ofOption {o : ℕ → Option α} (h : G.inv s → ∃ n a, o n = some a ∧ Q a s) :
    G.Ends s (fun n => Lib.ofOption (o n)) Q := by
  intro hs
  obtain ⟨n, a, ha, hQ⟩ := h hs
  exact ⟨n, a, s, Option.map_eq_some_iff.mpr ⟨a, ha, rfl⟩, hs, G.refl s, hQ⟩

theorem From.ofOption {o : Option α} (h : ∀ a, o = some a → Q a s) : G.From s (Lib.ofOption o) Q := by
  intro hs a t hrun
  obtain ⟨b, hb, hpair⟩ := Option.map_eq_some_iff.mp hrun
  obtain ⟨rfl, rfl⟩ := Prod.mk.inj hpair
  exact ⟨hs, G.refl s, h b hb⟩

/-- A part for each element; what is known of an element's result is still true at the end. -/
theorem Ends.mapM {g : ℕ → α → StateT σ Option β} {R : β → σ → Prop} (hlast : ∀ a, Lasting fun n => g n a)
    (hR : ∀ b t u, G.later t u → R b t → R b u) : ∀ {l : List α} {s : σ},
      (∀ a ∈ l, ∀ t, G.inv t → G.later s t → G.Ends t (fun n => g n a) R) →
        G.Ends s (fun n => l.mapM (g n)) fun bs t => ∀ b ∈ bs, R b t := by
  intro l
  induction l with
  | nil =>
    intro s _
    exact Ends.pure (by simp)
  | cons a l ih =>
    intro s h
    obtain ⟨ha, hl⟩ := List.forall_mem_cons.mp h
    simp only [List.mapM_cons]
    intro hs
    refine (Ends.bind (hlast a) (fun b n => ?_) (ha s hs (G.refl s)) fun b t _ hst hb => ?_) hs
    · exact (Below.mapM (fun x => hlast x n) l).bind fun bs => .refl _
    refine Ends.bind (fun n => Below.mapM (fun x => hlast x n) l) (fun bs => .const _)
      (ih fun x hx u hu htu => hl x hx u hu (G.trans hst htu)) fun bs u _ htu hbs => ?_
    exact Ends.pure (List.forall_mem_cons.mpr ⟨hR b t u htu hb, hbs⟩)

/-- The first unit of fuel is spent on the call itself. -/
theorem Ends.succ {g : ℕ → StateT σ Option α} (h : ∀ n, g (n + 1) = f n) (hf : G.Ends s f Q) : G.Ends s g Q := by
  intro hs
  obtain ⟨n, a, t, hn, rest⟩ := hf hs
  exact ⟨n + 1, a, t, by rw [h, hn], rest⟩

end Growing
end Zith.Lib
