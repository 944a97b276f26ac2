import Zith.Lib.Succeeds

/-! Programs over a state that may fail, and what a run of them can do to the state: a rule for each way to
    put programs together says that all the run does is take steps. What every step keeps, the program
    keeps. -/

namespace Zith.Lib

section
variable {σ α β : Type} {step : σ → σ → Prop}

/-- A run of the program takes steps, if it ends. -/
structure Moves (step : σ → σ → Prop) (m : StateT σ Option α) : Prop where
  run : ∀ s a t, m s = some (a, t) → Relation.ReflTransGen step s t

variable {f : α → StateT σ Option β} {m : StateT σ Option α} {s t : σ}

/-- A program that has run, in two parts. -/
theorem run_bind {s u : σ} {b : β} (h : (m >>= f) s = some (b, u)) :
    ∃ a t, m s = some (a, t) ∧ f a t = some (b, u) := by
  obtain ⟨⟨a, t⟩, hm, hf⟩ := Option.bind_eq_some_iff.mp (show (m s).bind (fun p => f p.1 p.2) = _ from h)
  exact ⟨a, t, hm, hf⟩

theorem run_bind_of_eq {a : α} (h : m s = some (a, t)) : (m >>= f) s = f a t := by
  change (m s).bind (fun p => f p.1 p.2) = f a t
  rw [h]
  rfl

theorem run_ofOption {o : Option α} {a : α} (h : (ofOption o : StateT σ Option α) s = some (a, t)) :
    o = some a ∧ t = s := by
  obtain ⟨b, hb, heq⟩ := Option.map_eq_some_iff.mp (show o.map (fun a => (a, s)) = _ from h)
  cases heq
  exact ⟨hb, rfl⟩

theorem run_modify {f : σ → σ} {a : PUnit} (h : (modify f : StateT σ Option PUnit) s = some (a, t)) : t = f s := by
  cases h
  rfl

theorem run_get {s t a : σ} (h : (get : StateT σ Option σ) s = some (a, t)) : a = s ∧ t = s := by
  cases h
  exact ⟨rfl, rfl⟩

theorem run_pure {a b : α} (h : (pure a : StateT σ Option α) s = some (b, t)) : b = a ∧ t = s := by
  cases h
  exact ⟨rfl, rfl⟩

theorem Moves.pure {a : α} : Moves step (pure a : StateT σ Option α) := by
  refine ⟨fun s b t h => ?_⟩
  cases h
  exact .refl

theorem Moves.bind (h : Moves step m) (hf : ∀ a, Moves step (f a)) : Moves step (m >>= f) := by
  refine ⟨fun s b u hrun => ?_⟩
  obtain ⟨a, t, hm, hfa⟩ := run_bind hrun
  exact (h.run s a t hm).trans ((hf a).run t b u hfa)

/-- Behind a program that only reads. -/
theorem Moves.read (h : ∀ s a t, m s = some (a, t) → t = s) (hf : ∀ a, Moves step (f a)) : Moves step (m >>= f) := by
  refine .bind ⟨fun s a t hm => ?_⟩ hf
  obtain rfl := h s a t hm
  exact .refl

theorem Moves.get {f : σ → StateT σ Option β} (hf : ∀ s, Moves step (f s)) : Moves step (get >>= f) := by
  refine .read ?_ hf
  intro s a t h
  cases h
  rfl

/-- A program that reads the state and writes it back. -/
theorem Moves.update {f : σ → StateT σ Option β}
    (hf : ∀ s b t, f s s = some (b, t) → Relation.ReflTransGen step s t) : Moves step (MonadState.get >>= f) := by
  refine ⟨fun s b t h => ?_⟩
  exact hf s b t h

theorem Moves.ofOption {o : Option α} (hf : ∀ a, Moves step (f a)) : Moves step (ofOption o >>= f) :=
  .read (fun _ _ _ h => (run_ofOption h).2) hf

theorem Moves.modify {f : σ → σ} (h : ∀ s, step s (f s)) : Moves step (modify f : StateT σ Option PUnit) := by
  refine ⟨fun s a t hrun => ?_⟩
  cases hrun
  exact .single (h s)

theorem Moves.ite {c : Prop} [Decidable c] {m m' : StateT σ Option α} (h : Moves step m) (h' : Moves step m') :
    Moves step (if c then m else m') := by
  split
  · exact h
  · exact h'

theorem Moves.mono {step' : σ → σ → Prop} {m : StateT σ Option α} (h : Moves step m)
    (hstep : ∀ s t, step s t → step' s t) : Moves step' m :=
  ⟨fun s a t hrun => Relation.ReflTransGen.mono hstep _ _ (h.run s a t hrun)⟩

/-- A run keeps what each step keeps. -/
theorem Moves.keeps (h : Moves step m) {I : σ → Prop} (hstep : ∀ s t, step s t → I s → I t) {a : α}
    (hrun : m s = some (a, t)) (hs : I s) : I t := by
  have hsteps := h.run s a t hrun
  clear hrun
  induction hsteps with
  | refl => exact hs
  | tail _ hlast ih => exact hstep _ _ hlast ih

end

end Zith.Lib
