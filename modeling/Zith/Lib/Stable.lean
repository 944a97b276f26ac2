import Mathlib.Data.List.Basic

/-! Sweeps over a list of places until one changes nothing. At every place the state may change; a measure
    that goes down with each change bounds the number of sweeps, and what every change keeps holds at the
    end, where no place has anything to change. -/

namespace Zith.Lib

section
variable {ι σ : Type} (update : ι → σ → Option σ)

/-- One sweep, and whether anything has changed in it. -/
def sweep (places : List ι) (s : σ × Bool) : σ × Bool :=
  places.foldl (fun s i => match update i s.1 with | some t => (t, true) | none => s) s

/-- `changed = true; while (changed) { changed = false; … }`. -/
def untilStable (places : List ι) : ℕ → σ → Option σ
  | 0, _ => none
  | fuel + 1, s =>
    match sweep update places (s, false) with
    | (t, true) => untilStable places fuel t
    | (t, false) => some t

variable {update}

/-- A sweep that changes something makes the measure smaller. -/
theorem sweep_rule (I : σ → Prop) (measure : σ → ℕ) : ∀ {places : List ι} {s : σ × Bool},
    (∀ i ∈ places, ∀ {s t}, I s → update i s = some t → I t ∧ measure t < measure s) → I s.1 →
      I (sweep update places s).1 ∧ (sweep update places s = s ∧ (∀ i ∈ places, update i s.1 = none) ∨
          (sweep update places s).2 = true ∧ measure (sweep update places s).1 < measure s.1) := by
  intro places
  induction places with
  | nil =>
    intro s _ h
    exact ⟨h, Or.inl ⟨rfl, fun _ hi => absurd hi List.not_mem_nil⟩⟩
  | cons i places ih =>
    intro s hkeep h
    have hrest : ∀ j ∈ places, ∀ {s t}, I s → update j s = some t → I t ∧ measure t < measure s :=
      fun j hj => hkeep j (List.mem_cons_of_mem _ hj)
    cases hupdate : update i s.1 with
    | none =>
      have hsame : sweep update (i :: places) s = sweep update places s := by
        rw [sweep, List.foldl_cons, hupdate, ← sweep]
      obtain ⟨hI, hsweep⟩ := ih (s := s) hrest h
      rw [hsame]
      refine ⟨hI, ?_⟩
      rcases hsweep with ⟨heq, hnone⟩ | hless
      · exact Or.inl ⟨heq, List.forall_mem_cons.mpr ⟨hupdate, hnone⟩⟩
      · exact Or.inr hless
    | some t =>
      have hchanged : sweep update (i :: places) s = sweep update places (t, true) := by
        rw [sweep, List.foldl_cons, hupdate, ← sweep]
      obtain ⟨ht, hless⟩ := hkeep i (List.mem_cons_self ..) h hupdate
      obtain ⟨hI, hsweep⟩ := ih (s := (t, true)) hrest ht
      rw [hchanged]
      refine ⟨hI, Or.inr ?_⟩
      rcases hsweep with ⟨heq, -⟩ | ⟨htrue, hless'⟩
      · rw [heq]
        exact ⟨rfl, hless⟩
      · exact ⟨htrue, Nat.lt_trans hless' hless⟩

/-- The sweeps end, and nothing is left to change. -/
theorem untilStable_rule (I : σ → Prop) (measure : σ → ℕ) {places : List ι}
    (hkeep : ∀ i ∈ places, ∀ {s t}, I s → update i s = some t → I t ∧ measure t < measure s) :
    ∀ {fuel : ℕ} {s : σ}, I s → measure s < fuel →
      ∃ t, untilStable update places fuel s = some t ∧ I t ∧ ∀ i ∈ places, update i t = none := by
  intro fuel
  induction fuel with
  | zero =>
    intro s _ hfuel
    exact absurd hfuel (Nat.not_lt_zero _)
  | succ fuel ih =>
    intro s h hfuel
    rw [untilStable]
    obtain ⟨hI, hsweep⟩ := sweep_rule I measure (s := (s, false)) hkeep h
    rcases hsweep with ⟨heq, hnone⟩ | ⟨htrue, hless⟩
    · rw [heq]
      exact ⟨s, rfl, h, hnone⟩
    · obtain ⟨⟨t, changed⟩, ht⟩ : ∃ r, sweep update places (s, false) = r := ⟨_, rfl⟩
      rw [ht] at hI htrue hless ⊢
      cases htrue
      dsimp only at hless
      exact ih hI (by omega)

/-- More fuel makes no difference. -/
theorem untilStable_mono {places : List ι} : ∀ {fuel fuel' : ℕ} {s t : σ}, fuel ≤ fuel' →
    untilStable update places fuel s = some t → untilStable update places fuel' s = some t := by
  intro fuel
  induction fuel with
  | zero =>
    intro fuel' s t _ h
    cases h
  | succ fuel ih =>
    intro fuel' s t hle h
    obtain ⟨fuel', rfl⟩ : ∃ k, fuel' = k + 1 := ⟨fuel' - 1, by omega⟩
    rw [untilStable] at h ⊢
    obtain ⟨⟨t', changed⟩, ht⟩ : ∃ r, sweep update places (s, false) = r := ⟨_, rfl⟩
    rw [ht] at h ⊢
    cases changed with
    | true => exact ih (Nat.le_of_succ_le_succ hle) h
    | false => exact h

end

end Zith.Lib
