import Mathlib.Logic.Function.Iterate

/-! Runs of a deterministic machine: a total `step` and the states that answer. Two states are the same
    when they answer the same; a relation kept step by step between states without an answer shows it
    (`same_of_lockstep`). -/

namespace Zith.Lib

section
variable {S R : Type} (step : S → S) (answer : S → Option R)

/-- From `s` the machine gets to a state that answers `r`. -/
def Returns (s : S) (r : R) : Prop := ∃ n, answer (step^[n] s) = some r

/-- The same answers, or none. -/
def Same (s t : S) : Prop := ∀ r, Returns step answer s r ↔ Returns step answer t r

/-- A state that answers keeps its answer. -/
def Halting : Prop := ∀ s r, answer s = some r → answer (step s) = some r

variable {step answer}

theorem Same.refl (s : S) : Same step answer s s := fun _ => Iff.rfl

variable {s t : S}

theorem Same.symm (h : Same step answer s t) : Same step answer t s :=
  fun r => (h r).symm

theorem Same.trans {s t u : S} (h₁ : Same step answer s t) (h₂ : Same step answer t u) : Same step answer s u :=
  fun r => (h₁ r).trans (h₂ r)

theorem answer_iterate (hh : Halting step answer) {s : S} {r : R} (h : answer s = some r) :
    ∀ n, answer (step^[n] s) = some r
  | 0 => h
  | n + 1 => by
    rw [Function.iterate_succ_apply']
    exact hh _ _ (answer_iterate hh h n)

theorem returns_step_iff (hh : Halting step answer) {s : S} {r : R} :
    Returns step answer (step s) r ↔ Returns step answer s r := by
  constructor
  · rintro ⟨n, hn⟩
    exact ⟨n + 1, hn⟩
  · rintro ⟨n, hn⟩
    refine ⟨n, ?_⟩
    rw [← Function.iterate_succ_apply, Function.iterate_succ_apply']
    exact hh _ _ hn

theorem Same.step_left (hh : Halting step answer) (s : S) : Same step answer (step s) s :=
  fun _ => returns_step_iff hh

theorem Same.of_steps (hh : Halting step answer) (h : Same step answer (step s) (step t)) : Same step answer s t :=
  (Same.step_left hh s).symm.trans (h.trans (Same.step_left hh t))

theorem Same.iterate (hh : Halting step answer) (s : S) : ∀ n, Same step answer (step^[n] s) s
  | 0 => .refl s
  | n + 1 => by
    rw [Function.iterate_succ_apply']
    exact (Same.step_left hh _).trans (Same.iterate hh s n)

/-- A state with an answer returns that answer only. -/
theorem returns_iff_of_answer (hh : Halting step answer) {s : S} {r : R} (hs : answer s = some r)
    (r' : R) : Returns step answer s r' ↔ r' = r := by
  constructor
  · rintro ⟨n, hn⟩
    rw [answer_iterate hh hs n] at hn
    exact (Option.some.inj hn).symm
  · rintro rfl
    exact ⟨0, hs⟩

theorem Same.of_answer (hh : Halting step answer) {r : R} (hs : answer s = some r) (ht : answer t = some r) :
    Same step answer s t :=
  fun r' => (returns_iff_of_answer hh hs r').trans (returns_iff_of_answer hh ht r').symm

/-- Runs that answer differently are not the same. -/
theorem not_same_of_answers (hh : Halting step answer) {m n : ℕ} {r q : R}
    (hs : answer (step^[m] s) = some r) (ht : answer (step^[n] t) = some q) (hne : r ≠ q) : ¬ Same step answer s t := by
  intro h
  have hret := (Same.iterate hh t n r).mpr ((h r).mp ⟨m, hs⟩)
  exact hne ((returns_iff_of_answer hh ht r).mp hret)

/-- One direction of `same_of_lockstep`. -/
theorem returns_of_lockstep (rel : S → S → Prop)
    (h : ∀ s t, rel s t → Same step answer s t ∨ (answer s = none ∧ rel (step s) (step t))) :
    ∀ {n : ℕ} {s t : S} {r : R}, rel s t → answer (step^[n] s) = some r → Returns step answer t r
  | n, s, t, r, hrel, hn => by
    rcases h s t hrel with hsame | ⟨hnone, hnext⟩
    · exact (hsame r).mp ⟨n, hn⟩
    · cases n with
      | zero => simp [hnone] at hn
      | succ n =>
        obtain ⟨k, hk⟩ := returns_of_lockstep rel h hnext hn
        exact ⟨k + 1, hk⟩

/-- States related by a relation that every pair keeps, or settles, answer the same. -/
theorem same_of_lockstep (rel : S → S → Prop) (h : ∀ s t, rel s t → Same step answer s t ∨
      (answer s = none ∧ answer t = none ∧ rel (step s) (step t))) (hrel : rel s t) : Same step answer s t := by
  intro r
  constructor
  · rintro ⟨n, hn⟩
    refine returns_of_lockstep rel (fun s t hst => ?_) hrel hn
    exact (h s t hst).imp id fun ⟨hs, _, hnext⟩ => ⟨hs, hnext⟩
  · rintro ⟨n, hn⟩
    refine returns_of_lockstep (fun t s => rel s t) (fun t s hst => ?_) hrel hn
    exact (h s t hst).imp Same.symm fun ⟨_, ht, hnext⟩ => ⟨ht, hnext⟩

end

/-! ### Runs of fallible operations -/

section
variable {S O : Type*} (step : S → O → Option S)

/-- Every state of the run satisfies `P`, and no operation of it fails. -/
def Endures (P : S → Prop) : S → List O → Prop
  | s, [] => P s
  | s, o :: os => P s ∧ ∃ t, step s o = some t ∧ Endures P t os

/-- Every operation of the run meets a condition on the state it starts from. -/
def Meets (C : S → O → Prop) : S → List O → Prop
  | _, [] => True
  | s, o :: os => C s o ∧ ∀ t, step s o = some t → Meets C t os

variable {step}

/-- With an invariant that is as strong as `P` where a step lands, the runs that last are those whose
    operations meet the condition. -/
theorem endures_iff_meets {P I : S → Prop} {C : S → O → Prop} (hP : ∀ s, I s → P s)
    (hkeep : ∀ s o, I s → C s o → ∃ t, step s o = some t ∧ I t)
    (hneed : ∀ s o t, I s → step s o = some t → P t → C s o) :
    ∀ {os : List O} {s : S}, I s → (Endures step P s os ↔ Meets step C s os)
  | [], s, hs => by simp [Endures, Meets, hP s hs]
  | o :: os, s, hs => by
    constructor
    · rintro ⟨_, t, ht, hlast⟩
      have hPt : P t := by cases os with
        | nil => exact hlast
        | cons => exact hlast.1
      have hC := hneed s o t hs ht hPt
      obtain ⟨t', ht', hIt⟩ := hkeep s o hs hC
      obtain rfl : t = t' := Option.some.inj (ht.symm.trans ht')
      refine ⟨hC, fun u hu => ?_⟩
      obtain rfl : t = u := Option.some.inj (ht.symm.trans hu)
      exact (endures_iff_meets hP hkeep hneed hIt).mp hlast
    · rintro ⟨hC, hrest⟩
      obtain ⟨t, ht, hIt⟩ := hkeep s o hs hC
      exact ⟨hP s hs, t, ht, (endures_iff_meets hP hkeep hneed hIt).mpr (hrest t ht)⟩

end

end Zith.Lib
