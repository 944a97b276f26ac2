import Mathlib.Logic.Basic

/-! Structured commands that act, choose, repeat and leave early, and a Hoare logic for what a run of one
    does to a monitor. A run is the list of its actions; the monitor steps on each action, assumes one thing
    of it and asserts another.

        loop l c           repeats `c` until it breaks out of `l`
        resume l c         `c`, and a `continue` of `l` in it ends it
        cleanup a b        `b` after `a`, however `a` ends
        mark c e           `c`, and the action `e` when it has ended normally; the value is that of `c`
-/

namespace Zith.Lib

inductive Exit
  | brk (label : String)
  | cont (label : String)
  | ret
deriving DecidableEq, Repr

/-- How a command ends; a normal end says whether there is a value. -/
inductive Outcome
  | normal (value : Bool)
  | exit (e : Exit)
deriving DecidableEq, Repr

inductive Command (ε : Type)
  | done (value : Bool)
  | act (action : ε)
  | seq (first second : Command ε)
  | either (left right : Command ε)
  | exit (e : Exit)
  | loop (label : String) (body : Command ε)
  | resume (label : String) (body : Command ε)
  | cleanup (body last : Command ε)
  | mark (body : Command ε) (action : ε)

/-- The loop ends on this exit from its body. -/
def Exit.breaks (label : String) (e : Exit) : Prop := e = .brk "" ∨ e = .brk label

/-- The exit goes on with the next iteration. -/
def Exit.continues (label : String) (e : Exit) : Prop := e = .cont "" ∨ e = .cont label

/-- `Exec c t o`: a run of `c` acts `t` and ends in `o`. -/
inductive Exec {ε : Type} : Command ε → List ε → Outcome → Prop
  | done {value} : Exec (.done value) [] (.normal value)
  | act {action} : Exec (.act action) [action] (.normal false)
  | seq {a b t u value o} : Exec a t (.normal value) → Exec b u o → Exec (.seq a b) (t ++ u) o
  | seqExit {a b t e} : Exec a t (.exit e) → Exec (.seq a b) t (.exit e)
  | left {a b t o} : Exec a t o → Exec (.either a b) t o
  | right {a b t o} : Exec b t o → Exec (.either a b) t o
  | exit {e} : Exec (.exit e) [] (.exit e)
  | loopAgain {label c t u value o} : Exec c t (.normal value) → Exec (.loop label c) u o →
      Exec (.loop label c) (t ++ u) o
  | loopBreak {label c t e} : Exec c t (.exit e) → e.breaks label →
      Exec (.loop label c) t (.normal false)
  | loopExit {label c t e} : Exec c t (.exit e) → ¬ e.breaks label →
      Exec (.loop label c) t (.exit e)
  | resume {label c t o} : Exec c t o → (∀ e, o = .exit e → ¬ e.continues label) →
      Exec (.resume label c) t o
  | resumeContinue {label c t e} : Exec c t (.exit e) → e.continues label →
      Exec (.resume label c) t (.normal false)
  | cleanup {a b t u o value} : Exec a t o → Exec b u (.normal value) → Exec (.cleanup a b) (t ++ u) o
  | cleanupExit {a b t u o e} : Exec a t o → Exec b u (.exit e) →
      Exec (.cleanup a b) (t ++ u) (.exit e)
  | mark {c action t value} : Exec c t (.normal value) →
      Exec (.mark c action) (t ++ [action]) (.normal value)
  | markExit {c action t e} : Exec c t (.exit e) → Exec (.mark c action) t (.exit e)

/-! ### Monitors -/

structure Monitor (σ ε : Type) where
  step : σ → ε → σ
  assume : σ → ε → Prop
  assert : σ → ε → Prop

section
variable {σ ε : Type}

def Monitor.run (m : Monitor σ ε) (s : σ) (t : List ε) : σ := t.foldl m.step s

/-- What is assumed of every action of a run, in the state it is met in. -/
def Monitor.Assumes (m : Monitor σ ε) : σ → List ε → Prop
  | _, [] => True
  | s, e :: t => m.assume s e ∧ Monitor.Assumes m (m.step s e) t

def Monitor.Asserts (m : Monitor σ ε) : σ → List ε → Prop
  | _, [] => True
  | s, e :: t => m.assert s e ∧ Monitor.Asserts m (m.step s e) t

variable {m : Monitor σ ε}

instance Monitor.assumesDecidable [∀ s e, Decidable (m.assume s e)] :
    ∀ (s : σ) (t : List ε), Decidable (m.Assumes s t)
  | _, [] => inferInstanceAs (Decidable True)
  | s, e :: t =>
    have := Monitor.assumesDecidable (m.step s e) t
    inferInstanceAs (Decidable (m.assume s e ∧ m.Assumes (m.step s e) t))

@[simp] theorem Monitor.run_nil (s : σ) : m.run s [] = s := rfl

@[simp] theorem Monitor.run_append (s : σ) (t u : List ε) : m.run s (t ++ u) = m.run (m.run s t) u := List.foldl_append

theorem Monitor.assumes_append : ∀ (s : σ) (t u : List ε),
    m.Assumes s (t ++ u) ↔ m.Assumes s t ∧ m.Assumes (m.run s t) u
  | _, [], _ => by simp [Monitor.Assumes]
  | s, e :: t, u => by
    simp only [List.cons_append, Monitor.Assumes, assumes_append (m.step s e) t u, and_assoc]
    rfl

theorem Monitor.asserts_append : ∀ (s : σ) (t u : List ε),
    m.Asserts s (t ++ u) ↔ m.Asserts s t ∧ m.Asserts (m.run s t) u
  | _, [], _ => by simp [Monitor.Asserts]
  | s, e :: t, u => by
    simp only [List.cons_append, Monitor.Asserts, asserts_append (m.step s e) t u, and_assoc]
    rfl

/-! ### Triples -/

variable (m) in
/-- A run from `P` whose actions are as assumed acts as asserted, and ends in `Q`. -/
def Triple (P : σ → Prop) (c : Command ε) (Q : Outcome → σ → Prop) : Prop :=
  ∀ s t o, P s → Exec c t o → m.Assumes s t → m.Asserts s t ∧ Q o (m.run s t)

variable {P P' R : σ → Prop} {Q Q' S : Outcome → σ → Prop} {a b c : Command ε} {label : String}

theorem Triple.conseq (h : Triple m P c Q) (hP : ∀ s, P' s → P s) (hQ : ∀ o s, Q o s → Q' o s) : Triple m P' c Q' := by
  intro s t o hs hexec hassume
  obtain ⟨hassert, hq⟩ := h s t o (hP s hs) hexec hassume
  exact ⟨hassert, hQ o _ hq⟩

theorem Triple.done {value : Bool} (h : ∀ s, P s → Q (.normal value) s) : Triple m P (.done value) Q := by
  intro s t o hs hexec _
  cases hexec
  exact ⟨trivial, h s hs⟩

theorem Triple.act {action : ε} (hassert : ∀ s, P s → m.assume s action → m.assert s action)
    (h : ∀ s, P s → m.assume s action → Q (.normal false) (m.step s action)) : Triple m P (.act action) Q := by
  intro s t o hs hexec hassume
  cases hexec
  exact ⟨⟨hassert s hs hassume.1, trivial⟩, h s hs hassume.1⟩

theorem Triple.exit {e : Exit} (h : ∀ s, P s → Q (.exit e) s) : Triple m P (.exit e) Q := by
  intro s t o hs hexec _
  cases hexec
  exact ⟨trivial, h s hs⟩

theorem Triple.seq (ha : Triple m P a S) (hb : Triple m R b Q)
    (hnormal : ∀ value s, S (.normal value) s → R s) (hexit : ∀ e s, S (.exit e) s → Q (.exit e) s) :
    Triple m P (.seq a b) Q := by
  intro s t o hs hexec hassume
  cases hexec with
  | seq hexa hexb =>
    obtain ⟨hta, htb⟩ := (Monitor.assumes_append _ _ _).mp hassume
    obtain ⟨hassa, hqa⟩ := ha _ _ _ hs hexa hta
    obtain ⟨hassb, hqb⟩ := hb _ _ _ (hnormal _ _ hqa) hexb htb
    exact ⟨(Monitor.asserts_append _ _ _).mpr ⟨hassa, hassb⟩, by rwa [Monitor.run_append]⟩
  | seqExit hexa =>
    obtain ⟨hassa, hqa⟩ := ha _ _ _ hs hexa hassume
    exact ⟨hassa, hexit _ _ hqa⟩

theorem Triple.either (ha : Triple m P a Q) (hb : Triple m P b Q) : Triple m P (.either a b) Q := by
  intro s t o hs hexec hassume
  cases hexec with
  | left hexa => exact ha _ _ _ hs hexa hassume
  | right hexb => exact hb _ _ _ hs hexb hassume

theorem Triple.resume (h : Triple m P c S) (hkeep : ∀ o s, (∀ e, o = .exit e → ¬ e.continues label) → S o s → Q o s)
    (hcont : ∀ e s, e.continues label → S (.exit e) s → Q (.normal false) s) : Triple m P (.resume label c) Q := by
  intro s t o hs hexec hassume
  cases hexec with
  | resume hexec hnot =>
    obtain ⟨hassert, hq⟩ := h _ _ _ hs hexec hassume
    exact ⟨hassert, hkeep _ _ hnot hq⟩
  | resumeContinue hexec he =>
    obtain ⟨hassert, hq⟩ := h _ _ _ hs hexec hassume
    exact ⟨hassert, hcont _ _ he hq⟩

theorem Triple.cleanup (ha : Triple m P a S) (hb : ∀ o, Triple m (S o) b fun o' s =>
      (∀ value, o' = .normal value → Q o s) ∧ ∀ e, o' = .exit e → Q (.exit e) s) : Triple m P (.cleanup a b) Q := by
  intro s t o hs hexec hassume
  cases hexec with
  | cleanup hexa hexb =>
    obtain ⟨hta, htb⟩ := (Monitor.assumes_append _ _ _).mp hassume
    obtain ⟨hassa, hqa⟩ := ha _ _ _ hs hexa hta
    obtain ⟨hassb, hqb⟩ := hb _ _ _ _ hqa hexb htb
    exact ⟨(Monitor.asserts_append _ _ _).mpr ⟨hassa, hassb⟩,
      by rw [Monitor.run_append]; exact hqb.1 _ rfl⟩
  | cleanupExit hexa hexb =>
    obtain ⟨hta, htb⟩ := (Monitor.assumes_append _ _ _).mp hassume
    obtain ⟨hassa, hqa⟩ := ha _ _ _ hs hexa hta
    obtain ⟨hassb, hqb⟩ := hb _ _ _ _ hqa hexb htb
    exact ⟨(Monitor.asserts_append _ _ _).mpr ⟨hassa, hassb⟩,
      by rw [Monitor.run_append]; exact hqb.2 _ rfl⟩

theorem Triple.mark {action : ε} (h : Triple m P c S)
    (hassert : ∀ value s, S (.normal value) s → m.assume s action → m.assert s action)
    (hnormal : ∀ value s, S (.normal value) s → m.assume s action → Q (.normal value) (m.step s action))
    (hexit : ∀ e s, S (.exit e) s → Q (.exit e) s) : Triple m P (.mark c action) Q := by
  intro s t o hs hexec hassume
  cases hexec with
  | mark hexec =>
    obtain ⟨hta, htb⟩ := (Monitor.assumes_append _ _ _).mp hassume
    obtain ⟨hass, hq⟩ := h _ _ _ hs hexec hta
    refine ⟨(Monitor.asserts_append _ _ _).mpr ⟨hass, hassert _ _ hq htb.1, trivial⟩, ?_⟩
    rw [Monitor.run_append]
    exact hnormal _ _ hq htb.1
  | markExit hexec =>
    obtain ⟨hass, hq⟩ := h _ _ _ hs hexec hassume
    exact ⟨hass, hexit _ _ hq⟩

/-- The invariant rule: `P` holds whenever the body begins. -/
theorem Triple.loop (h : Triple m P c S) (hagain : ∀ value s, S (.normal value) s → P s)
    (hbreak : ∀ e s, e.breaks label → S (.exit e) s → Q (.normal false) s)
    (hexit : ∀ e s, ¬ e.breaks label → S (.exit e) s → Q (.exit e) s) : Triple m P (.loop label c) Q := by
  intro s t o hs hexec hassume
  generalize hc : Command.loop label c = d at hexec
  induction hexec generalizing s with
  | loopAgain hbody _ _ ih =>
    cases hc
    obtain ⟨hta, htb⟩ := (Monitor.assumes_append _ _ _).mp hassume
    obtain ⟨hassa, hqa⟩ := h _ _ _ hs hbody hta
    obtain ⟨hassb, hqb⟩ := ih _ (hagain _ _ hqa) htb rfl
    exact ⟨(Monitor.asserts_append _ _ _).mpr ⟨hassa, hassb⟩, by rwa [Monitor.run_append]⟩
  | loopBreak hbody he =>
    cases hc
    obtain ⟨hassert, hq⟩ := h _ _ _ hs hbody hassume
    exact ⟨hassert, hbreak _ _ he hq⟩
  | loopExit hbody he =>
    cases hc
    obtain ⟨hassert, hq⟩ := h _ _ _ hs hbody hassume
    exact ⟨hassert, hexit _ _ he hq⟩
  | _ => cases hc

end

end Zith.Lib
