import Mathlib.Control.Monad.Basic

/-! Programs over a state that may fail, and a rule for each way to put them together: a program succeeds
    from every state, with a result that has a property. A lookup that may be out of range is the only
    thing that fails; so a program that succeeds has never looked outside a table. -/

namespace Zith.Lib

section
variable {σ α β : Type}

/-- From every state the program ends, with a result that has the property. -/
def Succeeds (m : StateT σ Option α) (P : α → Prop) : Prop := ∀ s, ∃ a s', m s = some (a, s') ∧ P a

theorem Succeeds.pure {P : α → Prop} {a : α} (h : P a) : Succeeds (pure a : StateT σ Option α) P :=
  fun s => ⟨a, s, rfl, h⟩

variable {m : StateT σ Option α}

theorem Succeeds.bind {f : α → StateT σ Option β} {Q : α → Prop} {P : β → Prop} (h : Succeeds m Q)
    (hf : ∀ a, Q a → Succeeds (f a) P) : Succeeds (m >>= f) P := by
  intro s
  obtain ⟨a, t, ha, hQ⟩ := h s
  obtain ⟨b, u, hb, hP⟩ := hf a hQ t
  refine ⟨b, u, ?_, hP⟩
  change (m s >>= fun r => f r.1 r.2) = _
  rw [ha]
  exact hb

/-- A program that looks at the state. -/
theorem Succeeds.get {f : σ → StateT σ Option α} {P : α → Prop} (h : ∀ s, Succeeds (f s) P) :
    Succeeds (get >>= f) P := fun s => h s s

theorem Succeeds.mono {P Q : α → Prop} (h : Succeeds m P) (himp : ∀ a, P a → Q a) : Succeeds m Q := fun s =>
  let ⟨a, t, ha, hP⟩ := h s
  ⟨a, t, ha, himp a hP⟩

/-- A result that does not matter. -/
theorem Succeeds.any {P : α → Prop} (h : Succeeds m P) : Succeeds m fun _ => True := h.mono fun _ _ => trivial

/-- A value that there is. -/
def ofOption (o : Option α) : StateT σ Option α := fun s => o.map fun a => (a, s)

theorem Succeeds.ofOption {o : Option α} (h : o.isSome = true) :
    Succeeds (ofOption o : StateT σ Option α) fun a => o = some a := by
  obtain ⟨a, rfl⟩ := Option.isSome_iff_exists.mp h
  exact fun s => ⟨a, s, rfl, rfl⟩

theorem isSome_mapM_iff {f : α → Option β} : ∀ {l : List α}, (l.mapM f).isSome ↔ ∀ a ∈ l, (f a).isSome
  | [] => by simp
  | a :: l => by
    rw [List.mapM_cons, List.forall_mem_cons, ← isSome_mapM_iff]
    simp only [bind, Option.bind, pure]
    cases f a <;> cases l.mapM f <;> simp

theorem isSome_mapM {f : α → Option β} {l : List α} (h : ∀ a ∈ l, (f a).isSome = true) : (l.mapM f).isSome = true :=
  isSome_mapM_iff.mpr h

/-- A map that succeeds has succeeded on every element. -/
theorem exists_of_mapM {f : α → Option β} : ∀ {l : List α} {r : List β}, l.mapM f = some r →
    ∀ a ∈ l, ∃ b ∈ r, f a = some b := by
  intro l
  induction l with
  | nil => intro r _ a ha; exact absurd ha List.not_mem_nil
  | cons x l ih =>
    intro r h a ha
    rw [List.mapM_cons] at h
    obtain ⟨y, hy, hrest⟩ := Option.bind_eq_some_iff.mp h
    obtain ⟨ys, hys, hr⟩ := Option.bind_eq_some_iff.mp hrest
    cases hr
    rcases List.mem_cons.mp ha with rfl | ha
    · exact ⟨y, List.mem_cons_self .., hy⟩
    · obtain ⟨b, hb, hfb⟩ := ih hys a ha
      exact ⟨b, List.mem_cons_of_mem _ hb, hfb⟩

/-- What a map has made, it has made of an element. -/
theorem origin_of_mapM {f : α → Option β} : ∀ {l : List α} {r : List β}, l.mapM f = some r →
    ∀ b ∈ r, ∃ a ∈ l, f a = some b := by
  intro l
  induction l with
  | nil =>
    intro r h b hb
    obtain rfl := Option.some.inj h
    exact absurd hb List.not_mem_nil
  | cons x l ih =>
    intro r h b hb
    rw [List.mapM_cons] at h
    obtain ⟨y, hy, hrest⟩ := Option.bind_eq_some_iff.mp h
    obtain ⟨ys, hys, hr⟩ := Option.bind_eq_some_iff.mp hrest
    cases hr
    rcases List.mem_cons.mp hb with rfl | hb
    · exact ⟨x, List.mem_cons_self .., hy⟩
    · obtain ⟨a, ha, hfa⟩ := ih hys b hb
      exact ⟨a, List.mem_cons_of_mem _ ha, hfa⟩

/-- What every step keeps, a fold keeps. -/
theorem exists_foldlM {f : β → α → Option β} {P : β → Prop} : ∀ {l : List α},
    (∀ a ∈ l, ∀ b, P b → ∃ b', f b a = some b' ∧ P b') → ∀ {b : β}, P b → ∃ b', l.foldlM f b = some b' ∧ P b'
  | [], _, b, hb => ⟨b, rfl, hb⟩
  | a :: l, h, b, hb => by
    obtain ⟨ha, hl⟩ := List.forall_mem_cons.mp h
    obtain ⟨b', hrun, hb'⟩ := ha b hb
    rw [List.foldlM_cons, hrun]
    exact exists_foldlM hl hb'

theorem Succeeds.mapM {f : α → StateT σ Option β} : ∀ {l : List α},
    (∀ a ∈ l, Succeeds (f a) fun _ => True) → Succeeds (l.mapM f) fun l' => l'.length = l.length
  | [], _ => .pure rfl
  | a :: l, h => by
    obtain ⟨ha, hl⟩ := List.forall_mem_cons.mp h
    rw [List.mapM_cons]
    exact ha.bind fun _ _ => (mapM hl).bind fun _ hlen => .pure (congrArg (· + 1) hlen)

theorem Succeeds.forM {f : α → StateT σ Option PUnit} : ∀ {l : List α},
    (∀ a ∈ l, Succeeds (f a) fun _ => True) → Succeeds (l.forM f) fun _ => True
  | [], _ => .pure trivial
  | a :: l, h => by
    obtain ⟨ha, hl⟩ := List.forall_mem_cons.mp h
    change Succeeds (f a >>= fun _ => l.forM f) _
    exact ha.bind fun _ _ => forM hl

theorem Succeeds.foldlM {f : β → α → StateT σ Option β} {P : β → Prop} : ∀ {l : List α},
    (∀ a ∈ l, ∀ b, P b → Succeeds (f b a) P) → ∀ {b : β}, P b → Succeeds (l.foldlM f b) P
  | [], _, _, hb => .pure hb
  | a :: l, h, b, hb => by
    obtain ⟨ha, hl⟩ := List.forall_mem_cons.mp h
    rw [List.foldlM_cons]
    exact (ha b hb).bind fun _ hb' => foldlM hl hb'

end

end Zith.Lib
