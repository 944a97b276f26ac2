import Mathlib.Data.Finset.Insert
import Mathlib.Data.Finset.Erase
import Zith.Lib.Command

/-! Names are tainted and cleared, and a tainted name is not to be used. A straight pass over a list of
    effects and the runs of a command both change a set of tainted names; the pass is a check of the runs as
    far as the names tainted in a run are known to it (`Watches`). A command `Tracks` a list of effects if a
    run of it from a watched set uses no tainted name and ends in a set that the pass still watches. -/

namespace Zith.Lib

inductive Effect (α : Type)
  | taint (x : α)
  | clear (x : α)
  | use (x : α)
deriving DecidableEq, Repr

section
variable {α : Type}

/-- The effects taint the name or clear it. -/
def Changes (x : α) (es : List (Effect α)) : Prop := .taint x ∈ es ∨ .clear x ∈ es

/-- The last change of the name clears it. -/
def Revives (x : α) : List (Effect α) → Prop
  | [] => False
  | e :: es => Revives x es ∨ e = .clear x ∧ ¬ Changes x es

/-- The name is used before any change of it. -/
def Exposes (x : α) : List (Effect α) → Prop
  | [] => False
  | .use y :: es => y = x ∨ Exposes x es
  | .taint y :: es => y ≠ x ∧ Exposes x es
  | .clear y :: es => y ≠ x ∧ Exposes x es

@[simp] theorem not_changes_nil (x : α) : ¬ Changes x [] := by simp [Changes]

theorem changes_cons {x : α} {e : Effect α} {es : List (Effect α)} :
    Changes x (e :: es) ↔ e = .taint x ∨ e = .clear x ∨ Changes x es := by
  simp only [Changes, List.mem_cons, eq_comm (a := e)]
  tauto

@[simp] theorem changes_append {x : α} {es fs : List (Effect α)} :
    Changes x (es ++ fs) ↔ Changes x es ∨ Changes x fs := by
  simp only [Changes, List.mem_append]
  tauto

theorem revives_append {x : α} : ∀ {es fs : List (Effect α)},
    Revives x (es ++ fs) ↔ Revives x fs ∨ Revives x es ∧ ¬ Changes x fs
  | [], fs => by simp [Revives]
  | e :: es, fs => by
    simp only [List.cons_append, Revives, revives_append, changes_append]
    tauto

theorem exposes_append {x : α} : ∀ {es fs : List (Effect α)},
    Exposes x (es ++ fs) ↔ Exposes x es ∨ ¬ Changes x es ∧ Exposes x fs
  | [], fs => by simp [Exposes, Changes]
  | .use y :: es, fs => by
    simp only [List.cons_append, Exposes, exposes_append, changes_cons]
    simp
    tauto
  | .taint y :: es, fs => by
    simp only [List.cons_append, Exposes, exposes_append, changes_cons]
    simp
    tauto
  | .clear y :: es, fs => by
    simp only [List.cons_append, Exposes, exposes_append, changes_cons]
    simp
    tauto

theorem Revives.changes {x : α} : ∀ {es : List (Effect α)}, Revives x es → Changes x es
  | e :: es, h => by
    rw [changes_cons]
    rcases h with h | ⟨he, -⟩
    · exact .inr (.inr h.changes)
    · exact .inr (.inl he)

theorem taint_mem {x : α} : ∀ {es : List (Effect α)}, Changes x es → ¬ Revives x es → .taint x ∈ es
  | [], h, _ => by simp at h
  | e :: es, h, hr => by
    simp only [Revives, not_or, not_and, not_not] at hr
    rcases changes_cons.mp h with rfl | rfl | h
    · exact .head _
    · exact .tail _ (taint_mem (hr.2 rfl) hr.1)
    · exact .tail _ (taint_mem h hr.1)

/-! ### What a run keeps to -/

/-- Each tainted name is known to the pass, or not exposed in what follows. -/
def Watches (tainted known : Finset α) (es : List (Effect α)) : Prop := ∀ x ∈ tainted, x ∈ known ∨ ¬ Exposes x es

theorem Watches.left {tainted known : Finset α} {es fs : List (Effect α)}
    (h : Watches tainted known (es ++ fs)) : Watches tainted known es :=
  fun x hx => (h x hx).imp id fun hk hes => hk (exposes_append.mpr (.inl hes))

/-- Each name tainted at the end was so at the beginning, or is one of `ws`. -/
def Within (before : Finset α) (ws : List α) (tainted : Finset α) : Prop := ∀ x ∈ tainted, x ∈ before ∨ x ∈ ws

theorem Within.refl (s : Finset α) (ws : List α) : Within s ws s := fun _ hx => .inl hx

theorem Within.trans {s s' s'' : Finset α} {ws ws' : List α} (h : Within s ws s')
    (h' : Within s' ws' s'') : Within s (ws ++ ws') s'' := by
  intro x hx
  rcases h' x hx with hx | hx
  · exact (h x hx).imp id (List.mem_append_left _)
  · exact .inr (List.mem_append_right _ hx)

theorem Within.mono {s s' : Finset α} {ws ws' : List α} (h : Within s ws s')
    (hws : ∀ x ∈ ws, x ∈ ws') : Within s ws' s' := fun x hx => (h x hx).imp id (hws x)

/-! ### Runs that stay within names -/

variable {ε : Type}

/-- Of a run from `P` only that is known. -/
def Stays (m : Monitor (Finset α) ε) (P : Finset α → Prop) (ws : List α) (c : Command ε) : Prop :=
  ∀ before, P before → Triple m (· = before) c fun _ tainted => Within before ws tainted

/-- The action changes nothing, and nothing is asserted of it. -/
def Neutral (m : Monitor (Finset α) ε) (a : ε) : Prop := ∀ s, m.step s a = s ∧ m.assert s a

variable {m : Monitor (Finset α) ε} {P P' : Finset α → Prop} {ws ws' : List α}
  {a b c : Command ε} {label : String}

theorem Stays.done {value : Bool} : Stays m P ws (.done value) := fun _ _ =>
  .done fun _ hs => hs ▸ .refl _ _

theorem Stays.exit {e : Exit} : Stays m P ws (.exit e) := fun _ _ => .exit fun _ hs => hs ▸ .refl _ _

theorem Stays.act {action : ε} (hn : Neutral m action) : Stays m P ws (.act action) := fun _ _ =>
  .act (fun s _ _ => (hn s).2) fun s hs _ => by
    rw [(hn s).1, hs]
    exact .refl _ _

theorem Stays.weaken (h : Stays m P ws c) (hP : ∀ s, P' s → P s) (hws : ∀ x ∈ ws, x ∈ ws') :
    Stays m P' ws' c := fun before hb =>
  (h before (hP before hb)).conseq (fun _ hs => hs) fun _ _ hin => hin.mono hws

theorem Stays.seq (ha : Stays m P ws a) (hb : Stays m (fun s => ∃ before, P before ∧ Within before ws s) ws' b) :
    Stays m P (ws ++ ws') (.seq a b) := by
  intro before hbefore
  refine Triple.seq (R := fun s => Within before ws s) (ha before hbefore) ?_ (fun _ _ h => h)
    fun _ _ h => h.mono fun _ => List.mem_append_left _
  intro s t o hs hexec hassume
  obtain ⟨hassert, hin⟩ := hb s ⟨before, hbefore, hs⟩ s t o rfl hexec hassume
  exact ⟨hassert, hs.trans hin⟩

theorem Stays.either (ha : Stays m P ws a) (hb : Stays m P ws b) : Stays m P ws (.either a b) :=
  fun before h => .either (ha before h) (hb before h)

theorem Stays.resume (h : Stays m P ws c) : Stays m P ws (.resume label c) := fun before hb =>
  .resume (h before hb) (fun _ _ _ hin => hin) fun _ _ _ hin => hin

theorem Stays.mark {action : ε} (hn : Neutral m action) (h : Stays m P ws c) :
    Stays m P ws (.mark c action) := fun before hb =>
  .mark (h before hb) (fun _ s _ _ => (hn s).2) (fun _ s hin _ => (hn s).1.symm ▸ hin) fun _ _ hin => hin

theorem Stays.cleanup (ha : Stays m P ws a) (hb : Stays m (fun s => ∃ before, P before ∧ Within before ws s) ws' b) :
    Stays m P (ws ++ ws') (.cleanup a b) := by
  intro before hbefore
  refine Triple.cleanup (S := fun _ s => Within before ws s) (ha before hbefore) fun o => ?_
  intro s t o' hs hexec hassume
  obtain ⟨hassert, hin⟩ := hb s ⟨before, hbefore, hs⟩ s t o' rfl hexec hassume
  exact ⟨hassert, fun _ _ => hs.trans hin, fun _ _ => hs.trans hin⟩

/-- Behind an action that is assumed. -/
theorem after_neutral {action : ε} {Q : Outcome → Finset α → Prop} {before : Finset α}
    (hn : Neutral m action) (h : m.assume before action → Triple m (· = before) c Q) :
    Triple m (· = before) (.seq (.act action) c) Q := by
  refine Triple.seq (S := fun o s => o = .normal false ∧ s = before ∧ m.assume before action)
    (R := fun s => s = before ∧ m.assume before action) ?_ ?_ (fun _ _ hs => hs.2) fun _ _ hs => by simp at hs
  · exact .act (fun s _ _ => (hn s).2) fun s hs ha => ⟨rfl, (hn s).1.trans hs, hs ▸ ha⟩
  · intro s t o hs hexec hassume
    exact h hs.2 s t o hs.1 hexec hassume

theorem Stays.after {action : ε} (hn : Neutral m action) (hP : ∀ s, P s → m.assume s action → P' s)
    (h : Stays m P' ws c) : Stays m P ws (.seq (.act action) c) := fun before hb =>
  after_neutral hn fun ha => h before (hP before hb ha)

/-- The last action is assumed in the end. -/
theorem Stays.last {action : ε} (hn : Neutral m action) (h : Stays m P ws c) :
    ∀ before, P before → Triple m (· = before) (.seq c (.act action)) fun o s =>
      Within before ws s ∧ ∀ v, o = .normal v → m.assume s action := by
  intro before hb
  refine Triple.seq (R := fun s => Within before ws s) (h before hb) ?_ (fun _ _ hs => hs) fun _ _ hs => ⟨hs, by simp⟩
  exact .act (fun s _ _ => (hn s).2) fun s hs ha => by
    rw [(hn s).1]
    exact ⟨hs, fun _ _ => ha⟩

/-- A loop whose iterations end in an action that is assumed, and that with it begin in `P` again. -/
theorem Stays.loop {action : ε} (hn : Neutral m action) (ha : Stays m P ws a)
    (hb : Stays m (fun s => ∃ before, P before ∧ Within before ws s) ws' b)
    (hagain : ∀ before s, P before → Within before (ws ++ ws') s → m.assume s action → P s) :
    Stays m P (ws ++ ws') (.loop label (.seq a (.seq b (.act action)))) := by
  have hbody : ∀ before, P before → Triple m (· = before) (.seq a (.seq b (.act action))) fun o s =>
      Within before (ws ++ ws') s ∧ ∀ v, o = .normal v → m.assume s action := by
    intro before hP
    refine Triple.seq (R := fun s => Within before ws s) (ha before hP) ?_ (fun _ _ hs => hs)
      fun _ _ hs => ⟨hs.mono fun _ => List.mem_append_left _, by simp⟩
    intro s t o hs hexec hassume
    obtain ⟨hassert, hin, hlast⟩ := hb.last hn s ⟨before, hP, hs⟩ s t o rfl hexec hassume
    exact ⟨hassert, hs.trans hin, hlast⟩
  intro before hP
  have hsame : ∀ {s s'}, Within before (ws ++ ws') s → Within s (ws ++ ws') s' →
      Within before (ws ++ ws') s' := fun h h' => (h.trans h').mono fun x hx =>
        (List.mem_append.mp hx).elim id id
  refine Triple.conseq (P := fun s => P s ∧ Within before (ws ++ ws') s) (Triple.loop
    (S := fun o s => Within before (ws ++ ws') s ∧ ∀ v, o = .normal v → P s) ?_
    (fun v s hs => ⟨hs.2 v rfl, hs.1⟩) (fun _ _ _ hs => hs.1) fun _ _ _ hs => hs.1)
    (by rintro s rfl; exact ⟨hP, .refl _ _⟩) fun _ _ hs => hs
  intro s t o hs hexec hassume
  obtain ⟨hassert, hin, hlast⟩ := hbody s hs.1 s t o rfl hexec hassume
  exact ⟨hassert, hsame hs.2 hin, fun v ho => hagain s _ hs.1 hin (hlast v ho)⟩

/-! ### The pass -/

variable [DecidableEq α]

def Effect.apply (s : Finset α) : Effect α → Finset α
  | .taint x => insert x s
  | .clear x => s.erase x
  | .use _ => s

/-- The tainted names after the effects. -/
def after (s : Finset α) (es : List (Effect α)) : Finset α := es.foldl Effect.apply s

/-- No effect uses a name that is tainted then. -/
def Passes : Finset α → List (Effect α) → Prop
  | _, [] => True
  | s, e :: es => (∀ x, e = .use x → x ∉ s) ∧ Passes (e.apply s) es

@[simp] theorem after_nil (s : Finset α) : after s [] = s := rfl

@[simp] theorem after_cons (s : Finset α) (e : Effect α) (es : List (Effect α)) :
    after s (e :: es) = after (e.apply s) es := rfl

@[simp] theorem after_append (s : Finset α) (es fs : List (Effect α)) :
    after s (es ++ fs) = after (after s es) fs := List.foldl_append

@[simp] theorem passes_append : ∀ (s : Finset α) (es fs : List (Effect α)),
    Passes s (es ++ fs) ↔ Passes s es ∧ Passes (after s es) fs
  | _, [], _ => by simp [Passes]
  | s, e :: es, fs => by
    simp only [List.cons_append, Passes, passes_append (e.apply s) es fs, after_cons, and_assoc]

/-- A name is tainted after the effects if they leave it as it was, tainted, or taint it last. -/
theorem mem_after {x : α} : ∀ {es : List (Effect α)} {s : Finset α},
    x ∈ after s es ↔ x ∈ s ∧ ¬ Changes x es ∨ Changes x es ∧ ¬ Revives x es
  | [], s => by simp
  | e :: es, s => by
    rw [after_cons, mem_after, changes_cons]
    cases e with
    | taint y =>
      by_cases hy : y = x
      · subst hy
        by_cases hch : Changes y es
        · simp [Effect.apply, Revives, hch]
        · have hre : ¬ Revives y es := fun h => hch h.changes
          simp [Effect.apply, Revives, hch, hre]
      · simp [Effect.apply, Revives, hy, Ne.symm hy]
    | clear y =>
      by_cases hy : y = x
      · subst hy
        by_cases hch : Changes y es
        · simp [Effect.apply, Revives, hch]
        · have hre : ¬ Revives y es := fun h => hch h.changes
          simp [Effect.apply, Revives, hch, hre]
      · simp [Effect.apply, Revives, hy, eq_comm (a := x)]
    | use y => simp [Effect.apply, Revives]

theorem mem_after_of_kept {x : α} {es : List (Effect α)} {s : Finset α} (hx : x ∈ s) (h : ¬ Changes x es) :
    x ∈ after s es := mem_after.mpr (.inl ⟨hx, h⟩)

theorem mem_after_of_changes {x : α} {es : List (Effect α)} {s : Finset α} (h : Changes x es)
    (hr : ¬ Revives x es) : x ∈ after s es := mem_after.mpr (.inr ⟨h, hr⟩)

/-- Each name tainted at the end is known to the pass, or has been tainted all the time. -/
def Settled (before known : Finset α) (es : List (Effect α)) (tainted : Finset α) : Prop :=
  ∀ x ∈ tainted, x ∈ after known es ∨ x ∈ before ∧ x ∉ known ∧ ¬ Changes x es

theorem Watches.passes : ∀ {es : List (Effect α)} {tainted known : Finset α},
    Watches tainted known es → Passes known es → Passes tainted es
  | [], _, _, _, _ => trivial
  | e :: es, tainted, known, h, hp => by
    refine ⟨fun x hx hmem => ?_, Watches.passes (fun x hx => ?_) hp.2⟩
    · subst hx
      rcases h x hmem with hk | hk
      · exact hp.1 x rfl hk
      · exact hk (.inl rfl)
    · cases e with
      | taint y =>
        simp only [Effect.apply, Finset.mem_insert] at hx ⊢
        rcases hx with rfl | hx
        · exact .inl (.inl rfl)
        · by_cases hy : y = x
          · exact .inl (.inl hy.symm)
          · exact (h x hx).imp .inr fun hk hes => hk ⟨hy, hes⟩
      | clear y =>
        simp only [Effect.apply, Finset.mem_erase] at hx ⊢
        exact (h x hx.2).imp (fun hk => ⟨hx.1, hk⟩) fun hk hes => hk ⟨Ne.symm hx.1, hes⟩
      | use y => exact (h x hx).imp id fun hk hes => hk (.inr hes)

theorem settled_after {tainted known : Finset α} (es : List (Effect α)) :
    Settled tainted known es (after tainted es) := by
  intro x hx
  rw [mem_after] at hx
  rcases hx with ⟨hx, hno⟩ | ⟨hch, hrev⟩
  · by_cases hk : x ∈ known
    · exact .inl (mem_after_of_kept hk hno)
    · exact .inr ⟨hx, hk, hno⟩
  · exact .inl (mem_after_of_changes hch hrev)

/-- After a run of the first part. -/
theorem Watches.settled {before tainted known : Finset α} {es fs : List (Effect α)}
    (h : Watches before known (es ++ fs)) (hs : Settled before known es tainted) :
    Watches tainted (after known es) fs := by
  intro x hx
  refine (hs x hx).imp id fun ⟨hb, hk, hno⟩ hfs => ?_
  rcases h x hb with hmem | hexp
  · exact hk hmem
  · exact hexp (exposes_append.mpr (.inr ⟨hno, hfs⟩))

theorem Settled.trans {before middle tainted known : Finset α} {es fs : List (Effect α)}
    (h₁ : Settled before known es middle) (h₂ : Settled middle (after known es) fs tainted) :
    Settled before known (es ++ fs) tainted := by
  intro x hx
  rw [after_append]
  refine (h₂ x hx).imp id fun ⟨hm, hk, hno⟩ => ?_
  rcases h₁ x hm with hmem | ⟨hb, hk', hno'⟩
  · exact absurd hmem hk
  · exact ⟨hb, hk', by simp [hno, hno']⟩

/-- The pass is ahead of the run: it has gone over the first part. -/
theorem Watches.skip {before tainted known : Finset α} {es fs : List (Effect α)} (h : Watches before known (es ++ fs))
    (hin : ∀ x ∈ tainted, x ∈ before ∨ Changes x es ∨ ¬ Exposes x fs)
    (hr : ∀ x ∈ tainted, Revives x es → ¬ Exposes x fs) : Watches tainted (after known es) fs := by
  intro x hx
  by_cases hrev : Revives x es
  · exact .inr (hr x hx hrev)
  · by_cases hch : Changes x es
    · exact .inl (mem_after_of_changes hch hrev)
    · rcases hin x hx with hb | hch' | hfs
      · refine (h x hb).imp (fun hk => mem_after_of_kept hk hch) fun hk hfs => ?_
        exact hk (exposes_append.mpr (.inr ⟨hch, hfs⟩))
      · exact absurd hch' hch
      · exact .inr hfs

/-- Of the effects something has been run, and nothing still tainted is revived by them. -/
theorem settled_of_within {before known tainted : Finset α} {es : List (Effect α)} {ws : List α}
    (hin : Within before ws tainted) (hws : ∀ x ∈ ws, Changes x es)
    (hr : ∀ x ∈ tainted, ¬ Revives x es) : Settled before known es tainted := by
  intro x hx
  by_cases hch : Changes x es
  · exact .inl (mem_after_of_changes hch (hr x hx))
  · have hb : x ∈ before := (hin x hx).resolve_right fun h => hch (hws x h)
    by_cases hk : x ∈ known
    · exact .inl (mem_after_of_kept hk hch)
    · exact .inr ⟨hb, hk, hch⟩

theorem within_after {s : Finset α} {es : List (Effect α)} {ws : List α}
    (hws : ∀ x, .taint x ∈ es → x ∈ ws) : Within s ws (after s es) := by
  intro x hx
  rw [mem_after] at hx
  rcases hx with ⟨hx, -⟩ | ⟨hch, hrev⟩
  · exact .inl hx
  · exact .inr (hws x (taint_mem hch hrev))

instance Effect.changesDecidable (x : α) (es : List (Effect α)) : Decidable (Changes x es) :=
  inferInstanceAs (Decidable (_ ∈ es ∨ _ ∈ es))

instance Effect.revivesDecidable (x : α) : ∀ es : List (Effect α), Decidable (Revives x es)
  | [] => inferInstanceAs (Decidable False)
  | e :: es =>
    have := Effect.revivesDecidable x es
    inferInstanceAs (Decidable (Revives x es ∨ e = .clear x ∧ ¬ Changes x es))

instance Effect.exposesDecidable (x : α) : ∀ es : List (Effect α), Decidable (Exposes x es)
  | [] => inferInstanceAs (Decidable False)
  | .use y :: es =>
    have := Effect.exposesDecidable x es
    inferInstanceAs (Decidable (y = x ∨ Exposes x es))
  | .taint y :: es =>
    have := Effect.exposesDecidable x es
    inferInstanceAs (Decidable (y ≠ x ∧ Exposes x es))
  | .clear y :: es =>
    have := Effect.exposesDecidable x es
    inferInstanceAs (Decidable (y ≠ x ∧ Exposes x es))

instance Effect.passesDecidable : ∀ (s : Finset α) (es : List (Effect α)), Decidable (Passes s es)
  | _, [] => inferInstanceAs (Decidable True)
  | s, .use y :: es =>
    have := Effect.passesDecidable s es
    decidable_of_iff (y ∉ s ∧ Passes s es) (by simp [Passes, Effect.apply])
  | s, .taint y :: es =>
    have := Effect.passesDecidable (insert y s) es
    decidable_of_iff (Passes (insert y s) es) (by simp [Passes, Effect.apply])
  | s, .clear y :: es =>
    have := Effect.passesDecidable (s.erase y) es
    decidable_of_iff (Passes (s.erase y) es) (by simp [Passes, Effect.apply])

/-! ### Runs that the pass tracks -/

/-- A run of the command from a set that the pass watches: it only ever taints names of `ws`, and if it
    settles, the pass watches the set it ends in. -/
def Tracks (m : Monitor (Finset α) ε) (P : Finset α → Prop) (known : Finset α) (es : List (Effect α))
    (ws : List α) (settles : Prop) (c : Command ε) : Prop :=
  Passes known es → ∀ before, P before → Watches before known es →
    Triple m (· = before) c fun o tainted => Within before ws tainted ∧
      (settles → ∀ v, o = .normal v → Settled before known es tainted)

variable {known : Finset α} {es fs : List (Effect α)} {settles : Prop}

theorem Tracks.stays (h : Tracks m P known es ws settles c) (hp : Passes known es) :
    Stays m (fun s => P s ∧ Watches s known es) ws c := fun before ⟨hP, hcov⟩ =>
  (h hp before hP hcov).conseq (fun _ hs => hs) fun _ _ hin => hin.1

theorem Tracks.done {value : Bool} : Tracks m P known [] ws settles (.done value) := fun _ _ _ _ =>
  .done fun _ hs => hs ▸ ⟨.refl _ _, fun _ _ _ => settled_after []⟩

theorem Tracks.exit {e : Exit} : Tracks m P known es ws settles (.exit e) := fun _ _ _ _ =>
  .exit fun _ hs => hs ▸ ⟨.refl _ _, by simp⟩

theorem Tracks.weaken (h : Tracks m P known es ws settles c) (hP : ∀ s, P' s → P s)
    (hws : ∀ x ∈ ws, x ∈ ws') : Tracks m P' known es ws' settles c := fun hp before hb hcov =>
  (h hp before (hP before hb) hcov).conseq (fun _ hs => hs) fun _ _ hin => ⟨hin.1.mono hws, hin.2⟩

/-- What follows from that the effects pass need not be known. -/
theorem Tracks.of_passes (hP : ∀ s, Passes s es → P s) (h : Tracks m P known es ws settles c) :
    Tracks m P' known es ws settles c := fun hp before _ hcov =>
  h hp before (hP before (hcov.passes hp)) hcov

theorem Tracks.seq (ha : Tracks m P known es ws True a) (hb : Tracks m P' (Lib.after known es) fs ws' settles b)
    (hP : ∀ before s, P before → Within before ws s → P' s) :
    Tracks m P known (es ++ fs) (ws ++ ws') settles (.seq a b) := by
  intro hp before hbefore hcov
  obtain ⟨hpa, hpb⟩ := (passes_append _ _ _).mp hp
  refine Triple.seq (ha hpa before hbefore hcov.left)
    (R := fun s => Within before ws s ∧ Settled before known es s) ?_ (fun v _ h => ⟨h.1, h.2 trivial v rfl⟩)
    fun _ _ h => ⟨h.1.mono fun _ => List.mem_append_left _, by simp⟩
  intro s t o hs hexec hassume
  obtain ⟨hassert, hin, hset⟩ := hb hpb s (hP _ _ hbefore hs.1) (hcov.settled hs.2) s t o rfl hexec hassume
  exact ⟨hassert, hs.1.trans hin, fun h v ho => hs.2.trans (hset h v ho)⟩

theorem Tracks.value (h : Tracks m P known es ws True c) (v : Bool) :
    Tracks m P known es ws True (.seq c (.done v)) := by
  have hv : Tracks m (fun _ => True) (Lib.after known es) [] [] True (.done v) := .done
  simpa using h.seq hv fun _ _ _ _ => trivial

/-- Behind a command that tracks. -/
theorem Tracks.seq_stays (ha : Tracks m P known es ws True a) (hp : Passes known es)
    (hb : Stays m (fun s => ∃ before, P before ∧ Settled before known es s) ws' b) :
    Stays m (fun s => P s ∧ Watches s known es) (ws ++ ws') (.seq a b) := by
  intro before ⟨hP, hcov⟩
  refine Triple.seq (ha hp before hP hcov) (R := fun s => Within before ws s ∧ Settled before known es s)
    ?_ (fun v _ h => ⟨h.1, h.2 trivial v rfl⟩) fun _ _ h => h.1.mono fun _ => List.mem_append_left _
  intro s t o hs hexec hassume
  obtain ⟨hassert, hin⟩ := hb s ⟨before, hP, hs.2⟩ s t o rfl hexec hassume
  exact ⟨hassert, hs.1.trans hin⟩

theorem Tracks.either (ha : Tracks m P known es ws settles a) (hb : Tracks m P known es ws settles b) :
    Tracks m P known es ws settles (.either a b) := fun hp before hP hcov =>
  .either (ha hp before hP hcov) (hb hp before hP hcov)

/-- An action that does what the effects say. -/
theorem Tracks.act {action : ε} (hassert : ∀ s, P s → m.assume s action → Passes s es → m.assert s action)
    (hstep : ∀ s, m.assume s action → m.step s action = Lib.after s es) (hws : ∀ x, .taint x ∈ es → x ∈ ws) :
    Tracks m P known es ws settles (.act action) := by
  intro hp before hP hcov
  refine .act (fun s hs ha => ?_) fun s hs ha => ?_
  · subst hs
    exact hassert _ hP ha (hcov.passes hp)
  · subst hs
    rw [hstep s ha]
    exact ⟨within_after hws, fun _ _ _ => settled_after es⟩

theorem Tracks.mark {action : ε} (hn : Neutral m action) (h : Tracks m P known es ws settles c) :
    Tracks m P known es ws settles (.mark c action) := fun hp before hP hcov =>
  .mark (h hp before hP hcov) (fun _ s _ _ => (hn s).2) (fun _ s hs _ => (hn s).1.symm ▸ hs) fun _ _ hs => hs

/-- The paths through a construct join, and nothing still tainted is revived by its effects. -/
theorem Tracks.joined {action : ε} (hn : Neutral m action)
    (h : Passes known es → Stays m (fun s => P s ∧ Watches s known es) ws c)
    (hws : ∀ x ∈ ws, Changes x es) (hassume : ∀ s, m.assume s action → ∀ x ∈ s, ¬ Revives x es) :
    Tracks m P known es ws settles (.mark c action) := by
  intro hp before hP hcov
  refine Triple.mark (h hp before ⟨hP, hcov⟩) (fun _ s _ _ => (hn s).2) (fun v s hin ha => ?_)
    fun _ _ hin => ⟨hin, by simp⟩
  rw [(hn s).1]
  exact ⟨hin, fun _ _ _ => settled_of_within hin hws (hassume s ha)⟩

end

end Zith.Lib
