import Mathlib.Order.Lattice
import Mathlib.Data.List.Induction
import Mathlib.Data.List.Nodup
import Mathlib.Data.List.Lex
import Zith.Lib.FirstDifference

/-! A depth-first search in which smaller nodes go first. The roots are what the empty path goes on to. A step back
    to the path marks the path from there on.

        new ──enter──▶ path ──leave──▶ done

    The search stands on the first simple path to each node, in the order of the lists of nodes. -/

namespace Zith.Lib.DepthFirst
open Relation

section
variable {α : Type} (roots : List α) (next : α → List α)

/-- What a path goes on to. -/
def after (path : List α) : List α :=
  match path.getLast? with
  | none => roots
  | some b => next b

structure SimplePath (p : List α) : Prop where
  nodup : p.Nodup
  follows : ∀ t b r, p = t ++ b :: r → b ∈ after roots next t

/-- A step that does not lead into `p`. -/
def Avoids (p : List α) (a b : α) : Prop := b ∈ next a ∧ b ∉ p

variable {roots next} {p q t r : List α} {a b x : α}

@[simp] theorem after_nil : after roots next [] = roots := rfl

@[simp] theorem after_concat : after roots next (p ++ [b]) = next b := by simp [after]

theorem concat_eq_append_cons (h : p ++ [b] = t ++ a :: r) :
    p = t ∧ b = a ∧ r = [] ∨ ∃ r', p = t ++ a :: r' ∧ r = r' ++ [b] := by
  rcases List.eq_nil_or_concat r with rfl | ⟨r, y, rfl⟩
  · obtain ⟨rfl, hab⟩ := List.append_inj' h rfl
    cases hab
    exact Or.inl ⟨rfl, rfl, rfl⟩
  · rw [List.concat_eq_append] at h ⊢
    rw [← List.cons_append, ← List.append_assoc] at h
    obtain ⟨rfl, hby⟩ := List.append_inj' h rfl
    cases hby
    exact Or.inr ⟨r, rfl, rfl⟩

theorem SimplePath.nil : SimplePath roots next [] := ⟨List.nodup_nil, by simp⟩

theorem SimplePath.left (h : SimplePath roots next (p ++ q)) : SimplePath roots next p := by
  refine ⟨(List.nodup_append.mp h.nodup).1, fun t b r ht => ?_⟩
  exact h.follows t b (r ++ q) (by rw [ht]; simp)

theorem SimplePath.concat (h : SimplePath roots next p) (hb : b ∈ after roots next p) (hnew : b ∉ p) :
    SimplePath roots next (p ++ [b]) := by
  refine ⟨?_, fun t a r ht => ?_⟩
  · refine h.nodup.append (List.nodup_singleton _) fun x hx hx' => ?_
    rw [List.mem_singleton] at hx'
    exact hnew (hx' ▸ hx)
  · rcases concat_eq_append_cons ht with ⟨rfl, rfl, rfl⟩ | ⟨r, hp, rfl⟩
    · exact hb
    · exact h.follows t a r hp

/-- What follows on a simple path is reached without coming back to what is in front. -/
theorem SimplePath.avoids (h : SimplePath roots next (t ++ b :: r)) :
    ∀ x, (b :: r).getLast? = some x → ReflTransGen (Avoids next t) b x := by
  induction r using List.reverseRecOn with
  | nil =>
    intro x hx
    obtain rfl : b = x := by simpa using hx
    exact .refl
  | append_singleton r y ih =>
    intro x hx
    rw [← List.cons_append, List.getLast?_concat] at hx
    obtain rfl := Option.some.inj hx
    have hinit : SimplePath roots next (t ++ b :: r) := by
      refine SimplePath.left (q := [y]) ?_
      simpa using h
    obtain ⟨z, hz⟩ : ∃ z, (b :: r).getLast? = some z := ⟨_, List.getLast?_eq_some_getLast (List.cons_ne_nil b r)⟩
    refine (ih hinit z hz).tail ⟨?_, fun hy => ?_⟩
    · have hy := h.follows (t ++ b :: r) y [] (by simp)
      rwa [after, List.getLast?_append_of_ne_nil _ (List.cons_ne_nil b r), hz] at hy
    · exact (List.nodup_append.mp h.nodup).2.2 y hy y (by simp) rfl

theorem SimplePath.reaches (h : SimplePath roots next (t ++ b :: r)) (hx : x ∈ b :: r) :
    ReflTransGen (Avoids next t) b x := by
  obtain ⟨l, r', hr⟩ := List.append_of_mem hx
  rcases l with - | ⟨y, l⟩
  · cases hr
    exact .refl
  · obtain ⟨rfl, rfl⟩ := List.cons.inj hr
    have hleft : SimplePath roots next ((t ++ b :: (l ++ [x])) ++ r') := by
      rw [show (t ++ b :: (l ++ [x])) ++ r' = t ++ b :: (l ++ x :: r') by simp]
      exact h
    refine hleft.left.avoids x ?_
    rw [← List.cons_append, List.getLast?_concat]

theorem reaches_of_avoids (h : ReflTransGen (Avoids next p) a b) : ReflTransGen (fun a b => b ∈ next a) a b := by
  induction h with
  | refl => exact .refl
  | tail _ hstep ih => exact ih.tail hstep.1

theorem prefix_or_apart : ∀ p q : List α, p <+: q ∨ q <+: p ∨ Apart (· ≠ ·) p q
  | [], q => Or.inl (List.nil_prefix)
  | _ :: _, [] => Or.inr (Or.inl List.nil_prefix)
  | a :: p, b :: q => by
    rcases eq_or_ne a b with rfl | hne
    · rcases prefix_or_apart p q with h | h | h
      · exact Or.inl (List.cons_prefix_cons.mpr ⟨rfl, h⟩)
      · exact Or.inr (Or.inl (List.cons_prefix_cons.mpr ⟨rfl, h⟩))
      · exact Or.inr (Or.inr (h.cons a))
    · exact Or.inr (Or.inr (Apart.head hne p q))

end

variable {α : Type} [LinearOrder α]

/-- The path from a node on. -/
def since (c : α) (path : List α) : List α := path.dropWhile (· ≠ c)

theorem mem_since {c : α} {p : List α} (hc : c ∈ p) : ∃ t r, p = t ++ c :: r ∧ since c p = c :: r := by
  induction p with
  | nil => cases hc
  | cons a p ih =>
    rcases eq_or_ne a c with rfl | hne
    · exact ⟨[], p, rfl, by simp [since]⟩
    · obtain ⟨t, r, hp, hsince⟩ := ih ((List.mem_cons.mp hc).resolve_left hne.symm)
      refine ⟨a :: t, r, congrArg (a :: ·) hp, ?_⟩
      rwa [since, List.dropWhile_cons_of_pos (by simpa using hne)]

/-- `entered` are the paths the search has stood on. -/
structure State (α : Type) where
  path : List α := []
  done : List α := []
  marked : List α := []
  entered : List (List α) := []

inductive Step (roots : List α) (next : α → List α) : State α → State α → Prop
  | enter {s : State α} {b : α} (hb : b ∈ after roots next s.path) (hpath : b ∉ s.path) (hdone : b ∉ s.done)
      (hless : ∀ a ∈ after roots next s.path, a < b → a ∈ s.path ∨ a ∈ s.done) :
      Step roots next s { s with path := s.path ++ [b], entered := s.entered ++ [s.path ++ [b]] }
  | back {s : State α} {p : List α} {b c : α} (hpath : s.path = p ++ [b]) (hc : c ∈ next b) (hon : c ∈ s.path) :
      Step roots next s { s with marked := s.marked ++ since c s.path }
  | leave {s : State α} {p : List α} {b : α} (hpath : s.path = p ++ [b])
      (hseen : ∀ c ∈ next b, c ∈ s.path ∨ c ∈ s.done)
      (hmarked : ∀ c ∈ next b, c ∈ s.path → ∀ x ∈ since c s.path, x ∈ s.marked) :
      Step roots next s { s with path := p, done := s.done ++ [b] }

section
variable (roots : List α) (next : α → List α)

/-- The first of the simple paths to its last node. -/
structure FirstPath (p : List α) : Prop extends SimplePath roots next p where
  least : ∀ q, SimplePath roots next q → q.getLast? = p.getLast? → p ≤ q

/-- The first path to some node goes over `x`, and from there on or before it this node steps back to the path. -/
def Closes (x : α) : Prop :=
  ∃ p b c, FirstPath roots next (p ++ [b]) ∧ c ∈ next b ∧ c ∈ p ++ [b] ∧ x ∈ since c (p ++ [b])

end

section
variable {roots : List α} {next : α → List α} {p q : List α} {a b x : α}

theorem le_append : ∀ p q : List α, p ≤ p ++ q
  | [], [] => le_refl _
  | [], _ :: _ => le_of_lt List.Lex.nil
  | a :: p, q => List.cons_le_cons a (le_append p q)

theorem append_lt_append {u v : α} (h : u < v) : ∀ (t r r' : List α), t ++ u :: r < t ++ v :: r'
  | [], _, _ => List.Lex.rel h
  | _ :: t, r, r' => List.Lex.cons (append_lt_append h t r r')

theorem FirstPath.unique (hp : FirstPath roots next p) (hq : FirstPath roots next q)
    (hlast : p.getLast? = q.getLast?) : p = q :=
  le_antisymm (hp.least q hq.toSimplePath hlast.symm) (hq.least p hp.toSimplePath hlast)

/-- Where the search stands. Nothing that was left out of the path before one of its nodes leads around the path
    to anything but what is done. -/
structure Stands (roots : List α) (next : α → List α) (s : State α) : Prop where
  simple : SimplePath roots next s.path
  fresh : ∀ a ∈ s.path, a ∉ s.done
  closed : ∀ a ∈ s.done, ∀ b ∈ next a, b ∈ s.path ∨ b ∈ s.done
  passed : ∀ t b r, s.path = t ++ b :: r → ∀ a ∈ after roots next t, a < b →
    a ∈ t ∨ ∀ x, ReflTransGen (Avoids next t) a x → x ∈ s.done

variable {s s' : State α}

theorem Stands.reaches (h : Stands roots next s) (ha : a ∈ s.done) (hx : ReflTransGen (Avoids next s.path) a x) :
    x ∈ s.done := by
  induction hx with
  | refl => exact ha
  | tail _ hstep ih => exact (h.closed _ ih _ hstep.1).resolve_left hstep.2

theorem Stands.step (h : Stands roots next s) (hstep : Step roots next s s') : Stands roots next s' := by
  cases hstep with
  | @enter b hb hpath hdone hless =>
    refine ⟨h.simple.concat hb hpath, ?_, ?_, ?_⟩
    · intro a ha
      rcases List.mem_append.mp ha with ha | ha
      · exact h.fresh a ha
      · obtain rfl := List.mem_singleton.mp ha
        exact hdone
    · intro a ha c hc
      exact (h.closed a ha c hc).imp_left fun hon => List.mem_append_left _ hon
    · intro t c r ht a ha hlt
      rcases concat_eq_append_cons ht with ⟨rfl, rfl, rfl⟩ | ⟨r, hp, rfl⟩
      · exact (hless a ha hlt).imp_right fun hdone x hx => h.reaches hdone hx
      · exact h.passed t c r hp a ha hlt
  | back => exact ⟨h.simple, h.fresh, h.closed, h.passed⟩
  | @leave p b hpath hseen _ =>
    obtain ⟨hsimple, hfresh, hclosed, hpassed⟩ := h
    rw [hpath] at hsimple hfresh hclosed hseen
    refine ⟨hsimple.left, ?_, ?_, ?_⟩
    · intro a ha hdone
      rcases List.mem_append.mp hdone with hdone | hdone
      · exact hfresh a (List.mem_append_left _ ha) hdone
      · exact (List.nodup_append.mp hsimple.nodup).2.2 a ha b (by simp) (List.mem_singleton.mp hdone)
    · intro a ha c hc
      have hout : c ∈ p ++ [b] ∨ c ∈ s.done := by
        rcases List.mem_append.mp ha with ha | ha
        · exact hclosed a ha c hc
        · exact hseen c (List.mem_singleton.mp ha ▸ hc)
      rcases hout with hc | hc
      · exact (List.mem_append.mp hc).imp_right fun hc => List.mem_append_right _ hc
      · exact Or.inr (List.mem_append_left _ hc)
    · intro t c r ht a ha hlt
      have hlong : s.path = t ++ c :: (r ++ [b]) := by
        rw [hpath, show p = t ++ c :: r from ht]
        simp
      refine (hpassed t c (r ++ [b]) hlong a ha hlt).imp_right fun hall x hx => ?_
      exact List.mem_append_left _ (hall x hx)

/-- The search stands on the first path to the node it is at. -/
theorem Stands.first (h : Stands roots next s) (hpath : s.path = p ++ [b]) : FirstPath roots next (p ++ [b]) := by
  have hsimple := hpath ▸ h.simple
  refine ⟨hsimple, fun q hq hlast => ?_⟩
  have hqb : q.getLast? = some b := by simpa using hlast
  have hbq : b ∈ q := List.mem_of_getLast? hqb
  rcases prefix_or_apart (p ++ [b]) q with ⟨r, rfl⟩ | ⟨r, hr⟩ | ⟨t, u, v, r, r', hu, rfl, hne⟩
  · exact le_append (p ++ [b]) r
  · rcases List.eq_nil_or_concat r with rfl | ⟨r, y, rfl⟩
    · rw [← hr, List.append_nil]
    · -- the shorter path ends in a node the path goes over before
      rw [List.concat_eq_append, ← List.append_assoc] at hr
      obtain ⟨rfl, -⟩ := List.append_inj' hr rfl
      have hbp : b ∈ q ++ r := List.mem_append_left _ hbq
      exact absurd rfl ((List.nodup_append.mp hsimple.nodup).2.2 b hbp b (by simp))
  · rcases lt_or_gt_of_ne hne with hlt | hlt
    · rw [hu]
      exact le_of_lt (append_lt_append hlt t r r')
    · -- where the path left `v` out, everything it leads to was done
      rcases h.passed t u r (hpath.trans hu) v (hq.follows t v r' rfl) hlt with hv | hall
      · exact absurd rfl ((List.nodup_append.mp hq.nodup).2.2 v hv v (by simp))
      · have hlast : (v :: r').getLast? = some b := by
          rwa [List.getLast?_append_of_ne_nil _ (List.cons_ne_nil v r')] at hqb
        exact absurd (hall b (hq.avoids b hlast)) (h.fresh b (by rw [hpath]; simp))

/-- What the search has put down on its way. -/
structure Recorded (roots : List α) (next : α → List α) (s : State α) : Prop where
  first : ∀ p ∈ s.entered, FirstPath roots next p
  path : ∀ t b r, s.path = t ++ b :: r → t ++ [b] ∈ s.entered
  done : ∀ b ∈ s.done, ∃ p, p ++ [b] ∈ s.entered
  closes : ∀ x ∈ s.marked, Closes roots next x
  marked : ∀ p, ∀ b ∈ s.done, p ++ [b] ∈ s.entered → ∀ c ∈ next b, c ∈ p ++ [b] → ∀ x ∈ since c (p ++ [b]), x ∈ s.marked

theorem Recorded.step (h : Recorded roots next s) (hs : Stands roots next s) (hstep : Step roots next s s') :
    Recorded roots next s' := by
  have hs' := hs.step hstep
  cases hstep with
  | @enter b hb hpath hdone hless =>
    refine ⟨?_, ?_, ?_, h.closes, ?_⟩
    · intro p hp
      rcases List.mem_append.mp hp with hp | hp
      · exact h.first p hp
      · exact List.mem_singleton.mp hp ▸ hs'.first rfl
    · intro t c r ht
      rcases concat_eq_append_cons ht with ⟨rfl, rfl, rfl⟩ | ⟨r, hp, rfl⟩
      · simp
      · exact List.mem_append_left _ (h.path t c r hp)
    · intro c hc
      obtain ⟨p, hp⟩ := h.done c hc
      exact ⟨p, List.mem_append_left _ hp⟩
    · intro p c hc hp
      rcases List.mem_append.mp hp with hp | hp
      · exact h.marked p c hc hp
      · obtain ⟨-, hcb⟩ := List.append_inj' (List.mem_singleton.mp hp) rfl
        cases hcb
        exact absurd hc hdone
  | @back p b c hpath hc hon =>
    refine ⟨h.first, h.path, h.done, ?_, ?_⟩
    · intro x hx
      rcases List.mem_append.mp hx with hx | hx
      · exact h.closes x hx
      · rw [hpath] at hon hx
        exact ⟨p, b, c, hs.first hpath, hc, hon, hx⟩
    · intro q a ha hq d hd hdq x hx
      exact List.mem_append_left _ (h.marked q a ha hq d hd hdq x hx)
  | @leave p b hpath hseen hmarked =>
    refine ⟨h.first, ?_, ?_, h.closes, ?_⟩
    · intro t c r ht
      refine h.path t c (r ++ [b]) ?_
      rw [hpath, show p = t ++ c :: r from ht]
      simp
    · intro c hc
      rcases List.mem_append.mp hc with hc | hc
      · exact h.done c hc
      · exact ⟨p, List.mem_singleton.mp hc ▸ h.path p b [] hpath⟩
    · intro q a ha hq
      rcases List.mem_append.mp ha with ha | ha
      · exact h.marked q a ha hq
      · obtain rfl := List.mem_singleton.mp ha
        obtain hqp : q ++ [a] = p ++ [a] := (h.first _ hq).unique (hs.first hpath) (by simp)
        rw [hqp, ← hpath]
        exact hmarked

theorem run (h : ReflTransGen (Step roots next) {} s) : Stands roots next s ∧ Recorded roots next s := by
  induction h with
  | refl =>
    refine ⟨⟨SimplePath.nil, ?_, ?_, ?_⟩, ?_, ?_, ?_, ?_, ?_⟩ <;> simp
  | tail _ hstep ih => exact ⟨ih.1.step hstep, ih.2.step ih.1 hstep⟩

/-- A search that is over has marked what closes. -/
theorem mem_marked_iff (h : ReflTransGen (Step roots next) {} s) (hpath : s.path = []) (hroots : ∀ a ∈ roots, a ∈ s.done) :
    x ∈ s.marked ↔ Closes roots next x := by
  obtain ⟨hs, hr⟩ := run h
  refine ⟨hr.closes x, ?_⟩
  rintro ⟨p, b, c, hfirst, hc, hon, hx⟩
  have hb : b ∈ s.done := by
    obtain ⟨y, r, hyr⟩ : ∃ y r, p ++ [b] = y :: r := List.exists_cons_of_ne_nil (by simp)
    have hsimple := hyr ▸ hfirst.toSimplePath
    have hlast : (y :: r).getLast? = some b := by rw [← hyr]; simp
    have hreach := SimplePath.avoids (t := []) hsimple b hlast
    exact hs.reaches (hroots y (hsimple.follows [] y r rfl)) (hpath ▸ hreach)
  obtain ⟨q, hq⟩ := hr.done b hb
  obtain hqp : q ++ [b] = p ++ [b] := (hr.first _ hq).unique hfirst (by simp)
  exact hr.marked p b hb (hqp ▸ hq) c hc hon x hx

theorem Closes.cycle (h : Closes roots next x) : TransGen (fun a b => b ∈ next a) x x := by
  obtain ⟨p, b, c, hfirst, hc, hon, hx⟩ := h
  obtain ⟨t, r, ht, hsince⟩ := mem_since hon
  rw [hsince] at hx
  have hsimple := ht ▸ hfirst.toSimplePath
  obtain ⟨l, r', hr⟩ := List.append_of_mem hx
  have hrest : SimplePath roots next ((t ++ l) ++ x :: r') := by rw [List.append_assoc, ← hr]; exact hsimple
  have hxb : ReflTransGen (Avoids next (t ++ l)) x b := by
    refine hrest.avoids b ?_
    have hlast : (p ++ [b]).getLast? = some b := by simp
    rwa [ht, hr, ← List.append_assoc, List.getLast?_append_of_ne_nil _ (List.cons_ne_nil x r')] at hlast
  exact TransGen.trans_left (TransGen.tail' (reaches_of_avoids hxb) hc) (reaches_of_avoids (hsimple.reaches hx))

end

end Zith.Lib.DepthFirst
