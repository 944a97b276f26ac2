import Mathlib.Data.Fintype.Card

/-! A search along the targets of numbered nodes. A mark for each node says whether it was seen; a node
    that is seen for the first time goes to the end of the queue. The search ends where the queue does, or
    in front of a node that satisfies `stop`.

        done ──▶ queue ──▶ not marked -/

namespace Zith.Lib

/-- Marks a target that is not marked yet and queues it. -/
def enqueue (s : List Bool × List ℕ) (target : ℕ) : List Bool × List ℕ :=
  if s.1[target]? = some false then (s.1.set target true, s.2 ++ [target]) else s

/-- Whether the search came to a stop, and the marks by then; nothing when the fuel is out. -/
def search (targets : ℕ → List ℕ) (stop : ℕ → Bool) : ℕ → List ℕ → List Bool → Option (Bool × List Bool)
  | _, [], marks => some (false, marks)
  | 0, _ :: _, _ => none
  | fuel + 1, node :: queue, marks =>
    if stop node then some (true, marks)
    else
      let s := (targets node).foldl enqueue (marks, queue)
      search targets stop fuel s.2 s.1

section
variable {targets : ℕ → List ℕ} {stop : ℕ → Bool}

/-- The steps of a search over `n` nodes. -/
def Goes (targets : ℕ → List ℕ) (n : ℕ) (a b : ℕ) : Prop := b ∈ targets a ∧ b < n

variable {marks : List Bool} {n root : ℕ}

theorem getElem?_set_true {i j : ℕ} (hi : marks[i]? = some false) :
    (marks.set i true)[j]? = some true ↔ marks[j]? = some true ∨ j = i := by
  have hlt := (List.getElem?_eq_some_iff.mp hi).1
  rcases eq_or_ne i j with rfl | hne
  · simp [List.getElem?_set_self hlt]
  · rw [List.getElem?_set_ne hne]
    exact ⟨Or.inl, fun h => h.resolve_right hne.symm⟩

/-- The marked nodes are the ones behind the search and in its queue, each once. -/
structure Marked (targets : ℕ → List ℕ) (n root : ℕ) (done queue : List ℕ) (marks : List Bool) : Prop where
  length : marks.length = n
  marked : ∀ b, marks[b]? = some true ↔ b ∈ done ∨ b ∈ queue
  nodup : (done ++ queue).Nodup
  reached : ∀ b, marks[b]? = some true → Relation.ReflTransGen (Goes targets n) root b

/-- A search in progress: the nodes behind it did not stop it, and their targets are marked. -/
structure Searching (targets : ℕ → List ℕ) (stop : ℕ → Bool) (n root : ℕ) (done queue : List ℕ)
    (marks : List Bool) : Prop extends Marked targets n root done queue marks where
  rooted : marks[root]? = some true
  closed : ∀ a ∈ done, stop a = false ∧ ∀ b, Goes targets n a b → marks[b]? = some true

theorem searching_start (hroot : root < n) :
    Searching targets stop n root [] [root] ((List.replicate n false).set root true) := by
  have hset : ∀ b, ((List.replicate n false).set root true)[b]? = some true ↔ b = root := by
    intro b
    rw [getElem?_set_true (by rw [List.getElem?_replicate, if_pos hroot])]
    constructor
    · rintro (h | h)
      · rw [List.getElem?_replicate] at h
        split at h <;> cases h
      · exact h
    · exact Or.inr
  refine ⟨⟨?_, ?_, List.nodup_singleton root, ?_⟩, (hset root).mpr rfl, fun a ha => absurd ha List.not_mem_nil⟩
  · rw [List.length_set, List.length_replicate]
  · intro b
    rw [hset, List.mem_singleton]
    simp
  · intro b hb
    rw [(hset b).mp hb]

/-- A node that is not marked goes to the queue. -/
theorem Marked.enqueue {n root node t : ℕ} {done queue : List ℕ}
    (h : Marked targets n root done queue marks) (hnode : Relation.ReflTransGen (Goes targets n) root node)
    (ht : t ∈ targets node) (hfalse : marks[t]? = some false) :
    Marked targets n root done (queue ++ [t]) (marks.set t true) := by
  have hlt : t < n := h.length ▸ (List.getElem?_eq_some_iff.mp hfalse).1
  have hnew : ¬(t ∈ done ∨ t ∈ queue) := by
    intro hmem
    rw [(h.marked t).mpr hmem] at hfalse
    cases hfalse
  constructor
  · rw [List.length_set, h.length]
  · intro b
    rw [getElem?_set_true hfalse, h.marked, List.mem_append, List.mem_singleton, or_assoc]
  · rw [← List.append_assoc]
    refine h.nodup.append (List.nodup_singleton t) ?_
    rw [List.disjoint_singleton, List.mem_append]
    exact hnew
  · intro b hb
    rcases (getElem?_set_true hfalse).mp hb with hb | rfl
    · exact h.reached b hb
    · exact hnode.tail ⟨ht, hlt⟩

/-- Queueing the targets of a node marks them all. -/
theorem Marked.enqueueAll {n root node : ℕ} {done : List ℕ}
    (hnode : Relation.ReflTransGen (Goes targets n) root node) : ∀ {ts queue : List ℕ} {marks : List Bool},
    (∀ t ∈ ts, t ∈ targets node) → Marked targets n root done queue marks →
      Marked targets n root done (ts.foldl Lib.enqueue (marks, queue)).2
          (ts.foldl Lib.enqueue (marks, queue)).1 ∧
        (∀ b : ℕ, marks[b]? = some true → (ts.foldl Lib.enqueue (marks, queue)).1[b]? = some true) ∧
          ∀ t ∈ ts, t < n → (ts.foldl Lib.enqueue (marks, queue)).1[t]? = some true := by
  intro ts
  induction ts with
  | nil =>
    intro queue marks _ h
    exact ⟨h, fun _ hb => hb, fun _ ht => absurd ht List.not_mem_nil⟩
  | cons t ts ih =>
    intro queue marks hts h
    have htail : ∀ u ∈ ts, u ∈ targets node := fun u hu => hts u (List.mem_cons_of_mem _ hu)
    rw [List.foldl_cons, Lib.enqueue]
    dsimp only
    split
    · rename_i hfalse
      obtain ⟨hmarked, hkeeps, hall⟩ := ih htail (h.enqueue hnode (hts t (List.mem_cons_self ..)) hfalse)
      refine ⟨hmarked, fun b hb => hkeeps b ((getElem?_set_true hfalse).mpr (Or.inl hb)), ?_⟩
      intro u hu hlt
      rcases List.mem_cons.mp hu with rfl | hu
      · exact hkeeps u ((getElem?_set_true hfalse).mpr (Or.inr rfl))
      · exact hall u hu hlt
    · rename_i hfalse
      obtain ⟨hmarked, hkeeps, hall⟩ := ih htail h
      refine ⟨hmarked, hkeeps, ?_⟩
      intro u hu hlt
      rcases List.mem_cons.mp hu with rfl | hu
      · obtain ⟨mark, hmark⟩ : ∃ mark, marks[u]? = some mark :=
          ⟨_, List.getElem?_eq_getElem (h.length.symm ▸ hlt)⟩
        cases mark with
        | true => exact hkeeps u hmark
        | false => exact absurd hmark hfalse
      · exact hall u hu hlt

/-- A round moves the head of the queue behind the search. -/
theorem Searching.round {n root node : ℕ} {done queue : List ℕ}
    (h : Searching targets stop n root done (node :: queue) marks) (hstop : stop node = false) :
    Searching targets stop n root (done ++ [node]) ((targets node).foldl enqueue (marks, queue)).2
      ((targets node).foldl enqueue (marks, queue)).1 := by
  have hnode : marks[node]? = some true := (h.marked node).mpr (Or.inr (List.mem_cons_self ..))
  have hmoved : Marked targets n root (done ++ [node]) queue marks := by
    refine ⟨h.length, ?_, ?_, h.reached⟩
    · intro b
      rw [h.marked, List.mem_append, List.mem_singleton, List.mem_cons, or_assoc]
    · rw [List.append_assoc]
      exact h.nodup
  obtain ⟨hmarked, hkeeps, hall⟩ := hmoved.enqueueAll (h.reached node hnode) fun _ ht => ht
  refine ⟨hmarked, hkeeps root h.rooted, ?_⟩
  intro a ha
  rcases List.mem_append.mp ha with ha | ha
  · obtain ⟨hstop', hclosed⟩ := h.closed a ha
    exact ⟨hstop', fun b hb => hkeeps b (hclosed b hb)⟩
  · obtain rfl := List.mem_singleton.mp ha
    exact ⟨hstop, fun b hb => hall b hb.1 hb.2⟩

/-- At the end the marked nodes are the ones the root goes to. -/
theorem Searching.complete {done : List ℕ} (h : Searching targets stop n root done [] marks) (b : ℕ) :
    marks[b]? = some true ↔ Relation.ReflTransGen (Goes targets n) root b := by
  constructor
  · exact h.reached b
  · intro hreach
    induction hreach with
    | refl => exact h.rooted
    | tail _ hgoes ih =>
      have hdone := ((h.marked _).mp ih).resolve_right List.not_mem_nil
      exact (h.closed _ hdone).2 _ hgoes

/-- What the search answers: it stopped at a node it came to, or came to every node there is to come to. -/
inductive Searched (targets : ℕ → List ℕ) (stop : ℕ → Bool) (n root : ℕ) :
    Option (Bool × List Bool) → Prop
  | stopped (marks : List Bool) (node : ℕ) (reached : Relation.ReflTransGen (Goes targets n) root node)
      (stops : stop node = true) : Searched targets stop n root (some (true, marks))
  | exhausted (marks : List Bool) (length : marks.length = n)
      (marked : ∀ b, marks[b]? = some true ↔ Relation.ReflTransGen (Goes targets n) root b)
      (passed : ∀ b, Relation.ReflTransGen (Goes targets n) root b → stop b = false) :
      Searched targets stop n root (some (false, marks))

theorem search_rule : ∀ {fuel : ℕ} {done queue : List ℕ} {marks : List Bool},
    Searching targets stop n root done queue marks → n ≤ done.length + fuel →
      Searched targets stop n root (search targets stop fuel queue marks) := by
  intro fuel
  induction fuel with
  | zero =>
    intro done queue marks h hfuel
    have hbelow : done ++ queue ⊆ List.range n := by
      intro b hb
      have hmark := (h.marked b).mpr (List.mem_append.mp hb)
      exact List.mem_range.mpr (h.length ▸ (List.getElem?_eq_some_iff.mp hmark).1)
    have hbound : (done ++ queue).length ≤ n := (h.nodup.subperm hbelow).length_le.trans_eq List.length_range
    rw [List.length_append] at hbound
    obtain rfl : queue = [] := List.eq_nil_of_length_eq_zero (by omega)
    rw [search]
    refine .exhausted marks h.length h.complete ?_
    intro b hb
    exact (h.closed b (((h.marked b).mp ((h.complete b).mpr hb)).resolve_right List.not_mem_nil)).1
  | succ fuel ih =>
    intro done queue marks h hfuel
    cases queue with
    | nil =>
      rw [search]
      refine .exhausted marks h.length h.complete ?_
      intro b hb
      exact (h.closed b (((h.marked b).mp ((h.complete b).mpr hb)).resolve_right List.not_mem_nil)).1
    | cons node queue =>
      rw [search]
      cases hstop : stop node with
      | true =>
        rw [if_pos rfl]
        exact .stopped marks node (h.reached node ((h.marked node).mpr (Or.inr (List.mem_cons_self ..)))) hstop
      | false =>
        rw [if_neg (by simp)]
        exact ih (h.round hstop) (by rw [List.length_append, List.length_singleton]; omega)

/-- A search of `n` nodes takes no more than `n` rounds. -/
theorem searched (targets : ℕ → List ℕ) (stop : ℕ → Bool) (hroot : root < n) : Searched targets stop n root
      (search targets stop n [root] ((List.replicate n false).set root true)) :=
  search_rule (searching_start hroot) (Nat.le_add_left _ _)

end

end Zith.Lib
