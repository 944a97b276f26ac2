import Zith.Memory.FlatMap

/-! `FlatMap` refines a finite map, and `FlatSet` a finite set, over whole runs. The abstract side is
    Mathlib's `Finmap`. Two slips break the refinement on the code as it stands: the probe loop of
    `insert` stops at the first tombstone, so it writes a second copy of a key that sits further down
    its chain; and nothing counts tombstones, so a table can run out of EMPTY slots, after which the
    lookup of an absent key never returns. `StepSafe` says that a step does neither; `run_refines` is
    the refinement for every run all of whose steps are safe. -/

set_option linter.unusedSectionVars false

namespace Zith.Memory
open Zith.Lib

namespace FlatMap

variable {K V : Type} [Inhabited K] [Inhabited V] [DecidableEq K]

/-! ### Rehashing -/

/-- The state of a rehash: the invariant, no tombstone, and the fixed size of the fresh table. -/
structure Fresh (hasher : K → UInt64) (cap : ℕ) (t : FlatMap K V) : Prop where
  core : Core hasher t
  clean : t.NoTombstone
  capacity : t.capacity = cap

theorem fresh_replicate (hasher : K → UInt64) {cap k : ℕ} (hcap : cap = 2 ^ k) :
    Fresh hasher cap (⟨List.replicate cap blank, 0⟩ : FlatMap K V) := by
  have hslot : ∀ i, ((⟨List.replicate cap blank, 0⟩ : FlatMap K V).slotAt i).metadata = .empty := by
    intro i
    simp only [slotAt, List.getD_eq_getElem?_getD, List.getElem?_replicate]
    split <;> rfl
  have hnone : ∀ i k, ¬ (⟨List.replicate cap blank, 0⟩ : FlatMap K V).Live i k := by
    intro i k hl
    have := hslot i
    rw [hl.2.1] at this
    exact SlotState.noConfusion this
  refine ⟨⟨Or.inr ⟨k, by simp [hcap]⟩, ?_, ?_, ?_, ?_⟩, ?_, by simp⟩
  · simp [List.countP_replicate, blank]
  · intro i k hl; exact absurd hl (hnone i k)
  · intro i k hl; exact absurd hl (hnone i k)
  · intro i j k hl; exact absurd hl (hnone i k)
  · intro i _; rw [hslot i]; exact SlotState.noConfusion

theorem blank_holds {cap : ℕ} {k : K} {v : V} : ¬ (⟨List.replicate cap blank, 0⟩ : FlatMap K V).Holds k v := by
  rintro ⟨i, ⟨hi, ho, _⟩, _⟩
  simp only [slotAt, List.getD_eq_getElem?_getD, List.getElem?_replicate] at ho
  split at ho <;> exact SlotState.noConfusion ho

/-- A table with fewer occupied slots than slots has a slot that is not occupied. -/
theorem exists_free {t : FlatMap K V} (hsize : t.size = t.slots.countP fun s => decide (s.metadata = .occupied))
    (hlt : t.size < t.capacity) : ∃ i < t.capacity, (t.slotAt i).metadata ≠ .occupied := by
  by_contra hall
  push Not at hall
  have hcount : t.slots.countP (fun s => decide (s.metadata = .occupied)) = t.slots.length := by
    rw [List.countP_eq_length]
    intro s hs
    obtain ⟨i, hi, rfl⟩ := List.getElem_of_mem hs
    rw [← slotAt_of_lt hi]
    exact decide_eq_true (hall i hi)
  rw [← hsize] at hcount
  exact absurd hcount (Nat.ne_of_lt hlt)

/-- Inserting a new key into a fresh table keeps it fresh and adds one entry. -/
theorem Fresh.place {hasher : K → UInt64} {cap : ℕ} {t : FlatMap K V} (hf : Fresh hasher cap t)
    (hlt : t.size < cap) {key : K} (habs : ∀ i, ¬ t.Live i key) (value : V) :
    ∃ t' i, t.place key value (hasher key) = some (t', i, true) ∧ Fresh hasher cap t' ∧ t'.size = t.size + 1 ∧
      ∀ k v, t'.Holds k v ↔ t.Holds k v ∨ key = k ∧ value = v := by
  obtain ⟨e, he, hfree⟩ := exists_free hf.core.size (hf.capacity ▸ hlt)
  obtain ⟨i, hi, hslot, hnot, hreach⟩ := hf.core.insertionSlot_absent habs he hfree
  refine ⟨_, i, place_new value hslot hnot, ⟨hf.core.new habs hi hnot hreach value, ?_, ?_⟩, rfl, ?_⟩
  · intro j hj
    rw [capacity_set] at hj
    by_cases hji : j = i
    · subst hji; rw [slotAt_set_self hi]; exact SlotState.noConfusion
    · rw [slotAt_set_ne hji]; exact hf.clean j hj
  · rw [capacity_set]; exact hf.capacity
  · intro k v
    rw [holds_set hi]
    constructor
    · rintro (⟨_, hk, hv⟩ | ⟨j, _, hl, hv⟩)
      · exact Or.inr ⟨hk, hv⟩
      · exact Or.inl ⟨j, hl, hv⟩
    · rintro (⟨j, hl, hv⟩ | ⟨hk, hv⟩)
      · refine Or.inr ⟨j, ?_, hl, hv⟩
        rintro rfl
        exact hnot hl.2.1
      · exact Or.inl ⟨rfl, hk, hv⟩

/-- The loop of `rehash` over the old slots: with distinct keys that the fresh table does not hold,
    and a fresh table large enough for all of them, no insertion grows the table again. -/
theorem rehash_loop {hasher : K → UInt64} {cap : ℕ} (depth : ℕ) :
    ∀ (l : List (Slot K V)) (acc : FlatMap K V), Fresh hasher cap acc →
      acc.size + l.countP (fun s => decide (s.metadata = .occupied)) ≤ cap * 7 / 10 →
      (∀ s ∈ l, s.metadata = .occupied → s.hash = hasher s.key ∧ ∀ i, ¬ acc.Live i s.key) →
      l.Pairwise (fun a b => a.metadata = .occupied → b.metadata = .occupied → a.key ≠ b.key) →
      ∃ t', l.foldlM (fun acc s => if s.metadata = .occupied then
            (insertRec (depth + 1) acc s.key s.value s.hash).map (·.1) else some acc) acc = some t' ∧
        Fresh hasher cap t' ∧ t'.size = acc.size + l.countP (fun s => decide (s.metadata = .occupied)) ∧
        ∀ k v, t'.Holds k v ↔ acc.Holds k v ∨ ∃ s ∈ l, s.metadata = .occupied ∧ s.key = k ∧ s.value = v
  | [], acc, hf, _, _, _ => ⟨acc, rfl, hf, by simp, fun k v => by simp⟩
  | s :: l, acc, hf, hsize, hkeys, hpw => by
    rw [List.pairwise_cons] at hpw
    rw [List.foldlM_cons]
    by_cases ho : s.metadata = .occupied
    · rw [List.countP_cons_of_pos (by simp [ho])] at hsize
      obtain ⟨hhash, habs⟩ := hkeys s (List.mem_cons_self ..) ho
      have hsmall : acc.size < cap * 7 / 10 := by omega
      obtain ⟨t₁, i, hplace, hf₁, hsize₁, hholds₁⟩ := hf.place (by omega : acc.size < cap) habs s.value
      have hgrow : acc.needsGrowth = false := by
        rw [needsGrowth, decide_eq_false_iff_not, hf.capacity]; omega
      have hkeys₁ : ∀ s' ∈ l, s'.metadata = .occupied →
          s'.hash = hasher s'.key ∧ ∀ j, ¬ t₁.Live j s'.key := by
        intro s' hs' ho'
        refine ⟨(hkeys s' (List.mem_cons_of_mem _ hs') ho').1, fun j hl => ?_⟩
        rcases (hholds₁ _ _).mp ⟨j, hl, rfl⟩ with ⟨j', hl', _⟩ | ⟨hk, _⟩
        · exact (hkeys s' (List.mem_cons_of_mem _ hs') ho').2 j' hl'
        · exact hpw.1 s' hs' ho ho' hk
      obtain ⟨t', hrun, hf', hsize', hholds'⟩ := rehash_loop depth l t₁ hf₁ (by omega) hkeys₁ hpw.2
      refine ⟨t', ?_, hf', ?_, fun k v => ?_⟩
      · rw [if_pos ho, insertRec, hgrow, if_neg Bool.false_ne_true, hhash, hplace]
        exact hrun
      · rw [List.countP_cons_of_pos (by simp [ho]), hsize', hsize₁]; omega
      · rw [hholds', hholds₁, List.exists_mem_cons_iff, or_assoc]
        simp [ho]
    · rw [List.countP_cons_of_neg (by simp [ho])] at hsize ⊢
      obtain ⟨t', hrun, hf', hsize', hholds'⟩ := rehash_loop depth l acc hf hsize
        (fun s' hs' => hkeys s' (List.mem_cons_of_mem _ hs')) hpw.2
      refine ⟨t', ?_, hf', hsize', fun k v => ?_⟩
      · rw [if_neg ho]; exact hrun
      · rw [hholds', List.exists_mem_cons_iff]; simp [ho]

/-- The keys of the occupied slots are pairwise different. -/
theorem Core.pairwise {hasher : K → UInt64} {t : FlatMap K V} (hc : Core hasher t) :
    t.slots.Pairwise (fun a b => a.metadata = .occupied → b.metadata = .occupied → a.key ≠ b.key) := by
  rw [List.pairwise_iff_getElem]
  intro i j hi hj hij hoi hoj hkey
  have hli : t.Live i t.slots[i].key := ⟨hi, by rw [slotAt_of_lt hi]; exact hoi, by
    rw [slotAt_of_lt hi]⟩
  have hlj : t.Live j t.slots[i].key := ⟨hj, by rw [slotAt_of_lt hj]; exact hoj, by
    rw [slotAt_of_lt hj, hkey]⟩
  exact absurd (hc.unique i j _ hli hlj) (Nat.ne_of_lt hij)

theorem holds_iff_mem {t : FlatMap K V} {k : K} {v : V} :
    t.Holds k v ↔ ∃ s ∈ t.slots, s.metadata = .occupied ∧ s.key = k ∧ s.value = v := by
  constructor
  · rintro ⟨i, ⟨hi, ho, hk⟩, hv⟩
    exact ⟨t.slotAt i, by rw [slotAt_of_lt hi]; exact List.getElem_mem _, ho, hk, hv⟩
  · rintro ⟨s, hs, ho, hk, hv⟩
    obtain ⟨i, hi, rfl⟩ := List.getElem_of_mem hs
    rw [← slotAt_of_lt hi] at ho hk hv
    exact ⟨i, ⟨hi, ho, hk⟩, hv⟩

/-- A larger power of two is at least twice as large. -/
theorem two_mul_le_of_grows {cap newCap k : ℕ} (hpow : cap = 0 ∨ ∃ m, cap = 2 ^ m)
    (hcap : 2 * cap ≤ newCap ∨ cap < newCap) (hle : newCap ≤ 2 ^ k) : 2 * cap ≤ 2 ^ k := by
  rcases hcap with h2 | hlt
  · exact le_trans h2 hle
  · rcases hpow with h0 | ⟨m, hm⟩
    · rw [h0]; omega
    · have hmk : m < k := (Nat.pow_lt_pow_iff_right (by norm_num : 1 < 2)).mp
        (hm ▸ lt_of_lt_of_le hlt hle)
      calc 2 * cap = 2 ^ (m + 1) := by rw [hm, pow_succ, Nat.mul_comm]
        _ ≤ 2 ^ k := Nat.pow_le_pow_right (by norm_num) hmk

/-- `rehash` to at least twice the size returns, keeps the entries and leaves no tombstone. -/
theorem rehash_correct {hasher : K → UInt64} {t : FlatMap K V} (hc : Core hasher t) {newCap : ℕ}
    (hcap : 2 * t.capacity ≤ newCap ∨ t.capacity < newCap) (depth : ℕ) :
    ∃ t' cap, rehashWith (insertRec (depth + 1)) t newCap = some t' ∧ Fresh hasher cap t' ∧
      t'.size = t.size ∧ 2 * t.size ≤ cap ∧ 16 ≤ cap ∧ newCap ≤ cap ∧ ∀ k v, t'.Holds k v ↔ t.Holds k v := by
  obtain ⟨k, hk, hle⟩ := roundUpPow2_spec (max newCap 16)
  have hsize : t.size ≤ t.capacity := hc.size ▸ List.countP_le_length
  have h16 : 16 ≤ 2 ^ k := le_trans (le_max_right _ _) hle
  have hnew : newCap ≤ 2 ^ k := le_trans (le_max_left _ _) hle
  have hdouble := two_mul_le_of_grows hc.pow2 hcap hnew
  have hkeys : ∀ s ∈ t.slots, s.metadata = .occupied → s.hash = hasher s.key ∧
      ∀ i, ¬ (⟨List.replicate (2 ^ k) blank, 0⟩ : FlatMap K V).Live i s.key := by
    intro s hs ho
    obtain ⟨i, hi, rfl⟩ := List.getElem_of_mem hs
    rw [← slotAt_of_lt hi] at ho ⊢
    exact ⟨hc.hash i _ ⟨hi, ho, rfl⟩, fun j hl => blank_holds ⟨j, hl, rfl⟩⟩
  obtain ⟨t', hrun, hf, hsize', hholds⟩ := rehash_loop depth t.slots
    ⟨List.replicate (2 ^ k) blank, 0⟩ (fresh_replicate hasher rfl)
    (by rw [← hc.size]; simp only; omega) hkeys hc.pairwise
  refine ⟨t', 2 ^ k, by rw [rehashWith, hk]; exact hrun, hf, ?_, by omega, h16, hnew, fun k v => ?_⟩
  · rw [hsize', ← hc.size]; simp
  · rw [hholds, holds_iff_mem (t := t)]
    exact or_iff_right blank_holds

/-! ### Iteration -/

/-- The pairs stored in the occupied slots, in slot order. -/
def pairs (l : List (Slot K V)) : List (K × V) :=
  l.filterMap fun s => if s.metadata = .occupied then some (s.key, s.value) else none

theorem iterateFrom_eq {t : FlatMap K V} : ∀ {fuel idx : ℕ}, t.capacity ≤ fuel + idx →
    t.iterateFrom fuel (t.advancePastEmpty idx) = pairs (t.slots.drop idx)
  | 0, idx, h => by
    rw [List.drop_eq_nil_of_le (by simpa [capacity] using h)]; rfl
  | fuel + 1, idx, h => by
    -- the gap of slots the iterator skips, and what is left after it
    have hgap := List.takeWhile_append_dropWhile (p := fun s : Slot K V =>
      decide (s.metadata ≠ .occupied)) (l := t.slots.drop idx)
    have hdrop : t.slots.drop (t.advancePastEmpty idx) =
        (t.slots.drop idx).dropWhile fun s => decide (s.metadata ≠ .occupied) := by
      rw [advancePastEmpty, ← List.drop_drop]
      exact (congrArg _ hgap.symm).trans List.drop_left
    have hskip : pairs (t.slots.drop idx) = pairs (t.slots.drop (t.advancePastEmpty idx)) := by
      conv_lhs => rw [← hgap]
      rw [hdrop, pairs, List.filterMap_append]
      refine List.append_left_eq_self.mpr (List.filterMap_eq_nil_iff.mpr fun s hs => ?_)
      have := List.mem_takeWhile_imp hs
      rw [decide_eq_true_iff] at this
      exact if_neg this
    rw [hskip, iterateFrom]
    by_cases hlt : t.advancePastEmpty idx < t.capacity
    · have hocc : (t.slotAt (t.advancePastEmpty idx)).metadata = .occupied := by
        have hcons := List.drop_eq_getElem_cons hlt
        rw [hdrop] at hcons
        have hhead := List.head?_dropWhile_not (fun s : Slot K V =>
          decide (s.metadata ≠ .occupied)) (t.slots.drop idx)
        rw [hcons] at hhead
        rw [slotAt_of_lt hlt]
        simpa using hhead
      rw [if_pos hlt, List.drop_eq_getElem_cons hlt, pairs, List.filterMap_cons, ← slotAt_of_lt hlt, if_pos hocc]
      have hge : idx ≤ t.advancePastEmpty idx := Nat.le_add_right _ _
      exact congrArg _ (iterateFrom_eq (by omega))
    · rw [if_neg hlt, List.drop_eq_nil_of_le (by simpa [capacity] using hlt)]; rfl

theorem entries_eq (t : FlatMap K V) : t.entries = pairs t.slots := by
  rw [entries, iterateFrom_eq (Nat.le_add_right _ _), List.drop_zero]

theorem mem_entries {t : FlatMap K V} {k : K} {v : V} : (k, v) ∈ t.entries ↔ t.Holds k v := by
  rw [entries_eq, pairs, List.mem_filterMap, holds_iff_mem]
  constructor
  · rintro ⟨s, hs, h⟩
    split at h
    · next ho =>
      obtain ⟨rfl, rfl⟩ : s.key = k ∧ s.value = v := by simpa using h
      exact ⟨s, hs, ho, rfl, rfl⟩
    · simp at h
  · rintro ⟨s, hs, ho, rfl, rfl⟩
    exact ⟨s, hs, if_pos ho⟩

theorem Core.nodup_entries {hasher : K → UInt64} {t : FlatMap K V} (hc : Core hasher t) :
    (t.entries.map Prod.fst).Nodup := by
  rw [entries_eq, List.Nodup, List.pairwise_map, pairs, List.pairwise_filterMap]
  refine hc.pairwise.imp fun {a b} hab x hx y hy => ?_
  by_cases ha : a.metadata = .occupied
  · by_cases hb : b.metadata = .occupied
    · rw [if_pos ha, Option.some.injEq] at hx
      rw [if_pos hb, Option.some.injEq] at hy
      subst hx hy
      exact hab ha hb
    · simp [hb] at hy
  · simp [ha] at hx

theorem Core.length_entries {hasher : K → UInt64} {t : FlatMap K V} (hc : Core hasher t) :
    t.entries.length = t.size := by
  rw [hc.size, entries_eq, pairs, List.countP_eq_length_filter]
  induction t.slots with
  | nil => rfl
  | cons s l ih =>
    by_cases ho : s.metadata = .occupied
    · simp [ho, ih]
    · simp [ho, ih]

/-! ### The abstract map and the safe steps -/

/-- The finite map the container stands for. -/
abbrev Spec (K V : Type) := Finmap fun _ : K => V

/-- What a call does to the finite map. -/
def specStep (m : Spec K V) : Op K V → Spec K V
  | .insert k v => m.insert k v
  | .index k (some v) => m.insert k v
  | .index k none => if k ∈ m then m else m.insert k default
  | .erase k => m.erase k
  | .clear => ∅
  | .reserve _ => m
  | .get _ => m

def specRun (ops : List (Op K V)) : Spec K V := ops.foldl specStep ∅

/-- The claim about one state: look-ups, size and iteration are those of the finite map. -/
structure Refines (hasher : K → UInt64) (t : FlatMap K V) (m : Spec K V) : Prop where
  get : ∀ k, t.get hasher k = some (m.lookup k)
  size : t.size = m.keys.card
  iterateOnce : (t.entries.map Prod.fst).Nodup
  iterate : ∀ k v, (k, v) ∈ t.entries ↔ m.lookup k = some v

/-- `insert` would not overwrite the live key: its probe loop stops at a tombstone before it. -/
def TombstoneBefore (t : FlatMap K V) (key : K) (hash : UInt64) : Prop :=
  ∃ found ∈ t.findSlot key hash, ∃ i ∈ found, t.insertionSlot key hash ≠ some i

/-- `insert` would write the only EMPTY slot of the table. -/
def TakesLastEmpty (t : FlatMap K V) (key : K) (hash : UInt64) : Prop :=
  ∃ i ∈ t.insertionSlot key hash, (t.slotAt i).metadata = .empty ∧
    ∀ j < t.capacity, (t.slotAt j).metadata = .empty → j = i

/-- The condition on one insertion: it grows the table, or neither slip happens. -/
def InsertSafe (t : FlatMap K V) (key : K) (hash : UInt64) : Prop :=
  t.needsGrowth = false → ¬ t.TombstoneBefore key hash ∧ ¬ t.TakesLastEmpty key hash

instance (t : FlatMap K V) (key : K) (hash : UInt64) : Decidable (t.InsertSafe key hash) :=
  inferInstanceAs (Decidable (t.needsGrowth = false →
    ¬ (∃ found ∈ t.findSlot key hash, ∃ i ∈ found, t.insertionSlot key hash ≠ some i) ∧
    ¬ ∃ i ∈ t.insertionSlot key hash, (t.slotAt i).metadata = .empty ∧
      ∀ j < t.capacity, (t.slotAt j).metadata = .empty → j = i))

/-- The condition on a step; only the calls that insert have one. -/
def StepSafe (hasher : K → UInt64) (t : FlatMap K V) : Op K V → Prop
  | .insert k _ => t.InsertSafe k (hasher k)
  | .index k _ => t.findSlot k (hasher k) = some none → t.InsertSafe k (hasher k)
  | .erase _ => True
  | .clear => True
  | .reserve _ => True
  | .get _ => True

instance (hasher : K → UInt64) (t : FlatMap K V) : (op : Op K V) → Decidable (StepSafe hasher t op)
  | .insert k _ => inferInstanceAs (Decidable (t.InsertSafe k (hasher k)))
  | .index k _ => inferInstanceAs
      (Decidable (t.findSlot k (hasher k) = some none → t.InsertSafe k (hasher k)))
  | .erase _ => .isTrue trivial
  | .clear => .isTrue trivial
  | .reserve _ => .isTrue trivial
  | .get _ => .isTrue trivial

/-- Every step of the run is safe in the state it starts from. -/
def RunSafe (hasher : K → UInt64) : FlatMap K V → List (Op K V) → Prop
  | _, [] => True
  | t, op :: ops => StepSafe hasher t op ∧ ∀ t' ∈ step hasher t op, RunSafe hasher t' ops

instance decidableRunSafe (hasher : K → UInt64) :
    (t : FlatMap K V) → (ops : List (Op K V)) → Decidable (RunSafe hasher t ops)
  | _, [] => .isTrue trivial
  | t, op :: ops =>
    have := fun t' => decidableRunSafe hasher t' ops
    inferInstanceAs (Decidable (StepSafe hasher t op ∧ ∀ t' ∈ step hasher t op, RunSafe hasher t' ops))

/-- `find_slot` that has not stopped after one round never stops. -/
theorem findSlot_diverges {t : FlatMap K V} (hpow : t.capacity = 0 ∨ ∃ k, t.capacity = 2 ^ k) {key : K}
    {hash : UInt64} (hnone : t.findSlot key hash = none) (fuel : ℕ) : scan (nextSlot t.capacity)
      (fun idx => decide ((t.slotAt idx).metadata = .empty) || t.hit key hash idx)
      fuel (probe hash t.capacity) = none := by
  rw [findSlot] at hnone
  split at hnone
  · simp at hnone
  · next h0 =>
    have hpos := Nat.pos_of_ne_zero h0
    refine scan_none_of_period hpos le_rfl ?_ (Option.map_eq_none_iff.mp hnone) fuel
    rw [walk_eq hpow hpos, Nat.add_mod_right,
      Nat.mod_eq_of_lt (probe_lt hpos (hpow.resolve_left (Nat.pos_iff_ne_zero.mp hpos)))]

/-! ### One step -/

/-- The invariant of a run: probe chains, an EMPTY slot, and the content of the finite map. -/
structure Good (hasher : K → UInt64) (t : FlatMap K V) (m : Spec K V) : Prop where
  core : Core hasher t
  room : t.HasRoom
  content : ∀ k v, m.lookup k = some v ↔ t.Holds k v

theorem Good.refines {hasher : K → UInt64} {t : FlatMap K V} {m : Spec K V}
    (hg : Good hasher t m) : Refines hasher t m where
  get := fun k => hg.core.get_eq hg.room fun v => hg.content k v
  size := by
    have hkeys : m.keys = (t.entries.map Prod.fst).toFinset := by
      ext k
      rw [Finmap.mem_keys, Finmap.mem_iff, List.mem_toFinset, List.mem_map]
      constructor
      · rintro ⟨v, hv⟩; exact ⟨(k, v), mem_entries.mpr ((hg.content k v).mp hv), rfl⟩
      · rintro ⟨⟨k', v⟩, hmem, rfl⟩; exact ⟨v, (hg.content k' v).mpr (mem_entries.mp hmem)⟩
    rw [hkeys, List.toFinset_card_of_nodup hg.core.nodup_entries, List.length_map, hg.core.length_entries]
  iterateOnce := hg.core.nodup_entries
  iterate := fun k v => mem_entries.trans (hg.content k v).symm

theorem good_empty (hasher : K → UInt64) : Good hasher (empty : FlatMap K V) ∅ := by
  have hnone : ∀ i k, ¬ (empty : FlatMap K V).Live i k := fun i k hl => absurd hl.1 (by simp [empty])
  refine ⟨⟨Or.inl rfl, rfl, ?_, ?_, ?_⟩, Or.inl rfl, fun k v => ?_⟩
  · intro i k hl; exact absurd hl (hnone i k)
  · intro i k hl; exact absurd hl (hnone i k)
  · intro i j k hl; exact absurd hl (hnone i k)
  · rw [Finmap.lookup_empty]
    exact ⟨fun h => by simp at h, fun ⟨i, hl, _⟩ => absurd hl (hnone i k)⟩

/-- A write of `key` into slot `i`, where no other slot holds `key` and slot `i` holds no other key,
    is an insertion into the finite map. -/
theorem lookup_insert_iff {t t' : FlatMap K V} {m : Spec K V} {key : K} {value : V}
    (hcontent : ∀ k v, m.lookup k = some v ↔ t.Holds k v) (hother : ∀ k v, k ≠ key → (t'.Holds k v ↔ t.Holds k v))
    (hself : ∀ v, t'.Holds key v ↔ value = v) (k : K) (v : V) :
    (m.insert key value).lookup k = some v ↔ t'.Holds k v := by
  by_cases hk : k = key
  · subst hk
    rw [Finmap.lookup_insert, hself, Option.some.injEq]
  · rw [Finmap.lookup_insert_of_ne _ hk, hother k v hk]
    exact hcontent k v

/-- Overwriting the value of a live key. -/
theorem Good.setValue {hasher : K → UInt64} {t : FlatMap K V} {m : Spec K V}
    (hg : Good hasher t m) {key : K} {i : ℕ} (hl : t.Live i key) (value : V) :
    Good hasher (t.setValue i value) (m.insert key value) := by
  obtain ⟨hi, ho, hkey⟩ := id hl
  refine ⟨hg.core.setValue hl value, ?_, lookup_insert_iff hg.content ?_ ?_⟩
  · rcases hg.room with h0 | ⟨e, he, hempty⟩
    · exact absurd hi (by rw [h0]; exact Nat.not_lt_zero i)
    · refine Or.inr ⟨e, by rwa [FlatMap.setValue, capacity_set], ?_⟩
      have hei : e ≠ i := by rintro rfl; rw [ho] at hempty; exact SlotState.noConfusion hempty
      rw [FlatMap.setValue, slotAt_set_ne hei]
      exact hempty
  · intro k v hk
    rw [FlatMap.setValue, holds_set hi]
    constructor
    · rintro (⟨_, h, _⟩ | ⟨j, _, hlj, hv⟩)
      · exact absurd (hkey ▸ h).symm hk
      · exact ⟨j, hlj, hv⟩
    · rintro ⟨j, hlj, hv⟩
      refine Or.inr ⟨j, ?_, hlj, hv⟩
      rintro rfl
      exact hk (hlj.2.2 ▸ hkey)
  · intro v
    rw [FlatMap.setValue, holds_set hi]
    constructor
    · rintro (⟨_, _, hv⟩ | ⟨j, hj, hlj, _⟩)
      · exact hv
      · exact absurd (hg.core.unique j i key hlj hl) hj
    · intro hv; exact Or.inl ⟨ho, hkey, hv⟩

/-- Writing a new key into a free slot that is not the last EMPTY one. -/
theorem Good.new {hasher : K → UInt64} {t : FlatMap K V} {m : Spec K V} (hcore : Core hasher t)
    (hcontent : ∀ k v, m.lookup k = some v ↔ t.Holds k v) {key : K}
    (habs : ∀ i, ¬ t.Live i key) {i : ℕ} (hi : i < t.capacity) (hfree : (t.slotAt i).metadata ≠ .occupied)
    (hreach : t.Reaches (probe (hasher key) t.capacity) i)
    (hspare : ∃ e < t.capacity, e ≠ i ∧ (t.slotAt e).metadata = .empty) (value : V) :
    Good hasher ⟨t.slots.set i ⟨.occupied, key, value, hasher key⟩, t.size + 1⟩ (m.insert key value) := by
  refine ⟨hcore.new habs hi hfree hreach value, ?_, lookup_insert_iff hcontent ?_ ?_⟩
  · obtain ⟨e, he, hei, hempty⟩ := hspare
    exact Or.inr ⟨e, by rwa [capacity_set], by rwa [slotAt_set_ne hei]⟩
  · intro k v hk
    rw [holds_set hi]
    constructor
    · rintro (⟨_, h, _⟩ | ⟨j, _, hlj, hv⟩)
      · exact absurd h.symm hk
      · exact ⟨j, hlj, hv⟩
    · rintro ⟨j, hlj, hv⟩
      refine Or.inr ⟨j, ?_, hlj, hv⟩
      rintro rfl
      exact hfree hlj.2.1
  · intro v
    rw [holds_set hi]
    constructor
    · rintro (⟨_, _, hv⟩ | ⟨j, _, hlj, _⟩)
      · exact hv
      · exact absurd hlj (habs j)
    · intro hv; exact Or.inl ⟨rfl, rfl, hv⟩

/-- What `insert` returns in a good state: a good state for the updated map, the slot of the key, and
    whether the key was new. -/
structure Inserted (hasher : K → UInt64) (m : Spec K V) (key : K) (value : V)
    (r : FlatMap K V × ℕ × Bool) : Prop where
  good : Good hasher r.1 (m.insert key value)
  slot : r.1.Live r.2.1 key
  isNew : r.2.2 = true ↔ key ∉ m

theorem not_mem_of_absent {t : FlatMap K V} {m : Spec K V} {key : K}
    (hcontent : ∀ k v, m.lookup k = some v ↔ t.Holds k v) (habs : ∀ i, ¬ t.Live i key) : key ∉ m := by
  rw [Finmap.mem_iff]
  rintro ⟨v, hv⟩
  obtain ⟨i, hl, _⟩ := (hcontent key v).mp hv
  exact habs i hl

theorem inserted_live {hasher : K → UInt64} {t : FlatMap K V} {m : Spec K V}
    (hg : Good hasher t m) {key : K} {i : ℕ} (hl : t.Live i key)
    (hslot : t.insertionSlot key (hasher key) = some i) (value : V) :
    ∃ r, t.place key value (hasher key) = some r ∧ Inserted hasher m key value r := by
  refine ⟨_, place_overwrite value hslot hl.2.1, hg.setValue hl value, ?_, ?_⟩
  · rw [FlatMap.setValue]; exact (live_set hl.1).mpr (Or.inl ⟨rfl, hl.2.1, hl.2.2⟩)
  · have hmem : key ∈ m := Finmap.mem_iff.mpr ⟨_, (hg.content key _).mpr ⟨i, hl, rfl⟩⟩
    simp [hmem]

theorem inserted_new {hasher : K → UInt64} {t : FlatMap K V} {m : Spec K V} (hcore : Core hasher t)
    (hcontent : ∀ k v, m.lookup k = some v ↔ t.Holds k v) {key : K}
    (habs : ∀ i, ¬ t.Live i key) {i : ℕ} (hi : i < t.capacity) (hslot : t.insertionSlot key (hasher key) = some i)
    (hfree : (t.slotAt i).metadata ≠ .occupied) (hreach : t.Reaches (probe (hasher key) t.capacity) i)
    (hspare : ∃ e < t.capacity, e ≠ i ∧ (t.slotAt e).metadata = .empty) (value : V) :
    ∃ r, t.place key value (hasher key) = some r ∧ Inserted hasher m key value r := by
  refine ⟨_, place_new value hslot hfree, Good.new hcore hcontent habs hi hfree hreach hspare value, ?_, ?_⟩
  · exact (live_set hi).mpr (Or.inl ⟨rfl, rfl, rfl⟩)
  · simp [not_mem_of_absent hcontent habs]

/-- A table without tombstones and with two free slots has an EMPTY slot besides any given one. -/
theorem exists_spare {t : FlatMap K V} (hsize : t.size = t.slots.countP fun s => decide (s.metadata = .occupied))
    (hclean : t.NoTombstone) (hlt : t.size + 1 < t.capacity) (i : ℕ) :
    ∃ e < t.capacity, e ≠ i ∧ (t.slotAt e).metadata = .empty := by
  by_contra hall
  push Not at hall
  have hocc : ∀ j < t.capacity, j ≠ i → (t.slotAt j).metadata = .occupied := by
    intro j hj hji
    cases hst : (t.slotAt j).metadata with
    | occupied => rfl
    | empty => exact absurd hst (hall j hj hji)
    | erased => exact absurd hst (hclean j hj)
  have hset : ((t.slots.set i ⟨.occupied, default, default, 0⟩).countP
      fun s => decide (s.metadata = .occupied)) = t.capacity := by
    refine (List.countP_eq_length.mpr ?_).trans (List.length_set ..)
    intro s hs
    obtain ⟨j, hj, rfl⟩ := List.getElem_of_mem hs
    by_cases hji : j = i
    · subst hji; simp
    · rw [List.length_set] at hj
      rw [List.getElem_set_ne (Ne.symm hji), ← slotAt_of_lt hj]
      exact decide_eq_true (hocc j hj hji)
  by_cases hi : i < t.capacity
  · rw [countP_set_slot hi, ← hsize] at hset
    simp only [decide_true, if_true] at hset
    omega
  · rw [List.set_eq_of_length_le (Nat.le_of_not_lt hi), ← hsize] at hset
    omega

/-- `insert` after growing the table. -/
theorem inserted_grown {hasher : K → UInt64} {cap : ℕ} {t : FlatMap K V} {m : Spec K V}
    (hf : Fresh hasher cap t) (hsize : 2 * t.size ≤ cap) (h16 : 16 ≤ cap)
    (hcontent : ∀ k v, m.lookup k = some v ↔ t.Holds k v) (key : K) (value : V) :
    ∃ r, t.place key value (hasher key) = some r ∧ Inserted hasher m key value r := by
  have hcap := hf.capacity
  by_cases hex : ∃ i, t.Live i key
  · obtain ⟨i, hl⟩ := hex
    obtain ⟨e, he, _, hempty⟩ := exists_spare hf.core.size hf.clean (by omega) i
    exact inserted_live ⟨hf.core, Or.inr ⟨e, he, hempty⟩, hcontent⟩ hl (hf.core.insertionSlot_live hf.clean hl) value
  · obtain ⟨e, he, hfree⟩ := exists_free hf.core.size (by omega)
    obtain ⟨i, hi, hslot, hnot, hreach⟩ := hf.core.insertionSlot_absent (not_exists.mp hex) he hfree
    exact inserted_new hf.core hcontent (not_exists.mp hex) hi hslot hnot hreach
      (exists_spare hf.core.size hf.clean (by omega) i) value

/-- A safe `insert` returns and updates the finite map. -/
theorem insert_good {hasher : K → UInt64} {t : FlatMap K V} {m : Spec K V} (hg : Good hasher t m)
    {key : K} (hsafe : t.InsertSafe key (hasher key)) (value : V) :
    ∃ r, t.insert hasher key value = some r ∧ Inserted hasher m key value r := by
  rw [insert, insertRec]
  cases hgrow : t.needsGrowth with
  | true =>
    have hcap : 2 * t.capacity ≤ (if t.capacity ≠ 0 then t.capacity * 2 else 16) := by
      split <;> omega
    obtain ⟨t₁, cap, hrun, hf, hsize, hle, h16, _, hholds⟩ := rehash_correct hg.core (Or.inl hcap) 0
    rw [if_pos rfl, hrun, Option.bind_some]
    exact inserted_grown hf (hsize ▸ hle) h16 (fun k v => (hg.content k v).trans (hholds k v).symm) key value
  | false =>
    rw [if_neg Bool.false_ne_true]
    obtain ⟨hnotomb, hnolast⟩ := hsafe hgrow
    by_cases hex : ∃ i, t.Live i key
    · obtain ⟨i, hl⟩ := hex
      have hslot : t.insertionSlot key (hasher key) = some i := by
        by_contra hne
        exact hnotomb ⟨some i, hg.core.findSlot_live hl, i, rfl, hne⟩
      exact inserted_live hg hl hslot value
    · have hroom : ∃ e < t.capacity, (t.slotAt e).metadata = .empty := by
        refine hg.room.resolve_left fun h0 => ?_
        rw [needsGrowth, h0, decide_eq_false_iff_not] at hgrow
        exact hgrow (Nat.zero_le _)
      obtain ⟨e, he, hempty⟩ := hroom
      have hefree : (t.slotAt e).metadata ≠ .occupied := by rw [hempty]; exact SlotState.noConfusion
      obtain ⟨i, hi, hslot, hnot, hreach⟩ := hg.core.insertionSlot_absent (not_exists.mp hex) he hefree
      refine inserted_new hg.core hg.content (not_exists.mp hex) hi hslot hnot hreach ?_ value
      -- the EMPTY slot that remains: the known one, or another when `insert` takes that one
      by_cases hei : e = i
      · subst hei
        by_contra hall
        push Not at hall
        exact hnolast ⟨e, hslot, hempty, fun j hj hje => by
          by_contra hne; exact hall j hj hne hje⟩
      · exact ⟨e, he, hei, hempty⟩

theorem erase_good {hasher : K → UInt64} {t : FlatMap K V} {m : Spec K V} (hg : Good hasher t m)
    (key : K) : ∃ t', t.erase hasher key = some t' ∧ Good hasher t' (m.erase key) := by
  by_cases hex : ∃ i, t.Live i key
  · obtain ⟨i, hl⟩ := hex
    obtain ⟨hi, ho, hkey⟩ := id hl
    refine ⟨_, by rw [erase, hg.core.findSlot_live hl]; rfl, hg.core.erased hl, ?_, fun k v => ?_⟩
    · rcases hg.room with h0 | ⟨e, he, hempty⟩
      · exact absurd hi (by rw [h0]; exact Nat.not_lt_zero i)
      · have hei : e ≠ i := by rintro rfl; rw [ho] at hempty; exact SlotState.noConfusion hempty
        exact Or.inr ⟨e, by rwa [capacity_set], by rwa [slotAt_set_ne hei]⟩
    · rw [holds_set hi]
      have hno : ∀ w, ¬ (({ t.slotAt i with metadata := .erased } : Slot K V).metadata = .occupied ∧ w) :=
        fun w h => SlotState.noConfusion h.1
      rw [or_iff_right (hno _)]
      by_cases hk : k = key
      · subst hk
        rw [Finmap.lookup_erase]
        refine ⟨fun h => by simp at h, fun ⟨j, hj, hlj, _⟩ => ?_⟩
        exact absurd (hg.core.unique j i k hlj hl) hj
      · rw [Finmap.lookup_erase_ne hk, hg.content]
        constructor
        · rintro ⟨j, hlj, hv⟩
          refine ⟨j, ?_, hlj, hv⟩
          rintro rfl
          exact hk (hlj.2.2 ▸ hkey)
        · rintro ⟨j, _, hlj, hv⟩; exact ⟨j, hlj, hv⟩
  · have habs := not_exists.mp hex
    refine ⟨t, by rw [erase, hg.core.findSlot_absent hg.room habs]; rfl, ?_⟩
    have hsame : m.erase key = m := by
      refine Finmap.ext_lookup fun k => ?_
      by_cases hk : k = key
      · subst hk
        rw [Finmap.lookup_erase, Finmap.lookup_eq_none.mpr (not_mem_of_absent hg.content habs)]
      · exact Finmap.lookup_erase_ne hk
    rwa [hsame]

theorem clear_good {hasher : K → UInt64} {t : FlatMap K V} {m : Spec K V} (hg : Good hasher t m) :
    Good hasher t.clear ∅ := by
  have hcap : t.clear.capacity = t.capacity := by simp [clear, capacity]
  have hempty : ∀ i < t.capacity, (t.clear.slotAt i).metadata = .empty := by
    intro i hi
    have hlt : i < t.clear.slots.length := lt_of_lt_of_eq hi hcap.symm
    rw [slotAt_of_lt hlt]
    simp [clear]
  have hnone : ∀ i k, ¬ t.clear.Live i k := by
    rintro i k ⟨hi, ho, _⟩
    rw [hempty i (hcap ▸ hi)] at ho
    exact SlotState.noConfusion ho
  refine ⟨⟨by rw [hcap]; exact hg.core.pow2, ?_, ?_, ?_, ?_⟩, ?_, fun k v => ?_⟩
  · simp [clear, List.countP_map, Function.comp_def]
  · intro i k hl; exact absurd hl (hnone i k)
  · intro i k hl; exact absurd hl (hnone i k)
  · intro i j k hl; exact absurd hl (hnone i k)
  · rcases hg.room with h0 | ⟨e, he, _⟩
    · exact Or.inl (hcap.trans h0)
    · exact Or.inr ⟨e, by rwa [hcap], hempty e he⟩
  · rw [Finmap.lookup_empty]
    refine ⟨fun h => by simp at h, ?_⟩
    rintro ⟨i, hl, -⟩
    exact absurd hl (hnone i k)

theorem reserve_good {hasher : K → UInt64} {t : FlatMap K V} {m : Spec K V} (hg : Good hasher t m)
    (cap : ℕ) : ∃ t', t.reserve cap = some t' ∧ Good hasher t' m := by
  rw [reserve]
  by_cases hlt : t.capacity < cap
  · obtain ⟨t', c, hrun, hf, hsize, hle, h16, _, hholds⟩ :=
      rehash_correct hg.core (Or.inr hlt) 0
    have hcap := hf.capacity
    obtain ⟨e, he, _, hempty⟩ := exists_spare hf.core.size hf.clean (by omega) c
    refine ⟨t', by rw [if_pos hlt]; exact hrun, hf.core, Or.inr ⟨e, he, hempty⟩, fun k v => ?_⟩
    exact (hg.content k v).trans (hholds k v).symm
  · exact ⟨t, if_neg hlt, hg⟩

/-- Step lemma: a safe step returns and does to the table what it does to the finite map. -/
theorem step_good {hasher : K → UInt64} {t : FlatMap K V} {m : Spec K V} (hg : Good hasher t m) :
    ∀ (op : Op K V), StepSafe hasher t op → ∃ t', step hasher t op = some t' ∧ Good hasher t' (specStep m op)
  | .insert k v, hsafe => by
    obtain ⟨r, hrun, hins⟩ := insert_good hg hsafe v
    exact ⟨r.1, by rw [step, hrun]; rfl, hins.good⟩
  | .index k write, hsafe => by
    by_cases hex : ∃ i, t.Live i k
    · obtain ⟨i, hl⟩ := hex
      have hmem : k ∈ m := Finmap.mem_iff.mpr ⟨_, (hg.content k _).mpr ⟨i, hl, rfl⟩⟩
      have hrun : t.index hasher k = some (t, i) := by
        rw [index, hg.core.findSlot_live hl]; rfl
      cases write with
      | none => exact ⟨t, by rw [step, hrun]; rfl, by rw [specStep, if_pos hmem]; exact hg⟩
      | some v => exact ⟨t.setValue i v, by rw [step, hrun]; rfl, hg.setValue hl v⟩
    · have habs := not_exists.mp hex
      have hfind := hg.core.findSlot_absent hg.room habs
      obtain ⟨r, hrun, hins⟩ := insert_good hg (hsafe hfind) default
      have hindex : t.index hasher k = some (r.1, r.2.1) := by rw [index, hfind]; simp [hrun]
      cases write with
      | none =>
        refine ⟨r.1, by rw [step, hindex]; rfl, ?_⟩
        rw [specStep, if_neg (not_mem_of_absent hg.content habs)]
        exact hins.good
      | some v =>
        refine ⟨r.1.setValue r.2.1 v, by rw [step, hindex]; rfl, ?_⟩
        have hset := hins.good.setValue hins.slot v
        rwa [Finmap.insert_insert] at hset
  | .erase k, _ => erase_good hg k
  | .clear, _ => ⟨t.clear, rfl, clear_good hg⟩
  | .reserve cap, _ => reserve_good hg cap
  | .get k, _ => ⟨t, by rw [step, hg.refines.get k]; rfl, hg⟩

/-- Run lemma: a run of safe steps returns in a good state. -/
theorem run_good {hasher : K → UInt64} : ∀ (ops : List (Op K V)) {t : FlatMap K V} {m : Spec K V},
    Good hasher t m → RunSafe hasher t ops → ∃ t', run hasher t ops = some t' ∧ Good hasher t' (ops.foldl specStep m)
  | [], t, _, hg, _ => ⟨t, rfl, hg⟩
  | op :: ops, t, m, hg, hsafe => by
    obtain ⟨t₁, hstep, hg₁⟩ := step_good hg op hsafe.1
    obtain ⟨t', hrun, hg'⟩ := run_good ops hg₁ (hsafe.2 t₁ hstep)
    exact ⟨t', by rw [run, List.foldlM_cons, hstep]; exact hrun, hg'⟩

end FlatMap

/-! ### The set -/

namespace FlatSet
open FlatMap (Good Core)

variable {K : Type} [Inhabited K] [DecidableEq K]

/-- What a call does to the finite set. -/
def specStep (s : Finset K) : Op K → Finset K
  | .insert k => Insert.insert k s
  | .erase k => s.erase k
  | .clear => ∅
  | .reserve _ => s
  | .contains _ => s

def specRun (ops : List (Op K)) : Finset K := ops.foldl specStep ∅

/-- The claim about one state of the set. -/
structure Refines (hasher : K → UInt64) (t : FlatSet K) (s : Finset K) : Prop where
  contains : ∀ k, contains hasher t k = some (decide (k ∈ s))
  size : t.size = s.card
  iterateOnce : (elements t).Nodup
  iterate : ∀ k, k ∈ elements t ↔ k ∈ s

/-- The condition on a step; only `insert` has one. -/
def StepSafe (hasher : K → UInt64) (t : FlatSet K) : Op K → Prop
  | .insert k => t.InsertSafe k (hasher k)
  | .erase _ => True
  | .clear => True
  | .reserve _ => True
  | .contains _ => True

instance (hasher : K → UInt64) (t : FlatSet K) : (op : Op K) → Decidable (StepSafe hasher t op)
  | .insert k => inferInstanceAs (Decidable (t.InsertSafe k (hasher k)))
  | .erase _ => .isTrue trivial
  | .clear => .isTrue trivial
  | .reserve _ => .isTrue trivial
  | .contains _ => .isTrue trivial

/-- Every step of the run is safe in the state it starts from. -/
def RunSafe (hasher : K → UInt64) : FlatSet K → List (Op K) → Prop
  | _, [] => True
  | t, op :: ops => StepSafe hasher t op ∧ ∀ t' ∈ step hasher t op, RunSafe hasher t' ops

instance decidableRunSafe (hasher : K → UInt64) :
    (t : FlatSet K) → (ops : List (Op K)) → Decidable (RunSafe hasher t ops)
  | _, [] => .isTrue trivial
  | t, op :: ops =>
    have := fun t' => decidableRunSafe hasher t' ops
    inferInstanceAs (Decidable (StepSafe hasher t op ∧ ∀ t' ∈ step hasher t op, RunSafe hasher t' ops))

/-- The table of a set is good for the finite map with the same keys. -/
def GoodSet (hasher : K → UInt64) (t : FlatSet K) (s : Finset K) : Prop :=
  ∃ m : FlatMap.Spec K Unit, Good hasher t m ∧ m.keys = s

theorem GoodSet.refines {hasher : K → UInt64} {t : FlatSet K} {s : Finset K}
    (hg : GoodSet hasher t s) : Refines hasher t s := by
  obtain ⟨m, hm, rfl⟩ := hg
  have hr := hm.refines
  refine ⟨fun k => ?_, hr.size, hr.iterateOnce, fun k => ?_⟩
  · have hget := hr.get k
    rw [FlatMap.get, Option.map_eq_some_iff] at hget
    obtain ⟨r, hfind, hlookup⟩ := hget
    rw [FlatSet.contains, hfind, Option.map_some, Option.some.injEq, Bool.eq_iff_iff,
      decide_eq_true_iff, Finmap.mem_keys, ← Finmap.lookup_isSome, ← hlookup, Option.isSome_map]
  · rw [elements, List.mem_map, Finmap.mem_keys, Finmap.mem_iff]
    constructor
    · rintro ⟨⟨k', v⟩, hmem, hk⟩
      exact ⟨v, hk ▸ (hr.iterate k' v).mp hmem⟩
    · rintro ⟨v, hv⟩
      exact ⟨(k, v), (hr.iterate k v).mpr hv, rfl⟩

theorem keys_insert (m : FlatMap.Spec K Unit) (k : K) : (m.insert k ()).keys = Insert.insert k m.keys := by
  ext a
  rw [Finmap.mem_keys, Finmap.mem_insert, Finset.mem_insert, Finmap.mem_keys]

theorem insert_good {hasher : K → UInt64} {t : FlatSet K} {s : Finset K} (hg : GoodSet hasher t s)
    {k : K} (hsafe : t.InsertSafe k (hasher k)) :
    ∃ t' isNew, insert hasher t k = some (t', isNew) ∧ (isNew = true ↔ k ∉ s) ∧
      GoodSet hasher t' (Insert.insert k s) := by
  obtain ⟨m, hm, rfl⟩ := hg
  obtain ⟨r, hrun, hins⟩ := FlatMap.insert_good hm hsafe ()
  exact ⟨r.1, r.2.2, by rw [FlatSet.insert, hrun]; rfl, by rw [hins.isNew, Finmap.mem_keys],
    _, hins.good, keys_insert m k⟩

/-- Step lemma for the set. -/
theorem step_good {hasher : K → UInt64} {t : FlatSet K} {s : Finset K} (hg : GoodSet hasher t s) :
    ∀ (op : Op K), StepSafe hasher t op → ∃ t', step hasher t op = some t' ∧ GoodSet hasher t' (specStep s op)
  | .insert k, hsafe => by
    obtain ⟨t', isNew, hrun, _, hg'⟩ := insert_good hg hsafe
    exact ⟨t', by rw [step, hrun]; rfl, hg'⟩
  | .erase k, _ => by
    obtain ⟨m, hm, rfl⟩ := hg
    obtain ⟨t', hrun, hm'⟩ := FlatMap.erase_good hm k
    exact ⟨t', hrun, _, hm', Finmap.keys_erase k m⟩
  | .clear, _ => by
    obtain ⟨m, hm, rfl⟩ := hg
    exact ⟨t.clear, rfl, ∅, FlatMap.clear_good hm, Finmap.keys_empty⟩
  | .reserve cap, _ => by
    obtain ⟨m, hm, rfl⟩ := hg
    obtain ⟨t', hrun, hm'⟩ := FlatMap.reserve_good hm cap
    exact ⟨t', hrun, m, hm', rfl⟩
  | .contains k, _ => ⟨t, by rw [step, hg.refines.contains k]; rfl, hg⟩

/-- Run lemma for the set. -/
theorem run_good {hasher : K → UInt64} : ∀ (ops : List (Op K)) {t : FlatSet K} {s : Finset K},
    GoodSet hasher t s → RunSafe hasher t ops →
      ∃ t', run hasher t ops = some t' ∧ GoodSet hasher t' (ops.foldl specStep s)
  | [], t, _, hg, _ => ⟨t, rfl, hg⟩
  | op :: ops, t, s, hg, hsafe => by
    obtain ⟨t₁, hstep, hg₁⟩ := step_good hg op hsafe.1
    obtain ⟨t', hrun, hg'⟩ := run_good ops hg₁ (hsafe.2 t₁ hstep)
    exact ⟨t', by rw [run, List.foldlM_cons, hstep]; exact hrun, hg'⟩

end FlatSet

/-! ### The refinement over runs -/

/-- CORRECT on safe runs: a run from the empty container whose insertions neither stop at a tombstone
    before a live key nor take the last EMPTY slot returns, and its final state refines the finite map
    (the finite set). Every prefix of such a run is one, so this speaks of every state reached. -/
theorem flatMap_run_refines {K V : Type} [Inhabited K] [Inhabited V] [DecidableEq K]
    (hasher : K → UInt64) (ops : List (FlatMap.Op K V)) (setOps : List (FlatSet.Op K))
    (hops : FlatMap.RunSafe hasher FlatMap.empty ops) (hsetOps : FlatSet.RunSafe hasher FlatMap.empty setOps) :
    (∃ t, FlatMap.run hasher FlatMap.empty ops = some t ∧ FlatMap.Refines hasher t (FlatMap.specRun ops)) ∧
    (∃ t, FlatSet.run hasher FlatMap.empty setOps = some t ∧ FlatSet.Refines hasher t (FlatSet.specRun setOps)) := by
  obtain ⟨t, hrun, hg⟩ := FlatMap.run_good ops (FlatMap.good_empty hasher) hops
  obtain ⟨t', hrun', hg'⟩ := FlatSet.run_good setOps ⟨∅, FlatMap.good_empty hasher, Finmap.keys_empty⟩ hsetOps
  exact ⟨⟨t, hrun, hg.refines⟩, ⟨t', hrun', hg'.refines⟩⟩

/-- Four keys that all collide, an erased one, a re-insertion after it, and the set likewise. -/
theorem flatMap_run_refines_colliding : let hasher : ℕ → UInt64 := fun _ => 0
    (∃ t, FlatMap.run hasher FlatMap.empty
        [.insert 1 10, .insert 2 20, .index 2 (some 21), .erase 2, .index 3 none, .get 2] = some t ∧
      FlatMap.Refines hasher t (FlatMap.specRun
        [.insert 1 10, .insert 2 20, .index 2 (some 21), .erase 2, .index 3 none, .get 2])) ∧
    (∃ t, FlatSet.run hasher FlatMap.empty [.insert 1, .insert 2, .erase 1, .contains 2] = some t ∧
      FlatSet.Refines hasher t (FlatSet.specRun [.insert 1, .insert 2, .erase 1, .contains 2])) :=
  flatMap_run_refines (V := ℕ) (fun _ => 0) _ _ (by decide) (by decide)

/-- The unrestricted refinement fails in two ways. Colliding keys: re-inserting 2 after erasing 1
    writes a second copy, so erasing 2 brings its old value back. Tombstones: sixteen insertions with
    erasures leave no EMPTY slot, and looking up an absent key never returns. -/
theorem flatMap_refinement_fails :
    (¬ ∀ ops : List (FlatMap.Op ℕ ℕ), ∃ t, FlatMap.run (fun _ => 0) FlatMap.empty ops = some t ∧
      FlatMap.Refines (fun _ => 0) t (FlatMap.specRun ops)) ∧
    (¬ ∀ ops : List (FlatMap.Op ℕ ℕ), ∃ t, FlatMap.run UInt64.ofNat FlatMap.empty ops = some t ∧
      FlatMap.Refines UInt64.ofNat t (FlatMap.specRun ops)) := by
  constructor
  · intro hall
    obtain ⟨t, hrun, href⟩ := hall [.insert 1 10, .insert 2 20, .erase 1, .insert 2 21, .erase 2]
    have hget := href.get 2
    have hstale : (FlatMap.run (fun _ => 0) (FlatMap.empty : FlatMap ℕ ℕ)
        [.insert 1 10, .insert 2 20, .erase 1, .insert 2 21, .erase 2]).bind
        (fun t => t.get (fun _ => 0) 2) = some (some 20) := by decide
    rw [hrun, Option.bind_some, hget] at hstale
    simp [FlatMap.specRun, FlatMap.specStep, Finmap.lookup_erase] at hstale
  · intro hall
    obtain ⟨t, hrun, _⟩ := hall (((List.range 16).flatMap fun k => [.insert k k, .erase k]) ++ [.get 16])
    have hhang : FlatMap.run UInt64.ofNat (FlatMap.empty : FlatMap ℕ ℕ)
        (((List.range 16).flatMap fun k => [.insert k k, .erase k]) ++ [.get 16]) = none := by
      decide +kernel
    rw [hhang] at hrun
    simp at hrun

end Zith.Memory
