import Zith.Lib.Run
import Zith.Memory.FlatMapRefinement

/-! Do the probe loops of `FlatMap` and `FlatSet` always stop? `find_slot` stops at the key or at an
    EMPTY slot, so the look-up of an absent key stops exactly as long as the table keeps an EMPTY slot.
    `erase` leaves a tombstone and `insert` compares `size_`, which tombstones do not count, with the
    capacity; so insertions and erasures that take turns use up every EMPTY slot without a `rehash`.
    One call in a run does the damage: an insertion that does not grow the table and comes, past
    occupied slots only, to the last EMPTY slot (`FillsLast`).

        size_ < capacity * 7 / 10, and on the probe walk of the key:
        OCCUPIED  OCCUPIED  ...  OCCUPIED  EMPTY      (every other slot OCCUPIED or ERASED) -/

set_option linter.unusedSectionVars false

namespace Zith.Memory
open Zith.Lib

namespace FlatMap

variable {K V : Type} [Inhabited K] [Inhabited V] [DecidableEq K]

/-- The slot `d` places along the walk of a hash. -/
def walk (t : FlatMap K V) (hash : UInt64) (d : ℕ) : ℕ := (probe hash t.capacity + d) % t.capacity

/-- `insert` takes the last EMPTY slot: it does not grow the table, that slot is the first on the walk
    that is not occupied by another key, and no other slot is EMPTY. -/
def FillsLast (t : FlatMap K V) (key : K) (hash : UInt64) : Prop :=
  t.needsGrowth = false ∧ ∃ d < t.capacity, (t.slotAt (t.walk hash d)).metadata = .empty ∧
    (∀ j < d, (t.slotAt (t.walk hash j)).metadata = .occupied ∧ t.hit key hash (t.walk hash j) = false) ∧
    ∀ i < t.capacity, (t.slotAt i).metadata = .empty → i = t.walk hash d

/-- The condition on a call; only the calls that insert have one. -/
def KeepsRoom (hasher : K → UInt64) (t : FlatMap K V) : Op K V → Prop
  | .insert k _ => ¬ t.FillsLast k (hasher k)
  | .index k _ => ¬ t.FillsLast k (hasher k)
  | .erase _ => True
  | .clear => True
  | .reserve _ => True
  | .get _ => True

/-- The claim about one state: every look-up and every insertion returns, and an EMPTY slot is left. -/
structure Terminates (hasher : K → UInt64) (t : FlatMap K V) : Prop where
  find : ∀ key, ∃ r, t.findSlot key (hasher key) = some r
  insert : ∀ key value, ∃ r, t.insert hasher key value = some r
  room : t.HasRoom

/-- What every call keeps: the capacity is a power of two and `size_` counts the occupied slots. Two
    slots may hold one key here. -/
structure Counted (t : FlatMap K V) : Prop where
  pow2 : t.capacity = 0 ∨ ∃ k, t.capacity = 2 ^ k
  size : t.size = t.slots.countP fun s => decide (s.metadata = .occupied)

/-- The invariant of a run: a table that counts its slots and has an EMPTY one. -/
structure Roomy (t : FlatMap K V) : Prop extends Counted t where
  room : t.HasRoom

theorem roomy_empty : Roomy (empty : FlatMap K V) := ⟨⟨Or.inl rfl, rfl⟩, Or.inl rfl⟩

/-! ### One write -/

variable {t : FlatMap K V} {s : Slot K V} {i n : ℕ}

/-- A write that leaves the slot not EMPTY keeps the count and, where another EMPTY slot is known, the
    room. -/
theorem Counted.set (hc : Counted t) (hn : n = (t.slots.set i s).countP fun s => decide (s.metadata = .occupied)) :
    Counted (⟨t.slots.set i s, n⟩ : FlatMap K V) :=
  ⟨by rw [capacity_set]; exact hc.pow2, hn⟩

/-- What the write of `insert` leaves: the slot `i` is occupied, every other slot is as before, and at
    most one more slot is counted. -/
structure Written (t : FlatMap K V) (i : ℕ) (t' : FlatMap K V) : Prop extends Counted t' where
  capacity : t'.capacity = t.capacity
  size_le : t'.size ≤ t.size + 1
  taken : (t'.slotAt i).metadata = .occupied
  other : ∀ j, j ≠ i → t'.slotAt j = t.slotAt j

theorem Counted.written (hc : Counted t) (hi : i < t.capacity) (hs : s.metadata = .occupied)
    (hn : n = t.size - (if (t.slotAt i).metadata = .occupied then 1 else 0) + 1) :
    Written t i (⟨t.slots.set i s, n⟩ : FlatMap K V) := by
  have hcount : n = (t.slots.set i s).countP fun s => decide (s.metadata = .occupied) := by
    rw [countP_set_slot hi, ← hc.size, hn]
    simp [hs]
  refine ⟨hc.set hcount, capacity_set .., ?_, ?_, fun j hj => slotAt_set_ne hj ..⟩
  · show n ≤ t.size + 1
    omega
  · rw [slotAt_set_self hi]; exact hs

/-- `insert` after its load check returns when some slot is not occupied; the slot it takes is where
    its probe loop stops. -/
theorem Counted.place (hc : Counted t) {e : ℕ} (he : e < t.capacity)
    (hfree : (t.slotAt e).metadata ≠ .occupied) (key : K) (value : V) (hash : UInt64) :
    ∃ t' i isNew, t.place key value hash = some (t', i, isNew) ∧ t.insertionSlot key hash = some i ∧
      i < t.capacity ∧ Written t i t' := by
  have hpos : 0 < t.capacity := Nat.zero_lt_of_lt he
  obtain ⟨i, hslot⟩ := scan_isSome hc.pow2 hash
    (fun idx => decide ((t.slotAt idx).metadata ≠ .occupied) || t.hit key hash idx) he (by simp [hfree])
  have hi : i < t.capacity := by
    obtain ⟨d, _, hd, _⟩ := (scan_walk hc.pow2 hpos).mp hslot
    exact hd ▸ Nat.mod_lt _ hpos
  by_cases ho : (t.slotAt i).metadata = .occupied
  · refine ⟨_, i, false, place_overwrite value hslot ho, hslot, hi, hc.written hi ho ?_⟩
    have hcount := countP_pos_of_slot (p := fun s => decide (s.metadata = .occupied)) hi (by simp [ho])
    rw [← hc.size] at hcount
    rw [if_pos ho]; omega
  · exact ⟨_, i, true, place_new value hslot ho, hslot, hi, hc.written hi rfl (by rw [if_neg ho]; rfl)⟩

/-! ### Growing -/

/-- The state of a rehash: no tombstone yet, and the fixed size of the fresh table. -/
structure Untouched (cap : ℕ) (t : FlatMap K V) : Prop extends Counted t where
  clean : t.NoTombstone
  capacity : t.capacity = cap

theorem Untouched.written {cap i : ℕ} {t t' : FlatMap K V} (h : Untouched cap t) (hw : Written t i t') :
    Untouched cap t' := by
  refine ⟨hw.toCounted, fun j hj => ?_, hw.capacity.trans h.capacity⟩
  by_cases hji : j = i
  · rw [hji, hw.taken]; exact SlotState.noConfusion
  · rw [hw.other j hji]; exact h.clean j (hw.capacity ▸ hj)

/-- The loop of `rehash`: in a fresh table large enough for all occupied slots, whatever their keys,
    no insertion grows the table again. -/
theorem rehash_untouched {cap : ℕ} (depth : ℕ) : ∀ (l : List (Slot K V)) (acc : FlatMap K V),
    Untouched cap acc → acc.size + l.countP (fun s => decide (s.metadata = .occupied)) ≤ cap * 7 / 10 →
    ∃ t', l.foldlM (fun acc s => if s.metadata = .occupied then
          (insertRec (depth + 1) acc s.key s.value s.hash).map (·.1) else some acc) acc = some t' ∧
      Untouched cap t' ∧ t'.size ≤ acc.size + l.countP (fun s => decide (s.metadata = .occupied))
  | [], acc, h, _ => ⟨acc, rfl, h, by simp⟩
  | s :: l, acc, h, hsize => by
    rw [List.foldlM_cons]
    by_cases ho : s.metadata = .occupied
    · rw [List.countP_cons_of_pos (by simp [ho])] at hsize ⊢
      have hcap := h.capacity
      obtain ⟨e, he, hfree⟩ := exists_free h.size (by omega)
      obtain ⟨t₁, i, isNew, hplace, _, _, hw⟩ := h.toCounted.place he hfree s.key s.value s.hash
      have hgrow : acc.needsGrowth = false := by
        rw [needsGrowth, decide_eq_false_iff_not]; omega
      have hle := hw.size_le
      obtain ⟨t', hrun, h', hsize'⟩ := rehash_untouched depth l t₁ (h.written hw) (by omega)
      refine ⟨t', ?_, h', by omega⟩
      rw [if_pos ho, insertRec, hgrow, if_neg Bool.false_ne_true, hplace]
      exact hrun
    · rw [List.countP_cons_of_neg (by simp [ho])] at hsize ⊢
      obtain ⟨t', hrun, h', hsize'⟩ := rehash_untouched depth l acc h hsize
      exact ⟨t', by rw [if_neg ho]; exact hrun, h', hsize'⟩

theorem untouched_replicate (k : ℕ) : Untouched (2 ^ k) (⟨List.replicate (2 ^ k) blank, 0⟩ : FlatMap K V) := by
  refine ⟨⟨Or.inr ⟨k, by simp⟩, by simp [List.countP_replicate, blank]⟩, fun i _ => ?_, by simp⟩
  simp only [slotAt, List.getD_eq_getElem?_getD, List.getElem?_replicate]
  split <;> exact SlotState.noConfusion

/-- `rehash` to a larger size returns a table that is at most half full. -/
theorem Counted.rehash (hc : Counted t) {newCap : ℕ} (hcap : 2 * t.capacity ≤ newCap ∨ t.capacity < newCap)
    (depth : ℕ) : ∃ t' cap, rehashWith (insertRec (depth + 1)) t newCap = some t' ∧ Untouched cap t' ∧
      2 * t'.size ≤ cap ∧ 16 ≤ cap := by
  obtain ⟨k, hk, hle⟩ := roundUpPow2_spec (max newCap 16)
  have hsize : t.size ≤ t.capacity := hc.size ▸ List.countP_le_length
  have h16 : 16 ≤ 2 ^ k := le_trans (le_max_right _ _) hle
  have hdouble := two_mul_le_of_grows hc.pow2 hcap (le_trans (le_max_left _ _) hle)
  obtain ⟨t', hrun, h, hsize'⟩ := rehash_untouched depth t.slots _ (untouched_replicate k)
    (by rw [← hc.size]; simp only; omega)
  rw [← hc.size] at hsize'
  exact ⟨t', 2 ^ k, by rw [rehashWith, hk]; exact hrun, h, by simp only at hsize'; omega, h16⟩

/-! ### What every call does to the room -/

/-- Where the probe loop of `insert` stops decides whether the last EMPTY slot goes. -/
theorem Counted.fillsLast_iff (hc : Counted t) {key : K} {hash : UInt64} {i : ℕ}
    (hgrow : t.needsGrowth = false) (hi : i < t.capacity) (hslot : t.insertionSlot key hash = some i) :
    t.FillsLast key hash ↔ (t.slotAt i).metadata = .empty ∧
      ∀ j < t.capacity, (t.slotAt j).metadata = .empty → j = i := by
  have hpos : 0 < t.capacity := Nat.zero_lt_of_lt hi
  constructor
  · rintro ⟨_, d, hd, hempty, hfirst, honly⟩
    have hstop : t.insertionSlot key hash = some (t.walk hash d) := by
      refine (scan_walk hc.pow2 hpos).mpr ⟨d, hd, rfl, by simp [hempty], fun j hj => ?_⟩
      obtain ⟨ho, hno⟩ := hfirst j hj
      rw [walk] at ho hno
      simp [ho, hno]
    obtain rfl : i = t.walk hash d := Option.some.inj (hslot.symm.trans hstop)
    exact ⟨hempty, honly⟩
  · rintro ⟨hempty, honly⟩
    obtain ⟨d, hd, rfl, _, hfirst⟩ := (scan_walk hc.pow2 hpos).mp hslot
    refine ⟨hgrow, d, hd, hempty, fun j hj => ?_, honly⟩
    have hj := hfirst j hj
    rw [Bool.or_eq_false_iff, decide_eq_false_iff_not, not_not] at hj
    exact hj

/-- After its write, `insert` has left an EMPTY slot iff one other than the slot it took was EMPTY. -/
theorem Written.hasRoom_iff {t t' : FlatMap K V} {i : ℕ} (hw : Written t i t') (hi : i < t.capacity) :
    t'.HasRoom ↔ ∃ e < t.capacity, e ≠ i ∧ (t.slotAt e).metadata = .empty := by
  constructor
  · rintro (h0 | ⟨e, he, hempty⟩)
    · rw [hw.capacity] at h0; omega
    · have hei : e ≠ i := by rintro rfl; rw [hw.taken] at hempty; exact SlotState.noConfusion hempty
      exact ⟨e, hw.capacity ▸ he, hei, by rwa [← hw.other e hei]⟩
  · rintro ⟨e, he, hei, hempty⟩
    exact Or.inr ⟨e, hw.capacity.symm ▸ he, by rwa [hw.other e hei]⟩

/-- Step lemma of the insertions: `insert` returns, and leaves an EMPTY slot unless it takes the last. -/
theorem Roomy.insertRec {t : FlatMap K V} (h : Roomy t) (key : K) (value : V) (hash : UInt64) :
    ∃ t' i isNew, t.insertRec 2 key value hash = some (t', i, isNew) ∧ Counted t' ∧
      i < t'.capacity ∧ (t'.slotAt i).metadata = .occupied ∧ (t'.HasRoom ↔ ¬ t.FillsLast key hash) := by
  rw [FlatMap.insertRec]
  cases hgrow : t.needsGrowth with
  | true =>
    have hcap : 2 * t.capacity ≤ (if t.capacity ≠ 0 then t.capacity * 2 else 16) := by
      split <;> omega
    obtain ⟨t₁, cap, hrun, h₁, hhalf, h16⟩ := h.rehash (Or.inl hcap) 0
    have hcap₁ := h₁.capacity
    obtain ⟨e, he, hfree⟩ := exists_free h₁.size (by omega)
    obtain ⟨t', i, isNew, hplace, _, hi, hw⟩ := h₁.toCounted.place he hfree key value hash
    refine ⟨t', i, isNew, by rw [if_pos rfl, hrun]; exact hplace, hw.toCounted, hw.capacity ▸ hi, hw.taken, ?_⟩
    rw [hw.hasRoom_iff hi]
    refine iff_of_true (exists_spare h₁.size h₁.clean (by omega) i) fun hfills => ?_
    have hno := hfills.1
    rw [hgrow] at hno
    exact Bool.noConfusion hno
  | false =>
    have hroom : ∃ e < t.capacity, (t.slotAt e).metadata = .empty := by
      refine h.room.resolve_left fun h0 => ?_
      rw [needsGrowth, h0, decide_eq_false_iff_not] at hgrow
      exact hgrow (Nat.zero_le _)
    obtain ⟨e, he, hempty⟩ := hroom
    obtain ⟨t', i, isNew, hplace, hslot, hi, hw⟩ :=
      h.toCounted.place he (by rw [hempty]; exact SlotState.noConfusion) key value hash
    refine ⟨t', i, isNew, by rw [if_neg Bool.false_ne_true]; exact hplace, hw.toCounted, hw.capacity ▸ hi, hw.taken, ?_⟩
    rw [hw.hasRoom_iff hi, h.toCounted.fillsLast_iff hgrow hi hslot]
    constructor
    · rintro ⟨f, hf, hfi, hfempty⟩ ⟨_, honly⟩
      exact hfi (honly f hf hfempty)
    · intro hnot
      by_cases hei : e = i
      · subst hei
        by_contra hall
        push Not at hall
        exact hnot ⟨hempty, fun j hj hje => by by_contra hne; exact hall j hj hne hje⟩
      · exact ⟨e, he, hei, hempty⟩

/-- `find_slot` returns while the table has an EMPTY slot; what it finds is an occupied slot. -/
theorem Roomy.findSlot {t : FlatMap K V} (h : Roomy t) (key : K) (hash : UInt64) : ∃ r, t.findSlot key hash = some r ∧
      ∀ i ∈ r, i < t.capacity ∧ (t.slotAt i).metadata = .occupied ∧ ¬ t.FillsLast key hash := by
  rw [FlatMap.findSlot]
  rcases h.room with h0 | ⟨e, he, hempty⟩
  · exact ⟨none, if_pos h0, fun i hi => by cases hi⟩
  · have hpos : 0 < t.capacity := Nat.zero_lt_of_lt he
    obtain ⟨i, hscan⟩ := scan_isSome h.pow2 hash
      (fun idx => decide ((t.slotAt idx).metadata = .empty) || t.hit key hash idx) he (by simp [hempty])
    rw [if_neg (Nat.pos_iff_ne_zero.mp hpos), hscan]
    refine ⟨_, rfl, fun j hj => ?_⟩
    obtain ⟨d, hd, rfl, hstop, hfirst⟩ := (scan_walk h.pow2 hpos).mp hscan
    by_cases hne : (t.slotAt ((probe hash t.capacity + d) % t.capacity)).metadata = .empty
    · simp [hne] at hj
    · obtain rfl : (probe hash t.capacity + d) % t.capacity = j := by simpa [hne] using hj
      have hhit : t.hit key hash ((probe hash t.capacity + d) % t.capacity) = true := by
        simpa [hne] using hstop
      refine ⟨Nat.mod_lt _ hpos, (hit_iff.mp hhit).1, ?_⟩
      rintro ⟨_, d', _, hempty', hfirst', _⟩
      rw [walk] at hempty'
      -- the walk of `insert` to an EMPTY slot would pass the key, or stop before it
      rcases lt_trichotomy d d' with hlt | rfl | hlt
      · have hno := (hfirst' d hlt).2
        rw [walk, hhit] at hno
        exact Bool.noConfusion hno
      · exact hne hempty'
      · have hno := hfirst d' hlt
        rw [hempty'] at hno
        simp at hno

/-- A write to an occupied slot that counts it as it now is. -/
theorem Counted.overwrite (hc : Counted t) (hi : i < t.capacity) (ho : (t.slotAt i).metadata = .occupied)
    (hn : n = t.size - 1 + (if s.metadata = .occupied then 1 else 0)) :
    Counted (⟨t.slots.set i s, n⟩ : FlatMap K V) := by
  refine hc.set ?_
  rw [countP_set_slot hi, ← hc.size, hn]
  simp [ho]

/-- Such a write changes no EMPTY slot. -/
theorem hasRoom_overwrite (hi : i < t.capacity) (ho : (t.slotAt i).metadata = .occupied)
    (hs : s.metadata ≠ .empty) : (⟨t.slots.set i s, n⟩ : FlatMap K V).HasRoom ↔ t.HasRoom := by
  rw [HasRoom, HasRoom, capacity_set]
  refine or_congr_right (exists_congr fun e => and_congr_right fun _ => ?_)
  by_cases hei : e = i
  · subst hei
    rw [slotAt_set_self hi, ho]
    exact iff_of_false hs SlotState.noConfusion
  · rw [slotAt_set_ne hei]

theorem Counted.size_pos (hc : Counted t) {i : ℕ} (hi : i < t.capacity)
    (ho : (t.slotAt i).metadata = .occupied) : 0 < t.size := by
  rw [hc.size]
  exact countP_pos_of_slot hi (by simp [ho])

theorem Counted.setValue (hc : Counted t) {i : ℕ} (hi : i < t.capacity)
    (ho : (t.slotAt i).metadata = .occupied) (value : V) : Counted (t.setValue i value) := by
  have hpos := hc.size_pos hi ho
  refine hc.overwrite hi ho ?_
  simp only [ho, if_true]
  omega

theorem hasRoom_setValue {i : ℕ} (hi : i < t.capacity) (ho : (t.slotAt i).metadata = .occupied) (value : V) :
    (t.setValue i value).HasRoom ↔ t.HasRoom :=
  hasRoom_overwrite hi ho (by simp [ho])

theorem Roomy.erase {t : FlatMap K V} (h : Roomy t) (hasher : K → UInt64) (key : K) :
    ∃ t', t.erase hasher key = some t' ∧ Roomy t' := by
  obtain ⟨r, hfind, hfound⟩ := h.findSlot key (hasher key)
  rw [FlatMap.erase, hfind, Option.map_some]
  cases r with
  | none => exact ⟨t, rfl, h⟩
  | some i =>
    obtain ⟨hi, ho, _⟩ := hfound i rfl
    exact ⟨_, rfl, h.overwrite hi ho (by simp), (hasRoom_overwrite hi ho SlotState.noConfusion).mpr h.room⟩

theorem Roomy.clear {t : FlatMap K V} (h : Roomy t) : Roomy t.clear := by
  have hcap : t.clear.capacity = t.capacity := by simp [FlatMap.clear, capacity]
  refine ⟨⟨by rw [hcap]; exact h.pow2, ?_⟩, ?_⟩
  · simp [FlatMap.clear, List.countP_map, Function.comp_def]
  · rcases h.room with h0 | ⟨e, he, _⟩
    · exact Or.inl (hcap.trans h0)
    · refine Or.inr ⟨e, hcap.symm ▸ he, ?_⟩
      rw [slotAt_of_lt (lt_of_lt_of_eq he hcap.symm)]
      simp [FlatMap.clear]

theorem Roomy.reserve {t : FlatMap K V} (h : Roomy t) (cap : ℕ) : ∃ t', t.reserve cap = some t' ∧ Roomy t' := by
  rw [FlatMap.reserve]
  by_cases hlt : t.capacity < cap
  · obtain ⟨t', c, hrun, h', hhalf, h16⟩ := h.rehash (Or.inr hlt) 0
    have hcap := h'.capacity
    obtain ⟨e, he, _, hempty⟩ := exists_spare h'.size h'.clean (by omega) c
    exact ⟨t', by rw [if_pos hlt]; exact hrun, h'.toCounted, Or.inr ⟨e, he, hempty⟩⟩
  · exact ⟨t, if_neg hlt, h⟩

theorem Roomy.terminates (h : Roomy t) (hasher : K → UInt64) : Terminates hasher t where
  find := fun key => (h.findSlot key (hasher key)).imp fun _ hr => hr.1
  insert := fun key value => by
    obtain ⟨t', i, isNew, hrun, _⟩ := h.insertRec key value (hasher key)
    exact ⟨_, hrun⟩
  room := h.room

/-- Step lemma: every call returns from a table with room, and leaves room iff it meets the condition. -/
theorem Roomy.step {t : FlatMap K V} (h : Roomy t) (hasher : K → UInt64) (op : Op K V) :
    ∃ t', step hasher t op = some t' ∧ Counted t' ∧ (t'.HasRoom ↔ KeepsRoom hasher t op) := by
  have hkept : ∀ {r : Option (FlatMap K V)}, (∃ t', r = some t' ∧ Roomy t') →
      ∃ t', r = some t' ∧ Counted t' ∧ (t'.HasRoom ↔ True) :=
    fun ⟨t', hr, h'⟩ => ⟨t', hr, h'.toCounted, iff_true_intro h'.room⟩
  cases op with
  | insert k v =>
    obtain ⟨t', i, isNew, hrun, hc, _, _, hroom⟩ := h.insertRec k v (hasher k)
    exact ⟨t', by rw [FlatMap.step, FlatMap.insert, hrun]; rfl, hc, hroom⟩
  | index k write =>
    obtain ⟨r, hfind, hfound⟩ := h.findSlot k (hasher k)
    cases r with
    | some i =>
      obtain ⟨hi, ho, hno⟩ := hfound i rfl
      have hindex : t.index hasher k = some (t, i) := by rw [index, hfind]; rfl
      cases write with
      | none => exact ⟨t, by rw [FlatMap.step, hindex]; rfl, h.toCounted, iff_of_true h.room hno⟩
      | some v =>
        refine ⟨_, by rw [FlatMap.step, hindex]; rfl, h.setValue hi ho v, ?_⟩
        exact iff_of_true ((hasRoom_setValue hi ho v).mpr h.room) hno
    | none =>
      obtain ⟨t', i, isNew, hrun, hc, hi, ho, hroom⟩ := h.insertRec k default (hasher k)
      have hindex : t.index hasher k = some (t', i) := by
        rw [index, hfind, Option.bind_some, FlatMap.insert, hrun]; rfl
      cases write with
      | none => exact ⟨t', by rw [FlatMap.step, hindex]; rfl, hc, hroom⟩
      | some v =>
        refine ⟨_, by rw [FlatMap.step, hindex]; rfl, hc.setValue hi ho v, ?_⟩
        exact (hasRoom_setValue hi ho v).trans hroom
  | erase k => exact hkept (h.erase hasher k)
  | clear => exact hkept ⟨t.clear, rfl, h.clear⟩
  | reserve cap => exact hkept (h.reserve cap)
  | get k =>
    obtain ⟨r, hfind, _⟩ := h.findSlot k (hasher k)
    exact hkept ⟨t, by rw [FlatMap.step, get, hfind]; rfl, h⟩

end FlatMap

/-! ### The set -/

namespace FlatSet
open FlatMap (Roomy Counted)

variable {K : Type} [Inhabited K] [DecidableEq K]

/-- The call on the table under the set. -/
def Op.onTable : Op K → FlatMap.Op K Unit
  | .insert k => .insert k ()
  | .erase k => .erase k
  | .clear => .clear
  | .reserve cap => .reserve cap
  | .contains k => .get k

/-- The condition on a call; only `insert` has one. -/
def KeepsRoom (hasher : K → UInt64) (t : FlatSet K) : Op K → Prop
  | .insert k => ¬ t.FillsLast k (hasher k)
  | .erase _ => True
  | .clear => True
  | .reserve _ => True
  | .contains _ => True

/-- The claim about one state of the set. -/
structure Terminates (hasher : K → UInt64) (t : FlatSet K) : Prop where
  find : ∀ key, ∃ r, t.findSlot key (hasher key) = some r
  insert : ∀ key, ∃ r, insert hasher t key = some r
  room : t.HasRoom

theorem step_eq (hasher : K → UInt64) (t : FlatSet K) (op : Op K) :
    step hasher t op = FlatMap.step hasher t op.onTable := by
  cases op with
  | insert k => simp [step, insert, Op.onTable, FlatMap.step, Function.comp_def]
  | contains k => simp [step, contains, Op.onTable, FlatMap.step, FlatMap.get, Function.comp_def]
  | _ => rfl

theorem keepsRoom_onTable (hasher : K → UInt64) (t : FlatSet K) (op : Op K) :
    FlatMap.KeepsRoom hasher t op.onTable ↔ KeepsRoom hasher t op := by
  cases op <;> exact Iff.rfl

theorem terminates_of_roomy {t : FlatSet K} (h : Roomy t) (hasher : K → UInt64) : Terminates hasher t where
  find := (h.terminates hasher).find
  insert := fun key => by
    obtain ⟨r, hrun⟩ := (h.terminates hasher).insert key ()
    exact ⟨_, by rw [FlatSet.insert, hrun]; rfl⟩
  room := h.room

/-- Step lemma for the set. -/
theorem step_room {t : FlatSet K} (h : Roomy t) (hasher : K → UInt64) (op : Op K) :
    ∃ t', step hasher t op = some t' ∧ Counted t' ∧ (t'.HasRoom ↔ KeepsRoom hasher t op) := by
  rw [step_eq, ← keepsRoom_onTable]
  exact h.step hasher op.onTable

end FlatSet

/-! ### Runs -/

/-- With the step lemma of a container, its runs endure exactly as long as every call keeps the room. -/
theorem endures_iff_keepsRoom {K V O : Type} [Inhabited K] [Inhabited V] [DecidableEq K]
    {step : FlatMap K V → O → Option (FlatMap K V)} {P : FlatMap K V → Prop}
    {C : FlatMap K V → O → Prop} (hP : ∀ t, t.Roomy → P t) (hroom : ∀ t, P t → t.HasRoom) (hstep : ∀ t op, t.Roomy →
      ∃ t', step t op = some t' ∧ FlatMap.Counted t' ∧ (t'.HasRoom ↔ C t op)) (ops : List O) :
    Endures step P FlatMap.empty ops ↔ Meets step C FlatMap.empty ops := by
  refine endures_iff_meets hP (fun t op h hC => ?_) (fun t op t' h ht hPt => ?_) FlatMap.roomy_empty
  · obtain ⟨t', ht, hcount, hiff⟩ := hstep t op h
    exact ⟨t', ht, hcount, hiff.mpr hC⟩
  · obtain ⟨t'', ht'', _, hiff⟩ := hstep t op h
    obtain rfl : t' = t'' := Option.some.inj (ht.symm.trans ht'')
    exact hiff.mp (hroom t' hPt)

/-- Along a run from the empty container, for any keys and any hash function, every call returns and
    every state keeps an EMPTY slot (so that its look-ups and insertions return) exactly when no
    insertion of the run takes the last EMPTY slot; and so for the set. -/
theorem flatMap_run_terminates_iff {K V : Type} [Inhabited K] [Inhabited V] [DecidableEq K]
    (hasher : K → UInt64) (ops : List (FlatMap.Op K V)) (setOps : List (FlatSet.Op K)) :
    (Endures (FlatMap.step hasher) (FlatMap.Terminates hasher) FlatMap.empty ops ↔
        Meets (FlatMap.step hasher) (FlatMap.KeepsRoom hasher) FlatMap.empty ops) ∧
    (Endures (FlatSet.step hasher) (FlatSet.Terminates hasher) FlatMap.empty setOps ↔
        Meets (FlatSet.step hasher) (FlatSet.KeepsRoom hasher) FlatMap.empty setOps) :=
  ⟨endures_iff_keepsRoom (fun _ h => h.terminates hasher) (fun _ h => h.room)
      (fun _ op h => h.step hasher op) ops,
    endures_iff_keepsRoom (fun _ h => FlatSet.terminates_of_roomy h hasher) (fun _ h => h.room)
      (fun _ op h => FlatSet.step_room h hasher op) setOps⟩

/-- Sixteen insertions, each followed by the erasure of its key, leave tombstones only: the look-up of
    an absent key has not stopped after any number of steps. -/
theorem flatMap_lookup_diverges : ∃ t, FlatMap.run UInt64.ofNat (FlatMap.empty : FlatMap ℕ ℕ)
        ((List.range 16).flatMap fun k => [.insert k k, .erase k]) = some t ∧ ¬ FlatMap.Terminates UInt64.ofNat t ∧
      ∀ fuel, scan (nextSlot t.capacity) (fun idx => decide ((t.slotAt idx).metadata = .empty) || t.hit 16 16 idx)
        fuel (FlatMap.probe 16 t.capacity) = none := by
  have hrun : ((FlatMap.run UInt64.ofNat (FlatMap.empty : FlatMap ℕ ℕ)
      ((List.range 16).flatMap fun k => [.insert k k, .erase k])).map fun t =>
        (t.capacity, t.findSlot 16 16)) = some (16, none) := by decide +kernel
  obtain ⟨t, ht, hpair⟩ := Option.map_eq_some_iff.mp hrun
  obtain ⟨hcap, hnone⟩ := Prod.mk.inj hpair
  refine ⟨t, ht, fun h => ?_, FlatMap.findSlot_diverges (Or.inr ⟨4, hcap⟩) hnone⟩
  obtain ⟨r, hr⟩ := h.find 16
  rw [show UInt64.ofNat 16 = 16 from rfl, hnone] at hr
  cases hr

end Zith.Memory
