import Mathlib.Data.Finmap
import Mathlib.Data.List.TakeWhile
import Mathlib.Tactic.Linarith
import Zith.Lib.Scan

/-! `memory::FlatMap` and `memory::FlatSet`: open addressing with linear probing over a table whose
    size is a power of two, with tombstones (`FM_ERASED`) for erased slots. The four parallel vectors
    are one list of slot rows. Sizes and capacities are natural numbers (no table reaches `2 ^ 62`
    slots); hashes are 64-bit words and the hash function is a parameter, so keys may collide.

    A probe loop walks the circle `idx = (idx + 1) & (capacity - 1)`. It is modelled by `Lib.scan`
    with one round of fuel: a loop that has not stopped after one round is back where it began and
    never stops (`findSlot_diverges`), so the outcome `none` of an operation means that the call does
    not return.

        find_slot : skip OCCUPIED with another key, skip ERASED, stop at EMPTY (absent) or at the key
        insert    : skip OCCUPIED with another key, stop at ERASED or EMPTY (write) or at the key -/

namespace Zith.Memory
open Zith.Lib

/-- Slot metadata: `FM_EMPTY`, `FM_OCCUPIED`, `FM_ERASED`. -/
inductive SlotState where | empty | occupied | erased
  deriving DecidableEq, Repr

/-- One row of the parallel vectors `metadata_`, `keys_`, `values_` and `hashes_`. -/
structure Slot (K V : Type) where
  metadata : SlotState
  key : K
  value : V
  hash : UInt64
  deriving DecidableEq, Repr

/-- The table: its slots and the counter `size_`. -/
structure FlatMap (K V : Type) where
  slots : List (Slot K V)
  size : ℕ
  deriving DecidableEq, Repr

namespace FlatMap

variable {K V : Type} [Inhabited K] [Inhabited V] [DecidableEq K]

/-- What `assign` fills a fresh table with: `Key{}`, `Value{}`, `FM_EMPTY` and hash 0. -/
def blank : Slot K V := ⟨.empty, default, default, 0⟩

/-- The default-constructed container. -/
def empty : FlatMap K V := ⟨[], 0⟩

def capacity (t : FlatMap K V) : ℕ := t.slots.length

def slotAt (t : FlatMap K V) (idx : ℕ) : Slot K V := t.slots.getD idx blank

/-- The slot a hash starts probing at. -/
def probe (hash : UInt64) (cap : ℕ) : ℕ :=
  if cap = 0 then 0
  else ((hash ^^^ (hash >>> 16)) * 0x9e3779b97f4a7c15).toNat &&& (cap - 1)

/-- The test both probe loops make: an occupied slot with this hash and this key. -/
def hit (t : FlatMap K V) (key : K) (hash : UInt64) (idx : ℕ) : Bool :=
  (t.slotAt idx).metadata = .occupied && (t.slotAt idx).hash = hash && (t.slotAt idx).key = key

/-- `find_slot`: `some none` is the source's `SIZE_MAX`, `none` a loop that never stops. -/
def findSlot (t : FlatMap K V) (key : K) (hash : UInt64) : Option (Option ℕ) :=
  if t.capacity = 0 then some none
  else
    (scan (nextSlot t.capacity)
        (fun idx => decide ((t.slotAt idx).metadata = .empty) || t.hit key hash idx)
        t.capacity (probe hash t.capacity)).map
      fun idx => if (t.slotAt idx).metadata = .empty then none else some idx

/-- The probe loop of `insert`: it stops at the first slot that is not occupied. -/
def insertionSlot (t : FlatMap K V) (key : K) (hash : UInt64) : Option ℕ :=
  scan (nextSlot t.capacity)
    (fun idx => decide ((t.slotAt idx).metadata ≠ .occupied) || t.hit key hash idx)
    t.capacity (probe hash t.capacity)

/-- `insert` after the load check: the new table, the slot of the returned reference, and whether a
    slot was newly occupied. -/
def place (t : FlatMap K V) (key : K) (value : V) (hash : UInt64) :
    Option (FlatMap K V × ℕ × Bool) :=
  (t.insertionSlot key hash).map fun idx =>
    if (t.slotAt idx).metadata = .occupied then
      (⟨t.slots.set idx { t.slotAt idx with value := value }, t.size⟩, idx, false)
    else
      (⟨t.slots.set idx ⟨.occupied, key, value, hash⟩, t.size + 1⟩, idx, true)

/-- The load check of `insert`. -/
def needsGrowth (t : FlatMap K V) : Bool := decide (t.capacity * 7 / 10 ≤ t.size)

/-- `rehash` over a given `insert`: a fresh table of the rounded size, and every occupied slot of the
    old one inserted in slot order. -/
def rehashWith (insert : FlatMap K V → K → V → UInt64 → Option (FlatMap K V × ℕ × Bool))
    (t : FlatMap K V) (newCap : ℕ) : Option (FlatMap K V) :=
  t.slots.foldlM
    (fun acc s =>
      if s.metadata = .occupied then (insert acc s.key s.value s.hash).map (·.1) else some acc)
    ⟨List.replicate (roundUpPow2 (max newCap 16)) blank, 0⟩

/-- `insert` with a precomputed hash. `insert` and `rehash` call each other; `depth` bounds how deep
    (the insertions of a `rehash` never grow the table again, `rehash_correct`). -/
def insertRec : ℕ → FlatMap K V → K → V → UInt64 → Option (FlatMap K V × ℕ × Bool)
  | 0, _, _, _, _ => none
  | depth + 1, t, key, value, hash =>
    if t.needsGrowth then
      (rehashWith (insertRec depth) t (if t.capacity ≠ 0 then t.capacity * 2 else 16)).bind
        fun grown => grown.place key value hash
    else t.place key value hash

def rehash (t : FlatMap K V) (newCap : ℕ) : Option (FlatMap K V) := rehashWith (insertRec 1) t newCap

section Operations
variable (hasher : K → UInt64)

def insert (t : FlatMap K V) (key : K) (value : V) : Option (FlatMap K V × ℕ × Bool) :=
  t.insertRec 2 key value (hasher key)

/-- `get`: the value the returned pointer refers to, `none` for `nullptr`. -/
def get (t : FlatMap K V) (key : K) : Option (Option V) :=
  (t.findSlot key (hasher key)).map fun r => r.map fun idx => (t.slotAt idx).value

def contains (t : FlatMap K V) (key : K) : Option Bool := (t.get hasher key).map Option.isSome

/-- `operator[]`: the table and the slot of the returned reference. -/
def index (t : FlatMap K V) (key : K) : Option (FlatMap K V × ℕ) :=
  (t.findSlot key (hasher key)).bind fun
    | some idx => some (t, idx)
    | none => (t.insert hasher key default).map fun r => (r.1, r.2.1)

/-- A write through a reference into slot `idx`. -/
def setValue (t : FlatMap K V) (idx : ℕ) (value : V) : FlatMap K V :=
  ⟨t.slots.set idx { t.slotAt idx with value := value }, t.size⟩

def erase (t : FlatMap K V) (key : K) : Option (FlatMap K V) :=
  (t.findSlot key (hasher key)).map fun
    | some idx => ⟨t.slots.set idx { t.slotAt idx with metadata := .erased }, t.size - 1⟩
    | none => t

def clear (t : FlatMap K V) : FlatMap K V := ⟨t.slots.map fun s => { s with metadata := .empty }, 0⟩

def reserve (t : FlatMap K V) (cap : ℕ) : Option (FlatMap K V) :=
  if t.capacity < cap then t.rehash cap else some t

end Operations

/-! ### Iteration -/

/-- `advance_past_empty`: the first slot from `idx` on that is occupied, or the end. -/
def advancePastEmpty (t : FlatMap K V) (idx : ℕ) : ℕ :=
  idx + ((t.slots.drop idx).takeWhile fun s => decide (s.metadata ≠ .occupied)).length

/-- The pairs a loop from the iterator at `idx` to `end()` dereferences. -/
def iterateFrom (t : FlatMap K V) : ℕ → ℕ → List (K × V)
  | 0, _ => []
  | fuel + 1, idx =>
    if idx < t.capacity then
      ((t.slotAt idx).key, (t.slotAt idx).value) :: iterateFrom t fuel (t.advancePastEmpty (idx + 1))
    else []

/-- The pairs of `for (auto it = begin(); it != end(); ++it)`. -/
def entries (t : FlatMap K V) : List (K × V) := t.iterateFrom t.capacity (t.advancePastEmpty 0)

/-! ### Runs -/

/-- One call on the container. `index k (some v)` is `m[k] = v`, `index k none` a bare `m[k]`. -/
inductive Op (K V : Type) where
  | insert (key : K) (value : V)
  | index (key : K) (write : Option V)
  | erase (key : K)
  | clear
  | reserve (cap : ℕ)
  | get (key : K)

def step (hasher : K → UInt64) (t : FlatMap K V) : Op K V → Option (FlatMap K V)
  | .insert k v => (t.insert hasher k v).map (·.1)
  | .index k write => (t.index hasher k).map fun r =>
    match write with
    | some v => r.1.setValue r.2 v
    | none => r.1
  | .erase k => t.erase hasher k
  | .clear => some t.clear
  | .reserve cap => t.reserve cap
  | .get k => (t.get hasher k).map fun _ => t

def run (hasher : K → UInt64) (t : FlatMap K V) (ops : List (Op K V)) : Option (FlatMap K V) :=
  ops.foldlM (step hasher) t

end FlatMap

/-! ### FlatSet -/

/-- `FlatSet` has no `values_`: a table whose values carry nothing. -/
abbrev FlatSet (K : Type) := FlatMap K Unit

namespace FlatSet

variable {K : Type} [Inhabited K] [DecidableEq K] (hasher : K → UInt64)

/-- `insert`: `true` when a new element was inserted, `false` when it was already present. -/
def insert (t : FlatSet K) (key : K) : Option (FlatSet K × Bool) :=
  (FlatMap.insert hasher t key ()).map fun r => (r.1, r.2.2)

def contains (t : FlatSet K) (key : K) : Option Bool := (t.findSlot key (hasher key)).map Option.isSome

def erase (t : FlatSet K) (key : K) : Option (FlatSet K) := FlatMap.erase hasher t key

/-- The keys a loop over the set visits. -/
def elements (t : FlatSet K) : List K := t.entries.map Prod.fst

/-- One call on the container. -/
inductive Op (K : Type) where
  | insert (key : K)
  | erase (key : K)
  | clear
  | reserve (cap : ℕ)
  | contains (key : K)

def step (t : FlatSet K) : Op K → Option (FlatSet K)
  | .insert k => (insert hasher t k).map (·.1)
  | .erase k => erase hasher t k
  | .clear => some t.clear
  | .reserve cap => t.reserve cap
  | .contains k => (contains hasher t k).map fun _ => t

def run (t : FlatSet K) (ops : List (Op K)) : Option (FlatSet K) := ops.foldlM (step hasher) t

end FlatSet

end Zith.Memory

/-! The probe-chain invariant of the table (`Core`) and what every primitive does to it. A key is
    found because every slot between the start of its probe walk and the slot that holds it is not
    EMPTY (`Reaches`); erasing turns a slot into a tombstone, never into an EMPTY one, so chains
    survive, and a fresh table without tombstones comes out of every rehash. -/

set_option linter.unusedSectionVars false

namespace Zith.Memory.FlatMap
open Zith.Lib

variable {K V : Type} [Inhabited K] [Inhabited V] [DecidableEq K]

/-- Slot `i` holds key `k`. -/
def Live (t : FlatMap K V) (i : ℕ) (k : K) : Prop :=
  i < t.capacity ∧ (t.slotAt i).metadata = .occupied ∧ (t.slotAt i).key = k

/-- Some occupied slot holds `k` with value `v`. -/
def Holds (t : FlatMap K V) (k : K) (v : V) : Prop := ∃ i, t.Live i k ∧ (t.slotAt i).value = v

/-- Slot `i` is met on the walk from `start` before any EMPTY slot. -/
def Reaches (t : FlatMap K V) (start i : ℕ) : Prop :=
  ∃ d < t.capacity, (start + d) % t.capacity = i ∧ ∀ j < d, (t.slotAt ((start + j) % t.capacity)).metadata ≠ .empty

/-- The probe-chain invariant. -/
structure Core (hasher : K → UInt64) (t : FlatMap K V) : Prop where
  pow2 : t.capacity = 0 ∨ ∃ k, t.capacity = 2 ^ k
  size : t.size = t.slots.countP fun s => decide (s.metadata = .occupied)
  hash : ∀ i k, t.Live i k → (t.slotAt i).hash = hasher k
  chain : ∀ i k, t.Live i k → t.Reaches (probe (hasher k) t.capacity) i
  unique : ∀ i j k, t.Live i k → t.Live j k → i = j

/-- The table keeps an EMPTY slot (or has no slot at all). -/
def HasRoom (t : FlatMap K V) : Prop := t.capacity = 0 ∨ ∃ i < t.capacity, (t.slotAt i).metadata = .empty

/-- No slot is a tombstone. -/
def NoTombstone (t : FlatMap K V) : Prop := ∀ i < t.capacity, (t.slotAt i).metadata ≠ .erased

/-! ### Slots after a write -/

@[simp] theorem capacity_mk (l : List (Slot K V)) (n : ℕ) : (⟨l, n⟩ : FlatMap K V).capacity = l.length := rfl

theorem capacity_set (t : FlatMap K V) (i n : ℕ) (s : Slot K V) :
    (⟨t.slots.set i s, n⟩ : FlatMap K V).capacity = t.capacity := by
  simp [capacity]

variable {t : FlatMap K V} {hasher : K → UInt64} {key : K} {i : ℕ} {h : UInt64} {s : Slot K V}

theorem slotAt_of_lt (h : i < t.slots.length) : t.slotAt i = t.slots[i] := by
  rw [slotAt, List.getD_eq_getElem _ _ h]

theorem slotAt_set_self (h : i < t.capacity) (n : ℕ) (s : Slot K V) :
    (⟨t.slots.set i s, n⟩ : FlatMap K V).slotAt i = s := by
  have hi : i < (t.slots.set i s).length := by simpa [capacity] using h
  rw [slotAt, List.getD_eq_getElem _ _ hi, List.getElem_set_self]

theorem slotAt_set_ne {i j : ℕ} (h : j ≠ i) (n : ℕ) (s : Slot K V) :
    (⟨t.slots.set i s, n⟩ : FlatMap K V).slotAt j = t.slotAt j := by
  simp only [slotAt, List.getD_eq_getElem?_getD]
  rw [List.getElem?_set_ne (Ne.symm h)]

theorem live_set {i n j : ℕ} {k : K} (hi : i < t.capacity) : (⟨t.slots.set i s, n⟩ : FlatMap K V).Live j k ↔
      (j = i ∧ s.metadata = .occupied ∧ s.key = k) ∨ (j ≠ i ∧ t.Live j k) := by
  rw [Live, capacity_set]
  by_cases hj : j = i
  · subst hj; rw [slotAt_set_self hi]; simp [hi]
  · rw [slotAt_set_ne hj]; simp [hj, Live]

theorem holds_set {i n : ℕ} {k : K} {v : V} (hi : i < t.capacity) : (⟨t.slots.set i s, n⟩ : FlatMap K V).Holds k v ↔
      (s.metadata = .occupied ∧ s.key = k ∧ s.value = v) ∨ ∃ j, j ≠ i ∧ t.Live j k ∧ (t.slotAt j).value = v := by
  constructor
  · rintro ⟨j, hlive, hv⟩
    rcases (live_set hi).mp hlive with ⟨rfl, ho, hk⟩ | ⟨hj, hl⟩
    · rw [slotAt_set_self hi] at hv; exact Or.inl ⟨ho, hk, hv⟩
    · rw [slotAt_set_ne hj] at hv; exact Or.inr ⟨j, hj, hl, hv⟩
  · rintro (⟨ho, hk, hv⟩ | ⟨j, hj, hl, hv⟩)
    · exact ⟨i, (live_set hi).mpr (Or.inl ⟨rfl, ho, hk⟩), by rwa [slotAt_set_self hi]⟩
    · exact ⟨j, (live_set hi).mpr (Or.inr ⟨hj, hl⟩), by rwa [slotAt_set_ne hj]⟩

theorem Reaches.set {i n start j : ℕ} (hi : i < t.capacity) (hs : s.metadata ≠ .empty)
    (h : t.Reaches start j) : (⟨t.slots.set i s, n⟩ : FlatMap K V).Reaches start j := by
  obtain ⟨d, hd, hij, hne⟩ := h
  refine ⟨d, by rwa [capacity_set], by rwa [capacity_set], fun e he => ?_⟩
  rw [capacity_set]
  by_cases hcase : (start + e) % t.capacity = i
  · rw [hcase, slotAt_set_self hi]; exact hs
  · rw [slotAt_set_ne hcase]; exact hne e he

/-- Writing a slot that is not EMPTY keeps the invariant, when an occupied slot so written is on the
    chain of its key and no other slot holds that key. -/
theorem Core.set {i n : ℕ} (hc : Core hasher t) (hi : i < t.capacity) (hs : s.metadata ≠ .empty)
    (hn : n = (t.slots.set i s).countP fun s => decide (s.metadata = .occupied))
    (hocc : s.metadata = .occupied → s.hash = hasher s.key ∧
      t.Reaches (probe (hasher s.key) t.capacity) i ∧ ∀ j, j ≠ i → ¬ t.Live j s.key) :
    Core hasher (⟨t.slots.set i s, n⟩ : FlatMap K V) where
  pow2 := by rw [capacity_set]; exact hc.pow2
  size := hn
  hash := by
    intro j k hl
    rcases (live_set hi).mp hl with ⟨rfl, ho, rfl⟩ | ⟨hj, hl⟩
    · rw [slotAt_set_self hi]; exact (hocc ho).1
    · rw [slotAt_set_ne hj]; exact hc.hash j k hl
  chain := by
    intro j k hl
    rw [capacity_set]
    rcases (live_set hi).mp hl with ⟨rfl, ho, rfl⟩ | ⟨_, hl⟩
    · exact (hocc ho).2.1.set hi hs
    · exact (hc.chain j k hl).set hi hs
  unique := by
    intro a b k ha hb
    rcases (live_set hi).mp ha with ⟨rfl, ho, rfl⟩ | ⟨hai, hla⟩ <;>
      rcases (live_set hi).mp hb with ⟨rfl, ho', hk⟩ | ⟨hbi, hlb⟩
    · rfl
    · exact absurd hlb ((hocc ho).2.2 b hbi)
    · exact absurd hla (hk ▸ (hocc ho').2.2 a hai)
    · exact hc.unique a b k hla hlb

/-- What a write does to the number of occupied slots. -/
theorem countP_set_slot (hi : i < t.capacity) (s : Slot K V) (p : Slot K V → Bool) : (t.slots.set i s).countP p =
      t.slots.countP p - (if p (t.slotAt i) then 1 else 0) + (if p s then 1 else 0) := by
  rw [List.countP_set hi, slotAt_of_lt hi]

theorem countP_pos_of_slot (hi : i < t.capacity) {p : Slot K V → Bool} (hp : p (t.slotAt i) = true) :
    0 < t.slots.countP p := by
  rw [List.countP_pos_iff]
  exact ⟨_, by rw [slotAt_of_lt hi]; exact List.getElem_mem _, hp⟩

/-! ### The probe loops -/

theorem hit_iff : t.hit key h i = true ↔
      (t.slotAt i).metadata = .occupied ∧ (t.slotAt i).hash = h ∧ (t.slotAt i).key = key := by
  simp [hit, and_assoc]

theorem probe_lt {cap : ℕ} (hpos : 0 < cap) (hp : ∃ k, cap = 2 ^ k) : probe h cap < cap := by
  obtain ⟨k, rfl⟩ := hp
  rw [probe, if_neg (Nat.pos_iff_ne_zero.mp hpos), and_pred_two_pow]
  exact Nat.mod_lt _ hpos

/-- The probe walk in arithmetic terms. -/
theorem walk_eq (hpow : t.capacity = 0 ∨ ∃ k, t.capacity = 2 ^ k) (hpos : 0 < t.capacity) (h : UInt64)
    (d : ℕ) : (nextSlot t.capacity)^[d] (probe h t.capacity) = (probe h t.capacity + d) % t.capacity := by
  have hexp := hpow.resolve_left (Nat.pos_iff_ne_zero.mp hpos)
  have hlt := probe_lt (h := h) hpos hexp
  obtain ⟨k, hk⟩ := hexp
  rw [hk] at hlt ⊢
  exact nextSlot_iterate hlt d

/-- A probe loop stops at the first slot of the walk that satisfies its test. -/
theorem scan_walk (hpow : t.capacity = 0 ∨ ∃ k, t.capacity = 2 ^ k) (hpos : 0 < t.capacity) {stop : ℕ → Bool} :
    scan (nextSlot t.capacity) stop t.capacity (probe h t.capacity) = some i ↔
      ∃ d < t.capacity, (probe h t.capacity + d) % t.capacity = i ∧ stop i = true ∧
        ∀ j < d, stop ((probe h t.capacity + j) % t.capacity) = false := by
  rw [scan_eq_some_iff]
  constructor
  · rintro ⟨d, hd, hi, hs, hfirst⟩
    exact ⟨d, hd, by rwa [← walk_eq hpow hpos], hs, fun j hj => by rw [← walk_eq hpow hpos]; exact hfirst j hj⟩
  · rintro ⟨d, hd, hi, hs, hfirst⟩
    exact ⟨d, hd, by rwa [walk_eq hpow hpos], hs, fun j hj => by rw [walk_eq hpow hpos]; exact hfirst j hj⟩

/-- A probe loop stops when some slot of the table satisfies its test. -/
theorem scan_isSome (hpow : t.capacity = 0 ∨ ∃ k, t.capacity = 2 ^ k) (h : UInt64) (stop : ℕ → Bool) {e : ℕ}
    (he : e < t.capacity) (hs : stop e = true) :
    ∃ i, scan (nextSlot t.capacity) stop t.capacity (probe h t.capacity) = some i := by
  have hpos : 0 < t.capacity := Nat.zero_lt_of_lt he
  cases hscan : scan (nextSlot t.capacity) stop t.capacity (probe h t.capacity) with
  | some i => exact ⟨i, rfl⟩
  | none =>
    rw [scan_eq_none_iff] at hscan
    obtain ⟨k, hk⟩ := hpow.resolve_left (Nat.pos_iff_ne_zero.mp hpos)
    have hround := exists_round (k := k) (probe h t.capacity) (i := e) (by rwa [← hk])
    rw [← hk] at hround
    obtain ⟨d, hd, hde⟩ := hround
    have hno := hscan d hd
    rw [walk_eq hpow hpos, hde, hs] at hno
    exact absurd hno (by simp)

/-- No slot before the one that holds the key passes the key test. -/
theorem Core.no_hit_before (hc : Core hasher t) {i d : ℕ} (hl : t.Live i key) (hd : d < t.capacity)
    (hi : (probe (hasher key) t.capacity + d) % t.capacity = i) :
    ∀ j < d, t.hit key (hasher key) ((probe (hasher key) t.capacity + j) % t.capacity) = false := by
  intro j hj
  by_contra hne
  rw [Bool.not_eq_false, hit_iff] at hne
  have hlive : t.Live ((probe (hasher key) t.capacity + j) % t.capacity) key :=
    ⟨Nat.mod_lt _ (Nat.zero_lt_of_lt hd), hne.1, hne.2.2⟩
  have hsame := hc.unique _ _ _ hlive hl
  exact absurd (round_inj (hj.trans hd) hd (hsame.trans hi.symm)) (Nat.ne_of_lt hj)

theorem Core.hit_live (hc : Core hasher t) (hl : t.Live i key) : t.hit key (hasher key) i = true :=
  hit_iff.mpr ⟨hl.2.1, hc.hash i key hl, hl.2.2⟩

/-- `find_slot` returns the slot of a live key. -/
theorem Core.findSlot_live (hc : Core hasher t) (hl : t.Live i key) : t.findSlot key (hasher key) = some (some i) := by
  have hpos : 0 < t.capacity := Nat.zero_lt_of_lt hl.1
  obtain ⟨d, hd, hi, hne⟩ := hc.chain i key hl
  have hscan : scan (nextSlot t.capacity)
      (fun idx => decide ((t.slotAt idx).metadata = .empty) || t.hit key (hasher key) idx)
      t.capacity (probe (hasher key) t.capacity) = some i := by
    rw [scan_walk hc.pow2 hpos]
    refine ⟨d, hd, hi, by simp [hc.hit_live hl], fun j hj => ?_⟩
    rw [hc.no_hit_before hl hd hi j hj, Bool.or_false]
    exact decide_eq_false (hne j hj)
  rw [findSlot, if_neg (Nat.pos_iff_ne_zero.mp hpos), hscan, Option.map_some, if_neg]
  rw [hl.2.1]; exact SlotState.noConfusion

/-- `find_slot` reports an absent key as long as the table has an EMPTY slot. -/
theorem Core.findSlot_absent (hc : Core hasher t) (hroom : t.HasRoom) (habs : ∀ i, ¬ t.Live i key) :
    t.findSlot key (hasher key) = some none := by
  rw [findSlot]
  rcases hroom with h0 | ⟨e, he, hempty⟩
  · rw [if_pos h0]
  · have hpos : 0 < t.capacity := Nat.zero_lt_of_lt he
    obtain ⟨i, hscan⟩ := scan_isSome hc.pow2 (hasher key)
      (fun idx => decide ((t.slotAt idx).metadata = .empty) || t.hit key (hasher key) idx)
      he (by simp [hempty])
    rw [if_neg (Nat.pos_iff_ne_zero.mp hpos), hscan, Option.map_some]
    rw [scan_walk hc.pow2 hpos] at hscan
    obtain ⟨d, hd, hi, hstop, _⟩ := hscan
    rw [Bool.or_eq_true, decide_eq_true_iff] at hstop
    rcases hstop with hem | hhit
    · rw [if_pos hem]
    · rw [hit_iff] at hhit
      exact absurd ⟨hi ▸ Nat.mod_lt _ hpos, hhit.1, hhit.2.2⟩ (habs i)

/-- With an occupied slot for every key that is looked up and an EMPTY slot for the others, `get` is
    the content of the table. -/
theorem Core.get_eq (hc : Core hasher t) (hroom : t.HasRoom) {r : Option V}
    (hr : ∀ v, r = some v ↔ t.Holds key v) : t.get hasher key = some r := by
  by_cases hex : ∃ i, t.Live i key
  · obtain ⟨i, hl⟩ := hex
    rw [get, hc.findSlot_live hl]
    exact congrArg some ((hr _).mpr ⟨i, hl, rfl⟩).symm
  · have hnone : r = none := by
      cases r with
      | none => rfl
      | some v =>
        obtain ⟨i, hl, _⟩ := (hr v).mp rfl
        exact absurd ⟨i, hl⟩ hex
    rw [get, hc.findSlot_absent hroom (not_exists.mp hex), hnone]
    rfl

/-- For an absent key the probe loop of `insert` stops at a free slot on the key's chain. -/
theorem Core.insertionSlot_absent (hc : Core hasher t) (habs : ∀ i, ¬ t.Live i key) {e : ℕ}
    (he : e < t.capacity) (hfree : (t.slotAt e).metadata ≠ .occupied) :
    ∃ i < t.capacity, t.insertionSlot key (hasher key) = some i ∧
      (t.slotAt i).metadata ≠ .occupied ∧ t.Reaches (probe (hasher key) t.capacity) i := by
  have hpos : 0 < t.capacity := Nat.zero_lt_of_lt he
  obtain ⟨i, hscan⟩ := scan_isSome hc.pow2 (hasher key)
    (fun idx => decide ((t.slotAt idx).metadata ≠ .occupied) || t.hit key (hasher key) idx)
    he (by simp [hfree])
  have hwalk := (scan_walk hc.pow2 hpos).mp hscan
  obtain ⟨d, hd, hi, hstop, hfirst⟩ := hwalk
  have hlt : i < t.capacity := hi ▸ Nat.mod_lt _ hpos
  rw [Bool.or_eq_true, decide_eq_true_iff] at hstop
  have hnot : (t.slotAt i).metadata ≠ .occupied := by
    rcases hstop with hfr | hhit
    · exact hfr
    · rw [hit_iff] at hhit
      exact absurd ⟨hlt, hhit.1, hhit.2.2⟩ (habs i)
  refine ⟨i, hlt, hscan, hnot, d, hd, hi, fun j hj => ?_⟩
  have hj := hfirst j hj
  rw [Bool.or_eq_false_iff, decide_eq_false_iff_not, not_not] at hj
  rw [hj.1]; exact SlotState.noConfusion

/-- For a live key the probe loop of `insert` stops at the key's slot, when no tombstone precedes it
    on the chain. -/
theorem Core.insertionSlot_live (hc : Core hasher t) (hclean : t.NoTombstone) (hl : t.Live i key) :
    t.insertionSlot key (hasher key) = some i := by
  have hpos : 0 < t.capacity := Nat.zero_lt_of_lt hl.1
  obtain ⟨d, hd, hi, hne⟩ := hc.chain i key hl
  rw [insertionSlot, scan_walk hc.pow2 hpos]
  refine ⟨d, hd, hi, by simp [hc.hit_live hl], fun j hj => ?_⟩
  rw [hc.no_hit_before hl hd hi j hj, Bool.or_false, decide_eq_false_iff_not, not_not]
  cases hst : (t.slotAt ((probe (hasher key) t.capacity + j) % t.capacity)).metadata with
  | occupied => rfl
  | empty => exact absurd hst (hne j hj)
  | erased => exact absurd hst (hclean _ (Nat.mod_lt _ hpos))

/-! ### The two outcomes of `insert` after the load check -/

/-- The key is already in slot `i`: its value is replaced. -/
theorem place_overwrite (value : V) (hslot : t.insertionSlot key h = some i) (ho : (t.slotAt i).metadata = .occupied) :
    t.place key value h = some (t.setValue i value, i, false) := by
  simp [place, hslot, ho, setValue]

/-- The key is new: it takes the free slot `i`. -/
theorem place_new (value : V) (hslot : t.insertionSlot key h = some i) (hfree : (t.slotAt i).metadata ≠ .occupied) :
    t.place key value h = some (⟨t.slots.set i ⟨.occupied, key, value, h⟩, t.size + 1⟩, i, true) := by
  simp [place, hslot, hfree]

theorem Core.new (hc : Core hasher t) (habs : ∀ i, ¬ t.Live i key) (hi : i < t.capacity)
    (hfree : (t.slotAt i).metadata ≠ .occupied) (hreach : t.Reaches (probe (hasher key) t.capacity) i) (value : V) :
    Core hasher (⟨t.slots.set i ⟨.occupied, key, value, hasher key⟩, t.size + 1⟩ : FlatMap K V) := by
  refine hc.set hi SlotState.noConfusion ?_ fun _ => ⟨rfl, hreach, fun j _ => habs j⟩
  rw [countP_set_slot hi, ← hc.size]
  simp [hfree]

theorem Core.setValue (hc : Core hasher t) (hl : t.Live i key) (value : V) : Core hasher (t.setValue i value) := by
  obtain ⟨hi, ho, rfl⟩ := hl
  refine hc.set hi (by simp [ho]) ?_ fun _ =>
    ⟨hc.hash i _ ⟨hi, ho, rfl⟩, hc.chain i _ ⟨hi, ho, rfl⟩, fun j hj hlj =>
      hj (hc.unique j i _ hlj ⟨hi, ho, rfl⟩)⟩
  rw [countP_set_slot hi, ← hc.size]
  have hpos := countP_pos_of_slot (p := fun s => decide (s.metadata = .occupied)) hi (by simp [ho])
  rw [← hc.size] at hpos
  simp [ho]; omega

theorem Core.erased (hc : Core hasher t) (hl : t.Live i key) :
    Core hasher (⟨t.slots.set i { t.slotAt i with metadata := .erased }, t.size - 1⟩ :
      FlatMap K V) := by
  obtain ⟨hi, ho, rfl⟩ := hl
  refine hc.set hi SlotState.noConfusion ?_ fun h => SlotState.noConfusion h
  rw [countP_set_slot hi, ← hc.size]
  simp [ho]

end Zith.Memory.FlatMap
