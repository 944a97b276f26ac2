import Zith.Hir.Module
import Zith.Lib.FlowGraph
import Zith.Lib.Search
import Zith.Lib.Stable

/-! The control flow of a function as `HirVerifier::verify` sees it: the predecessors of its blocks, the
    blocks that are reachable from block 0, and the matrix of dominators. `dominators[b][d]` starts with
    every reachable `d`, and sweeps over the blocks take away what a predecessor of `b` does not have,
    until a sweep takes away nothing.

    A row or an entry behind the end of a vector is never read; the model gives it no entries. -/

namespace Zith.Hir
open Zith.Lib

/-! ### Edges -/

/-- `id == kInvalidHirExpr || id >= module_.exprCount()` has no expression. -/
def HirModule.tryExpr (m : HirModule) (id : HirExprId) : Option HirExpr :=
  if id = kInvalidHirExpr then none else m.exprs[id.toNat]?

/-- The way out of a block. -/
inductive Exit where
  | thenBlock | elseBlock | jump
  deriving DecidableEq

section
variable (m : HirModule) (fn : HirFunction)

def blockCount : ℕ := fn.blocks.length

def terminator (block : ℕ) : Option HirExpr := fn.blocks[block]?.bind fun b => m.tryExpr b.terminator

/-- Where a block goes on, inside the function or not. -/
def exits (source : ℕ) : List (Exit × ℕ) :=
  match terminator m fn source with
  | some (.branch _ thenBlock elseBlock) => [(.thenBlock, thenBlock.toNat), (.elseBlock, elseBlock.toNat)]
  | some (.jump target) => [(.jump, target.toNat)]
  | _ => []

def targets (source : ℕ) : List ℕ := (exits m fn source).map Prod.snd

/-- `if (target < block_count) predecessors[target].push_back(source);`. -/
def addPredecessor (source : ℕ) (predecessors : List (List ℕ)) (target : ℕ) : List (List ℕ) :=
  predecessors.modify target (· ++ [source])

def predecessors : List (List ℕ) :=
  (List.range (blockCount fn)).foldl
    (fun predecessors source => (targets m fn source).foldl (addPredecessor source) predecessors)
    (List.replicate (blockCount fn) [])

/-! ### Reachable blocks and dominators -/

def reachableBlocks : Option (List Bool) :=
  if blockCount fn = 0 then some []
  else
    (search (targets m fn) (fun _ => false) (blockCount fn) [0]
      ((List.replicate (blockCount fn) false).set 0 true)).map Prod.snd

end

/-- `row[i]`. -/
def flag (row : List Bool) (i : ℕ) : Bool := row[i]?.getD false

/-- `matrix[b][d]`. -/
def entry (matrix : List (List Bool)) (b d : ℕ) : Bool := flag (matrix[b]?.getD []) d

section
variable (n : ℕ) (predecessors : List (List ℕ)) (reachable : List Bool)

def initialDominators : List (List Bool) :=
  (List.range n).map fun block =>
    (List.range n).map fun candidate =>
      if !flag reachable block then candidate == block
      else if block = 0 then candidate == block
      else flag reachable candidate

/-- `next[candidate] = next[candidate] && dominators[predecessor][candidate]`, for each candidate. -/
def meet (dominators : List (List Bool)) (next : List Bool) (predecessor : ℕ) : List Bool :=
  (List.range n).map fun candidate => flag next candidate && entry dominators predecessor candidate

def nextDominators (dominators : List (List Bool)) (block : ℕ) : List Bool :=
  let known := (predecessors[block]?.getD []).filter (flag reachable)
  let next := if known.isEmpty then List.replicate n false
    else known.foldl (meet n dominators) (List.replicate n true)
  next.set block true

/-- What a sweep does to a block: nothing, or a new row. -/
def updateDominators (block : ℕ) (dominators : List (List Bool)) : Option (List (List Bool)) :=
  if !flag reachable block then none
  else
    let next := nextDominators n predecessors reachable dominators block
    if some next ≠ dominators[block]? then some (dominators.set block next) else none

/-- The loop, with at most `fuel` sweeps. -/
def dominatorLoop (fuel : ℕ) : Option (List (List Bool)) :=
  untilStable (updateDominators n predecessors reachable) (List.range' 1 (n - 1)) fuel (initialDominators n reachable)

end

/-- The reachable blocks and the dominators of a function. -/
def dominatorsOf (m : HirModule) (fn : HirFunction) (fuel : ℕ) : Option (List Bool × List (List Bool)) := do
  let reachable ← reachableBlocks m fn
  let dominators ← dominatorLoop (blockCount fn) (predecessors m fn) reachable fuel
  return (reachable, dominators)

/-! ### The graph -/

section
variable (m : HirModule) (fn : HirFunction)

/-- Control goes from `a` to `b`. -/
def Edge (a : ℕ) (exit : Exit) (b : ℕ) : Prop := (exit, b) ∈ exits m fn a ∧ b < blockCount fn

/-- A walk of control from block 0. -/
abbrev Path (b : ℕ) (steps : List (ℕ × Exit)) : Prop := Walk (Edge m fn) 0 b steps

variable {m fn}

theorem mem_targets {a b : ℕ} : b ∈ targets m fn a ↔ ∃ exit, (exit, b) ∈ exits m fn a := by
  rw [targets, List.mem_map]
  constructor
  · rintro ⟨⟨exit, b⟩, h, rfl⟩
    exact ⟨exit, h⟩
  · rintro ⟨exit, h⟩
    exact ⟨(exit, b), h, rfl⟩

/-- A block behind the end goes nowhere. -/
theorem lt_of_exit {a b : ℕ} {exit : Exit} (h : (exit, b) ∈ exits m fn a) : a < blockCount fn := by
  by_contra hge
  have hnone : fn.blocks[a]? = none := List.getElem?_eq_none (Nat.le_of_not_lt hge)
  rw [exits, terminator, hnone] at h
  exact absurd h List.not_mem_nil

theorem goes_iff {a b : ℕ} : Goes (targets m fn) (blockCount fn) a b ↔ ∃ exit, Edge m fn a exit b := by
  constructor
  · rintro ⟨htarget, hlt⟩
    obtain ⟨exit, h⟩ := mem_targets.mp htarget
    exact ⟨exit, h, hlt⟩
  · rintro ⟨exit, h, hlt⟩
    exact ⟨mem_targets.mpr ⟨exit, h⟩, hlt⟩

theorem reaches_iff {b : ℕ} :
    Relation.ReflTransGen (Goes (targets m fn) (blockCount fn)) 0 b ↔ ∃ steps, Path m fn b steps := by
  have hgoes : Goes (targets m fn) (blockCount fn) = fun a b => ∃ exit, Edge m fn a exit b := by
    funext a b
    exact propext goes_iff
  rw [exists_walk_iff, hgoes]

theorem flag_eq_true {row : List Bool} {i : ℕ} : flag row i = true ↔ row[i]? = some true := by
  rw [flag]
  cases row[i]? with
  | none => simp
  | some b => simp

/-- The search marks the blocks that control can come to. -/
theorem reachableBlocks_spec (m : HirModule) (fn : HirFunction) :
    ∃ reachable, reachableBlocks m fn = some reachable ∧ reachable.length = blockCount fn ∧
      ∀ b < blockCount fn, flag reachable b = true ↔ ∃ steps, Path m fn b steps := by
  rw [reachableBlocks]
  split
  · rename_i hzero
    exact ⟨[], rfl, hzero.symm, fun b hb => absurd (hzero ▸ hb) (Nat.not_lt_zero b)⟩
  · rename_i hne
    have h := searched (targets m fn) (fun _ => false) (Nat.pos_of_ne_zero hne)
    generalize search (targets m fn) (fun _ => false) (blockCount fn) [0]
      ((List.replicate (blockCount fn) false).set 0 true) = r at h ⊢
    cases h with
    | stopped marks node _ hstop => cases hstop
    | exhausted marks hlength hmarked _ =>
      refine ⟨marks, rfl, hlength, fun b _ => ?_⟩
      rw [flag_eq_true, hmarked, reaches_iff]

/-! ### Predecessors -/

theorem mem_addPredecessor {source : ℕ} {ps : List (List ℕ)} {target b p : ℕ} :
    p ∈ ((addPredecessor source ps target)[b]?.getD []) ↔
      p ∈ (ps[b]?.getD []) ∨ (b = target ∧ b < ps.length ∧ p = source) := by
  rw [addPredecessor, List.getElem?_modify]
  by_cases hb : b < ps.length
  · rw [List.getElem?_eq_getElem hb]
    by_cases ht : target = b
    · subst ht
      simp [hb]
    · simp [ht, Ne.symm ht]
  · rw [List.getElem?_eq_none (Nat.le_of_not_lt hb)]
    simp [hb]

theorem mem_addPredecessors {source : ℕ} : ∀ {ts : List ℕ} {ps : List (List ℕ)},
    (ts.foldl (addPredecessor source) ps).length = ps.length ∧
      ∀ {b p : ℕ}, p ∈ ((ts.foldl (addPredecessor source) ps)[b]?.getD []) ↔
        p ∈ (ps[b]?.getD []) ∨ (b ∈ ts ∧ b < ps.length ∧ p = source) := by
  intro ts
  induction ts with
  | nil =>
    intro ps
    exact ⟨rfl, by simp⟩
  | cons t ts ih =>
    intro ps
    have hlength : (addPredecessor source ps t).length = ps.length := List.length_modify ..
    obtain ⟨hlen, hmem⟩ := @ih (addPredecessor source ps t)
    refine ⟨hlen.trans hlength, ?_⟩
    intro b p
    rw [List.foldl_cons, hmem, mem_addPredecessor, hlength, List.mem_cons]
    tauto

theorem mem_predecessors {b p : ℕ} (hb : b < blockCount fn) :
    p ∈ ((predecessors m fn)[b]?.getD []) ↔ ∃ exit, Edge m fn p exit b := by
  suffices h : ∀ (sources : List ℕ) (ps : List (List ℕ)), ps.length = blockCount fn →
      (p ∈ ((sources.foldl (fun ps source => (targets m fn source).foldl (addPredecessor source) ps) ps)[b]?.getD
          []) ↔ p ∈ (ps[b]?.getD []) ∨ (p ∈ sources ∧ b ∈ targets m fn p)) by
    rw [predecessors, h _ _ (List.length_replicate ..), List.getElem?_replicate, if_pos hb, ← goes_iff]
    simp only [Option.getD_some, List.not_mem_nil, false_or, List.mem_range]
    constructor
    · rintro ⟨_, htarget⟩
      exact ⟨htarget, hb⟩
    · rintro ⟨htarget, _⟩
      obtain ⟨exit, hexit⟩ := mem_targets.mp htarget
      exact ⟨lt_of_exit hexit, htarget⟩
  intro sources
  induction sources with
  | nil => intro ps _; simp
  | cons source sources ih =>
    intro ps hlength
    obtain ⟨hlen, hmem⟩ := @mem_addPredecessors source (targets m fn source) ps
    rw [List.foldl_cons, ih _ (hlen.trans hlength), hmem, List.mem_cons]
    constructor
    · rintro ((h | ⟨h, _, rfl⟩) | ⟨h, h'⟩)
      · exact Or.inl h
      · exact Or.inr ⟨Or.inl rfl, h⟩
      · exact Or.inr ⟨Or.inr h, h'⟩
    · rintro (h | ⟨rfl | h, h'⟩)
      · exact Or.inl (Or.inl h)
      · exact Or.inl (Or.inr ⟨h', hlength ▸ hb, rfl⟩)
      · exact Or.inr ⟨h, h'⟩

end

/-! ### Rows -/

theorem flag_map_range {n i : ℕ} {f : ℕ → Bool} (hi : i < n) : flag ((List.range n).map f) i = f i := by
  rw [flag, List.getElem?_map, List.getElem?_range hi]
  rfl

theorem lt_of_flag {row : List Bool} {i : ℕ} (h : flag row i = true) : i < row.length :=
  (List.getElem?_eq_some_iff.mp (flag_eq_true.mp h)).1

theorem flag_foldl_meet {n : ℕ} {D : List (List Bool)} {d : ℕ} (hd : d < n) :
    ∀ {known : List ℕ} {next : List Bool}, next.length = n → (known.foldl (meet n D) next).length = n ∧
        (flag (known.foldl (meet n D) next) d = true ↔ flag next d = true ∧ ∀ p ∈ known, entry D p d = true) := by
  intro known
  induction known with
  | nil =>
    intro next hlength
    exact ⟨hlength, by simp⟩
  | cons p known ih =>
    intro next _
    obtain ⟨hlength, hflag⟩ := @ih (meet n D next p) (by rw [meet, List.length_map, List.length_range])
    refine ⟨hlength, ?_⟩
    rw [List.foldl_cons, hflag, meet, flag_map_range hd, Bool.and_eq_true, List.forall_mem_cons, and_assoc]

/-- The reachable predecessors of a block. -/
def known (predecessors : List (List ℕ)) (reachable : List Bool) (block : ℕ) : List ℕ :=
  (predecessors[block]?.getD []).filter (flag reachable)

theorem length_nextDominators {n : ℕ} {ps : List (List ℕ)} {reachable : List Bool} {D : List (List Bool)}
    {b : ℕ} (hb : b < n) : (nextDominators n ps reachable D b).length = n := by
  rw [nextDominators, List.length_set]
  split
  · exact List.length_replicate
  · exact (flag_foldl_meet hb (List.length_replicate ..)).1

/-- The next row has the block itself and what all its reachable predecessors have. -/
theorem flag_nextDominators {n : ℕ} {ps : List (List ℕ)} {reachable : List Bool} {D : List (List Bool)}
    {b d : ℕ} (hb : b < n) (hd : d < n) (hknown : known ps reachable b ≠ []) :
    flag (nextDominators n ps reachable D b) d = true ↔ d = b ∨ ∀ p ∈ known ps reachable b, entry D p d = true := by
  have hfold := (@flag_foldl_meet n D d hd (known ps reachable b) (List.replicate n true) List.length_replicate).2
  have htrue : flag (List.replicate n true) d = true := by
    rw [flag_eq_true, List.getElem?_replicate, if_pos hd]
  have hlength := (@flag_foldl_meet n D d hd (known ps reachable b) (List.replicate n true) List.length_replicate).1
  rw [known] at hknown hfold hlength
  rw [nextDominators, known, if_neg (by simpa using hknown), flag_eq_true]
  rcases eq_or_ne b d with rfl | hne
  · simp [hlength, hb]
  · rw [List.getElem?_set_ne hne, ← flag_eq_true, hfold]
    simp [htrue, hne.symm]

/-- A row that has less, and is another row, has fewer entries. -/
theorem count_lt_of_flags : ∀ {row next : List Bool}, next.length = row.length →
    (∀ d < row.length, flag next d = true → flag row d = true) → next ≠ row → next.count true < row.count true := by
  intro row
  induction row with
  | nil =>
    intro next hlength _ hne
    exact absurd (List.eq_nil_of_length_eq_zero hlength) hne
  | cons x row ih =>
    intro next hlength hle hne
    cases next with
    | nil => cases hlength
    | cons y next =>
      have hlength' : next.length = row.length := Nat.succ.inj hlength
      have hrest : ∀ d < row.length, flag next d = true → flag row d = true := by
        intro d hd h
        exact hle (d + 1) (Nat.succ_lt_succ hd) h
      have hhead : y = true → x = true := fun h => by
        simpa [flag] using hle 0 (Nat.succ_pos _) (by simp [flag, h])
      have hcount : next.count true ≤ row.count true := by
        by_cases heq : next = row
        · rw [heq]
        · exact (ih hlength' hrest heq).le
      rw [List.count_cons, List.count_cons]
      by_cases heq : next = row
      · have hxy : y ≠ x := fun h => hne (by rw [h, heq])
        cases y <;> cases x <;> simp_all
      · have hlt := ih hlength' hrest heq
        cases y with
        | true => rw [hhead rfl]; omega
        | false => rw [if_neg (by decide)]; omega

/-! ### The sweeps -/

/-- The number of entries. -/
def entries (D : List (List Bool)) : ℕ := (D.map (·.count true)).sum

theorem entries_set {row next : List Bool} : ∀ {D : List (List Bool)} {b : ℕ}, D[b]? = some row →
    entries (D.set b next) + row.count true = entries D + next.count true := by
  intro D
  induction D with
  | nil => intro b h; cases h
  | cons r D ih =>
    intro b h
    cases b with
    | zero =>
      obtain rfl : r = row := Option.some.inj h
      simp only [entries, List.set_cons_zero, List.map_cons, List.sum_cons]
      omega
    | succ b =>
      have hrest := ih (b := b) h
      simp only [entries, List.set_cons_succ, List.map_cons, List.sum_cons] at hrest ⊢
      omega

theorem entry_set {D : List (List Bool)} {b c d : ℕ} {next : List Bool} (hb : b < D.length) :
    entry (D.set b next) c d = if c = b then flag next d else entry D c d := by
  rw [entry]
  split
  · rename_i hc
    subst hc
    rw [List.getElem?_set_self hb]
    rfl
  · rename_i hc
    rw [List.getElem?_set_ne (Ne.symm hc)]
    rfl

/-- The matrix between two sweeps: it has every dominator, and what a new row would have. -/
structure Above (m : HirModule) (fn : HirFunction) (reachable : List Bool) (D : List (List Bool)) : Prop where
  length : D.length = blockCount fn
  rows : ∀ row ∈ D, row.length = blockCount fn
  start : ∀ d, entry D 0 d = true → d = 0
  above : ∀ {b d}, b < blockCount fn → d < blockCount fn → flag reachable b = true →
    Dominates (Edge m fn) 0 d b → entry D b d = true
  descends : ∀ {b d}, b ≠ 0 → b < blockCount fn → d < blockCount fn → flag reachable b = true →
    flag (nextDominators (blockCount fn) (predecessors m fn) reachable D b) d = true → entry D b d = true

/-- The marks are those of the blocks that control can come to. -/
def MarksReachable (m : HirModule) (fn : HirFunction) (reachable : List Bool) : Prop :=
  ∀ b < blockCount fn, flag reachable b = true ↔ ∃ steps, Path m fn b steps

section
variable {m : HirModule} {fn : HirFunction} {reachable : List Bool}

theorem mem_known {b p : ℕ} (hb : b < blockCount fn) : p ∈ known (predecessors m fn) reachable b ↔
      flag reachable p = true ∧ p < blockCount fn ∧ ∃ exit, Edge m fn p exit b := by
  rw [known, List.mem_filter, mem_predecessors hb]
  constructor
  · rintro ⟨⟨exit, hedge⟩, hp⟩
    exact ⟨hp, lt_of_exit hedge.1, exit, hedge⟩
  · rintro ⟨hp, _, exit, hedge⟩
    exact ⟨⟨exit, hedge⟩, hp⟩

/-- A reachable block other than block 0 has a reachable predecessor. -/
theorem known_ne_nil (hmarks : MarksReachable m fn reachable) {b : ℕ} (hb : b < blockCount fn) (hne : b ≠ 0)
    (hreach : flag reachable b = true) : known (predecessors m fn) reachable b ≠ [] := by
  obtain ⟨steps, walk⟩ := (hmarks b hb).mp hreach
  cases walk with
  | start => exact absurd rfl hne
  | @step a _ exit steps walk edge =>
    have ha : a < blockCount fn := lt_of_exit edge.1
    exact List.ne_nil_of_mem ((mem_known hb).mpr ⟨(hmarks a ha).mpr ⟨steps, walk⟩, ha, exit, edge⟩)

theorem entry_initial {n b d : ℕ} (hb : b < n) (hd : d < n) : entry (initialDominators n reachable) b d =
      if !flag reachable b then d == b else if b = 0 then d == b else flag reachable d := by
  rw [entry, initialDominators, List.getElem?_map, List.getElem?_range hb, Option.map_some, Option.getD_some,
    flag_map_range hd]

theorem lt_of_entry {n b d : ℕ} {D : List (List Bool)} (hrows : ∀ row ∈ D, row.length = n)
    (h : entry D b d = true) : d < n := by
  rw [entry] at h
  cases hrow : D[b]? with
  | none =>
    rw [hrow] at h
    cases h
  | some row =>
    rw [hrow] at h
    exact hrows row (List.mem_of_getElem? hrow) ▸ lt_of_flag h

theorem above_initial (hmarks : MarksReachable m fn reachable) (hpos : 0 < blockCount fn) :
    Above m fn reachable (initialDominators (blockCount fn) reachable) := by
  have hrows : ∀ row ∈ initialDominators (blockCount fn) reachable, row.length = blockCount fn := by
    intro row hrow
    obtain ⟨b, -, rfl⟩ := List.mem_map.mp hrow
    rw [List.length_map, List.length_range]
  have hzero : flag reachable 0 = true := (hmarks 0 hpos).mpr ⟨[], .start⟩
  refine ⟨by rw [initialDominators, List.length_map, List.length_range], hrows, ?_, ?_, ?_⟩
  · intro d h
    have hd := lt_of_entry hrows h
    rw [entry_initial hpos hd, hzero] at h
    exact beq_iff_eq.mp h
  · intro b d hb hd hreach hdom
    rw [entry_initial hb hd, hreach]
    by_cases hb0 : b = 0
    · subst hb0
      exact beq_iff_eq.mpr (dominates_root hdom)
    · -- a dominator of a reachable block is on a walk, so it is reachable
      simp only [Bool.not_true, Bool.false_eq_true, if_false, if_neg hb0]
      obtain ⟨steps, walk⟩ := (hmarks b hb).mp hreach
      exact (hmarks d hd).mpr (exists_walk_of_mem walk (hdom steps walk))
  · intro b d hb0 hb hd hreach h
    rw [entry_initial hb hd, hreach]
    simp only [Bool.not_true, Bool.false_eq_true, if_false, if_neg hb0]
    have hknown := known_ne_nil hmarks hb hb0 hreach
    rcases (flag_nextDominators hb hd hknown).mp h with rfl | hall
    · exact hreach
    · obtain ⟨p, hp⟩ := List.exists_mem_of_ne_nil _ hknown
      obtain ⟨hpreach, hplt, -⟩ := (mem_known hb).mp hp
      have hentry := hall p hp
      rw [entry_initial hplt hd, hpreach] at hentry
      simp only [Bool.not_true, Bool.false_eq_true, if_false] at hentry
      split at hentry
      · rw [beq_iff_eq.mp hentry]
        exact hpreach
      · exact hentry

/-- A new row keeps the matrix above the dominators, and has fewer entries than the old one. -/
theorem Above.update (hmarks : MarksReachable m fn reachable) {D D' : List (List Bool)} {b : ℕ}
    (h : Above m fn reachable D) (hb0 : b ≠ 0) (hb : b < blockCount fn)
    (hupdate : updateDominators (blockCount fn) (predecessors m fn) reachable b D = some D') :
    Above m fn reachable D' ∧ entries D' < entries D := by
  rw [updateDominators] at hupdate
  split at hupdate
  · cases hupdate
  · rename_i hreach
    simp only [Bool.not_eq_true', Bool.not_eq_false] at hreach
    dsimp only at hupdate
    split at hupdate
    · rename_i hne
      obtain rfl := Option.some.inj hupdate
      have hlt : b < D.length := h.length.symm ▸ hb
      have hknown := known_ne_nil hmarks hb hb0 hreach
      have hnext := @length_nextDominators _ (predecessors m fn) reachable D _ hb
      -- the new matrix has no entry that the old one does not have
      have hless : ∀ {c d}, d < blockCount fn →
          entry (D.set b (nextDominators (blockCount fn) (predecessors m fn) reachable D b)) c d = true →
            entry D c d = true := by
        intro c d hd hentry
        rw [entry_set hlt] at hentry
        split at hentry
        · rename_i hc
          rw [hc]
          exact h.descends hb0 hb hd hreach hentry
        · exact hentry
      refine ⟨⟨by rw [List.length_set, h.length], ?_, ?_, ?_, ?_⟩, ?_⟩
      · intro row hrow
        rcases List.mem_or_eq_of_mem_set hrow with hrow | rfl
        · exact h.rows row hrow
        · exact hnext
      · intro d hentry
        rw [entry_set hlt, if_neg hb0.symm] at hentry
        exact h.start d hentry
      · intro c d hc hd hcreach hdom
        rw [entry_set hlt]
        split
        · rename_i heq
          subst heq
          rw [flag_nextDominators hb hd hknown]
          by_cases heq : d = c
          · exact Or.inl heq
          · refine Or.inr fun p hp => ?_
            obtain ⟨hpreach, hplt, exit, hedge⟩ := (mem_known hb).mp hp
            exact h.above hplt hd hpreach (hdom.before heq hedge)
        · exact h.above hc hd hcreach hdom
      · intro c d hc0 hc hd hcreach hflag
        have hcknown := known_ne_nil hmarks hc hc0 hcreach
        have hold : flag (nextDominators (blockCount fn) (predecessors m fn) reachable D c) d = true := by
          rw [flag_nextDominators hc hd hcknown] at hflag ⊢
          exact hflag.imp_right fun hall p hp => hless hd (hall p hp)
        rw [entry_set hlt]
        split
        · rename_i heq
          rw [← heq]
          exact hold
        · exact h.descends hc0 hc hd hcreach hold
      · obtain ⟨row, hrow⟩ : ∃ row, D[b]? = some row := ⟨_, List.getElem?_eq_getElem hlt⟩
        have hlength := h.rows row (List.mem_of_getElem? hrow)
        have hcount : (nextDominators (blockCount fn) (predecessors m fn) reachable D b).count true <
            row.count true := by
          refine count_lt_of_flags (hnext.trans hlength.symm) ?_ (fun heq => hne (by rw [hrow, heq]))
          intro d hd hflag
          have hentry := h.descends hb0 hb (hlength ▸ hd) hreach hflag
          rwa [entry, hrow] at hentry
        have hset := @entries_set _ (nextDominators (blockCount fn) (predecessors m fn) reachable D b) _ _ hrow
        omega
    · cases hupdate

/-- Where no row is left to change, the matrix is a solution of the equations of dominance. -/
theorem Above.solution (hmarks : MarksReachable m fn reachable) {D : List (List Bool)} (h : Above m fn reachable D)
    (hstable : ∀ b ∈ List.range' 1 (blockCount fn - 1),
      updateDominators (blockCount fn) (predecessors m fn) reachable b D = none) :
    Solution (Edge m fn) 0 fun b d => (∃ steps, Path m fn b steps) ∧ b < blockCount fn ∧ entry D b d = true := by
  refine ⟨fun d hd => h.start d hd.2.2, ?_⟩
  rintro b d hb0 ⟨hwalk, hb, hentry⟩
  have hreach := (hmarks b hb).mpr hwalk
  have hd := lt_of_entry h.rows hentry
  have hnone := hstable b (List.mem_range'_1.mpr ⟨by omega, by omega⟩)
  rw [updateDominators, hreach] at hnone
  simp only [Bool.not_true, Bool.false_eq_true, if_false] at hnone
  split at hnone
  · cases hnone
  · rename_i heq
    have hrow : some (nextDominators (blockCount fn) (predecessors m fn) reachable D b) = D[b]? := not_not.mp heq
    rw [entry, ← hrow, Option.getD_some, flag_nextDominators hb hd (known_ne_nil hmarks hb hb0 hreach)] at hentry
    refine hentry.imp_right fun hall a exit hwalk hedge => ?_
    have ha : a < blockCount fn := lt_of_exit hedge.1
    exact ⟨hwalk, ha, hall a ((mem_known hb).mpr ⟨(hmarks a ha).mpr hwalk, ha, exit, hedge⟩)⟩

theorem entries_le {n : ℕ} : ∀ {D : List (List Bool)}, (∀ row ∈ D, row.length = n) → entries D ≤ D.length * n := by
  intro D
  induction D with
  | nil => intro _; exact Nat.zero_le _
  | cons row D ih =>
    intro hrows
    have hrow := hrows row (List.mem_cons_self ..)
    have hrest := ih fun r hr => hrows r (List.mem_cons_of_mem _ hr)
    have hcount := List.count_le_length (a := true) (l := row)
    simp only [entries, List.map_cons, List.sum_cons, List.length_cons] at hrest ⊢
    rw [Nat.succ_mul]
    omega

end

/-- The loop ends, after no more sweeps than the matrix has entries, and then `dominators[b][d]` holds for a
    reachable `b` exactly when `d` is on every path from block 0 to `b`. -/
theorem dominators_exact (m : HirModule) (fn : HirFunction) :
    ∃ reachable dominators,
      (∀ fuel > blockCount fn * blockCount fn, dominatorsOf m fn fuel = some (reachable, dominators)) ∧
        (∀ b < blockCount fn, flag reachable b = true ↔ ∃ steps, Path m fn b steps) ∧
          ∀ b < blockCount fn, (∃ steps, Path m fn b steps) →
            ∀ d < blockCount fn, entry dominators b d = true ↔ Dominates (Edge m fn) 0 d b := by
  obtain ⟨reachable, hreachable, -, hmarks⟩ := reachableBlocks_spec m fn
  rcases Nat.eq_zero_or_pos (blockCount fn) with hzero | hpos
  · refine ⟨reachable, initialDominators 0 reachable, ?_, hmarks, ?_⟩
    · intro fuel hfuel
      obtain ⟨fuel, rfl⟩ : ∃ k, fuel = k + 1 := ⟨fuel - 1, by omega⟩
      rw [dominatorsOf, hreachable, hzero]
      rfl
    · intro b hb
      exact absurd (hzero ▸ hb) (Nat.not_lt_zero b)
  · have hinitial := above_initial hmarks hpos
    have hentries : entries (initialDominators (blockCount fn) reachable) ≤ blockCount fn * blockCount fn := by
      have hle := entries_le hinitial.rows
      rwa [hinitial.length] at hle
    have hkeep : ∀ b ∈ List.range' 1 (blockCount fn - 1), ∀ {D D' : List (List Bool)}, Above m fn reachable D →
        updateDominators (blockCount fn) (predecessors m fn) reachable b D = some D' →
          Above m fn reachable D' ∧ entries D' < entries D := by
      intro b hb D D' h hupdate
      obtain ⟨hb0, hb⟩ := List.mem_range'_1.mp hb
      exact h.update hmarks (by omega) (by omega) hupdate
    obtain ⟨D, hloop, habove, hstable⟩ :=
      untilStable_rule (Above m fn reachable) entries hkeep hinitial (Nat.lt_succ_of_le hentries)
    refine ⟨reachable, D, ?_, hmarks, ?_⟩
    · intro fuel hfuel
      have hloop' := untilStable_mono hfuel hloop
      rw [dominatorsOf, hreachable, Option.bind_eq_bind, Option.bind_some, dominatorLoop, hloop']
      rfl
    · intro b hb hwalk d hd
      constructor
      · intro hentry
        exact (habove.solution hmarks hstable).dominates ⟨hwalk, hb, hentry⟩
      · intro hdom
        exact habove.above hb hd ((hmarks b hb).mpr hwalk) hdom

end Zith.Hir
