import Zith.Packages.Resolution

/-! The cycle check of a lockfile. A package counts the dependencies it waits for; the names leave the queue in a
    post-order, and all of them do when there is one. -/

namespace Zith.Packages
open Zith.Lib

/-- The package `a` lists `b`. -/
def Lists (packages : List LockedPackage) (a b : String) : Prop := ∃ p ∈ packages, p.name = a ∧ b ∈ p.dependencies

/-- Packages with names of their own, that list packages, and none twice. -/
structure Wired (packages : List LockedPackage) : Prop where
  names : (packages.map (·.name)).Nodup
  edges : ∀ p ∈ packages, p.dependencies.Nodup
  locked : ∀ p ∈ packages, ∀ d ∈ p.dependencies, d ∈ packages.map (·.name)

/-! ### Releasing -/

theorem mem_releaseAll : ∀ {dependents : List String} (remaining : Remaining), dependents.Nodup →
    (∀ name, (releaseAll remaining dependents).1.lookup name =
      if name ∈ dependents then (remaining.lookup name).map (· - 1) else remaining.lookup name) ∧
    (releaseAll remaining dependents).2 = dependents.filter fun name => remaining.lookup name = some 1 := by
  intro dependents
  induction dependents with
  | nil => simp [releaseAll]
  | cons dependent dependents ih =>
    intro remaining hnodup
    obtain ⟨hnew, hrest⟩ := List.nodup_cons.mp hnodup
    have hone : ∀ name, (release remaining dependent).1.lookup name =
        if name = dependent then (remaining.lookup name).map (· - 1) else remaining.lookup name :=
      fun name => @lookup_update ℕ remaining dependent name (· - 1)
    obtain ⟨hlookup, hfreed⟩ := ih (release remaining dependent).1 hrest
    simp only [releaseAll]
    constructor
    · intro name
      rw [hlookup, hone]
      by_cases hname : name = dependent
      · subst hname
        simp [hnew]
      · simp [hname]
    · have hsame : ∀ name ∈ dependents, (release remaining dependent).1.lookup name = remaining.lookup name :=
        fun name hmem => by
          rw [hone, if_neg]
          rintro rfl
          exact hnew hmem
      rw [hfreed, List.filter_cons, List.filter_congr fun name hmem => by rw [hsame name hmem]]
      by_cases hzero : remaining.lookup dependent = some 1 <;> simp [release, hzero]

section
variable {packages : List LockedPackage}

theorem Wired.unique (h : Wired packages) {p q : LockedPackage} (hp : p ∈ packages) (hq : q ∈ packages)
    (hname : p.name = q.name) : p = q := List.inj_on_of_nodup_map h.names hp hq hname

theorem Wired.dependentsOf (h : Wired packages) (name : String) :
    dependentsOf packages name = (packages.filter fun p => name ∈ p.dependencies).map (·.name) := by
  have hedges := h.edges
  clear h
  induction packages with
  | nil => rfl
  | cons p packages ih =>
    obtain ⟨hp, hrest⟩ := List.forall_mem_cons.mp hedges
    have hhead : (p.dependencies.filter (· = name)).map (fun _ => p.name) =
        if name ∈ p.dependencies then [p.name] else [] := by
      rw [List.filter_eq, List.map_replicate]
      split
      · next hmem => rw [List.count_eq_one_of_mem hp hmem, List.replicate_one]
      · next hmem => rw [List.count_eq_zero_of_not_mem hmem, List.replicate_zero]
    rw [Packages.dependentsOf, List.flatMap_cons, hhead, List.filter_cons]
    have := ih hrest
    rw [Packages.dependentsOf] at this
    rw [this]
    split <;> simp_all

theorem Wired.nodup_dependents (h : Wired packages) (name : String) : (Packages.dependentsOf packages name).Nodup := by
  rw [h.dependentsOf]
  exact h.names.sublist (List.filter_sublist.map _)

theorem Wired.mem_dependents (h : Wired packages) {name : String} {p : LockedPackage} (hp : p ∈ packages) :
    p.name ∈ Packages.dependentsOf packages name ↔ name ∈ p.dependencies := by
  rw [h.dependentsOf, List.mem_map]
  constructor
  · rintro ⟨q, hq, hname⟩
    obtain ⟨hq, hmem⟩ := List.mem_filter.mp hq
    obtain rfl := h.unique hq hp hname
    exact of_decide_eq_true hmem
  · exact fun hmem => ⟨p, List.mem_filter.mpr ⟨hp, decide_eq_true hmem⟩, rfl⟩

/-! ### The queue -/

/-- How many dependencies a package waits for. -/
def waiting (popped : List String) (p : LockedPackage) : ℕ := (p.dependencies.filter (· ∉ popped)).length

theorem waiting_eq_zero {popped : List String} {p : LockedPackage} :
    waiting popped p = 0 ↔ ∀ d ∈ p.dependencies, d ∈ popped := by
  simp [waiting, List.filter_eq_nil_iff]

/-- One more name takes one from the packages that list it. -/
theorem waiting_snoc {popped : List String} {name : String} (hnew : name ∉ popped) {p : LockedPackage}
    (hedges : p.dependencies.Nodup) : waiting popped p =
      waiting (popped ++ [name]) p + if name ∈ p.dependencies then 1 else 0 := by
  simp only [waiting]
  generalize p.dependencies = dependencies at hedges ⊢
  induction dependencies with
  | nil => rfl
  | cons d dependencies ih =>
    obtain ⟨hd, hrest⟩ := List.nodup_cons.mp hedges
    have hrest := ih hrest
    by_cases hname : d = name
    · subst hname
      simp only [List.filter_cons, List.mem_append, List.mem_cons, hd] at hrest ⊢
      simp_all
    · have hname' : name ≠ d := fun h => hname h.symm
      simp only [List.filter_cons, List.mem_append, List.mem_cons, hname, hname', false_or] at hrest ⊢
      split <;> simp_all
      omega

/-- The queue, when the names in `popped` have left it. -/
structure Draining (packages : List LockedPackage) (popped ready : List String) (remaining : Remaining) : Prop where
  counts : ∀ p ∈ packages, remaining.lookup p.name = some (waiting popped p)
  nodup : (popped ++ ready).Nodup
  free : ∀ p ∈ packages, (p.name ∈ popped ++ ready ↔ ∀ d ∈ p.dependencies, d ∈ popped)
  names : popped ++ ready ⊆ packages.map (·.name)
  order : PostOrder (Lists packages) popped

/-- One name leaves the queue. -/
theorem Draining.pop (hw : Wired packages) {popped ready : List String} {name : String} {remaining : Remaining}
    (h : Draining packages popped (name :: ready) remaining) :
    Draining packages (popped ++ [name]) (ready ++ (releaseAll remaining (Packages.dependentsOf packages name)).2)
      (releaseAll remaining (Packages.dependentsOf packages name)).1 := by
  obtain ⟨hlookup, hfreed⟩ := mem_releaseAll remaining (hw.nodup_dependents name)
  have hnodup := h.nodup
  rw [List.nodup_append, List.nodup_cons] at hnodup
  obtain ⟨hpopped, ⟨hready, hreadies⟩, hdisjoint⟩ := hnodup
  have hnew : name ∉ popped := fun hmem => hdisjoint name hmem name List.mem_cons_self rfl
  -- the packages that wait for this name only
  have hmem : ∀ p ∈ packages, p.name ∈ (releaseAll remaining (Packages.dependentsOf packages name)).2 ↔
      name ∈ p.dependencies ∧ waiting popped p = 1 := fun p hp => by
    rw [hfreed, List.mem_filter, hw.mem_dependents hp, h.counts p hp]
    simp
  have hof : ∀ x ∈ (releaseAll remaining (Packages.dependentsOf packages name)).2, ∃ p ∈ packages, p.name = x := by
    intro x hx
    rw [hfreed, hw.dependentsOf] at hx
    obtain ⟨p, hp, rfl⟩ := List.mem_map.mp (List.mem_filter.mp hx).1
    exact ⟨p, (List.mem_filter.mp hp).1, rfl⟩
  have hwaits : ∀ p ∈ packages, name ∈ p.dependencies → p.name ∉ popped ++ name :: ready := fun p hp hdep hin =>
    hnew ((h.free p hp).mp hin name hdep)
  refine ⟨fun p hp => ?_, ?_, fun p hp => ?_, ?_, ?_⟩
  · rw [hlookup, h.counts p hp, waiting_snoc hnew (hw.edges p hp)]
    by_cases hdep : name ∈ p.dependencies
    · rw [if_pos ((hw.mem_dependents hp).mpr hdep), if_pos hdep]
      rfl
    · rw [if_neg (fun hin => hdep ((hw.mem_dependents hp).mp hin)), if_neg hdep, Nat.add_zero]
  · have hsame : (popped ++ [name] ++ (ready ++ (releaseAll remaining (Packages.dependentsOf packages name)).2)) =
        (popped ++ name :: ready) ++ (releaseAll remaining (Packages.dependentsOf packages name)).2 := by simp
    rw [hsame, List.nodup_append]
    refine ⟨h.nodup, ?_, ?_⟩
    · rw [hfreed]
      exact (hw.nodup_dependents name).filter _
    · rintro x hx y hy rfl
      obtain ⟨p, hp, rfl⟩ := hof x hy
      exact hwaits p hp ((hmem p hp).mp hy).1 hx
  · have hzero : (∀ d ∈ p.dependencies, d ∈ popped ++ [name]) ↔ waiting (popped ++ [name]) p = 0 := waiting_eq_zero.symm
    have hold : p.name ∈ popped ++ name :: ready ↔ waiting popped p = 0 := (h.free p hp).trans waiting_eq_zero.symm
    have hsum := waiting_snoc hnew (hw.edges p hp)
    have hsplit : p.name ∈ popped ++ [name] ++ (ready ++ (releaseAll remaining (Packages.dependentsOf packages name)).2) ↔
        p.name ∈ popped ++ name :: ready ∨ p.name ∈ (releaseAll remaining (Packages.dependentsOf packages name)).2 := by
      simp [or_assoc]
    rw [hsplit, hold, hmem p hp, hzero]
    by_cases hdep : name ∈ p.dependencies
    · rw [if_pos hdep] at hsum
      have hpositive : waiting popped p ≠ 0 := fun heq => hwaits p hp hdep (hold.mpr heq)
      simp only [hdep, true_and]
      omega
    · rw [if_neg hdep] at hsum
      simp only [hdep, false_and, or_false]
      omega
  · intro x hx
    simp only [List.mem_append, List.mem_singleton] at hx
    rcases hx with (hx | rfl) | hx | hx
    · exact h.names (List.mem_append_left _ hx)
    · exact h.names (by simp)
    · exact h.names (by simp [hx])
    · obtain ⟨p, hp, rfl⟩ := hof x hx
      exact List.mem_map_of_mem hp
  · refine h.order.snoc hnew ?_
    rintro b ⟨p, hp, rfl, hb⟩
    exact (h.free p hp).mp (by simp) b hb

/-- The queue runs dry within as many rounds as there are packages. -/
theorem drain_drains (hw : Wired packages) : ∀ {fuel : ℕ} {popped ready : List String} {remaining : Remaining},
    Draining packages popped ready remaining → popped.length + fuel = packages.length →
    ∃ remaining', Draining packages (popped ++ drain packages fuel ready remaining) [] remaining' := by
  intro fuel
  induction fuel with
  | zero =>
    intro popped ready remaining h hlen
    have hle : (popped ++ ready).length ≤ (packages.map (·.name)).length :=
      (List.subperm_of_subset h.nodup h.names).length_le
    have hready : ready = [] := by
      rw [List.length_append, List.length_map] at hle
      exact List.length_eq_zero_iff.mp (by omega)
    subst hready
    exact ⟨remaining, by rwa [drain, List.append_nil]⟩
  | succ fuel ih =>
    intro popped ready remaining h hlen
    cases ready with
    | nil => exact ⟨remaining, by rwa [drain, List.append_nil]⟩
    | cons name ready =>
      obtain ⟨remaining', hdrained⟩ := ih (h.pop hw) (by rw [List.length_append, List.length_singleton]; omega)
      refine ⟨remaining', ?_⟩
      rw [drain]
      simpa using hdrained

theorem draining_start (hw : Wired packages) : Draining packages []
    ((packages.filter (·.dependencies.length = 0)).map (·.name))
    (packages.map fun package => (package.name, package.dependencies.length)) := by
  have hmem : ∀ p ∈ packages, p.name ∈ (packages.filter (·.dependencies.length = 0)).map (·.name) ↔
      p.dependencies.length = 0 := fun p hp => by
    rw [List.mem_map]
    constructor
    · rintro ⟨q, hq, hname⟩
      obtain ⟨hq, hzero⟩ := List.mem_filter.mp hq
      obtain rfl := hw.unique hq hp hname
      exact of_decide_eq_true hzero
    · exact fun hzero => ⟨p, List.mem_filter.mpr ⟨hp, decide_eq_true hzero⟩, rfl⟩
  refine ⟨fun p hp => ?_, ?_, fun p hp => ?_, ?_, .nil⟩
  · have hcount : waiting [] p = p.dependencies.length := by simp [waiting]
    rw [hcount]
    have hnames := hw.names
    clear hmem hw hcount
    induction packages with
    | nil => simp at hp
    | cons q packages ih =>
      rw [List.map_cons, List.nodup_cons] at hnames
      rw [List.map_cons, lookup_cons_ite]
      rcases List.mem_cons.mp hp with rfl | hp
      · rw [if_pos rfl]
      · rw [if_neg, ih hp hnames.2]
        rintro heq
        exact hnames.1 (heq ▸ List.mem_map_of_mem hp)
  · rw [List.nil_append]
    exact hw.names.sublist (List.filter_sublist.map _)
  · rw [List.nil_append, hmem p hp, List.length_eq_zero_iff]
    simp [List.eq_nil_iff_forall_not_mem]
  · exact (List.filter_sublist.map _).subset

/-- Every package leaves the queue exactly when there is a post-order of them all. -/
theorem visited_iff (hw : Wired packages) : (visited packages).length = packages.length ↔
    ∃ order, PostOrder (Lists packages) order ∧ packages.map (·.name) ⊆ order := by
  obtain ⟨remaining, hdrained⟩ := drain_drains hw (draining_start hw) (Nat.zero_add _)
  rw [List.nil_append] at hdrained
  change Draining packages (visited packages) [] remaining at hdrained
  have hnodup : (visited packages).Nodup := by simpa using hdrained.nodup
  have hsub : visited packages ⊆ packages.map (·.name) := by simpa using hdrained.names
  constructor
  · intro hlen
    refine ⟨visited packages, hdrained.order, ?_⟩
    have hperm := (List.subperm_of_subset hnodup hsub).perm_of_length_le (by rw [List.length_map, hlen])
    exact hperm.symm.subset
  · rintro ⟨order, horder, hall⟩
    have hvisited : ∀ name ∈ order, name ∈ packages.map (·.name) → name ∈ visited packages := by
      clear hall
      induction horder with
      | nil => simp
      | snoc _ _ hneeds ih =>
        intro name hname hpackage
        rcases List.mem_append.mp hname with hname | hname
        · exact ih name hname hpackage
        · obtain rfl := List.mem_singleton.mp hname
          obtain ⟨p, hp, rfl⟩ := List.mem_map.mp hpackage
          have hfree := hdrained.free p hp
          rw [List.append_nil] at hfree
          exact hfree.mpr fun d hd => ih d (hneeds d ⟨p, hp, rfl, hd⟩) (hw.locked p hp d hd)
    have hperm : (visited packages).Perm (packages.map (·.name)) :=
      (List.subperm_of_subset hnodup hsub).antisymm (List.subperm_of_subset hw.names fun name hname => hvisited name (hall hname) hname)
    rw [hperm.length_eq, List.length_map]

end

end Zith.Packages
