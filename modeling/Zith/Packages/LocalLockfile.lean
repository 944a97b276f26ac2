import Mathlib.Algebra.GroupWithZero.Nat
import Zith.Packages.Validation

/-! `validateLocalLockfile`: each locked package against the manifest at its path, and then what the project reaches
    in the lockfile. The packages that are still to be reached are a stack, with its top at the head. -/

namespace Zith.Packages
open Zith.Lib Relation

def staleLockfile (reason : String) : String := "Zith.lock is stale (" ++ reason ++ "); run 'zithc deps resolve'"

/-- Something that the check needs, or the reason that the lockfile is stale. -/
def orStale {α : Type} (result : Except String α) : Except String α := result.mapError staleLockfile

def dependencyNames (dependencies : List DependencyDeclaration) : List String :=
  sortByName id (dependencies.map (·.name))

/-- `packagesByName`, which keeps the first package of a name. -/
def findPackage (packages : List LockedPackage) (name : String) : Option LockedPackage :=
  packages.find? (·.name = name)

/-- The loop that fills `reachablePackages`. -/
def reach (packages : List LockedPackage) : ℕ → List String → List String → Except Failure (List String)
  | 0, _, _ => .error .outOfFuel
  | _ + 1, reached, [] => .ok reached
  | fuel + 1, reached, name :: pending =>
    if name ∈ reached then reach packages fuel reached pending
    else
      match findPackage packages name with
      | none => .error (.message (staleLockfile ("dependency '" ++ name ++ "' is not locked")))
      | some package => reach packages fuel (name :: reached) (package.dependencies.reverse ++ pending)

/-- No more names than these are ever pending. -/
def reachFuel (lockfile : Lockfile) : ℕ :=
  lockfile.dependencies.length + (lockfile.packages.map (·.dependencies.length)).sum + 1

section
variable (F : FileSystem)

def loadLockfile (path : Path) : Except String Lockfile :=
  match F.readFile path with
  | .error .cannotOpen => .error ("cannot read lockfile '" ++ path ++ "'")
  | .error .bad => .error ("failed while reading lockfile '" ++ path ++ "'")
  | .ok contents =>
    match F.parseToml contents with
    | .error detail => .error ("invalid TOML in lockfile '" ++ path ++ "': " ++ detail)
    | .ok entries => parseLockfile F entries

def verifyDependencyPath (projectRoot : Path) (locked : Lockfile) (dependency : DependencyDeclaration) :
    Except String Unit :=
  match findPackage locked.packages dependency.name with
  | none => .error (staleLockfile ("dependency '" ++ dependency.name ++ "' is not locked"))
  | some package => do
    let declaredRoot ← orStale (canonicalDirectory F dependency.path "dependency path")
    let lockedRoot ← orStale (canonicalDirectory F (F.join projectRoot package.path) "locked package")
    if declaredRoot ≠ lockedRoot then
      throw (staleLockfile ("dependency path changed for '" ++ dependency.name ++ "'"))

/-- The round of one locked package. -/
def verifyPackage (projectRoot : Path) (locked : Lockfile) (package : LockedPackage) : Except String Unit := do
  let packageRoot := F.join projectRoot package.path
  let document ← orStale (loadManifest F (F.join packageRoot "ZithProject.toml"))
  let manifest := document.manifest
  let moduleRoot ← orStale (relativePath F manifest.moduleRoot manifest.root "package module root")
  if manifest.name ≠ package.name ∨ manifest.version ≠ package.version ∨
      document.sha256 ≠ package.manifestSha256 ∨ moduleRoot ≠ package.moduleRoot then
    throw (staleLockfile ("package identity or manifest fingerprint changed for '" ++ package.name ++ "'"))
  if dependencyNames manifest.dependencies ≠ sortByName id package.dependencies then
    throw (staleLockfile ("dependencies changed for package '" ++ package.name ++ "'"))
  manifest.dependencies.forM (verifyDependencyPath F projectRoot locked)

/-- What is compared before the lockfile is looked through for what the project reaches. -/
def compareLockfile (projectRoot : Path) (document : ManifestDocument) (locked : Lockfile) : Except String Unit := do
  let project := document.manifest
  if locked.projectName ≠ project.name ∨ locked.projectVersion ≠ project.version ∨
      locked.projectManifestSha256 ≠ document.sha256 then
    throw (staleLockfile "project identity or manifest fingerprint changed")
  if dependencyNames project.dependencies ≠ sortByName id locked.dependencies then
    throw (staleLockfile "project dependencies changed")
  project.dependencies.forM (verifyDependencyPath F projectRoot locked)
  locked.packages.forM (verifyPackage F projectRoot locked)

def validateLocalLockfile (projectManifestPath : Path) : Except Failure Unit := do
  let canonicalManifest ← told (projectManifest F projectManifestPath)
  let document ← told (loadManifest F canonicalManifest)
  let projectRoot := F.parentPath canonicalManifest
  let locked ← told ((loadLockfile F (F.join projectRoot "Zith.lock")).mapError (· ++ "; run 'zithc deps resolve'"))
  told (compareLockfile F projectRoot document locked)
  let reachablePackages ← reach locked.packages (reachFuel locked) [] locked.dependencies.reverse
  if reachablePackages.length ≠ locked.packages.length then
    throw (.message (staleLockfile "lockfile contains packages outside the dependency graph"))

end

/-! ### What is reached -/

section
variable {packages : List LockedPackage} {roots : List String}

/-- Some names have been reached, and what they list is reached or pending. -/
structure Reaching (packages : List LockedPackage) (roots reached pending : List String) : Prop where
  nodup : reached.Nodup
  covers : roots ⊆ reached ++ pending
  closed : ∀ {a b}, a ∈ reached → Lists packages a b → b ∈ reached ++ pending
  found : reached ⊆ packages.map (·.name)
  reaches : ∀ name ∈ reached ++ pending, ∃ root ∈ roots, ReflTransGen (Lists packages) root name

variable {p : LockedPackage}

theorem findPackage_some {name : String} (h : findPackage packages name = some p) : p ∈ packages ∧ p.name = name := by
  rw [findPackage] at h
  exact ⟨List.mem_of_find?_eq_some h, by simpa using List.find?_some h⟩

theorem findPackage_of_mem (hnames : (packages.map (·.name)).Nodup) (hp : p ∈ packages) :
    findPackage packages p.name = some p := by
  cases hfind : findPackage packages p.name with
  | none =>
    rw [findPackage] at hfind
    simpa using List.find?_eq_none.mp hfind p hp
  | some q =>
    obtain ⟨hq, hname⟩ := findPackage_some hfind
    rw [List.inj_on_of_nodup_map hnames hq hp hname]

/-- A name that was reached before is dropped. -/
theorem Reaching.drop {reached pending : List String} {name : String}
    (h : Reaching packages roots reached (name :: pending)) (hname : name ∈ reached) :
    Reaching packages roots reached pending := by
  have hsame : ∀ x, x ∈ reached ++ name :: pending ↔ x ∈ reached ++ pending := by
    intro x
    simp only [List.mem_append, List.mem_cons]
    constructor
    · rintro (hx | rfl | hx)
      · exact .inl hx
      · exact .inl hname
      · exact .inr hx
    · exact Or.imp_right .inr
  exact ⟨h.nodup, fun x hx => (hsame x).mp (h.covers hx), fun ha hab => (hsame _).mp (h.closed ha hab), h.found,
    fun x hx => h.reaches x ((hsame x).mpr hx)⟩

/-- A new name is reached, and what its package lists is pending. -/
theorem Reaching.take (hnames : (packages.map (·.name)).Nodup) {reached pending : List String}
    (h : Reaching packages roots reached (p.name :: pending)) (hp : p ∈ packages) (hnew : p.name ∉ reached) :
    Reaching packages roots (p.name :: reached) (p.dependencies.reverse ++ pending) := by
  have hkept : ∀ x, x ∈ reached ++ p.name :: pending → x ∈ p.name :: reached ++ (p.dependencies.reverse ++ pending) := by
    intro x
    simp only [List.mem_append, List.mem_cons]
    tauto
  refine ⟨List.nodup_cons.mpr ⟨hnew, h.nodup⟩, fun x hx => hkept x (h.covers hx), ?_, ?_, ?_⟩
  · rintro a b ha hab
    rcases List.mem_cons.mp ha with rfl | ha
    · obtain ⟨q, hq, hname, hb⟩ := hab
      obtain rfl := List.inj_on_of_nodup_map hnames hq hp hname
      simp [hb]
    · exact hkept b (h.closed ha hab)
  · rintro x (_ | ⟨_, hx⟩)
    · exact List.mem_map_of_mem hp
    · exact h.found hx
  · intro x hx
    have hold : x ∈ reached ++ p.name :: pending ∨ x ∈ p.dependencies := by
      simp only [List.mem_append, List.mem_cons, List.mem_reverse] at hx ⊢
      tauto
    rcases hold with hold | hlists
    · exact h.reaches x hold
    · obtain ⟨root, hroot, hreaches⟩ := h.reaches p.name (by simp)
      exact ⟨root, hroot, hreaches.tail ⟨p, hp, rfl, hlists⟩⟩

theorem reach_reaches (hnames : (packages.map (·.name)).Nodup) : ∀ {fuel : ℕ} {reached pending result : List String},
    Reaching packages roots reached pending → reach packages fuel reached pending = .ok result →
    Reaching packages roots result [] := by
  intro fuel
  induction fuel with
  | zero =>
    intro reached pending result h hrun
    cases hrun
  | succ fuel ih =>
    rintro reached (_ | ⟨name, pending⟩) result h hrun
    · obtain rfl := Except.ok.inj hrun
      exact h
    · rw [reach] at hrun
      split at hrun
      · next hname => exact ih (h.drop hname) hrun
      · next hname =>
        split at hrun
        · cases hrun
        · next p hfind =>
          obtain ⟨hp, rfl⟩ := findPackage_some hfind
          exact ih (h.take hnames hp hname) hrun

/-- The dependencies of the packages that were not reached. -/
def unreached (packages : List LockedPackage) (reached : List String) : ℕ :=
  ((packages.filter (·.name ∉ reached)).map (·.dependencies.length)).sum

theorem unreached_cons (hnames : (packages.map (·.name)).Nodup) {reached : List String} (hp : p ∈ packages)
    (hnew : p.name ∉ reached) :
    unreached packages (p.name :: reached) + p.dependencies.length = unreached packages reached := by
  induction packages with
  | nil => cases hp
  | cons q packages ih =>
    obtain ⟨hq, hnames⟩ := List.nodup_cons.mp hnames
    simp only [unreached] at ih ⊢
    rcases List.mem_cons.mp hp with rfl | hp
    · have hrest : packages.filter (fun q => q.name ∉ p.name :: reached) = packages.filter (fun q => q.name ∉ reached) := by
        refine List.filter_congr fun q hmem => ?_
        have hne : q.name ≠ p.name := fun heq => hq (List.mem_map.mpr ⟨q, hmem, heq⟩)
        simp [hne]
      rw [List.filter_cons_of_neg (by simp), List.filter_cons_of_pos (by simpa using hnew), hrest]
      simp [Nat.add_comm]
    · have hne : q.name ≠ p.name := fun heq => hq (List.mem_map.mpr ⟨p, hp, heq.symm⟩)
      have hsum := ih hnames hp
      by_cases hreached : q.name ∈ reached
      · rw [List.filter_cons_of_neg (by simp [hreached]), List.filter_cons_of_neg (by simp [hreached])]
        exact hsum
      · rw [List.filter_cons_of_pos (by simp [hreached, hne]), List.filter_cons_of_pos (by simp [hreached])]
        simp only [List.map_cons, List.sum_cons]
        omega

/-- Every name in a lockfile is found, so that the loop comes to its end. -/
theorem reach_returns (hwired : Wired packages) : ∀ {fuel : ℕ} {reached pending : List String},
    pending ⊆ packages.map (·.name) → pending.length + unreached packages reached < fuel →
    ∃ result, reach packages fuel reached pending = .ok result := by
  intro fuel
  induction fuel with
  | zero =>
    intro reached pending _ h
    exact absurd h (Nat.not_lt_zero _)
  | succ fuel ih =>
    rintro reached (_ | ⟨name, pending⟩) hpending h
    · exact ⟨reached, rfl⟩
    · obtain ⟨hname, hrest⟩ := List.cons_subset.mp hpending
      rw [List.length_cons] at h
      rw [reach]
      split
      · exact ih hrest (by omega)
      · next hnew =>
        obtain ⟨p, hp, rfl⟩ := List.mem_map.mp hname
        rw [findPackage_of_mem hwired.names hp]
        have hsum := unreached_cons hwired.names hp hnew
        refine ih ?_ (by rw [List.length_append, List.length_reverse]; omega)
        intro x hx
        rcases List.mem_append.mp hx with hx | hx
        · exact hwired.locked p hp x (List.mem_reverse.mp hx)
        · exact hrest hx

/-- The size of what was reached tells whether it is everything. -/
theorem reach_iff {lockfile : Lockfile} (hwired : Wired lockfile.packages)
    (hdependencies : lockfile.dependencies ⊆ lockfile.packages.map (·.name)) : ∃ result,
    reach lockfile.packages (reachFuel lockfile) [] lockfile.dependencies.reverse = .ok result ∧
      (result.length = lockfile.packages.length ↔ ∀ p ∈ lockfile.packages, ∃ root ∈ lockfile.dependencies,
        ReflTransGen (Lists lockfile.packages) root p.name) := by
  have hstart : Reaching lockfile.packages lockfile.dependencies [] lockfile.dependencies.reverse := by
    refine ⟨List.nodup_nil, fun x hx => by simpa using hx, by simp, List.nil_subset _, fun x hx => ?_⟩
    exact ⟨x, by simpa using hx, .refl⟩
  have hfuel : lockfile.dependencies.reverse.length + unreached lockfile.packages [] < reachFuel lockfile := by
    simp [reachFuel, unreached]
  obtain ⟨result, hresult⟩ := reach_returns hwired (fun x hx => hdependencies (List.mem_reverse.mp hx)) hfuel
  refine ⟨result, hresult, ?_⟩
  have hreaching := reach_reaches hwired.names hstart hresult
  have hclosed : ∀ {root name}, root ∈ result → ReflTransGen (Lists lockfile.packages) root name → name ∈ result := by
    intro root name hroot hreaches
    induction hreaches with
    | refl => exact hroot
    | tail _ hlists ih => simpa using hreaching.closed ih hlists
  have hsub := List.subperm_of_subset hreaching.nodup hreaching.found
  constructor
  · intro hlen p hp
    have hperm := hsub.perm_of_length_le (by rw [List.length_map, hlen])
    exact hreaching.reaches p.name (by simpa using hperm.mem_iff.mpr (List.mem_map_of_mem hp))
  · intro hall
    have hperm := hsub.antisymm (List.subperm_of_subset hwired.names fun name hname => by
      obtain ⟨p, hp, rfl⟩ := List.mem_map.mp hname
      obtain ⟨root, hroot, hreaches⟩ := hall p hp
      exact hclosed (by simpa using hreaching.covers hroot) hreaches)
    rw [hperm.length_eq, List.length_map]

end

end Zith.Packages
