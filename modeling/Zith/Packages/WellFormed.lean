import Zith.Packages.Validation

/-! What `validateLockfile` accepts, in the words of a lockfile's reader: the queue of the cycle check plays no part.
    A queue that runs dry before it has seen every package leaves some that wait for one another in a circle. -/

namespace Zith.Packages
open Zith.Lib

section
variable (F : FileSystem)

/-- A lockfile whose names, versions, digests and paths have their forms, whose packages are told apart by
    each of their names, paths and module paths, and which locks what it lists, without a cycle. -/
structure WellFormed (lockfile : Lockfile) : Prop where
  projectName : lockfile.projectName ≠ ""
  projectVersion : lockfile.projectVersion ≠ ""
  digest : isSha256 lockfile.projectManifestSha256 = true
  packages : ∀ p ∈ lockfile.packages, ValidPackage F lockfile.projectName p
  names : (lockfile.packages.map (·.name)).Nodup
  paths : (lockfile.packages.map (·.path)).Nodup
  modulePaths : (lockfile.packages.map (modulePathKey F)).Nodup
  unique : lockfile.dependencies.Nodup ∧ ∀ p ∈ lockfile.packages, p.dependencies.Nodup
  locked : lockfile.dependencies ⊆ lockfile.packages.map (·.name) ∧
    ∀ p ∈ lockfile.packages, p.dependencies ⊆ lockfile.packages.map (·.name)
  acyclic : ∀ name, ¬Relation.TransGen (Lists lockfile.packages) name name

end

section
variable {F : FileSystem} {lockfile : Lockfile}

/-- All packages leave the queue exactly when none waits, directly or not, for itself. -/
theorem visited_iff_acyclic {packages : List LockedPackage} (hw : Wired packages) :
    (visited packages).length = packages.length ↔ ∀ name, ¬Relation.TransGen (Lists packages) name name := by
  rw [visited_iff hw]
  constructor
  · rintro ⟨order, horder, hall⟩ name hcycle
    obtain ⟨_, ⟨p, hp, rfl, _⟩, _⟩ := Relation.TransGen.head'_iff.mp hcycle
    exact horder.acyclic (hall (List.mem_map_of_mem hp)) hcycle
  · exact PostOrder.exists_of_acyclic fun a b ⟨p, hp, _, hb⟩ => hw.locked p hp b hb

/-- A normalized path is its own key. -/
theorem pathKey_of_normalized {path : Path} (h : isNormalizedRelativePath F path = true) : pathKey F path = path := by
  rw [isNormalizedRelativePath] at h
  split at h
  · cases h
  · simp only [Bool.and_eq_true, beq_iff_eq] at h
    exact h.2.symm

theorem validEdges_iff {packageNames edges : List String} (hempty : "" ∉ packageNames) :
    ValidEdges packageNames edges ↔ edges.Nodup ∧ edges ⊆ packageNames :=
  ⟨fun h => ⟨h.nodup, h.locked⟩, fun h => ⟨h.1, fun hmem => hempty (h.2 hmem), h.2⟩⟩

theorem valid_iff_wellFormed : Valid F lockfile ↔ WellFormed F lockfile := by
  have hedges : (∀ p ∈ lockfile.packages, ValidPackage F lockfile.projectName p) → ∀ edges,
      ValidEdges (lockfile.packages.map (·.name)) edges ↔
        edges.Nodup ∧ edges ⊆ lockfile.packages.map (·.name) := fun hall edges =>
    validEdges_iff fun hmem => by
      obtain ⟨p, hp, hname⟩ := List.mem_map.mp hmem
      exact (hall p hp).name hname
  have hpaths : (∀ p ∈ lockfile.packages, ValidPackage F lockfile.projectName p) →
      (lockfile.packages.map fun p => pathKey F p.path) = lockfile.packages.map (·.path) := fun hall =>
    List.map_congr_left fun p hp => pathKey_of_normalized (hall p hp).path
  constructor
  · intro h
    have hedge := hedges h.packages
    exact ⟨h.projectName, h.projectVersion, h.digest, h.packages, h.names, hpaths h.packages ▸ h.paths,
      h.modulePaths, ⟨((hedge _).mp h.dependencies).1, fun p hp => ((hedge _).mp (h.edges p hp)).1⟩,
      ⟨((hedge _).mp h.dependencies).2, fun p hp => ((hedge _).mp (h.edges p hp)).2⟩,
      (visited_iff_acyclic h.wired).mp h.acyclic⟩
  · intro h
    have hedge := hedges h.packages
    exact ⟨h.projectName, h.projectVersion, h.digest, h.packages, h.names, (hpaths h.packages).symm ▸ h.paths,
      h.modulePaths, (hedge _).mpr ⟨h.unique.1, h.locked.1⟩,
      fun p hp => (hedge _).mpr ⟨h.unique.2 p hp, h.locked.2 p hp⟩,
      (visited_iff_acyclic ⟨h.names, h.unique.2, fun p hp _ hd => h.locked.2 p hp hd⟩).mpr h.acyclic⟩

/-- What the validation accepts, and that an accepted lockfile is read back as it was written, in the order
    of its names. -/
theorem validateLockfile_accepts : (validateLockfile F lockfile = .ok () ↔ WellFormed F lockfile) ∧
    (validateLockfile F lockfile = .ok () → ∃ entries, serializeLockfile F lockfile = .ok entries ∧
      parseLockfile F entries = .ok lockfile.sorted) := by
  refine ⟨validateLockfile_iff.trans valid_iff_wellFormed, fun h => ?_⟩
  obtain ⟨entries, hentries⟩ : ∃ entries, serializeLockfile F lockfile = .ok entries := by
    rw [serializeLockfile, h]
    exact ⟨_, rfl⟩
  exact ⟨entries, hentries, parse_serialize hentries⟩

end
end Zith.Packages
