import Zith.Lib.Fuel
import Zith.Packages.Resolution

/-! The order in which manifests declare their dependencies. The resolver visits them by name, and a manifest has no
    name twice, so that what it does is the same in every order: up to the fingerprints of the manifests, which are
    of their texts. -/

namespace Zith.Packages
open Zith.Lib Relation

/-- The same manifest, with its dependencies in some order. -/
structure SameManifest (a b : PackageManifest) : Prop where
  rest : { a with dependencies := [] } = { b with dependencies := [] }
  dependencies : a.dependencies.Perm b.dependencies

/-- The same file system, but for the texts of manifests that declare their dependencies in another order. -/
structure Reordered (F F' : FileSystem) : Prop where
  others : F' = { F with readFile := F'.readFile, parseToml := F'.parseToml, sha256Hex := F'.sha256Hex }
  failed : ∀ path e, loadManifest F path = .error e ↔ loadManifest F' path = .error e
  loaded : ∀ {path document document'}, loadManifest F path = .ok document → loadManifest F' path = .ok document' →
    SameManifest document.manifest document'.manifest

/-! ### Names -/

/-- Sorting forgets the order of elements with names of their own. -/
theorem sortByName_of_perm {α : Type} {name : α → String} {l l' : List α} (h : l.Perm l') (hnames : (l.map name).Nodup) :
    sortByName name l = sortByName name l' := by
  have hl := List.perm_insertionSort (fun a b => name a ≤ name b) l
  have hl' := List.perm_insertionSort (fun a b => name a ≤ name b) l'
  refine List.Perm.eq_of_pairwise (fun a b ha hb hab hba => ?_) (List.pairwise_insertionSort _ l)
    (List.pairwise_insertionSort _ l') (hl.trans (h.trans hl'.symm))
  exact List.inj_on_of_nodup_map hnames (hl.mem_iff.mp ha) (h.mem_iff.mpr (hl'.mem_iff.mp hb)) (le_antisymm hab hba)

theorem mapM_ok {α β ε : Type} {f : α → Except ε β} : ∀ {l : List α} {bs : List β}, l.mapM f = .ok bs →
    List.Forall₂ (fun a b => f a = .ok b) l bs := by
  intro l
  induction l with
  | nil =>
    intro bs h
    obtain rfl := Except.ok.inj h
    exact .nil
  | cons a l ih =>
    intro bs h
    rw [List.mapM_cons] at h
    obtain ⟨b, hb, h⟩ := bind_ok h
    obtain ⟨rest, hrest, h⟩ := bind_ok h
    obtain rfl := Except.ok.inj h
    exact .cons hb (ih hrest)

theorem parseDependency_name {F : FileSystem} {root : Path} {entry : String × Toml} {declaration : DependencyDeclaration}
    (h : parseDependency F root entry = .ok declaration) : declaration.name = entry.1 := by
  rw [parseDependency] at h
  split at h
  · cases h
  · split at h
    · cases h
    · split at h
      · cases h
      · split at h
        · cases h
        · rw [← Except.ok.inj h]

theorem parseManifestIn_dependencies {F : FileSystem} {root : Path} {entries : List (String × Toml)}
    {manifest : PackageManifest} (h : parseManifestIn F root entries = .ok manifest) :
    parseDependencies F root entries = .ok manifest.dependencies := by
  simp only [parseManifestIn] at h
  split at h
  · split at h
    · split at h
      · split at h
        · obtain ⟨path, -, h⟩ := bind_ok h
          split at h
          · cases h
          · obtain ⟨dependencies, hdependencies, h⟩ := bind_ok h
            rw [hdependencies, ← Except.ok.inj h]
        · cases h
      · cases h
    · cases h
  · cases h

variable {document : ManifestDocument}

theorem loadManifest_ok {F : FileSystem} {path : Path} (h : loadManifest F path = .ok document) :
    ∃ contents entries, F.readFile path = .ok contents ∧
      F.parseToml contents = .ok entries ∧ parseManifest F entries path = .ok document.manifest ∧
      document.sha256 = F.sha256Hex contents := by
  rw [loadManifest] at h
  split at h
  · cases h
  · cases h
  · next contents hcontents =>
    split at h
    · cases h
    · next entries hentries =>
      cases hmanifest : parseManifest F entries path with
      | error e =>
        rw [hmanifest] at h
        cases h
      | ok manifest =>
        rw [hmanifest] at h
        obtain rfl := Except.ok.inj h
        exact ⟨contents, entries, hcontents, hentries, hmanifest, rfl⟩

theorem loadManifest_names {T : PackageTree} {path : Path} (h : loadManifest T.toFileSystem path = .ok document) :
    (document.manifest.dependencies.map (·.name)).Nodup := by
  obtain ⟨contents, entries, -, hentries, hmanifest, -⟩ := loadManifest_ok h
  have hdependencies := parseManifestIn_dependencies hmanifest
  rw [parseDependencies] at hdependencies
  split at hdependencies
  · rw [← Except.ok.inj hdependencies]
    exact List.nodup_nil
  · next node hnode =>
    split at hdependencies
    · cases hdependencies
    · next table htable =>
      have hkeys := T.distinct_keys hentries (by rw [hnode]; exact htable)
      have hnames : document.manifest.dependencies.map (·.name) = table.map (·.1) := by
        have := (mapM_ok hdependencies).imp fun entry declaration hd => parseDependency_name hd
        rw [← List.forall₂_eq_eq_eq, List.forall₂_map_left_iff, List.forall₂_map_right_iff]
        exact this.flip
      rwa [hnames]

theorem loadManifest_digest {T : PackageTree} {path : Path}
    (h : loadManifest T.toFileSystem path = .ok document) : isSha256 document.sha256 = true := by
  obtain ⟨contents, -, -, -, -, hdigest⟩ := loadManifest_ok h
  rw [hdigest]
  exact T.digest contents

/-! ### Without fingerprints -/

/-- A digest of nothing in particular. -/
def blankDigest : String := String.ofList (List.replicate 64 '0')

theorem isSha256_blankDigest : isSha256 blankDigest = true := by decide +kernel

def LockedPackage.blank (package : LockedPackage) : LockedPackage := { package with manifestSha256 := blankDigest }

def PackageNode.blank (node : PackageNode) : PackageNode := { node with locked := node.locked.blank }

def Found.blank (found : Found) : Found := { found with locked := found.locked.blank }

def LocalResolver.blank (s : LocalResolver) : LocalResolver :=
  { s with
    nodes := s.nodes.map fun entry => (entry.1, entry.2.blank)
    packages := s.packages.map LockedPackage.blank }

/-- A lockfile up to the fingerprints. -/
def Lockfile.blank (lockfile : Lockfile) : Lockfile :=
  { lockfile with projectManifestSha256 := blankDigest, packages := lockfile.packages.map LockedPackage.blank }

/-- A file system in which every text has the same fingerprint. -/
def FileSystem.blank (F : FileSystem) : FileSystem := { F with sha256Hex := fun _ => blankDigest }

section
variable {F : FileSystem} {projectRoot : Path} {projectName : String}

theorem loadManifest_blank (path : Path) : loadManifest F.blank path =
    (loadManifest F path).map fun document => { document with sha256 := blankDigest } := by
  simp only [loadManifest, FileSystem.blank]
  split
  · rfl
  · rfl
  · split
    · rfl
    · next entries _ =>
      change (parseManifest F entries path).map _ = _
      cases parseManifest F entries path <;> rfl

theorem map_bind {α β γ : Type} {ε : Type} (x : Except ε α) (f : α → Except ε β) (g : β → γ) :
    (x >>= f).map g = x >>= fun a => (f a).map g := by cases x <;> rfl

theorem bind_map {α β γ : Type} {ε : Type} (x : Except ε α) (f : α → β) (g : β → Except ε γ) :
    x.map f >>= g = x >>= fun a => g (f a) := by cases x <;> rfl

theorem ok_bind {α β ε : Type} (a : α) (f : α → Except ε β) : Except.ok a >>= f = f a := rfl

theorem told_ok_bind {α β : Type} (a : α) (f : α → Except Failure β) : told (Except.ok a) >>= f = f a := rfl

theorem examine_blank (s : LocalResolver) (declaration : DependencyDeclaration) (directory : Path) :
    examine F.blank projectRoot projectName s.blank declaration directory =
      (examine F projectRoot projectName s declaration directory).map Found.blank := by
  simp only [examine, loadManifest_blank, bind_map, map_bind]
  rfl

theorem lookup_blank (s : LocalResolver) (key : String) :
    s.blank.nodes.lookup key = (s.nodes.lookup key).map PackageNode.blank := by
  simp only [LocalResolver.blank]
  induction s.nodes with
  | nil => rfl
  | cons entry entries ih =>
    rw [List.map_cons, lookup_cons_ite, ih, show entry = (entry.1, entry.2) from rfl, lookup_cons_ite]
    split <;> rfl

theorem enter_blank (s : LocalResolver) (rootKey : String) (found : Found) :
    s.blank.enter rootKey found.blank = (s.enter rootKey found).blank := by
  simp only [LocalResolver.enter, emplace, lookup_blank, Option.isSome_map]
  split <;> rfl

theorem complete_blank (s : LocalResolver) (rootKey : String) :
    s.blank.complete rootKey = (s.complete rootKey).map LocalResolver.blank := by
  rw [LocalResolver.complete, LocalResolver.complete, lookup_blank]
  cases s.nodes.lookup rootKey with
  | none => rfl
  | some node =>
    simp only [Option.map_some, Except.map, LocalResolver.blank, List.map_map, List.map_append, List.map_cons, List.map_nil]
    congr 2
    refine List.map_congr_left fun entry _ => ?_
    simp only [Function.comp_apply]
    split <;> rfl

theorem told_map {α β : Type} (f : α → β) (result : Except String α) : told (result.map f) = (told result).map f := by
  cases result <;> rfl

theorem revisit_blank (s : LocalResolver) (declaration : DependencyDeclaration) (rootKey : String) (node : PackageNode) :
    s.blank.revisit declaration rootKey node.blank = (s.revisit declaration rootKey node).map LocalResolver.blank := by
  change (if node.name ≠ declaration.name then _ else if node.state = .visiting then _ else _) = _
  rw [LocalResolver.revisit]
  by_cases hname : node.name ≠ declaration.name
  · rw [if_pos hname, if_pos hname]
    rfl
  · rw [if_neg hname, if_neg hname]
    split <;> rfl

theorem foldlM_blank {step step' : DependencyDeclaration → LocalResolver → Except Failure LocalResolver}
    (hstep : ∀ d s, step' d s.blank = (step d s).map LocalResolver.blank) :
    ∀ (ds : List DependencyDeclaration) (s : LocalResolver),
      ds.foldlM (fun s d => step' d s) s.blank = (ds.foldlM (fun s d => step d s) s).map LocalResolver.blank := by
  intro ds
  induction ds with
  | nil => exact fun _ => rfl
  | cons d ds ih =>
    intro s
    rw [List.foldlM_cons, List.foldlM_cons, hstep, bind_map, map_bind]
    exact congrArg _ (funext ih)

/-- The resolver never looks at a fingerprint. -/
theorem visit_blank : ∀ (fuel : ℕ) (declaration : DependencyDeclaration) (s : LocalResolver),
    visit F.blank projectRoot projectName fuel declaration s.blank =
      (visit F projectRoot projectName fuel declaration s).map LocalResolver.blank := by
  intro fuel
  induction fuel with
  | zero => exact fun _ _ => rfl
  | succ fuel ih =>
    intro declaration s
    rw [visit, visit, map_bind]
    refine congrArg _ (funext fun directory => ?_)
    have hlookup : s.blank.nodes.lookup (pathKey F.blank directory) =
        (s.nodes.lookup (pathKey F directory)).map PackageNode.blank := lookup_blank s _
    dsimp only
    rw [hlookup]
    cases s.nodes.lookup (pathKey F directory) with
    | some node =>
      change told (s.blank.revisit declaration (pathKey F directory) node.blank) = _
      rw [revisit_blank, told_map]
    | none =>
      simp only [Option.map_none, examine_blank, told_map, bind_map, map_bind]
      refine congrArg _ (funext fun found => ?_)
      change List.foldlM _ (s.blank.enter (pathKey F directory) found.blank) found.dependencies >>= _ = _
      rw [enter_blank, foldlM_blank ih, bind_map]
      refine congrArg _ (funext fun s => ?_)
      change told (s.blank.complete (pathKey F directory)) = _
      rw [complete_blank, told_map]

/-! ### Validation -/

theorem drain_blank (packages : List LockedPackage) : ∀ (fuel : ℕ) (ready : List String) (remaining : Remaining),
    drain (packages.map LockedPackage.blank) fuel ready remaining = drain packages fuel ready remaining := by
  have hdependents : ∀ name, dependentsOf (packages.map LockedPackage.blank) name = dependentsOf packages name := by
    intro name
    rw [dependentsOf, List.flatMap_map]
    rfl
  intro fuel
  induction fuel with
  | zero => exact fun _ _ => rfl
  | succ fuel ih =>
    rintro (_ | ⟨name, ready⟩) remaining
    · rfl
    · simp only [drain, hdependents, ih]

theorem visited_blank (packages : List LockedPackage) :
    visited (packages.map LockedPackage.blank) = visited packages := by
  rw [visited, visited, drain_blank, List.length_map, List.filter_map, List.map_map, List.map_map]
  rfl

theorem validatePackages_blank : ∀ {packages : List LockedPackage} (seen : Seen),
    (∀ package ∈ packages, isSha256 package.manifestSha256 = true) →
    (packages.map LockedPackage.blank).foldlM (validatePackage F.blank projectName) seen =
      packages.foldlM (validatePackage F projectName) seen := by
  intro packages
  induction packages with
  | nil => exact fun _ _ => rfl
  | cons package packages ih =>
    intro seen hdigests
    obtain ⟨hdigest, hrest⟩ := List.forall_mem_cons.mp hdigests
    have hone : validatePackage F.blank projectName seen package.blank = validatePackage F projectName seen package := by
      have hblank : isSha256 package.blank.manifestSha256 = isSha256 package.manifestSha256 := by
        rw [hdigest]
        exact isSha256_blankDigest
      rw [validatePackage, hblank]
      rfl
    rw [List.map_cons, List.foldlM_cons, List.foldlM_cons, hone]
    exact congrArg _ (funext fun seen => ih seen hrest)

theorem validateLockfile_blank {lockfile : Lockfile} (hproject : isSha256 lockfile.projectManifestSha256 = true)
    (hdigests : ∀ package ∈ lockfile.packages, isSha256 package.manifestSha256 = true) :
    validateLockfile F.blank lockfile.blank = validateLockfile F lockfile := by
  have hedges : ∀ names, (lockfile.packages.map LockedPackage.blank).forM
      (fun package => validateEdges names package.dependencies package.name) =
      lockfile.packages.forM fun package => validateEdges names package.dependencies package.name := by
    intro names
    induction lockfile.packages with
    | nil => rfl
    | cons package packages ih =>
      change (validateEdges names package.dependencies package.name >>= fun _ => _) = _
      exact congrArg _ (funext fun _ => ih)
  simp only [validateLockfile, Lockfile.blank, isSha256_blankDigest, hproject, visited_blank, List.length_map,
    validatePackages_blank {} hdigests, hedges]

theorem serialize_map {F : FileSystem} {lockfile : Lockfile} {α : Type} (a : α) :
    (serializeLockfile F lockfile).map (fun _ => a) = (validateLockfile F lockfile).map fun _ => a := by
  rw [serializeLockfile, map_bind]
  cases validateLockfile F lockfile <;> rfl

end

theorem lockProject_blank (project : ManifestDocument) (packages : List LockedPackage) :
    lockProject { project with sha256 := blankDigest } (packages.map LockedPackage.blank) =
      (lockProject project packages).blank := by
  have hsort : sortByName (·.name) (packages.map LockedPackage.blank) =
      (sortByName (·.name) packages).map LockedPackage.blank :=
    (List.map_insertionSort (fun a b : LockedPackage => a.name ≤ b.name) (fun a b : LockedPackage => a.name ≤ b.name)
      LockedPackage.blank packages fun _ _ _ _ => Iff.rfl).symm
  simp only [lockProject, hsort, Lockfile.blank]

/-- The lockfile up to its fingerprints, from a file system up to its fingerprints. -/
theorem resolve_blank (T : PackageTree) (fuel : ℕ) (path : Path) :
    resolveLocalPackages T.blank fuel path = (resolveLocalPackages T.toFileSystem fuel path).map Lockfile.blank := by
  rw [resolveLocalPackages, resolveLocalPackages, map_bind]
  refine congrArg _ (funext fun canonicalManifest => ?_)
  dsimp only
  rw [loadManifest_blank, told_map, bind_map, map_bind]
  cases hproject : loadManifest T.toFileSystem canonicalManifest with
  | error e => rfl
  | ok project =>
    have hstep : ∀ d s, visit T.blank (T.parentPath canonicalManifest) project.manifest.name fuel d s.blank =
        (visit T.toFileSystem (T.parentPath canonicalManifest) project.manifest.name fuel d s).map LocalResolver.blank :=
      visit_blank fuel
    have hvisits := foldlM_blank hstep (sortByName (·.name) project.manifest.dependencies) {}
    change List.foldlM (fun s d => visit T.blank (T.parentPath canonicalManifest) project.manifest.name fuel d s)
      (LocalResolver.blank {}) (sortByName (·.name) project.manifest.dependencies) >>= _ = Except.map _ (_ >>= _)
    rw [hvisits, bind_map, map_bind]
    cases hrun : (sortByName (·.name) project.manifest.dependencies).foldlM (fun s d =>
        visit T.toFileSystem (T.parentPath canonicalManifest) project.manifest.name fuel d s) {} with
    | error e => rfl
    | ok s =>
      obtain ⟨done, hvisited⟩ := visitAll visit_visits invariant_empty hrun
      have hdigests : ∀ package ∈ s.packages, isSha256 package.manifestSha256 = true := by
        intro package hpackage
        obtain ⟨directory, -, document, p, m, hdocument, -, -, rfl⟩ :=
          exists_of_forall₂ hvisited.invariant.packages package hpackage
        exact loadManifest_digest hdocument
      have hvalid : validateLockfile T.blank (lockProject project s.packages).blank =
          validateLockfile T.toFileSystem (lockProject project s.packages) :=
        validateLockfile_blank (loadManifest_digest hproject) fun package hpackage =>
          hdigests package (mem_sortByName.mp hpackage)
      change told ((serializeLockfile T.blank (lockProject _ _)).map _) =
        Except.map _ (told ((serializeLockfile _ _).map _))
      have hlock : lockProject { project with sha256 := blankDigest } s.blank.packages =
          (lockProject project s.packages).blank := lockProject_blank project s.packages
      rw [← told_map, serialize_map, hlock, hvalid, serialize_map]
      cases validateLockfile T.toFileSystem (lockProject project s.packages) <;> rfl

/-! ### In another order -/

section
variable {T T' : PackageTree}

/-- Loading what was reordered fails alike, or gives the same manifest in another order. -/
theorem Reordered.load (h : Reordered T.toFileSystem T'.toFileSystem) (path : Path) :
    (∃ e, loadManifest T.blank path = .error e ∧ loadManifest T'.blank path = .error e) ∨
      ∃ document document', loadManifest T.blank path = .ok document ∧ loadManifest T'.blank path = .ok document' ∧
        document.sha256 = document'.sha256 ∧ SameManifest document.manifest document'.manifest ∧
        (document.manifest.dependencies.map (·.name)).Nodup := by
  rw [loadManifest_blank, loadManifest_blank]
  cases hload : loadManifest T.toFileSystem path with
  | error e => exact .inl ⟨e, rfl, by rw [(h.failed path e).mp hload]; rfl⟩
  | ok document =>
    cases hload' : loadManifest T'.toFileSystem path with
    | error e =>
      rw [(h.failed path e).mpr hload'] at hload
      cases hload
    | ok document' =>
      have hnames := loadManifest_names hload
      have hsame := h.loaded hload hload'
      exact .inr ⟨_, _, rfl, rfl, rfl, hsame, hnames⟩

theorem SameManifest.sorted {a b : PackageManifest} (h : SameManifest a b) (hnames : (a.dependencies.map (·.name)).Nodup) :
    sortByName (·.name) a.dependencies = sortByName (·.name) b.dependencies :=
  sortByName_of_perm h.dependencies hnames

theorem SameManifest.fields {a b : PackageManifest} (h : SameManifest a b) :
    a.name = b.name ∧ a.version = b.version ∧ a.root = b.root ∧ a.moduleRoot = b.moduleRoot := by
  simpa only [PackageManifest.mk.injEq, and_true] using h.rest

/-- The other functions of a file system that was reordered. -/
theorem Reordered.blank_eq (h : Reordered T.toFileSystem T'.toFileSystem) :
    T'.blank = { T.blank with readFile := T'.readFile, parseToml := T'.parseToml } := by
  rw [FileSystem.blank, h.others]
  rfl

theorem examine_reordered (h : Reordered T.toFileSystem T'.toFileSystem) (projectRoot : Path) (projectName : String)
    (s : LocalResolver) (declaration : DependencyDeclaration) (directory : Path) :
    examine T'.blank projectRoot projectName s declaration directory =
      examine T.blank projectRoot projectName s declaration directory := by
  have hfs := h.blank_eq
  have hkey : pathKey T'.blank = pathKey T.blank := by rw [hfs]; rfl
  have hcanonical : canonicalDirectory T'.blank = canonicalDirectory T.blank := by rw [hfs]; rfl
  have hrelative : relativePath T'.blank = relativePath T.blank := by rw [hfs]; rfl
  have hjoin : T'.blank.join = T.blank.join := by rw [hfs]
  simp only [examine, hkey, hcanonical, hrelative, hjoin]
  rcases h.load (T.blank.join directory "ZithProject.toml") with ⟨e, he, he'⟩ |
    ⟨document, document', hd, hd', hdigest, hsame, hnames⟩
  · rw [he, he']
  · obtain ⟨hname, hversion, hroot, hmodule⟩ := hsame.fields
    rw [hd, hd', ok_bind, ok_bind]
    simp only [lockPackage, hname, hversion, hroot, hmodule, hdigest, hsame.sorted hnames]

theorem visit_reordered (h : Reordered T.toFileSystem T'.toFileSystem) (projectRoot : Path) (projectName : String) :
    ∀ (fuel : ℕ) (declaration : DependencyDeclaration) (s : LocalResolver),
      visit T'.blank projectRoot projectName fuel declaration s = visit T.blank projectRoot projectName fuel declaration s := by
  have hfs := h.blank_eq
  have hkey : pathKey T'.blank = pathKey T.blank := by rw [hfs]; rfl
  have hcanonical : canonicalDirectory T'.blank = canonicalDirectory T.blank := by rw [hfs]; rfl
  intro fuel
  induction fuel with
  | zero => exact fun _ _ => rfl
  | succ fuel ih =>
    intro declaration s
    simp only [visit, hkey, hcanonical, examine_reordered h, ih]

/-- Up to the fingerprints, resolving gives the same whatever the order of the declarations. -/
theorem resolve_reordered (h : Reordered T.toFileSystem T'.toFileSystem) (fuel : ℕ) (path : Path) :
    (resolveLocalPackages T'.toFileSystem fuel path).map Lockfile.blank =
      (resolveLocalPackages T.toFileSystem fuel path).map Lockfile.blank := by
  rw [← resolve_blank, ← resolve_blank]
  have hfs := h.blank_eq
  have hproject : projectManifest T'.blank = projectManifest T.blank := by rw [hfs]; rfl
  have hvalidate : validateLockfile T'.blank = validateLockfile T.blank := by rw [hfs]; rfl
  have hparent : T'.blank.parentPath = T.blank.parentPath := by rw [hfs]
  simp only [resolveLocalPackages, hproject, hparent, visit_reordered h, serialize_map, hvalidate]
  refine congrArg _ (funext fun canonicalManifest => ?_)
  rcases h.load canonicalManifest with ⟨e, he, he'⟩ | ⟨document, document', hd, hd', hdigest, hsame, hnames⟩
  · rw [he, he']
  · obtain ⟨hname, hversion, -, -⟩ := hsame.fields
    rw [hd, hd', told_ok_bind, told_ok_bind]
    simp only [lockProject, hname, hversion, hdigest, hsame.sorted hnames]

end

/-! ### Local packages -/

/-- Resolving returns. It succeeds only on an acyclic graph, whose packages it locks, each once; a cycle that the
    project reaches makes it fail; and the order of declarations does not matter. -/
theorem resolveLocalPackages_exact (T : PackageTree) (path : Path) :
    (∃ result, result ≠ .error .outOfFuel ∧ ∀ fuel, T.directories.length < fuel →
      resolveLocalPackages T.toFileSystem fuel path = result) ∧
    (∀ fuel lockfile, resolveLocalPackages T.toFileSystem fuel path = .ok lockfile → ∃ canonicalManifest project,
      projectManifest T.toFileSystem path = .ok canonicalManifest ∧
      loadManifest T.toFileSystem canonicalManifest = .ok project ∧
      Resolved T.toFileSystem (T.parentPath canonicalManifest) project lockfile) ∧
    (∀ canonicalManifest project directory, projectManifest T.toFileSystem path = .ok canonicalManifest →
      loadManifest T.toFileSystem canonicalManifest = .ok project → Reachable T.toFileSystem project directory →
      TransGen (DependsOn T.toFileSystem) directory directory → ∀ fuel, T.directories.length < fuel →
      ∃ text, resolveLocalPackages T.toFileSystem fuel path = .error (.message text)) ∧
    ∀ T' : PackageTree, Reordered T.toFileSystem T'.toFileSystem → ∀ fuel,
      (resolveLocalPackages T'.toFileSystem fuel path).map Lockfile.blank =
        (resolveLocalPackages T.toFileSystem fuel path).map Lockfile.blank := by
  refine ⟨resolve_returns T path, fun _ _ => resolve_resolves, ?_, fun _ h fuel => resolve_reordered h fuel path⟩
  intro canonicalManifest project directory hcanonical hproject hreachable hcycle fuel hfuel
  obtain ⟨result, hreturns, hresult⟩ := resolve_returns T path
  cases hresolve : resolveLocalPackages T.toFileSystem fuel path with
  | error failure =>
    cases failure with
    | outOfFuel => exact absurd ((hresult fuel hfuel).symm.trans hresolve) hreturns
    | message text => exact ⟨text, rfl⟩
  | ok lockfile =>
    obtain ⟨canonicalManifest', project', hcanonical', hproject', hresolved⟩ := resolve_resolves hresolve
    obtain rfl := Except.ok.inj (hcanonical.symm.trans hcanonical')
    obtain rfl := Except.ok.inj (hproject.symm.trans hproject')
    exact absurd hcycle (hresolved.acyclic hreachable)

/-- The dependencies of a project in `/p` and of its packages `a`, `b` and `c`. -/
def diamondDependencies (name : String) : List (String × Toml) :=
  if name = "p" then [("a", .string "a"), ("b", .string "b")]
  else if name = "c" then [] else [("c", .string "../c")]

def diamondDirectories : List Path := ["/p", "/p/a", "/p/b", "/p/c", "/p/a/src", "/p/b/src", "/p/c/src"]

/-- The project needs `a` and `b`, and both need `c`. -/
def diamondFiles : FileSystem where
  isDirectory path := .ok (path ∈ diamondDirectories)
  isRegularFile _ := .ok true
  absolute path := .ok path
  weaklyCanonical path := if path ∈ "/p/ZithProject.toml" :: diamondDirectories then .ok path else .error "no such file"
  lexicallyNormal path := if path = "/p/a/../c" ∨ path = "/p/b/../c" then "/p/c" else path
  lexicallyRelative path base := String.ofList (path.toList.drop (base.length + 1))
  join a b := a ++ "/" ++ b
  parentPath path := String.ofList (path.toList.take (path.length - 17))
  hasRootName _ := false
  hasRootDirectory _ := false
  readFile path :=
    match ["/p", "/p/a", "/p/b", "/p/c"].find? fun directory => directory ++ "/ZithProject.toml" = path with
    | none => .error .cannotOpen
    | some directory => .ok (String.ofList (directory.toList.drop (directory.length - 1)))
  parseToml contents := .ok
    [("project", .table [("name", .string contents), ("version", .string "1")]),
      ("dependencies", .table (diamondDependencies contents))]
  sha256Hex _ := blankDigest

def diamond : PackageTree where
  toFileSystem := diamondFiles
  canonical_key := by
    intro path canonical h
    simp only [diamondFiles] at h
    split at h
    · next hmem =>
      obtain rfl := Except.ok.inj h
      have hkeys : ∀ p ∈ "/p/ZithProject.toml" :: diamondDirectories, pathKey diamondFiles p = p := by decide +kernel
      exact hkeys path hmem
    · cases h
  directories := diamondDirectories ++ ["/p/ZithProject.toml"]
  mem_directories := by
    intro path canonical document h _
    simp only [diamondFiles] at h
    split at h
    · next hmem =>
      obtain rfl := Except.ok.inj h
      simpa [or_comm] using hmem
    · cases h
  distinct_keys := by
    intro contents entries dependencies h hdependencies
    obtain rfl := Except.ok.inj h
    obtain rfl : diamondDependencies contents = dependencies := Option.some.inj hdependencies
    rw [diamondDependencies]
    split
    · decide
    · split <;> decide
  digest _ := isSha256_blankDigest

theorem resolveLocalPackages_diamond : ∃ lockfile project,
    resolveLocalPackages diamondFiles 20 "/p/ZithProject.toml" = .ok lockfile ∧
      Resolved diamondFiles "/p" project lockfile ∧ lockfile.packages.map (·.name) = ["a", "b", "c"] := by
  have hnames : (resolveLocalPackages diamondFiles 20 "/p/ZithProject.toml").toOption.map
      (fun lockfile => lockfile.packages.map (·.name)) = some ["a", "b", "c"] := by decide +kernel
  cases hresolve : resolveLocalPackages diamondFiles 20 "/p/ZithProject.toml" with
  | error failure =>
    rw [hresolve] at hnames
    cases hnames
  | ok lockfile =>
    rw [hresolve] at hnames
    obtain ⟨canonicalManifest, project, hcanonical, -, hresolved⟩ :=
      (resolveLocalPackages_exact diamond "/p/ZithProject.toml").2.1 20 lockfile hresolve
    have hpath : projectManifest diamondFiles "/p/ZithProject.toml" = .ok "/p/ZithProject.toml" := by decide +kernel
    obtain rfl := Except.ok.inj (hpath.symm.trans hcanonical)
    have hparent : diamondFiles.parentPath "/p/ZithProject.toml" = "/p" := by decide +kernel
    exact ⟨lockfile, project, rfl, hparent ▸ hresolved, Option.some.inj hnames⟩

end Zith.Packages
