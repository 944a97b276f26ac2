import Zith.Packages.LocalLockfile
import Zith.Packages.Resolvable

/-! The check of a lockfile against the resolver. What was resolved passes the check. What passes the check is
    resolved again as it was locked when the locked paths are the ones that the resolver computes and the module
    roots are directories of their own, which the check does not look at. -/

namespace Zith.Packages
open Zith.Lib Relation

/-- Going from the project to a directory by its relative path comes to the directory. -/
structure LocatedTree extends PackageTree where
  relocated : ∀ {path canonicalManifest source description directory relative},
    projectManifest toFileSystem path = .ok canonicalManifest →
    canonicalDirectory toFileSystem source description = .ok directory →
    relativePath toFileSystem directory (parentPath canonicalManifest) "package path" = .ok relative →
    isDirectory (join (parentPath canonicalManifest) relative) = .ok true ∧
    weaklyCanonical (join (parentPath canonicalManifest) relative) = .ok directory ∧
    readFile (join (join (parentPath canonicalManifest) relative) "ZithProject.toml") =
      readFile (join directory "ZithProject.toml") ∧
    lexicallyNormal (parentPath (join (join (parentPath canonicalManifest) relative) "ZithProject.toml")) =
      lexicallyNormal (parentPath (join directory "ZithProject.toml"))

section
variable (F : FileSystem) (projectRoot : Path)

/-- The directory that a locked package stands for. -/
def LockedAt (p : LockedPackage) (directory : Path) : Prop :=
  canonicalDirectory F (F.join projectRoot p.path) "locked package" = .ok directory

/-- A lockfile with the paths that the resolver computes, of packages that have module roots of their own. -/
structure Canonical (locked : Lockfile) : Prop where
  located : ∀ p ∈ locked.packages, ∃ directory, LockedAt F projectRoot p directory ∧
    relativePath F directory projectRoot "package path" = .ok p.path ∧ ∃ moduleKey, HasModuleRoot F directory moduleKey
  moduleRoots : ∀ p ∈ locked.packages, ∀ q ∈ locked.packages, ∀ {a b moduleKey}, LockedAt F projectRoot p a →
    LockedAt F projectRoot q b → HasModuleRoot F a moduleKey → HasModuleRoot F b moduleKey → p.name = q.name

/-! ### What the check verifies -/

/-- The directory of a dependency is that of the package locked under its name. -/
def PathVerified (locked : Lockfile) (dependency : DependencyDeclaration) : Prop :=
  ∃ p directory, findPackage locked.packages dependency.name = some p ∧
    Located F dependency.path directory ∧ LockedAt F projectRoot p directory

/-- A locked package is what its manifest says. -/
structure Agrees (document : ManifestDocument) (p : LockedPackage) : Prop where
  name : document.manifest.name = p.name
  version : document.manifest.version = p.version
  digest : document.sha256 = p.manifestSha256
  moduleRoot : ∀ {description}, relativePath F document.manifest.moduleRoot document.manifest.root description = .ok p.moduleRoot
  dependencies : dependencyNames document.manifest.dependencies = sortByName id p.dependencies

structure Verified (document : ManifestDocument) (locked : Lockfile) : Prop where
  projectName : locked.projectName = document.manifest.name
  projectVersion : locked.projectVersion = document.manifest.version
  digest : locked.projectManifestSha256 = document.sha256
  dependencies : dependencyNames document.manifest.dependencies = sortByName id locked.dependencies
  paths : ∀ d ∈ document.manifest.dependencies, PathVerified F projectRoot locked d
  packages : ∀ p ∈ locked.packages, ∃ document,
    loadManifest F (F.join (F.join projectRoot p.path) "ZithProject.toml") = .ok document ∧ Agrees F document p ∧
      ∀ d ∈ document.manifest.dependencies, PathVerified F projectRoot locked d

end

theorem told_eq_ok_iff {α : Type} {x : Except String α} {a : α} : told x = .ok a ↔ x = .ok a := by
  constructor
  · exact told_ok
  · rintro rfl
    rfl

theorem orStale_eq_ok_iff {α : Type} {x : Except String α} {a : α} : orStale x = .ok a ↔ x = .ok a := by
  cases x <;> simp [orStale, Except.mapError]

theorem relativePath_description {F : FileSystem} {path base relative : Path} {description other : String}
    (h : relativePath F path base description = .ok relative) : relativePath F path base other = .ok relative := by
  rw [relativePath] at h ⊢
  split at h
  · next hempty =>
    split at h
    · next hsame => rw [if_pos hempty, if_pos hsame, h]
    · cases h
  · next hrelative => rw [if_neg hrelative, h]

theorem LockedAt.unique {F : FileSystem} {projectRoot : Path} {p : LockedPackage} {a b : Path}
    (ha : LockedAt F projectRoot p a) (hb : LockedAt F projectRoot p b) : a = b := Except.ok.inj (ha.symm.trans hb)

section
variable {F : FileSystem} {projectRoot : Path} {locked : Lockfile}

theorem verifyDependencyPath_iff {d : DependencyDeclaration} :
    verifyDependencyPath F projectRoot locked d = .ok () ↔ PathVerified F projectRoot locked d := by
  rw [verifyDependencyPath, PathVerified]
  cases findPackage locked.packages d.name with
  | none => simp
  | some p =>
    simp only [bind_eq_ok_iff, orStale_eq_ok_iff]
    constructor
    · rintro ⟨declaredRoot, hdeclared, lockedRoot, hlocked, h⟩
      split at h
      · cases h
      · next hsame =>
        obtain rfl := not_not.mp hsame
        exact ⟨p, declaredRoot, rfl, hdeclared, hlocked⟩
    · rintro ⟨q, directory, hq, hdeclared, hlocked⟩
      obtain rfl := Option.some.inj hq
      exact ⟨directory, hdeclared, directory, hlocked, by rw [if_neg (not_not.mpr rfl)]; rfl⟩

theorem verifyPackage_iff {p : LockedPackage} : verifyPackage F projectRoot locked p = .ok () ↔ ∃ document,
    loadManifest F (F.join (F.join projectRoot p.path) "ZithProject.toml") = .ok document ∧ Agrees F document p ∧
      ∀ d ∈ document.manifest.dependencies, PathVerified F projectRoot locked d := by
  rw [verifyPackage]
  simp only [bind_eq_ok_iff, orStale_eq_ok_iff]
  refine exists_congr fun document => and_congr_right fun _ => ?_
  constructor
  · rintro ⟨moduleRoot, hmodule, h⟩
    split at h
    · cases h
    · next hsame =>
      obtain ⟨hname, hversion, hdigest, hroot⟩ := by simpa only [not_or, not_not] using hsame
      split at h
      · cases h
      · next hdependencies =>
        subst hroot
        refine ⟨⟨hname, hversion, hdigest, relativePath_description hmodule, not_not.mp hdependencies⟩, fun d hd => ?_⟩
        exact verifyDependencyPath_iff.mp (forM_ok_iff.mp h d hd)
  · rintro ⟨h, hpaths⟩
    refine ⟨p.moduleRoot, h.moduleRoot, ?_⟩
    rw [if_neg (by simp [h.name, h.version, h.digest]), if_neg (not_not.mpr h.dependencies)]
    exact forM_ok_iff.mpr fun d hd => verifyDependencyPath_iff.mpr (hpaths d hd)

theorem compareLockfile_iff {document : ManifestDocument} :
    compareLockfile F projectRoot document locked = .ok () ↔ Verified F projectRoot document locked := by
  rw [compareLockfile]
  constructor
  · intro h
    dsimp only at h
    split at h
    · cases h
    · next hsame =>
      obtain ⟨hname, hversion, hdigest⟩ := by simpa only [not_or, not_not] using hsame
      split at h
      · cases h
      · next hdependencies =>
        obtain ⟨⟨⟩, hpaths, hpackages⟩ := bind_ok h
        exact ⟨hname, hversion, hdigest, not_not.mp hdependencies,
          fun d hd => verifyDependencyPath_iff.mp (forM_ok_iff.mp hpaths d hd),
          fun p hp => verifyPackage_iff.mp (forM_ok_iff.mp hpackages p hp)⟩
  · intro h
    dsimp only
    rw [if_neg (by simp [h.projectName, h.projectVersion, h.digest]), if_neg (not_not.mpr h.dependencies)]
    refine bind_eq_ok_iff.mpr ⟨(), forM_ok_iff.mpr fun d hd => verifyDependencyPath_iff.mpr (h.paths d hd), ?_⟩
    exact forM_ok_iff.mpr fun p hp => verifyPackage_iff.mpr (h.packages p hp)

theorem parseLockfile_valid {entries : List (String × Toml)} (h : parseLockfile F entries = .ok locked) :
    Valid F locked := by
  -- what is left of a table that is complete
  have hread : ∀ {projectTable : List (String × Toml)} {nodes : List Toml}, (do
      let projectName ← requiredString projectTable "name" "[project].name"
      let projectVersion ← requiredString projectTable "version" "[project].version"
      let projectManifestSha256 ← requiredString projectTable "manifest_sha256" "[project].manifest_sha256"
      let dependencies ← readStringArray projectTable "dependencies" "[project].dependencies"
      let packages ← nodes.mapM (parsePackage F)
      let result : Lockfile := { projectName, projectVersion, projectManifestSha256, dependencies, packages }
      validateLockfile F result
      return result) = .ok locked → Valid F locked := by
    intro projectTable nodes h
    obtain ⟨name, -, h⟩ := bind_ok h
    obtain ⟨version, -, h⟩ := bind_ok h
    obtain ⟨digest, -, h⟩ := bind_ok h
    obtain ⟨dependencies, -, h⟩ := bind_ok h
    obtain ⟨packages, -, h⟩ := bind_ok h
    obtain ⟨⟨⟩, hvalidate, h⟩ := bind_ok h
    obtain rfl := Except.ok.inj h
    exact validateLockfile_iff.mp hvalidate
  rw [parseLockfile] at h
  repeat' split at h
  case h_1.isFalse => exact hread h
  all_goals first
    | cases h
    | (dsimp only at h
       obtain ⟨_, -, h⟩ := bind_ok h
       obtain ⟨_, -, h⟩ := bind_ok h
       obtain ⟨_, -, h⟩ := bind_ok h
       obtain ⟨_, -, h⟩ := bind_ok h
       cases h)

theorem loadLockfile_valid {path : Path} (h : loadLockfile F path = .ok locked) : Valid F locked := by
  rw [loadLockfile] at h
  split at h
  · cases h
  · cases h
  · split at h
    · cases h
    · exact parseLockfile_valid h

/-- The check of a lockfile that was read. -/
theorem validate_iff {path canonicalManifest : Path} {document : ManifestDocument}
    (hcanonical : projectManifest F path = .ok canonicalManifest) (hdocument : loadManifest F canonicalManifest = .ok document)
    (hlocked : loadLockfile F (F.join (F.parentPath canonicalManifest) "Zith.lock") = .ok locked) :
    validateLocalLockfile F path = .ok () ↔ Verified F (F.parentPath canonicalManifest) document locked ∧
      ∀ p ∈ locked.packages, ∃ root ∈ locked.dependencies, ReflTransGen (Lists locked.packages) root p.name := by
  have hvalid := loadLockfile_valid hlocked
  obtain ⟨result, hresult, hall⟩ := reach_iff hvalid.wired hvalid.dependencies.locked
  rw [validateLocalLockfile, hcanonical]
  simp only [told_ok_bind]
  rw [hdocument, told_ok_bind, hlocked]
  change (told (compareLockfile F _ document locked) >>= fun _ => _) = _ ↔ _
  rw [bind_eq_ok_iff, ← hall]
  simp only [told_eq_ok_iff, hresult]
  constructor
  · rintro ⟨⟨⟩, hverified, h⟩
    refine ⟨compareLockfile_iff.mp hverified, ?_⟩
    by_contra hne
    rw [ok_bind, if_pos hne] at h
    cases h
  · rintro ⟨hverified, hlen⟩
    refine ⟨(), compareLockfile_iff.mpr hverified, ?_⟩
    rw [ok_bind, if_neg (not_not.mpr hlen)]
    rfl

end

/-! ### Sorted names -/

theorem map_sortByName {α β : Type} {name : α → String} {name' : β → String} {f : α → β} (hf : ∀ a, name' (f a) = name a)
    (l : List α) : (sortByName name l).map f = sortByName name' (l.map f) :=
  List.map_insertionSort _ _ f l fun a _ b _ => by rw [hf, hf]

theorem sortByName_sortByName {α : Type} {name : α → String} {l : List α} :
    sortByName name (sortByName name l) = sortByName name l := by
  simp only [sortByName, insertionSort_insertionSort]

theorem dependencyNames_eq (dependencies : List DependencyDeclaration) :
    (sortByName (·.name) dependencies).map (·.name) = dependencyNames dependencies :=
  @map_sortByName _ _ (·.name) id (·.name) (fun _ => rfl) dependencies

theorem mem_dependencyNames {dependencies : List DependencyDeclaration} {name : String} :
    name ∈ dependencyNames dependencies ↔ ∃ d ∈ dependencies, d.name = name := by
  rw [dependencyNames, mem_sortByName, List.mem_map]

section
variable {F : FileSystem} {projectRoot : Path}
variable {document : ManifestDocument}

theorem Locks.agrees {directory : Path} {p : LockedPackage} (h : Locks F projectRoot directory p)
    (hdocument : PackageAt F directory document) : Agrees F document p ∧
      relativePath F directory projectRoot "package path" = .ok p.path ∧ p.sorted = p := by
  obtain ⟨document', path, moduleRoot, hdocument', hpath, hmodule, rfl⟩ := h
  obtain rfl := hdocument.unique hdocument'
  have hnames : sortByName id ((sortByName (·.name) document.manifest.dependencies).map (·.name)) =
      (sortByName (·.name) document.manifest.dependencies).map (·.name) := by
    rw [dependencyNames_eq, dependencyNames, sortByName_sortByName]
  refine ⟨⟨rfl, rfl, rfl, relativePath_description hmodule, ?_⟩, hpath, ?_⟩
  · rw [lockPackage, hnames, dependencyNames_eq]
  · rw [LockedPackage.sorted, lockPackage, hnames]

/-- A package is locked as its manifest says. -/
theorem Agrees.locks {directory : Path} {p : LockedPackage} (h : Agrees F document p)
    (hdocument : PackageAt F directory document)
    (hpath : relativePath F directory projectRoot "package path" = .ok p.path) :
    Locks F projectRoot directory p.sorted := by
  refine ⟨document, p.path, p.moduleRoot, hdocument, hpath, h.moduleRoot, ?_⟩
  rw [LockedPackage.sorted, lockPackage, dependencyNames_eq, h.dependencies, h.name, h.version, h.digest]

theorem loadManifest_congr {a b : Path} (hread : F.readFile a = F.readFile b)
    (hparent : F.lexicallyNormal (F.parentPath a) = F.lexicallyNormal (F.parentPath b))
    (h : loadManifest F a = .ok document) : loadManifest F b = .ok document := by
  rw [loadManifest, hread] at h
  rw [loadManifest]
  split at h
  · cases h
  · cases h
  · split at h
    · cases h
    · rwa [parseManifest, hparent] at h

/-- The lockfile that resolving gives is sorted. -/
theorem Resolved.sorted {project : ManifestDocument} {lockfile : Lockfile} (h : Resolved F projectRoot project lockfile) :
    lockfile.sorted = lockfile := by
  obtain ⟨directories, -, -, hlocks⟩ := h.packages
  have hpackages : lockfile.packages = sortByName (·.name) lockfile.packages := congrArg Lockfile.packages h.project
  have hdependencies : lockfile.dependencies = dependencyNames project.manifest.dependencies :=
    (congrArg Lockfile.dependencies h.project).trans (dependencyNames_eq _)
  have hsorted : lockfile.packages.map LockedPackage.sorted = lockfile.packages := by
    refine (List.map_congr_left fun p hp => ?_).trans (List.map_id _)
    obtain ⟨directory, -, hlocked⟩ := exists_of_forall₂ hlocks p hp
    obtain ⟨document, -, -, hdocument, -⟩ := id hlocked
    exact (hlocked.agrees hdocument).2.2
  rw [Lockfile.sorted, ← hpackages, hsorted, hdependencies, dependencyNames, sortByName_sortByName, ← dependencyNames,
    ← hdependencies]

theorem Reachable.located {project : ManifestDocument} {directory : Path} (h : Reachable F project directory) :
    ∃ path, Located F path directory := by
  obtain ⟨d, hd, root, hroot, hreaches⟩ := h
  rcases hreaches.cases_tail with rfl | ⟨_, -, document, -, d', -, hlocated⟩
  · exact ⟨d.path, hroot⟩
  · exact ⟨d'.path, hlocated⟩

end

section
variable {T : LocatedTree} {path canonicalManifest : Path}

/-- The relative path of a directory leads back to it, and to the same manifest. -/
theorem LocatedTree.back (hcanonical : projectManifest T.toFileSystem path = .ok canonicalManifest) {directory : Path}
    {source description : String} (hdirectory : canonicalDirectory T.toFileSystem source description = .ok directory)
    {p : LockedPackage} (hpath : relativePath T.toFileSystem directory (T.parentPath canonicalManifest) "package path" =
      .ok p.path) : LockedAt T.toFileSystem (T.parentPath canonicalManifest) p directory ∧ ∀ {document},
        loadManifest T.toFileSystem (T.join (T.join (T.parentPath canonicalManifest) p.path) "ZithProject.toml") =
          .ok document ↔ PackageAt T.toFileSystem directory document := by
  obtain ⟨hdir, hweak, hread, hparent⟩ := T.relocated hcanonical hdirectory hpath
  refine ⟨?_, fun {document} => ⟨loadManifest_congr hread hparent, loadManifest_congr hread.symm hparent.symm⟩⟩
  rw [LockedAt, canonicalDirectory, hdir]
  simp only [hweak]

/-- The lockfile that resolving gives passes the check. -/
theorem validate_of_resolve {document : ManifestDocument} {lockfile : Lockfile}
    (hcanonical : projectManifest T.toFileSystem path = .ok canonicalManifest)
    (hdocument : loadManifest T.toFileSystem canonicalManifest = .ok document)
    (hresolved : Resolved T.toFileSystem (T.parentPath canonicalManifest) document lockfile)
    (hlocked : loadLockfile T.toFileSystem (T.join (T.parentPath canonicalManifest) "Zith.lock") = .ok lockfile) :
    validateLocalLockfile T.toFileSystem path = .ok () := by
  have hvalid := loadLockfile_valid hlocked
  have hproject := hresolved.project
  have hdependencies : lockfile.dependencies = dependencyNames document.manifest.dependencies :=
    (congrArg Lockfile.dependencies hproject).trans (dependencyNames_eq _)
  obtain ⟨directories, -, hmem, hlocks⟩ := hresolved.packages
  have hentry : ∀ {directory}, Reachable T.toFileSystem document directory → ∃ p ∈ lockfile.packages,
      Locks T.toFileSystem (T.parentPath canonicalManifest) directory p ∧
      LockedAt T.toFileSystem (T.parentPath canonicalManifest) p directory := by
    intro directory hreachable
    obtain ⟨p, hp, hflip⟩ := exists_of_forall₂ hlocks.flip directory ((hmem directory).mpr hreachable)
    have hlocked : Locks T.toFileSystem (T.parentPath canonicalManifest) directory p := hflip
    obtain ⟨source, hsource⟩ := hreachable.located
    obtain ⟨document', -, -, hdocument', -⟩ := id hlocked
    exact ⟨p, hp, hlocked, (T.back hcanonical hsource (hlocked.agrees hdocument').2.1).1⟩
  have hpath : ∀ {d root}, Matches T.toFileSystem d root → Reachable T.toFileSystem document root →
      PathVerified T.toFileSystem (T.parentPath canonicalManifest) lockfile d := by
    intro d root hmatches hreachable
    obtain ⟨p, hp, hlocked, hat⟩ := hentry hreachable
    obtain ⟨hlocated, document', hdocument', hname⟩ := hmatches
    refine ⟨p, root, ?_, hlocated, hat⟩
    rw [← hname, ← hlocked.loaded hdocument', findPackage_of_mem hvalid.names hp]
  rw [validate_iff hcanonical hdocument hlocked]
  constructor
  · refine ⟨congrArg Lockfile.projectName hproject, congrArg Lockfile.projectVersion hproject,
      congrArg Lockfile.projectManifestSha256 hproject, ?_, fun d hd => ?_, fun p hp => ?_⟩
    · rw [hdependencies, dependencyNames, sortByName_sortByName]
    · obtain ⟨root, hmatches⟩ := hresolved.declared d hd
      exact hpath hmatches ⟨d, hd, root, hmatches.1, .refl⟩
    · obtain ⟨directory, hdirectory, hlocked⟩ := exists_of_forall₂ hlocks p hp
      have hreachable := (hmem directory).mp hdirectory
      obtain ⟨document', hdocument', hmatched⟩ := hresolved.matched hreachable
      obtain ⟨source, hsource⟩ := hreachable.located
      have hagrees := hlocked.agrees hdocument'
      refine ⟨document', (T.back hcanonical hsource hagrees.2.1).2.mpr hdocument', hagrees.1, fun d hd => ?_⟩
      obtain ⟨root, hmatches⟩ := hmatched d hd
      obtain ⟨d₀, hd₀, root₀, hroot₀, hreaches⟩ := hreachable
      exact hpath hmatches ⟨d₀, hd₀, root₀, hroot₀, hreaches.tail ⟨document', hdocument', d, hd, hmatches.1⟩⟩
  · -- a package is reached by name along the way to its directory
    have hnamed : ∀ {a b documentB}, Reachable T.toFileSystem document a → DependsOn T.toFileSystem a b →
        PackageAt T.toFileSystem b documentB → ∀ {documentA}, PackageAt T.toFileSystem a documentA →
        Lists lockfile.packages documentA.manifest.name documentB.manifest.name := by
      rintro a b documentB hreachable ⟨document', hdocument', d, hd, hlocated⟩ hdocumentB documentA hdocumentA
      obtain rfl := hdocument'.unique hdocumentA
      obtain ⟨p, hp, hlocked, -⟩ := hentry hreachable
      obtain ⟨document'', hdocument'', hmatched⟩ := hresolved.matched hreachable
      obtain rfl := hdocument'.unique hdocument''
      obtain ⟨root, hlocated', documentB', hdocumentB', hname⟩ := hmatched d hd
      obtain rfl := hlocated.unique hlocated'
      obtain rfl := hdocumentB.unique hdocumentB'
      refine ⟨p, hp, hlocked.loaded hdocument', ?_⟩
      have hlisted : d.name ∈ sortByName id p.dependencies := by
        rw [← (hlocked.agrees hdocument').1.dependencies]
        exact mem_dependencyNames.mpr ⟨d, hd, rfl⟩
      exact hname ▸ mem_sortByName.mp hlisted
    intro p hp
    obtain ⟨directory, hdirectory, hlocked⟩ := exists_of_forall₂ hlocks p hp
    obtain ⟨d, hd, root, hroot, hreaches⟩ := (hmem directory).mp hdirectory
    obtain ⟨root', hlocated, documentR, hdocumentR, hname⟩ := hresolved.declared d hd
    obtain rfl := hlocated.unique hroot
    refine ⟨d.name, hdependencies ▸ mem_dependencyNames.mpr ⟨d, hd, rfl⟩, ?_⟩
    have hall : ∀ {b documentB}, ReflTransGen (DependsOn T.toFileSystem) root' b → PackageAt T.toFileSystem b documentB →
        ReflTransGen (Lists lockfile.packages) d.name documentB.manifest.name := by
      intro b documentB hb
      induction hb generalizing documentB with
      | refl =>
        intro hdocumentB
        rw [← hname, hdocumentR.unique hdocumentB]
      | tail hprev hstep ih =>
        intro hdocumentB
        have hreachable : Reachable T.toFileSystem document _ := ⟨d, hd, root', hlocated, hprev⟩
        obtain ⟨documentA, hdocumentA, -⟩ := hresolved.matched hreachable
        exact (ih hdocumentA).tail (hnamed hreachable hstep hdocumentB hdocumentA)
    obtain ⟨document', -, -, hdocument', -⟩ := id hlocked
    rw [hlocked.loaded hdocument']
    exact hall hreaches hdocument'

/-! ### Resolving again -/

/-- What a locked package of a checked lockfile is. -/
theorem Verified.package (hcanonical : projectManifest T.toFileSystem path = .ok canonicalManifest)
    {document : ManifestDocument} {locked : Lockfile}
    (hverified : Verified T.toFileSystem (T.parentPath canonicalManifest) document locked)
    (hpaths : Canonical T.toFileSystem (T.parentPath canonicalManifest) locked) {p : LockedPackage}
    (hp : p ∈ locked.packages) {directory : Path}
    (hat : LockedAt T.toFileSystem (T.parentPath canonicalManifest) p directory) : ∃ document',
      PackageAt T.toFileSystem directory document' ∧ Agrees T.toFileSystem document' p ∧
      relativePath T.toFileSystem directory (T.parentPath canonicalManifest) "package path" = .ok p.path ∧
      (∃ moduleKey, HasModuleRoot T.toFileSystem directory moduleKey) ∧
      ∀ d ∈ document'.manifest.dependencies, PathVerified T.toFileSystem (T.parentPath canonicalManifest) locked d := by
  obtain ⟨directory', hat', hpath, hmodule⟩ := hpaths.located p hp
  obtain rfl := hat.unique hat'
  obtain ⟨document', hdocument', hagrees, hdependencies⟩ := hverified.packages p hp
  exact ⟨document', (T.back hcanonical hat hpath).2.mp hdocument', hagrees, hpath, hmodule, hdependencies⟩

section
variable {document : ManifestDocument} {locked : Lockfile}
  (hcanonical : projectManifest T.toFileSystem path = .ok canonicalManifest)
  (hvalid : Valid T.toFileSystem locked)
  (hverified : Verified T.toFileSystem (T.parentPath canonicalManifest) document locked)
  (hpaths : Canonical T.toFileSystem (T.parentPath canonicalManifest) locked)
include hcanonical hverified hpaths

/-- A dependency that was verified matches the package that is locked for it. -/
theorem Verified.matches {d : DependencyDeclaration}
    (hd : PathVerified T.toFileSystem (T.parentPath canonicalManifest) locked d) : ∃ p ∈ locked.packages, ∃ directory,
      p.name = d.name ∧ Matches T.toFileSystem d directory ∧
      LockedAt T.toFileSystem (T.parentPath canonicalManifest) p directory := by
  obtain ⟨p, directory, hfind, hlocated, hat⟩ := hd
  obtain ⟨hp, hname⟩ := findPackage_some hfind
  obtain ⟨document', hdocument', hagrees, -⟩ := hverified.package hcanonical hpaths hp hat
  exact ⟨p, hp, directory, hname, ⟨hlocated, document', hdocument', hagrees.name.trans hname⟩, hat⟩

/-- A package depends on what it lists. -/
theorem Verified.depends {p : LockedPackage} (hp : p ∈ locked.packages) {a b : Path}
    (hat : LockedAt T.toFileSystem (T.parentPath canonicalManifest) p a) (hab : DependsOn T.toFileSystem a b) :
    ∃ q ∈ locked.packages, LockedAt T.toFileSystem (T.parentPath canonicalManifest) q b ∧
      Lists locked.packages p.name q.name := by
  obtain ⟨document', hdocument', hagrees, -, -, hdependencies⟩ := hverified.package hcanonical hpaths hp hat
  obtain ⟨document'', hdocument'', d, hd, hlocated⟩ := hab
  obtain rfl := hdocument'.unique hdocument''
  obtain ⟨q, hq, directory, hname, hmatches, hatq⟩ := hverified.matches hcanonical hpaths (hdependencies d hd)
  obtain rfl := hmatches.1.unique hlocated
  refine ⟨q, hq, hatq, p, hp, rfl, ?_⟩
  have hlisted : q.name ∈ sortByName id p.dependencies := by
    rw [← hagrees.dependencies]
    exact mem_dependencyNames.mpr ⟨d, hd, hname.symm⟩
  exact mem_sortByName.mp hlisted

include hvalid

/-- What a package lists, it depends on. -/
theorem Verified.lists {p : LockedPackage} (hp : p ∈ locked.packages) {a : Path} {name : String}
    (hat : LockedAt T.toFileSystem (T.parentPath canonicalManifest) p a) (hlists : Lists locked.packages p.name name) :
    ∃ q ∈ locked.packages, ∃ b, LockedAt T.toFileSystem (T.parentPath canonicalManifest) q b ∧ q.name = name ∧
      DependsOn T.toFileSystem a b := by
  obtain ⟨p', hp', hsame, hname⟩ := hlists
  obtain rfl := hvalid.wired.unique hp' hp hsame
  obtain ⟨document', hdocument', hagrees, -, -, hdependencies⟩ := hverified.package hcanonical hpaths hp hat
  have hlisted : name ∈ dependencyNames document'.manifest.dependencies := by
    rw [hagrees.dependencies]
    exact mem_sortByName.mpr hname
  obtain ⟨d, hd, rfl⟩ := mem_dependencyNames.mp hlisted
  obtain ⟨q, hq, b, hname, hmatches, hatq⟩ := hverified.matches hcanonical hpaths (hdependencies d hd)
  exact ⟨q, hq, b, hatq, hname, document', hdocument', d, hd, hmatches.1⟩

/-- The locked packages are a set in which the resolver can visit whatever it comes to. -/
theorem Verified.resolvable : Resolvable T.toFileSystem (T.parentPath canonicalManifest) document.manifest.name
    fun directory => ∃ p ∈ locked.packages, LockedAt T.toFileSystem (T.parentPath canonicalManifest) p directory := by
  have hsame : ∀ {p q a b}, p ∈ locked.packages → q ∈ locked.packages → p.name = q.name →
      LockedAt T.toFileSystem (T.parentPath canonicalManifest) p a →
      LockedAt T.toFileSystem (T.parentPath canonicalManifest) q b → a = b := by
    intro p q a b hp hq hname ha hb
    obtain rfl := hvalid.wired.unique hp hq hname
    exact ha.unique hb
  constructor
  case loaded =>
    rintro directory ⟨p, hp, hat⟩
    obtain ⟨document', hdocument', hagrees, hpath, ⟨moduleKey, document'', moduleRoot, hdocument'', hmodule, -⟩,
      hdependencies⟩ := hverified.package hcanonical hpaths hp hat
    obtain rfl := hdocument'.unique hdocument''
    have hpackage := hvalid.packages p hp
    refine ⟨document', moduleRoot, p.path, p.moduleRoot, hdocument', hagrees.name ▸ hpackage.notStd,
      hagrees.name ▸ hverified.projectName ▸ hpackage.notProject, hmodule, hpath, hagrees.moduleRoot, fun d hd => ?_⟩
    obtain ⟨q, hq, b, -, hmatches, hatq⟩ := hverified.matches hcanonical hpaths (hdependencies d hd)
    exact ⟨b, hmatches, q, hq, hatq⟩
  case names =>
    rintro a b documentA documentB ⟨p, hp, hatp⟩ ⟨q, hq, hatq⟩ hA hB hname
    obtain ⟨documentA', hA', hagreesA, -⟩ := hverified.package hcanonical hpaths hp hatp
    obtain ⟨documentB', hB', hagreesB, -⟩ := hverified.package hcanonical hpaths hq hatq
    obtain rfl := hA.unique hA'
    obtain rfl := hB.unique hB'
    exact hsame hp hq (hagreesA.name.symm.trans (hname.trans hagreesB.name)) hatp hatq
  case modules =>
    rintro a b moduleKey ⟨p, hp, hatp⟩ ⟨q, hq, hatq⟩ hA hB
    exact hsame hp hq (hpaths.moduleRoots p hp q hq hatp hatq hA hB) hatp hatq
  case acyclic =>
    rintro directory ⟨p, hp, hat⟩ hcycle
    have hlists : ∀ {b}, TransGen (DependsOn T.toFileSystem) directory b → ∃ q ∈ locked.packages,
        LockedAt T.toFileSystem (T.parentPath canonicalManifest) q b ∧ TransGen (Lists locked.packages) p.name q.name := by
      intro b hb
      induction hb with
      | single hstep =>
        obtain ⟨q, hq, hatq, hlists⟩ := hverified.depends hcanonical hpaths hp hat hstep
        exact ⟨q, hq, hatq, .single hlists⟩
      | tail _ hstep ih =>
        obtain ⟨r, hr, hatr, hto⟩ := ih
        obtain ⟨q, hq, hatq, hlists⟩ := hverified.depends hcanonical hpaths hr hatr hstep
        exact ⟨q, hq, hatq, hto.tail hlists⟩
    obtain ⟨q, hq, hatq, hto⟩ := hlists hcycle
    obtain ⟨documentP, hP, hagreesP, -⟩ := hverified.package hcanonical hpaths hp hat
    obtain ⟨documentQ, hQ, hagreesQ, -⟩ := hverified.package hcanonical hpaths hq hatq
    obtain rfl := hP.unique hQ
    rw [← hagreesQ.name, hagreesP.name] at hto
    obtain ⟨order, horder, hall⟩ := (visited_iff hvalid.wired).mp hvalid.acyclic
    exact horder.acyclic (hall (List.mem_map_of_mem hp)) hto

end

theorem nodup_of_forall₂ {α β : Type} {R : α → β → Prop} {l : List α} {l' : List β} (h : List.Forall₂ R l l')
    (hl : l.Nodup) (hinj : ∀ a ∈ l, ∀ b ∈ l, ∀ x, R a x → R b x → a = b) : l'.Nodup := by
  induction h with
  | nil => exact List.nodup_nil
  | @cons a x l l' hax hrest ih =>
    obtain ⟨ha, hl⟩ := List.nodup_cons.mp hl
    refine List.nodup_cons.mpr ⟨fun hx => ?_, ih hl fun b hb c hc =>
      hinj b (List.mem_cons_of_mem _ hb) c (List.mem_cons_of_mem _ hc)⟩
    obtain ⟨b, hb, hbx⟩ := exists_of_forall₂ hrest x hx
    exact ha (hinj a List.mem_cons_self b (List.mem_cons_of_mem _ hb) x hax hbx ▸ hb)

/-- A lockfile that passes the check is resolved again, in the order of its names. -/
theorem resolve_of_verified {document : ManifestDocument} {locked : Lockfile}
    (hcanonical : projectManifest T.toFileSystem path = .ok canonicalManifest)
    (hdocument : loadManifest T.toFileSystem canonicalManifest = .ok document) (hvalid : Valid T.toFileSystem locked)
    (hverified : Verified T.toFileSystem (T.parentPath canonicalManifest) document locked)
    (hreached : ∀ p ∈ locked.packages, ∃ root ∈ locked.dependencies, ReflTransGen (Lists locked.packages) root p.name)
    (hpaths : Canonical T.toFileSystem (T.parentPath canonicalManifest) locked) {fuel : ℕ}
    (hfuel : T.directories.length < fuel) : resolveLocalPackages T.toFileSystem fuel path = .ok locked.sorted := by
  have hset := hverified.resolvable hcanonical hvalid hpaths
  have hdeclared : ∀ d ∈ sortByName (·.name) document.manifest.dependencies, ∃ root, Matches T.toFileSystem d root ∧
      ∃ p ∈ locked.packages, LockedAt T.toFileSystem (T.parentPath canonicalManifest) p root := by
    intro d hd
    obtain ⟨p, hp, root, -, hmatches, hat⟩ :=
      hverified.matches hcanonical hpaths (hverified.paths d (mem_sortByName.mp hd))
    exact ⟨root, hmatches, p, hp, hat⟩
  obtain ⟨s, done, hrun, hvisited⟩ := visits_succeed hset hdeclared hfuel
  have hinside : ∀ directory ∈ done, ∃ p ∈ locked.packages,
      LockedAt T.toFileSystem (T.parentPath canonicalManifest) p directory := by
    have hwithin := hvisited.within hset (by simp [Within]) fun d hd =>
      let ⟨root, hroot, hin⟩ := hdeclared d hd
      ⟨root, hroot, hin, by simp⟩
    exact fun directory hdirectory => hwithin directory hdirectory
  -- every locked package is come to, as it is reached by name
  have hdone : ∀ p ∈ locked.packages, ∀ {directory},
      LockedAt T.toFileSystem (T.parentPath canonicalManifest) p directory → directory ∈ done := by
    intro p hp directory hat
    obtain ⟨root, hroot, hreaches⟩ := hreached p hp
    have hnamed : ∀ {name}, ReflTransGen (Lists locked.packages) root name → ∃ q ∈ locked.packages, ∃ b ∈ done,
        q.name = name ∧ LockedAt T.toFileSystem (T.parentPath canonicalManifest) q b := by
      intro name hname
      induction hname with
      | refl =>
        have hlisted : root ∈ dependencyNames document.manifest.dependencies := by
          rw [hverified.dependencies]
          exact mem_sortByName.mpr hroot
        obtain ⟨d, hd, rfl⟩ := mem_dependencyNames.mp hlisted
        obtain ⟨q, hq, b, hname, hmatches, hatq⟩ := hverified.matches hcanonical hpaths (hverified.paths d hd)
        obtain ⟨b', hmatches', hb'⟩ := hvisited.matched d (mem_sortByName.mpr hd)
        obtain rfl := hmatches.1.unique hmatches'.1
        exact ⟨q, hq, b, hb', hname, hatq⟩
      | tail _ hlists ih =>
        obtain ⟨r, hr, a, ha, rfl, hatr⟩ := ih
        obtain ⟨q, hq, b, hatq, hname, hab⟩ := hverified.lists hcanonical hvalid hpaths hr hatr hlists
        exact ⟨q, hq, b, hvisited.invariant.order.closed ha hab, hname, hatq⟩
    obtain ⟨q, hq, b, hb, hname, hatq⟩ := hnamed hreaches
    obtain rfl := hvalid.wired.unique hq hp hname
    exact hatq.unique hat ▸ hb
  have hlocks : ∀ p ∈ locked.packages, ∀ {directory},
      LockedAt T.toFileSystem (T.parentPath canonicalManifest) p directory →
      Locks T.toFileSystem (T.parentPath canonicalManifest) directory p.sorted := by
    intro p hp directory hat
    obtain ⟨document', hdocument', hagrees, hpath, -⟩ := hverified.package hcanonical hpaths hp hat
    exact hagrees.locks hdocument' hpath
  have hnodup : s.packages.Nodup := by
    refine nodup_of_forall₂ hvisited.invariant.packages hvisited.invariant.order.nodup fun a ha b hb x hax hbx => ?_
    obtain ⟨p, hp, hatp⟩ := hinside a ha
    obtain ⟨q, hq, hatq⟩ := hinside b hb
    have hx : p.sorted = q.sorted := ((hlocks p hp hatp).unique hax).trans (hbx.unique (hlocks q hq hatq))
    have hname : p.name = q.name := show p.sorted.name = q.sorted.name by rw [hx]
    obtain rfl := hvalid.wired.unique hp hq hname
    exact hatp.unique hatq
  have hmap : ((locked.packages.map LockedPackage.sorted).map (·.name)).Nodup := by
    rw [List.map_map]
    exact hvalid.names
  have hperm : s.packages.Perm (locked.packages.map LockedPackage.sorted) := by
    refine (List.perm_ext_iff_of_nodup hnodup hmap.of_map).mpr fun x => ⟨fun hx => ?_, fun hx => ?_⟩
    · obtain ⟨a, ha, hax⟩ := exists_of_forall₂ hvisited.invariant.packages x hx
      obtain ⟨p, hp, hatp⟩ := hinside a ha
      exact List.mem_map.mpr ⟨p, hp, (hlocks p hp hatp).unique hax⟩
    · obtain ⟨p, hp, rfl⟩ := List.mem_map.mp hx
      obtain ⟨directory, hat, -⟩ := hpaths.located p hp
      obtain ⟨y, hy, hflip⟩ := exists_of_forall₂ hvisited.invariant.packages.flip directory (hdone p hp hat)
      have hyp : Locks T.toFileSystem (T.parentPath canonicalManifest) directory y := hflip
      rwa [← hyp.unique (hlocks p hp hat)]
  have hlock : lockProject document s.packages = locked.sorted := by
    have hsorted : sortByName (·.name) s.packages = (sortByName (·.name) locked.packages).map LockedPackage.sorted := by
      rw [sortByName_of_perm hperm ((hperm.map _).nodup_iff.mpr hmap)]
      exact (map_sortByName (fun _ => rfl) _).symm
    rw [lockProject, Lockfile.sorted, hsorted, dependencyNames_eq, hverified.dependencies, hverified.projectName,
      hverified.projectVersion, hverified.digest]
  rw [resolveLocalPackages, hcanonical, told_ok_bind]
  dsimp only
  rw [hdocument, told_ok_bind, hrun, ok_bind, hlock, serialize_map, validateLockfile_iff.mpr hvalid.sorted]
  rfl

end

end Zith.Packages
