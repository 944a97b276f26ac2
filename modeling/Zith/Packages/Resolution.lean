import Zith.Lib.PostOrder
import Zith.Packages.Resolver

/-! What a resolved project is. The directories whose packages are complete are a post-order of the dependency
    relation, the maps of the resolver tell names and module roots apart, and the lockfile has one entry for each
    directory that is complete. -/

namespace Zith.Packages
open Zith.Lib Relation

/-! ### Trees of packages -/

/-- A file system with finitely many packages. A canonical path is in normal form and ends in no slash, a table has
    no key twice, and a fingerprint is a digest. -/
structure PackageTree extends FileSystem where
  canonical_key : ∀ {path canonical}, weaklyCanonical path = .ok canonical → pathKey toFileSystem canonical = canonical
  directories : List Path
  mem_directories : ∀ {path canonical document}, weaklyCanonical path = .ok canonical →
    loadManifest toFileSystem (join canonical "ZithProject.toml") = .ok document → canonical ∈ directories
  distinct_keys : ∀ {contents entries dependencies}, parseToml contents = .ok entries →
    (Toml.get entries "dependencies").bind Toml.asTable = some dependencies → (dependencies.map (·.1)).Nodup
  digest : ∀ contents, isSha256 (sha256Hex contents) = true

section
variable (F : FileSystem)

def PackageAt (directory : Path) (document : ManifestDocument) : Prop :=
  loadManifest F (F.join directory "ZithProject.toml") = .ok document

def Located (path directory : Path) : Prop := canonicalDirectory F path "dependency path" = .ok directory

/-- The directory of a dependency, whose package has the name that was declared. -/
def Matches (declaration : DependencyDeclaration) (directory : Path) : Prop :=
  Located F declaration.path directory ∧
    ∃ document, PackageAt F directory document ∧ document.manifest.name = declaration.name

/-- The package in `a` declares a dependency on what is in `b`. -/
def DependsOn (a b : Path) : Prop :=
  ∃ document, PackageAt F a document ∧ ∃ declaration ∈ document.manifest.dependencies, Located F declaration.path b

/-- What a project with this manifest depends on, directly or not. -/
def Reachable (project : ManifestDocument) (directory : Path) : Prop :=
  ∃ declaration ∈ project.manifest.dependencies, ∃ root,
    Located F declaration.path root ∧ ReflTransGen (DependsOn F) root directory

def HasModuleRoot (directory : Path) (moduleKey : String) : Prop :=
  ∃ document moduleRoot, PackageAt F directory document ∧
    canonicalDirectory F document.manifest.moduleRoot "package module root" = .ok moduleRoot ∧
    pathKey F moduleRoot = moduleKey

/-- The entry of the package in a directory. -/
def Locks (projectRoot directory : Path) (locked : LockedPackage) : Prop :=
  ∃ document projectRelativeRoot packageRelativeModuleRoot, PackageAt F directory document ∧
    relativePath F directory projectRoot "package path" = .ok projectRelativeRoot ∧
    relativePath F document.manifest.moduleRoot document.manifest.root "module root" = .ok packageRelativeModuleRoot ∧
    locked = lockPackage document projectRelativeRoot packageRelativeModuleRoot

end

theorem PackageAt.unique {F : FileSystem} {directory : Path} {a b : ManifestDocument} (ha : PackageAt F directory a)
    (hb : PackageAt F directory b) : a = b := Except.ok.inj (ha.symm.trans hb)

theorem Located.unique {F : FileSystem} {path a b : Path} (ha : Located F path a) (hb : Located F path b) : a = b :=
  Except.ok.inj (ha.symm.trans hb)

theorem Locks.unique {F : FileSystem} {projectRoot directory : Path} {a b : LockedPackage}
    (ha : Locks F projectRoot directory a) (hb : Locks F projectRoot directory b) : a = b := by
  obtain ⟨document, p, m, hdocument, hp, hm, rfl⟩ := ha
  obtain ⟨document', p', m', hdocument', hp', hm', rfl⟩ := hb
  obtain rfl := hdocument.unique hdocument'
  obtain rfl := Except.ok.inj (hp.symm.trans hp')
  obtain rfl := Except.ok.inj (hm.symm.trans hm')
  rfl

/-! ### Steps that succeed -/

section
variable {α β ε : Type}

theorem bind_ok {x : Except ε α} {f : α → Except ε β} {b : β} (h : x >>= f = .ok b) : ∃ a, x = .ok a ∧ f a = .ok b := by
  cases x with
  | error e => cases h
  | ok a => exact ⟨a, rfl, h⟩

theorem told_ok {x : Except String α} {a : α} (h : told x = .ok a) : x = .ok a := by
  cases x with
  | error e => cases h
  | ok b => exact congrArg Except.ok (Except.ok.inj h)

end

theorem checkOwner_ok {owners : List (String × String)} {key owner : String} {message : String → String}
    (h : checkOwner owners key owner message = .ok ()) : ∀ existing ∈ owners.lookup key, existing = owner := by
  intro existing hexisting
  by_contra hne
  rw [checkOwner, Option.mem_def.mp hexisting] at h
  simp [hne] at h

theorem checkName_ok {projectName name : String} {declaration : DependencyDeclaration} {manifestPath : Path}
    (h : checkName projectName declaration manifestPath name = .ok ()) :
    name = declaration.name ∧ name ≠ "std" ∧ name ≠ projectName := by
  rw [checkName] at h
  split at h
  · cases h
  · next hdeclared =>
    split at h
    · cases h
    · next hstd =>
      split at h
      · cases h
      · next hproject => exact ⟨not_not.mp hdeclared, hstd, hproject⟩

/-- What `examine` found. -/
structure Examined (F : FileSystem) (projectRoot : Path) (projectName : String) (s : LocalResolver)
    (declaration : DependencyDeclaration) (directory : Path) (found : Found) (document : ManifestDocument) : Prop where
  loaded : PackageAt F directory document
  name : found.name = document.manifest.name
  declared : document.manifest.name = declaration.name
  notStd : found.name ≠ "std"
  notProject : found.name ≠ projectName
  root : ∀ existing ∈ s.rootsByName.lookup found.name, existing = pathKey F directory
  moduleRoot : HasModuleRoot F directory found.moduleKey
  owner : ∀ existing ∈ s.moduleOwners.lookup found.moduleKey, existing = found.name
  dependencies : found.dependencies = sortByName (·.name) document.manifest.dependencies
  locked : Locks F projectRoot directory found.locked
  lockedName : found.locked.name = found.name

theorem examine_ok {F : FileSystem} {projectRoot directory : Path} {projectName : String} {s : LocalResolver}
    {declaration : DependencyDeclaration} {found : Found}
    (h : examine F projectRoot projectName s declaration directory = .ok found) :
    ∃ document, Examined F projectRoot projectName s declaration directory found document := by
  obtain ⟨document, hdocument, h⟩ := bind_ok h
  obtain ⟨⟨⟩, hname, h⟩ := bind_ok h
  obtain ⟨⟨⟩, hroot, h⟩ := bind_ok h
  obtain ⟨moduleRoot, hmodule, h⟩ := bind_ok h
  obtain ⟨⟨⟩, howner, h⟩ := bind_ok h
  obtain ⟨p, hp, h⟩ := bind_ok h
  obtain ⟨m, hm, h⟩ := bind_ok h
  obtain rfl := Except.ok.inj h
  obtain ⟨hdeclared, hstd, hproject⟩ := checkName_ok hname
  exact ⟨document, hdocument, rfl, hdeclared, hstd, hproject, checkOwner_ok hroot,
    ⟨document, moduleRoot, hdocument, hmodule, rfl⟩, checkOwner_ok howner, rfl, ⟨document, p, m, hdocument, hp, hm, rfl⟩,
    rfl⟩

/-! ### Lookups -/

section
variable {α : Type} {entries : List (String × α)} {key other : String} {value : α}

theorem lookup_cons_ite : ((key, value) :: entries).lookup other = if other = key then some value else entries.lookup other := by
  rw [List.lookup_cons]
  by_cases h : other = key
  · simp [h]
  · rw [beq_eq_false_iff_ne.mpr h, if_neg h]

theorem lookup_emplace (hnew : entries.lookup key = none) :
    (emplace entries key value).lookup other = if other = key then some value else entries.lookup other := by
  rw [emplace, hnew, Option.isSome_none, if_neg (by simp), lookup_cons_ite]

theorem lookup_emplace_of_mem (hold : entries.lookup other = some value) {value' : α} :
    (emplace entries key value').lookup other = some value := by
  rw [emplace]
  split
  · exact hold
  · next hnew =>
    have hne : other ≠ key := by
      rintro rfl
      rw [hold] at hnew
      exact hnew rfl
    rw [lookup_cons_ite, if_neg hne, hold]

/-- What is found after an insertion was inserted or was there. -/
theorem lookup_emplace_cases {found : α} (h : (emplace entries key value).lookup other = some found) :
    (other = key ∧ found = value) ∨ entries.lookup other = some found := by
  rw [emplace] at h
  split at h
  · exact .inr h
  · rw [lookup_cons_ite] at h
    split at h
    · next hother => exact .inl ⟨hother, (Option.some.inj h).symm⟩
    · exact .inr h

theorem lookup_emplace_self (h : ∀ existing ∈ entries.lookup key, existing = value) :
    (emplace entries key value).lookup key = some value := by
  rw [emplace]
  cases hold : entries.lookup key with
  | none => simp
  | some existing =>
    obtain rfl := h existing hold
    simpa using hold

theorem lookup_update {update : α → α} :
    (entries.map fun entry => if entry.1 = key then (entry.1, update entry.2) else entry).lookup other =
      if other = key then (entries.lookup other).map update else entries.lookup other := by
  induction entries with
  | nil => simp
  | cons entry entries ih =>
    obtain ⟨name, value⟩ := entry
    rw [List.map_cons]
    by_cases hkey : name = key
    · subst hkey
      rw [if_pos rfl, lookup_cons_ite, lookup_cons_ite, ih]
      split <;> rfl
    · rw [if_neg hkey, lookup_cons_ite, lookup_cons_ite, ih]
      split
      · next hother => rw [if_neg (hother ▸ hkey)]
      · rfl

end

/-! ### The invariant -/

/-- What holds of the node of a directory. -/
structure Noted (F : FileSystem) (projectRoot : Path) (projectName : String) (s : LocalResolver) (directory : Path)
    (node : PackageNode) : Prop where
  locked : Locks F projectRoot directory node.locked
  name : node.locked.name = node.name
  notStd : node.name ≠ "std"
  notProject : node.name ≠ projectName
  root : s.rootsByName.lookup node.name = some directory
  moduleRoot : ∃ moduleKey, HasModuleRoot F directory moduleKey ∧ s.moduleOwners.lookup moduleKey = some node.name

/-- The state while `active` is being visited and `done` is complete. -/
structure Invariant (F : FileSystem) (projectRoot : Path) (projectName : String) (s : LocalResolver)
    (active done : List Path) : Prop where
  visiting : ∀ directory, directory ∈ active ↔ ∃ node, s.nodes.lookup directory = some node ∧ node.state = .visiting
  complete : ∀ directory, directory ∈ done ↔ ∃ node, s.nodes.lookup directory = some node ∧ node.state = .complete
  nodes : ∀ {directory node}, s.nodes.lookup directory = some node → Noted F projectRoot projectName s directory node
  roots : ∀ {name root}, s.rootsByName.lookup name = some root →
    ∃ node, s.nodes.lookup root = some node ∧ node.name = name
  owners : ∀ {moduleKey owner}, s.moduleOwners.lookup moduleKey = some owner →
    ∃ directory node, s.nodes.lookup directory = some node ∧ node.name = owner ∧ HasModuleRoot F directory moduleKey
  order : PostOrder (DependsOn F) done
  matched : ∀ directory ∈ done, ∀ {document}, PackageAt F directory document →
    ∀ declaration ∈ document.manifest.dependencies, ∃ root, Matches F declaration root
  packages : List.Forall₂ (Locks F projectRoot) done s.packages

section
variable {F : FileSystem} {projectRoot directory : Path} {projectName : String} {s s' : LocalResolver}
  {active done : List Path}

theorem invariant_empty : Invariant F projectRoot projectName {} [] [] where
  visiting := by simp
  complete := by simp
  nodes := by simp
  roots := by simp
  owners := by simp
  order := .nil
  matched := by simp
  packages := .nil

theorem Noted.mono {node : PackageNode} (h : Noted F projectRoot projectName s directory node)
    (hroots : ∀ {name root}, s.rootsByName.lookup name = some root → s'.rootsByName.lookup name = some root)
    (howners : ∀ {key owner}, s.moduleOwners.lookup key = some owner → s'.moduleOwners.lookup key = some owner) :
    Noted F projectRoot projectName s' directory node := by
  obtain ⟨moduleKey, hkey, howner⟩ := h.moduleRoot
  exact ⟨h.locked, h.name, h.notStd, h.notProject, hroots h.root, moduleKey, hkey, howners howner⟩

/-- A directory that is entered is being visited. -/
theorem Invariant.enter {declaration : DependencyDeclaration} {found : Found} {document : ManifestDocument}
    (h : Invariant F projectRoot projectName s active done) (hkey : pathKey F directory = directory)
    (hnew : s.nodes.lookup directory = none)
    (hfound : Examined F projectRoot projectName s declaration directory found document) :
    Invariant F projectRoot projectName (s.enter directory found) (directory :: active) done := by
  have hnodes : ∀ other, (s.enter directory found).nodes.lookup other =
      if other = directory then some ⟨found.name, found.locked, .visiting⟩ else s.nodes.lookup other :=
    fun other => lookup_emplace hnew
  have hold : ∀ {other node}, s.nodes.lookup other = some node →
      (s.enter directory found).nodes.lookup other = some node := fun hother => lookup_emplace_of_mem hother
  have hself : (s.enter directory found).nodes.lookup directory = some ⟨found.name, found.locked, .visiting⟩ := by
    rw [hnodes, if_pos rfl]
  refine ⟨fun other => ?_, fun other => ?_, fun {other node} hnode => ?_, fun {name root} hroot => ?_,
    fun {moduleKey owner} howner => ?_, h.order, h.matched, h.packages⟩
  · rw [hnodes, List.mem_cons, h.visiting]
    by_cases hother : other = directory
    · subst hother
      simp
    · simp [hother]
  · rw [hnodes, h.complete]
    by_cases hother : other = directory
    · subst hother
      simp [hnew]
    · simp [hother]
  · rw [hnodes] at hnode
    split at hnode
    · next hother =>
      subst hother
      obtain rfl := Option.some.inj hnode
      refine ⟨hfound.locked, hfound.lockedName, hfound.notStd, hfound.notProject,
        lookup_emplace_self fun existing hexisting => (hfound.root existing hexisting).trans hkey, found.moduleKey,
        hfound.moduleRoot, lookup_emplace_self hfound.owner⟩
    · exact (h.nodes hnode).mono (fun hold => lookup_emplace_of_mem hold) fun hold => lookup_emplace_of_mem hold
  · rcases lookup_emplace_cases hroot with ⟨rfl, rfl⟩ | hroot
    · exact ⟨_, hself, rfl⟩
    · obtain ⟨node, hnode, hname⟩ := h.roots hroot
      exact ⟨node, hold hnode, hname⟩
  · rcases lookup_emplace_cases howner with ⟨rfl, rfl⟩ | howner
    · exact ⟨directory, _, hself, rfl, hfound.moduleRoot⟩
    · obtain ⟨other, node, hnode, hname⟩ := h.owners howner
      exact ⟨other, node, hold hnode, hname⟩

/-- A directory whose dependencies are complete becomes complete. -/
theorem Invariant.finish (h : Invariant F projectRoot projectName s (directory :: active) done)
    (hactive : directory ∉ active) (hcomplete : s.complete directory = .ok s')
    (hneeds : ∀ b, DependsOn F directory b → b ∈ done)
    (hmatched : ∀ {document}, PackageAt F directory document →
      ∀ declaration ∈ document.manifest.dependencies, ∃ root, Matches F declaration root) :
    Invariant F projectRoot projectName s' active (done ++ [directory]) := by
  obtain ⟨node, hnode, hvisiting⟩ := (h.visiting directory).mp List.mem_cons_self
  rw [LocalResolver.complete, hnode] at hcomplete
  obtain rfl := Except.ok.inj hcomplete
  have hnodes : ∀ other, List.lookup other (s.nodes.map fun entry =>
      if entry.1 = directory then (entry.1, entry.2.completed) else entry) =
      if other = directory then (s.nodes.lookup other).map PackageNode.completed else s.nodes.lookup other :=
    fun other => lookup_update
  have hnew : directory ∉ done := by
    rw [h.complete]
    rintro ⟨node', hnode', hstate⟩
    obtain rfl := Option.some.inj (hnode.symm.trans hnode')
    rw [hvisiting] at hstate
    cases hstate
  have hkept : ∀ {other old}, s.nodes.lookup other = some old → ∃ new, List.lookup other (s.nodes.map fun entry =>
      if entry.1 = directory then (entry.1, entry.2.completed) else entry) = some new ∧ new.name = old.name := by
    intro other old hold
    rw [hnodes, hold]
    split
    · exact ⟨old.completed, rfl, rfl⟩
    · exact ⟨old, rfl, rfl⟩
  refine ⟨fun other => ?_, fun other => ?_, fun {other node'} hnode' => ?_, fun hroot => ?_, fun howner => ?_,
    h.order.snoc hnew hneeds, ?_, ?_⟩
  · rw [hnodes]
    by_cases hother : other = directory
    · subst hother
      simp [hactive, hnode, PackageNode.completed]
    · have := h.visiting other
      rw [List.mem_cons, or_iff_right hother] at this
      simp [this, hother]
  · rw [hnodes, List.mem_append, List.mem_singleton, h.complete]
    by_cases hother : other = directory
    · subst hother
      simp [hnode, PackageNode.completed]
    · simp [hother]
  · rw [hnodes] at hnode'
    have hnoted : ∃ old, s.nodes.lookup other = some old ∧ node'.name = old.name ∧ node'.locked = old.locked := by
      split at hnode'
      · obtain ⟨old, hold, rfl⟩ := Option.map_eq_some_iff.mp hnode'
        exact ⟨old, hold, rfl, rfl⟩
      · exact ⟨node', hnode', rfl, rfl⟩
    obtain ⟨old, hold, hname, hlocked⟩ := hnoted
    obtain ⟨h₁, h₂, h₃, h₄, h₅, h₆⟩ := h.nodes hold
    rw [← hlocked] at h₁ h₂
    rw [← hname] at h₂ h₃ h₄ h₅ h₆
    exact ⟨h₁, h₂, h₃, h₄, h₅, h₆⟩
  · obtain ⟨old, hold, rfl⟩ := h.roots hroot
    exact hkept hold
  · obtain ⟨other, old, hold, rfl, hmodule⟩ := h.owners howner
    obtain ⟨new, hlookup, hname⟩ := hkept hold
    exact ⟨other, new, hlookup, hname, hmodule⟩
  · intro other hother
    rcases List.mem_append.mp hother with hother | hother
    · exact h.matched other hother
    · obtain rfl := List.mem_singleton.mp hother
      exact hmatched
  · exact List.rel_append h.packages (.cons (h.nodes hnode).locked .nil)

/-- What visits leave behind: the directories of the declarations are complete, and else only what they need. -/
structure Visited (F : FileSystem) (projectRoot : Path) (projectName : String)
    (declarations : List DependencyDeclaration) (s : LocalResolver) (active before done : List Path) : Prop where
  invariant : Invariant F projectRoot projectName s active done
  grows : before ⊆ done
  matched : ∀ declaration ∈ declarations, ∃ root, Matches F declaration root ∧ root ∈ done
  reached : ∀ directory ∈ done, directory ∈ before ∨ ∃ declaration ∈ declarations, ∃ root,
    Located F declaration.path root ∧ ReflTransGen (DependsOn F) root directory

theorem visitAll {step : DependencyDeclaration → LocalResolver → Except Failure LocalResolver}
    (hstep : ∀ {declaration s s' done}, Invariant F projectRoot projectName s active done → step declaration s = .ok s' →
      ∃ done', Visited F projectRoot projectName [declaration] s' active done done') :
    ∀ {declarations : List DependencyDeclaration} {s s' : LocalResolver} {done : List Path},
      Invariant F projectRoot projectName s active done →
      declarations.foldlM (fun s declaration => step declaration s) s = .ok s' →
      ∃ done', Visited F projectRoot projectName declarations s' active done done' := by
  intro declarations
  induction declarations with
  | nil =>
    intro s s' done h hrun
    obtain rfl := Except.ok.inj hrun
    exact ⟨done, h, fun _ => id, by simp, fun _ => .inl⟩
  | cons declaration declarations ih =>
    intro s s' done h hrun
    obtain ⟨s₁, hone, hrest⟩ := bind_ok hrun
    obtain ⟨done₁, hvisited⟩ := hstep h hone
    obtain ⟨done', hrested⟩ := ih hvisited.invariant hrest
    refine ⟨done', hrested.invariant, fun _ hx => hrested.grows (hvisited.grows hx), ?_, ?_⟩
    · rintro d (_ | ⟨_, hd⟩)
      · obtain ⟨root, hroot, hmem⟩ := hvisited.matched declaration (List.mem_singleton_self _)
        exact ⟨root, hroot, hrested.grows hmem⟩
      · exact hrested.matched d hd
    · intro directory hdirectory
      rcases hrested.reached directory hdirectory with hbefore | ⟨d, hd, hroot⟩
      · rcases hvisited.reached directory hbefore with hbefore | ⟨d, hd, hroot⟩
        · exact .inl hbefore
        · exact .inr ⟨d, List.mem_singleton.mp hd ▸ List.mem_cons_self, hroot⟩
      · exact .inr ⟨d, List.mem_cons_of_mem _ hd, hroot⟩

theorem canonical_of_canonicalDirectory {path canonical : Path} {description : String}
    (h : canonicalDirectory F path description = .ok canonical) : F.weaklyCanonical path = .ok canonical := by
  rw [canonicalDirectory] at h
  split at h
  · cases h
  · cases h
  · split at h
    · cases h
    · next hcanonical => rw [hcanonical, Except.ok.inj h]

theorem revisit_ok {declaration : DependencyDeclaration} {rootKey : String} {existing : PackageNode}
    (h : s.revisit declaration rootKey existing = .ok s') :
    s' = s ∧ existing.name = declaration.name ∧ existing.state = .complete := by
  rw [LocalResolver.revisit] at h
  split at h
  · cases h
  · next hname =>
    split at h
    · cases h
    · next hstate =>
      refine ⟨(Except.ok.inj h).symm, not_not.mp hname, ?_⟩
      cases hexisting : existing.state with
      | visiting => exact absurd hexisting hstate
      | complete => rfl

end

section
variable {T : PackageTree} {projectRoot : Path} {projectName : String}

/-- A sorted list has what the list has. -/
theorem mem_sortByName {α : Type} {name : α → String} {l : List α} {a : α} : a ∈ sortByName name l ↔ a ∈ l :=
  (List.perm_insertionSort _ l).mem_iff

/-- A visit that succeeds, on the depth that is left. -/
theorem visit_visits : ∀ {fuel : ℕ} {declaration : DependencyDeclaration} {s s' : LocalResolver} {active done : List Path},
    Invariant T.toFileSystem projectRoot projectName s active done →
    visit T.toFileSystem projectRoot projectName fuel declaration s = .ok s' →
    ∃ done', Visited T.toFileSystem projectRoot projectName [declaration] s' active done done' := by
  intro fuel
  induction fuel with
  | zero =>
    intro declaration s s' active done h hrun
    cases hrun
  | succ fuel ih =>
    intro declaration s s' active done h hrun
    obtain ⟨directory, hdirectory, hrun⟩ := bind_ok hrun
    have hlocated : Located T.toFileSystem declaration.path directory := told_ok hdirectory
    have hkey := T.canonical_key (canonical_of_canonicalDirectory hlocated)
    simp only [hkey] at hrun
    cases hnode : s.nodes.lookup directory with
    | some existing =>
      rw [hnode] at hrun
      obtain ⟨rfl, hname, hstate⟩ := revisit_ok (told_ok hrun)
      have hdone := (h.complete directory).mpr ⟨existing, hnode, hstate⟩
      refine ⟨done, h, fun _ => id, ?_, fun _ => .inl⟩
      obtain ⟨document, p, m, hloaded, -, -, hlocked⟩ := (h.nodes hnode).locked
      have hmanifest : document.manifest.name = existing.name := by
        rw [← (h.nodes hnode).name, hlocked]
        rfl
      simp only [List.mem_singleton, forall_eq]
      exact ⟨directory, ⟨hlocated, document, hloaded, hmanifest.trans hname⟩, hdone⟩
    | none =>
      rw [hnode] at hrun
      obtain ⟨found, hfound, hrun⟩ := bind_ok hrun
      obtain ⟨s₁, hvisits, hcomplete⟩ := bind_ok hrun
      obtain ⟨document, hexamined⟩ := examine_ok (told_ok hfound)
      have hentered := h.enter hkey hnode hexamined
      obtain ⟨done₁, hvisited⟩ := visitAll ih hentered hvisits
      have hdependency : ∀ d, d ∈ found.dependencies ↔ d ∈ document.manifest.dependencies := fun d => by
        rw [hexamined.dependencies]
        exact mem_sortByName
      have hactive : directory ∉ active := by
        rw [h.visiting, hnode]
        simp
      have hdeclared : ∀ {document'}, PackageAt T.toFileSystem directory document' →
          ∀ d ∈ document'.manifest.dependencies, ∃ root, Matches T.toFileSystem d root ∧ root ∈ done₁ := by
        intro document' hdocument' d hd
        obtain rfl := hdocument'.unique hexamined.loaded
        exact hvisited.matched d ((hdependency d).mpr hd)
      have hfinished := hvisited.invariant.finish hactive (told_ok hcomplete)
        (by
          rintro b ⟨document', hdocument', d, hd, hb⟩
          obtain ⟨root, hroot, hmem⟩ := hdeclared hdocument' d hd
          exact hroot.1.unique hb ▸ hmem)
        fun hdocument' d hd => let ⟨root, hroot, _⟩ := hdeclared hdocument' d hd; ⟨root, hroot⟩
      refine ⟨done₁ ++ [directory], hfinished, fun x hx => List.mem_append_left _ (hvisited.grows hx), ?_, ?_⟩
      · simp only [List.mem_singleton, forall_eq]
        exact ⟨directory, ⟨hlocated, document, hexamined.loaded, hexamined.declared⟩, by simp⟩
      · intro x hx
        rcases List.mem_append.mp hx with hx | hx
        · rcases hvisited.reached x hx with hbefore | ⟨d, hd, root, hroot, hreaches⟩
          · exact .inl hbefore
          · exact .inr ⟨declaration, List.mem_singleton_self _, directory, hlocated,
              .head ⟨document, hexamined.loaded, d, (hdependency d).mp hd, hroot⟩ hreaches⟩
        · obtain rfl := List.mem_singleton.mp hx
          exact .inr ⟨declaration, List.mem_singleton_self _, x, hlocated, .refl⟩

/-! ### Termination -/

/-- The packages that have not been entered. -/
def fresh (T : PackageTree) (s : LocalResolver) : List Path :=
  T.directories.filter fun directory => (s.nodes.lookup directory).isNone

/-- What was entered stays entered. -/
def Grown (s s' : LocalResolver) : Prop := ∀ key, (s.nodes.lookup key).isSome → (s'.nodes.lookup key).isSome

theorem fresh_sublist {s s' : LocalResolver} (h : Grown s s') : (fresh T s').Sublist (fresh T s) := by
  refine List.monotone_filter_right _ fun directory hnone => ?_
  cases hnode : s.nodes.lookup directory with
  | none => rfl
  | some node =>
    have hsome := h directory (by rw [hnode]; rfl)
    rw [Option.isNone_iff_eq_none.mp hnone] at hsome
    cases hsome

theorem LocalResolver.enter_grows (s : LocalResolver) (rootKey : String) (found : Found) :
    Grown s (s.enter rootKey found) := by
  intro key hkey
  obtain ⟨node, hnode⟩ := Option.isSome_iff_exists.mp hkey
  exact Option.isSome_iff_exists.mpr ⟨node, lookup_emplace_of_mem hnode⟩

theorem complete_grows {s s' : LocalResolver} {rootKey : String} (h : s.complete rootKey = .ok s') : Grown s s' := by
  intro key hkey
  rw [LocalResolver.complete] at h
  cases hnode : s.nodes.lookup rootKey with
  | none =>
    rw [hnode] at h
    cases h
  | some node =>
    rw [hnode] at h
    obtain rfl := Except.ok.inj h
    have hnodes : List.lookup key (s.nodes.map fun entry =>
        if entry.1 = rootKey then (entry.1, entry.2.completed) else entry) = _ := lookup_update
    rw [hnodes]
    split
    · rwa [Option.isSome_map]
    · exact hkey

theorem foldlM_grows {step : DependencyDeclaration → LocalResolver → Except Failure LocalResolver}
    (hstep : ∀ {d s s'}, step d s = .ok s' → Grown s s') : ∀ {ds : List DependencyDeclaration} {s s' : LocalResolver},
      ds.foldlM (fun s d => step d s) s = .ok s' → Grown s s' := by
  intro ds
  induction ds with
  | nil =>
    intro s s' hrun
    obtain rfl := Except.ok.inj hrun
    exact fun _ => id
  | cons d ds ih =>
    intro s s' hrun
    obtain ⟨s₁, hone, hrest⟩ := bind_ok hrun
    exact fun key hkey => ih hrest key (hstep hone key hkey)

variable {F : FileSystem}

theorem visit_grows : ∀ {fuel : ℕ} {declaration : DependencyDeclaration} {s s' : LocalResolver},
    visit F projectRoot projectName fuel declaration s = .ok s' → Grown s s' := by
  intro fuel
  induction fuel with
  | zero =>
    intro declaration s s' hrun
    cases hrun
  | succ fuel ih =>
    intro declaration s s' hrun
    obtain ⟨directory, -, hrun⟩ := bind_ok hrun
    dsimp only at hrun
    split at hrun
    · obtain ⟨rfl, -, -⟩ := revisit_ok (told_ok hrun)
      exact fun _ => id
    · obtain ⟨found, -, hrun⟩ := bind_ok hrun
      obtain ⟨s₁, hvisits, hcomplete⟩ := bind_ok hrun
      exact fun key hkey => complete_grows (told_ok hcomplete) key (foldlM_grows ih hvisits key (s.enter_grows _ _ key hkey))

theorem told_returns {α : Type} (result : Except String α) : told result ≠ .error .outOfFuel := by
  cases result <;> simp [told, Except.mapError]

/-- Steps that return, one after the other. -/
theorem bind_returns {α β : Type} {x : Except Failure α} {f : α → Except Failure β} (hx : x ≠ .error .outOfFuel)
    (hf : ∀ a, x = .ok a → f a ≠ .error .outOfFuel) : x >>= f ≠ .error .outOfFuel := by
  cases x with
  | error e => exact fun h => hx (congrArg Except.error (Except.error.inj h))
  | ok a => exact hf a rfl

theorem foldlM_returns {fuel : ℕ} {step : DependencyDeclaration → LocalResolver → Except Failure LocalResolver}
    (hgrows : ∀ {d s s'}, step d s = .ok s' → Grown s s')
    (hstep : ∀ {d s}, (fresh T s).length < fuel → step d s ≠ .error .outOfFuel) :
    ∀ {ds : List DependencyDeclaration} {s : LocalResolver}, (fresh T s).length < fuel →
      ds.foldlM (fun s d => step d s) s ≠ .error .outOfFuel := by
  intro ds
  induction ds with
  | nil =>
    intro s _ h
    cases h
  | cons d ds ih =>
    intro s hs
    rw [List.foldlM_cons]
    exact bind_returns (hstep hs) fun s₁ hone => ih (lt_of_le_of_lt (fresh_sublist (hgrows hone)).length_le hs)

/-- A depth greater than the number of packages that were not entered is enough. -/
theorem visit_returns : ∀ {fuel : ℕ} {declaration : DependencyDeclaration} {s : LocalResolver},
    (fresh T s).length < fuel → visit T.toFileSystem projectRoot projectName fuel declaration s ≠ .error .outOfFuel := by
  intro fuel
  induction fuel with
  | zero =>
    intro declaration s hs
    exact absurd hs (Nat.not_lt_zero _)
  | succ fuel ih =>
    intro declaration s hs
    refine bind_returns (told_returns _) fun directory hdirectory => ?_
    have hcanonical := canonical_of_canonicalDirectory (told_ok hdirectory)
    dsimp only
    rw [T.canonical_key hcanonical]
    cases hnode : s.nodes.lookup directory with
    | some existing => exact told_returns _
    | none =>
      refine bind_returns (told_returns _) fun found hfound => bind_returns ?_ fun s₁ _ => told_returns _
      obtain ⟨document, hexamined⟩ := examine_ok (told_ok hfound)
      -- the directory is a package that is not fresh any more
      have hmem : directory ∈ fresh T s :=
        List.mem_filter.mpr ⟨T.mem_directories hcanonical hexamined.loaded, by simp [hnode]⟩
      have hentered : ((s.enter directory found).nodes.lookup directory).isSome := by
        rw [LocalResolver.enter, lookup_emplace hnode, if_pos rfl]
        rfl
      have hlt : (fresh T (s.enter directory found)).length < (fresh T s).length := by
        have hsub : List.Sublist _ (fresh T s) := fresh_sublist (s.enter_grows directory found)
        refine lt_of_le_of_ne hsub.length_le fun heq => ?_
        rw [← hsub.eq_of_length heq] at hmem
        rw [Option.isNone_iff_eq_none.mp (List.mem_filter.mp hmem).2] at hentered
        cases hentered
      exact foldlM_returns visit_grows ih (by omega)

/-! ### More depth -/

/-- Steps that return take no notice of a change that only matters when they do not. -/
theorem bind_stable {α β : Type} {x x' : Except Failure α} {f f' : α → Except Failure β}
    (hreturns : x >>= f ≠ .error .outOfFuel) (hx : x ≠ .error .outOfFuel → x' = x)
    (hf : ∀ a, f a ≠ .error .outOfFuel → f' a = f a) : x' >>= f' = x >>= f := by
  cases x with
  | error e => rw [hx fun h => hreturns (by rw [h]; rfl)]; rfl
  | ok a => rw [hx (by simp)]; exact hf a hreturns

theorem foldlM_stable {step step' : DependencyDeclaration → LocalResolver → Except Failure LocalResolver}
    (hstep : ∀ {d s}, step d s ≠ .error .outOfFuel → step' d s = step d s) :
    ∀ {ds : List DependencyDeclaration} {s : LocalResolver}, ds.foldlM (fun s d => step d s) s ≠ .error .outOfFuel →
      ds.foldlM (fun s d => step' d s) s = ds.foldlM (fun s d => step d s) s := by
  intro ds
  induction ds with
  | nil => exact fun _ => rfl
  | cons d ds ih => exact fun hreturns => bind_stable hreturns hstep fun s hs => ih hs

theorem visit_succ : ∀ {fuel : ℕ} {declaration : DependencyDeclaration} {s : LocalResolver},
    visit F projectRoot projectName fuel declaration s ≠ .error .outOfFuel →
    visit F projectRoot projectName (fuel + 1) declaration s = visit F projectRoot projectName fuel declaration s := by
  intro fuel
  induction fuel with
  | zero => exact fun h => absurd rfl h
  | succ fuel ih =>
    intro declaration s hreturns
    refine bind_stable hreturns (fun _ => rfl) fun directory hdirectory => ?_
    dsimp only at hdirectory ⊢
    cases hnode : s.nodes.lookup (pathKey F directory) with
    | some existing => rfl
    | none =>
      rw [hnode] at hdirectory
      exact bind_stable hdirectory (fun _ => rfl) fun found hfound =>
        bind_stable hfound (foldlM_stable ih) fun _ _ => rfl

theorem visit_stable {fuel more : ℕ} {declaration : DependencyDeclaration} {s : LocalResolver}
    (hle : fuel ≤ more) (hreturns : visit F projectRoot projectName fuel declaration s ≠ .error .outOfFuel) :
    visit F projectRoot projectName more declaration s = visit F projectRoot projectName fuel declaration s := by
  induction hle with
  | refl => rfl
  | step _ ih => rw [visit_succ (by rwa [ih]), ih]

/-- Resolving returns at some depth, and at every greater one the same. -/
theorem resolve_returns (T : PackageTree) (projectManifestPath : Path) : ∃ result,
    result ≠ .error .outOfFuel ∧ ∀ fuel, T.directories.length < fuel →
      resolveLocalPackages T.toFileSystem fuel projectManifestPath = result := by
  have hfresh : ∀ {fuel}, T.directories.length < fuel → (fresh T {}).length < fuel := fun h =>
    lt_of_le_of_lt (List.length_filter_le ..) h
  have hreturns : ∀ fuel, T.directories.length < fuel →
      resolveLocalPackages T.toFileSystem fuel projectManifestPath ≠ .error .outOfFuel := fun fuel hfuel =>
    bind_returns (told_returns _) fun _ _ => bind_returns (told_returns _) fun _ _ =>
      bind_returns (foldlM_returns visit_grows visit_returns (hfresh hfuel)) fun _ _ => told_returns _
  refine ⟨_, hreturns (T.directories.length + 1) (Nat.lt_succ_self _), fun fuel hfuel => ?_⟩
  refine bind_stable (hreturns _ (Nat.lt_succ_self _)) (fun _ => rfl) fun _ h => bind_stable h (fun _ => rfl) fun _ h =>
    bind_stable h (foldlM_stable fun h => visit_stable hfuel h) fun _ _ => rfl

/-! ### What was resolved -/

/-- A lockfile of exactly the packages that a project reaches, none of which reaches itself, each declared by its
    name, with names and module roots of their own. -/
structure Resolved (F : FileSystem) (projectRoot : Path) (project : ManifestDocument) (lockfile : Lockfile) : Prop where
  acyclic : ∀ {directory}, Reachable F project directory → ¬TransGen (DependsOn F) directory directory
  declared : ∀ declaration ∈ project.manifest.dependencies, ∃ root, Matches F declaration root
  matched : ∀ {directory}, Reachable F project directory → ∃ document, PackageAt F directory document ∧
    ∀ declaration ∈ document.manifest.dependencies, ∃ root, Matches F declaration root
  names : ∀ {a b documentA documentB}, Reachable F project a → Reachable F project b → PackageAt F a documentA →
    PackageAt F b documentB → documentA.manifest.name = documentB.manifest.name → a = b
  moduleRoots : ∀ {a b moduleKey}, Reachable F project a → Reachable F project b → HasModuleRoot F a moduleKey →
    HasModuleRoot F b moduleKey → a = b
  foreign : ∀ {directory document}, Reachable F project directory → PackageAt F directory document →
    document.manifest.name ≠ "std" ∧ document.manifest.name ≠ project.manifest.name ∧
      ∃ moduleKey, HasModuleRoot F directory moduleKey
  packages : ∃ directories : List Path, directories.Nodup ∧
    (∀ directory, directory ∈ directories ↔ Reachable F project directory) ∧
    List.Forall₂ (Locks F projectRoot) directories lockfile.packages
  project : lockfile = lockProject project lockfile.packages

theorem Locks.loaded {directory : Path} {document : ManifestDocument} {locked : LockedPackage}
    (h : Locks F projectRoot directory locked) (hdocument : PackageAt F directory document) :
    locked.name = document.manifest.name := by
  obtain ⟨document', p, m, hdocument', -, -, rfl⟩ := h
  obtain rfl := hdocument.unique hdocument'
  rfl

/-- Sorting changes the order of what a list stands for, and nothing else. -/
theorem exists_sorted {directories : List Path} {packages : List LockedPackage}
    (h : List.Forall₂ (Locks F projectRoot) directories packages) :
    ∃ directories' : List Path, directories'.Perm directories ∧
      List.Forall₂ (Locks F projectRoot) directories' (sortByName (·.name) packages) := by
  have hsorted : (sortByName (·.name) packages).Perm packages := List.perm_insertionSort _ _
  obtain ⟨directories', hlocks, hperm⟩ := List.perm_comp_forall₂ hsorted h.flip
  exact ⟨directories', hperm, hlocks.flip⟩

theorem insertionSort_insertionSort {α : Type} {r : α → α → Prop} [DecidableRel r] [Std.Total r] [IsTrans α r]
    (l : List α) : (l.insertionSort r).insertionSort r = l.insertionSort r :=
  (List.pairwise_insertionSort r l).insertionSort_eq

theorem resolve_ok {fuel : ℕ} {path : Path} {lockfile : Lockfile}
    (h : resolveLocalPackages F fuel path = .ok lockfile) : ∃ canonicalManifest project s entries,
      projectManifest F path = .ok canonicalManifest ∧ loadManifest F canonicalManifest = .ok project ∧
      (sortByName (·.name) project.manifest.dependencies).foldlM (fun s dependency =>
        visit F (F.parentPath canonicalManifest) project.manifest.name fuel dependency s) {} = .ok s ∧
      lockfile = lockProject project s.packages ∧ serializeLockfile F lockfile = .ok entries := by
  obtain ⟨canonicalManifest, hcanonical, h⟩ := bind_ok h
  obtain ⟨project, hproject, h⟩ := bind_ok h
  obtain ⟨s, hvisits, h⟩ := bind_ok h
  dsimp only at h
  cases hserialized : serializeLockfile F (lockProject project s.packages) with
  | error e =>
    rw [hserialized] at h
    cases h
  | ok entries =>
    rw [hserialized] at h
    obtain rfl := Except.ok.inj h
    exact ⟨canonicalManifest, project, s, entries, told_ok hcanonical, told_ok hproject, hvisits, rfl, hserialized⟩

theorem resolve_resolves {fuel : ℕ} {path : Path} {lockfile : Lockfile}
    (h : resolveLocalPackages T.toFileSystem fuel path = .ok lockfile) : ∃ canonicalManifest project,
      projectManifest T.toFileSystem path = .ok canonicalManifest ∧
      loadManifest T.toFileSystem canonicalManifest = .ok project ∧
      Resolved T.toFileSystem (T.parentPath canonicalManifest) project lockfile := by
  obtain ⟨canonicalManifest, project, s, entries, hcanonical, hproject, hvisits, rfl, -⟩ := resolve_ok h
  refine ⟨canonicalManifest, project, hcanonical, hproject, ?_⟩
  obtain ⟨done, hvisited⟩ := visitAll visit_visits invariant_empty hvisits
  have hinv := hvisited.invariant
  have hdone : ∀ directory, directory ∈ done ↔ Reachable T.toFileSystem project directory := by
    intro directory
    constructor
    · intro hdirectory
      obtain ⟨d, hd, hroot⟩ := (hvisited.reached directory hdirectory).resolve_left List.not_mem_nil
      exact ⟨d, mem_sortByName.mp hd, hroot⟩
    · rintro ⟨d, hd, root, hroot, hreaches⟩
      obtain ⟨root', hroot', hmem⟩ := hvisited.matched d (mem_sortByName.mpr hd)
      obtain rfl := hroot'.1.unique hroot
      exact hinv.order.reaches hmem hreaches
  have hnode : ∀ {directory}, Reachable T.toFileSystem project directory → ∃ node,
      s.nodes.lookup directory = some node ∧ Noted T.toFileSystem (T.parentPath canonicalManifest) project.manifest.name s directory node := by
    intro directory hdirectory
    obtain ⟨node, hnode, -⟩ := (hinv.complete directory).mp ((hdone directory).mpr hdirectory)
    exact ⟨node, hnode, hinv.nodes hnode⟩
  have hname : ∀ {directory document}, Reachable T.toFileSystem project directory →
      PackageAt T.toFileSystem directory document → s.rootsByName.lookup document.manifest.name = some directory := by
    intro directory document hdirectory hdocument
    obtain ⟨node, -, hnoted⟩ := hnode hdirectory
    rw [← hnoted.locked.loaded hdocument, hnoted.name]
    exact hnoted.root
  have hnames : ∀ {a b documentA documentB}, Reachable T.toFileSystem project a → Reachable T.toFileSystem project b →
      PackageAt T.toFileSystem a documentA → PackageAt T.toFileSystem b documentB →
      documentA.manifest.name = documentB.manifest.name → a = b := by
    intro a b documentA documentB ha hb hA hB hsame
    have hroot := hname ha hA
    rw [hsame, hname hb hB] at hroot
    exact (Option.some.inj hroot).symm
  have hmodule : ∀ {directory moduleKey document}, Reachable T.toFileSystem project directory →
      HasModuleRoot T.toFileSystem directory moduleKey → PackageAt T.toFileSystem directory document →
      s.moduleOwners.lookup moduleKey = some document.manifest.name := by
    rintro directory moduleKey document hdirectory ⟨document₁, m₁, hd₁, hm₁, hk₁⟩ hdocument
    obtain ⟨node, -, hnoted⟩ := hnode hdirectory
    obtain ⟨moduleKey', ⟨document₂, m₂, hd₂, hm₂, hk₂⟩, howner⟩ := hnoted.moduleRoot
    obtain rfl := hd₁.unique hd₂
    obtain rfl := Except.ok.inj (hm₁.symm.trans hm₂)
    rw [← hk₁, hk₂, howner, ← hnoted.name, hnoted.locked.loaded hdocument]
  constructor
  case acyclic => exact fun hdirectory => hinv.order.acyclic ((hdone _).mpr hdirectory)
  case declared =>
    intro d hd
    obtain ⟨root, hroot, -⟩ := hvisited.matched d (mem_sortByName.mpr hd)
    exact ⟨root, hroot⟩
  case matched =>
    intro directory hdirectory
    obtain ⟨node, -, hnoted⟩ := hnode hdirectory
    obtain ⟨document, p, m, hdocument, -⟩ := hnoted.locked
    exact ⟨document, hdocument, hinv.matched directory ((hdone directory).mpr hdirectory) hdocument⟩
  case names => exact hnames
  case moduleRoots =>
    intro a b moduleKey ha hb hA hB
    obtain ⟨documentA, -, hdocumentA, -⟩ := id hA
    obtain ⟨documentB, -, hdocumentB, -⟩ := id hB
    have howner := hmodule ha hA hdocumentA
    rw [hmodule hb hB hdocumentB] at howner
    exact hnames ha hb hdocumentA hdocumentB (Option.some.inj howner).symm
  case foreign =>
    intro directory document hdirectory hdocument
    obtain ⟨node, -, hnoted⟩ := hnode hdirectory
    have hsame : node.name = document.manifest.name := hnoted.name.symm.trans (hnoted.locked.loaded hdocument)
    obtain ⟨moduleKey, hmoduleKey, -⟩ := hnoted.moduleRoot
    exact ⟨hsame ▸ hnoted.notStd, hsame ▸ hnoted.notProject, moduleKey, hmoduleKey⟩
  case packages =>
    obtain ⟨directories, hperm, hlocks⟩ := exists_sorted hinv.packages
    exact ⟨directories, hperm.nodup_iff.mpr hinv.order.nodup, fun directory => (hperm.mem_iff).trans (hdone directory),
      hlocks⟩
  case project =>
    simp only [lockProject, sortByName, insertionSort_insertionSort]

end

end Zith.Packages
