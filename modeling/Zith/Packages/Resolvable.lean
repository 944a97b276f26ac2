import Zith.Packages.Resolution

/-! When resolving has nothing to complain about: every package that is come to can be read, has a name and a module
    root of its own, and does not depend on itself. -/

namespace Zith.Packages
open Zith.Lib Relation

/-- A set of packages in which the resolver can visit whatever it comes to. -/
structure Resolvable (F : FileSystem) (projectRoot : Path) (projectName : String) (inside : Path → Prop) : Prop where
  loaded : ∀ {directory}, inside directory → ∃ document moduleRoot p m, PackageAt F directory document ∧
    document.manifest.name ≠ "std" ∧ document.manifest.name ≠ projectName ∧
    canonicalDirectory F document.manifest.moduleRoot "package module root" = .ok moduleRoot ∧
    relativePath F directory projectRoot "package path" = .ok p ∧
    relativePath F document.manifest.moduleRoot document.manifest.root "module root" = .ok m ∧
    ∀ d ∈ document.manifest.dependencies, ∃ root, Matches F d root ∧ inside root
  names : ∀ {a b documentA documentB}, inside a → inside b → PackageAt F a documentA → PackageAt F b documentB →
    documentA.manifest.name = documentB.manifest.name → a = b
  modules : ∀ {a b moduleKey}, inside a → inside b → HasModuleRoot F a moduleKey → HasModuleRoot F b moduleKey → a = b
  acyclic : ∀ {directory}, inside directory → ¬TransGen (DependsOn F) directory directory

/-- A run that does not end with a message. -/
def Quiet {α : Type} (result : Except Failure α) : Prop := ∀ text, result ≠ .error (.message text)

theorem Quiet.told {α : Type} {result : Except String α} {a : α} (h : result = .ok a) : Quiet (told result) := by
  subst h
  intro text h
  cases h

theorem Quiet.bind {α β : Type} {x : Except Failure α} {f : α → Except Failure β} (hx : Quiet x)
    (hf : ∀ a, x = .ok a → Quiet (f a)) : Quiet (x >>= f) := by
  cases x with
  | error e => exact fun text h => hx text (congrArg Except.error (Except.error.inj h))
  | ok a => exact hf a rfl

theorem checkOwner_free {owners : List (String × String)} {key owner : String} {message : String → String}
    (h : ∀ existing ∈ owners.lookup key, existing = owner) : checkOwner owners key owner message = .ok () := by
  rw [checkOwner]
  split
  · rfl
  · next existing hexisting => rw [if_neg (not_not.mpr (h existing hexisting))]

section
variable {F : FileSystem} {projectRoot directory : Path} {projectName : String} {inside : Path → Prop}
  {s s' : LocalResolver} {active done : List Path} {declaration : DependencyDeclaration}

theorem Resolvable.closed (h : Resolvable F projectRoot projectName inside) {a b : Path} (ha : inside a)
    (hab : DependsOn F a b) : inside b := by
  obtain ⟨document, hdocument, d, hd, hb⟩ := hab
  obtain ⟨document', -, -, -, hdocument', -, -, -, -, -, hdeclared⟩ := h.loaded ha
  obtain rfl := hdocument.unique hdocument'
  obtain ⟨root, hroot, hin⟩ := hdeclared d hd
  rwa [← hroot.1.unique hb]

theorem Resolvable.reaches (h : Resolvable F projectRoot projectName inside) {a b : Path} (ha : inside a)
    (hab : ReflTransGen (DependsOn F) a b) : inside b := by
  induction hab with
  | refl => exact ha
  | tail _ hbc ih => exact h.closed ih hbc

/-- Every node is of a package in the set. -/
def Within (inside : Path → Prop) (active done : List Path) : Prop := ∀ directory ∈ active ++ done, inside directory

theorem Invariant.mem_of_lookup (h : Invariant F projectRoot projectName s active done) {node : PackageNode}
    (hnode : s.nodes.lookup directory = some node) : directory ∈ active ++ done := by
  rw [List.mem_append, h.visiting, h.complete]
  cases hstate : node.state with
  | visiting => exact .inl ⟨node, hnode, hstate⟩
  | complete => exact .inr ⟨node, hnode, hstate⟩

theorem Noted.named {node : PackageNode} (h : Noted F projectRoot projectName s directory node)
    {document : ManifestDocument} (hdocument : PackageAt F directory document) :
    node.name = document.manifest.name := h.name.symm.trans (h.locked.loaded hdocument)

/-- A new package of the set passes every check. -/
theorem examine_succeeds (hset : Resolvable F projectRoot projectName inside)
    (h : Invariant F projectRoot projectName s active done) (hwithin : Within inside active done)
    (hmatches : Matches F declaration directory) (hin : inside directory) (hnew : s.nodes.lookup directory = none) :
    ∃ found, examine F projectRoot projectName s declaration directory = .ok found := by
  obtain ⟨-, document, hdocument, hname⟩ := hmatches
  obtain ⟨document', moduleRoot, p, m, hdocument', hstd, hproject, hmodule, hp, hm, -⟩ := hset.loaded hin
  obtain rfl := hdocument.unique hdocument'
  have hcheck : checkName projectName declaration (F.join directory "ZithProject.toml") document.manifest.name = .ok () := by
    rw [checkName, if_neg (not_not.mpr hname), if_neg hstd, if_neg hproject]
  -- a package that has the name, or the module root, would be this one, which is new
  have hroots : ∀ existing ∈ s.rootsByName.lookup document.manifest.name, existing = pathKey F directory := by
    intro root hroot
    obtain ⟨node, hnode, hsame⟩ := h.roots hroot
    have hnoted := h.nodes hnode
    obtain ⟨other, -, -, hother, -⟩ := hnoted.locked
    have heq := hset.names (hwithin root (h.mem_of_lookup hnode)) hin hother hdocument
      ((hnoted.named hother).symm.trans hsame)
    rw [heq, hnew] at hnode
    cases hnode
  have howners : ∀ existing ∈ s.moduleOwners.lookup (pathKey F moduleRoot), existing = document.manifest.name := by
    intro owner howner
    obtain ⟨other, node, hnode, rfl, hkey⟩ := h.owners howner
    have heq := hset.modules (hwithin other (h.mem_of_lookup hnode)) hin hkey ⟨document, moduleRoot, hdocument, hmodule, rfl⟩
    rw [heq, hnew] at hnode
    cases hnode
  rw [PackageAt] at hdocument
  rw [examine, hdocument]
  simp only [bind, Except.bind, hcheck, hmodule, hp, hm, checkOwner_free hroots, checkOwner_free howners]
  exact ⟨_, rfl⟩

/-- What makes a visit quiet: the declaration matches a package of the set, which all active packages come to. -/
def Visitable (F : FileSystem) (inside : Path → Prop) (active : List Path) (declaration : DependencyDeclaration) : Prop :=
  ∃ root, Matches F declaration root ∧ inside root ∧ ∀ a ∈ active, TransGen (DependsOn F) a root

/-- A visit to a package of the set leaves only such packages. -/
theorem Visited.within {declarations : List DependencyDeclaration} {before : List Path}
    (hset : Resolvable F projectRoot projectName inside)
    (h : Visited F projectRoot projectName declarations s active before done) (hbefore : Within inside active before)
    (hvisitable : ∀ d ∈ declarations, Visitable F inside active d) : Within inside active done := by
  intro directory hdirectory
  rcases List.mem_append.mp hdirectory with hactive | hdone
  · exact hbefore directory (List.mem_append_left _ hactive)
  · rcases h.reached directory hdone with hold | ⟨d, hd, root, hroot, hreaches⟩
    · exact hbefore directory (List.mem_append_right _ hold)
    · obtain ⟨root', hmatches, hin, -⟩ := hvisitable d hd
      obtain rfl := hmatches.1.unique hroot
      exact hset.reaches hin hreaches

theorem visitAll_quiet (hset : Resolvable F projectRoot projectName inside)
    {step : DependencyDeclaration → LocalResolver → Except Failure LocalResolver}
    (hvisits : ∀ {d s s' done}, Invariant F projectRoot projectName s active done → step d s = .ok s' →
      ∃ done', Visited F projectRoot projectName [d] s' active done done')
    (hquiet : ∀ {d s done}, Invariant F projectRoot projectName s active done → Within inside active done →
      Visitable F inside active d → Quiet (step d s)) :
    ∀ {ds : List DependencyDeclaration} {s : LocalResolver} {done : List Path},
      Invariant F projectRoot projectName s active done → Within inside active done →
      (∀ d ∈ ds, Visitable F inside active d) → Quiet (ds.foldlM (fun s d => step d s) s) := by
  intro ds
  induction ds with
  | nil =>
    intro s done _ _ _ text h
    cases h
  | cons d ds ih =>
    intro s done h hwithin hds
    obtain ⟨hd, hrest⟩ := List.forall_mem_cons.mp hds
    rw [List.foldlM_cons]
    refine (hquiet h hwithin hd).bind fun s₁ hone => ?_
    obtain ⟨done₁, hvisited⟩ := hvisits h hone
    exact ih hvisited.invariant (hvisited.within hset hwithin (by simpa using hd)) hrest

end

section
variable {T : PackageTree} {projectRoot : Path} {projectName : String} {inside : Path → Prop}

/-- Visits to packages of the set end without a message. -/
theorem visit_quiet (hset : Resolvable T.toFileSystem projectRoot projectName inside) :
    ∀ {fuel : ℕ} {declaration : DependencyDeclaration} {s : LocalResolver} {active done : List Path},
      Invariant T.toFileSystem projectRoot projectName s active done → Within inside active done →
      Visitable T.toFileSystem inside active declaration →
      Quiet (visit T.toFileSystem projectRoot projectName fuel declaration s) := by
  intro fuel
  induction fuel with
  | zero =>
    intro declaration s active done _ _ _ text h
    cases h
  | succ fuel ih =>
    intro declaration s active done h hwithin hvisitable
    obtain ⟨directory, hmatches, hin, hactive⟩ := hvisitable
    refine (Quiet.told hmatches.1).bind fun directory' hdirectory => ?_
    obtain rfl := hmatches.1.unique (told_ok hdirectory)
    have hkey := T.canonical_key (canonical_of_canonicalDirectory hmatches.1)
    dsimp only
    rw [hkey]
    cases hnode : s.nodes.lookup directory with
    | some existing =>
      obtain ⟨-, document, hdocument, hname⟩ := hmatches
      have hnamed := ((h.nodes hnode).named hdocument).trans hname
      have hstate : existing.state ≠ .visiting := fun hvisiting =>
        hset.acyclic hin (hactive directory ((h.visiting directory).mpr ⟨existing, hnode, hvisiting⟩))
      have hrevisit : s.revisit declaration directory existing = .ok s := by
        rw [LocalResolver.revisit, if_neg (not_not.mpr hnamed), if_neg hstate]
      exact Quiet.told hrevisit
    | none =>
      obtain ⟨found, hfound⟩ := examine_succeeds hset h hwithin hmatches hin hnode
      refine (Quiet.told hfound).bind fun found' hfound' => ?_
      obtain rfl := Except.ok.inj (hfound.symm.trans (told_ok hfound'))
      obtain ⟨document, hexamined⟩ := examine_ok hfound
      have hentered := h.enter hkey hnode hexamined
      have hwithin' : Within inside (directory :: active) done := by
        rintro x (_ | ⟨_, hx⟩)
        · exact hin
        · exact hwithin x hx
      have hvisitables : ∀ d ∈ found.dependencies, Visitable T.toFileSystem inside (directory :: active) d := by
        intro d hd
        rw [hexamined.dependencies, mem_sortByName] at hd
        obtain ⟨document', -, -, -, hdocument', -, -, -, -, -, hdeclared⟩ := hset.loaded hin
        obtain rfl := hdocument'.unique hexamined.loaded
        obtain ⟨root, hroot, hinside⟩ := hdeclared d hd
        have hneeds : DependsOn T.toFileSystem directory root := ⟨document', hdocument', d, hd, hroot.1⟩
        refine ⟨root, hroot, hinside, ?_⟩
        rintro a (_ | ⟨_, ha⟩)
        · exact .single hneeds
        · exact (hactive a ha).tail hneeds
      refine (visitAll_quiet hset visit_visits ih hentered hwithin' hvisitables).bind fun s₁ hvisits => ?_
      obtain ⟨done₁, hvisited⟩ := visitAll visit_visits hentered hvisits
      obtain ⟨node, hlookup, -⟩ := (hvisited.invariant.visiting directory).mp List.mem_cons_self
      have hcomplete : ∃ s₂, s₁.complete directory = .ok s₂ := by
        rw [LocalResolver.complete, hlookup]
        exact ⟨_, rfl⟩
      obtain ⟨s₂, hcomplete⟩ := hcomplete
      exact Quiet.told hcomplete

/-- A project whose dependencies are in the set is visited to the end. -/
theorem visits_succeed (hset : Resolvable T.toFileSystem projectRoot projectName inside)
    {ds : List DependencyDeclaration} (hds : ∀ d ∈ ds, ∃ root, Matches T.toFileSystem d root ∧ inside root) {fuel : ℕ}
    (hfuel : T.directories.length < fuel) : ∃ s done,
      ds.foldlM (fun s d => visit T.toFileSystem projectRoot projectName fuel d s) {} = .ok s ∧
      Visited T.toFileSystem projectRoot projectName ds s [] [] done := by
  have hvisitables : ∀ d ∈ ds, Visitable T.toFileSystem inside [] d := fun d hd =>
    let ⟨root, hroot, hin⟩ := hds d hd
    ⟨root, hroot, hin, by simp⟩
  have hwithin : Within inside [] [] := by simp [Within]
  have hquiet : Quiet (ds.foldlM (fun s d => visit T.toFileSystem projectRoot projectName fuel d s) {}) :=
    visitAll_quiet hset visit_visits (visit_quiet hset) invariant_empty hwithin hvisitables
  have hfresh : (fresh T {}).length < fuel := lt_of_le_of_lt (List.length_filter_le ..) hfuel
  have hreturns : ds.foldlM (fun s d => visit T.toFileSystem projectRoot projectName fuel d s) {} ≠ .error .outOfFuel :=
    foldlM_returns visit_grows visit_returns hfresh
  cases hrun : ds.foldlM (fun s d => visit T.toFileSystem projectRoot projectName fuel d s) {} with
  | error failure =>
    cases failure with
    | outOfFuel => exact absurd hrun hreturns
    | message text => exact absurd hrun (hquiet text)
  | ok s =>
    obtain ⟨done, hvisited⟩ := visitAll visit_visits invariant_empty hrun
    exact ⟨s, done, rfl, hvisited⟩

end

end Zith.Packages
