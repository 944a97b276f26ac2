import Zith.Packages.CycleCheck
import Zith.Packages.Reordering

/-! What a valid lockfile is, and that one is read back as it was written, in the order of its names. -/

namespace Zith.Packages
open Zith.Lib

section
variable (F : FileSystem)

structure ValidPackage (projectName : String) (p : LockedPackage) : Prop where
  name : p.name ≠ ""
  version : p.version ≠ ""
  notStd : p.name ≠ "std"
  notProject : p.name ≠ projectName
  digest : isSha256 p.manifestSha256 = true
  path : isNormalizedRelativePath F p.path = true
  moduleRoot : isNormalizedRelativePath F p.moduleRoot = true

def modulePathKey (p : LockedPackage) : String := pathKey F (F.join p.path p.moduleRoot)

structure ValidEdges (packageNames edges : List String) : Prop where
  nodup : edges.Nodup
  nonempty : "" ∉ edges
  locked : edges ⊆ packageNames

/-- What `validateLockfile` checks. -/
structure Valid (lockfile : Lockfile) : Prop where
  projectName : lockfile.projectName ≠ ""
  projectVersion : lockfile.projectVersion ≠ ""
  digest : isSha256 lockfile.projectManifestSha256 = true
  packages : ∀ p ∈ lockfile.packages, ValidPackage F lockfile.projectName p
  names : (lockfile.packages.map (·.name)).Nodup
  paths : (lockfile.packages.map fun p => pathKey F p.path).Nodup
  modulePaths : (lockfile.packages.map (modulePathKey F)).Nodup
  dependencies : ValidEdges (lockfile.packages.map (·.name)) lockfile.dependencies
  edges : ∀ p ∈ lockfile.packages, ValidEdges (lockfile.packages.map (·.name)) p.dependencies
  acyclic : (visited lockfile.packages).length = lockfile.packages.length

end

/-! ### Checks -/

section
variable {ε α β : Type}

theorem ite_error_ok {c : Prop} [Decidable c] {e : ε} {x : Except ε α} {a : α} :
    (if c then .error e else x) = .ok a ↔ ¬c ∧ x = .ok a := by
  by_cases h : c <;> simp [h]

theorem bind_eq_ok_iff {x : Except ε α} {f : α → Except ε β} {b : β} :
    x >>= f = .ok b ↔ ∃ a, x = .ok a ∧ f a = .ok b := by
  constructor
  · exact bind_ok
  · rintro ⟨a, rfl, h⟩
    exact h

theorem forM_ok_iff {f : α → Except ε Unit} : ∀ {l : List α}, l.forM f = .ok () ↔ ∀ a ∈ l, f a = .ok () := by
  intro l
  induction l with
  | nil => simp [List.forM, pure, Except.pure]
  | cons a l ih =>
    change (f a >>= fun _ => l.forM f) = _ ↔ _
    rw [bind_eq_ok_iff, List.forall_mem_cons, ← ih]
    exact ⟨fun ⟨⟨⟩, hone, hrest⟩ => ⟨hone, hrest⟩, fun ⟨hone, hrest⟩ => ⟨(), hone, hrest⟩⟩

end

section
variable {F : FileSystem} {projectName : String}

/-- New elements, none of them twice. -/
def New (seen l : List String) : Prop := l.Nodup ∧ ∀ x ∈ l, x ∉ seen

theorem new_nil (seen : List String) : New seen [] := ⟨List.nodup_nil, by simp⟩

theorem new_cons {seen l : List String} {x : String} : New seen (x :: l) ↔ x ∉ seen ∧ New (x :: seen) l := by
  simp only [New, List.nodup_cons, List.forall_mem_cons]
  simp only [List.mem_cons, not_or]
  constructor
  · rintro ⟨⟨hx, hl⟩, hseen, hrest⟩
    exact ⟨hseen, hl, fun y hy => ⟨fun heq => hx (heq ▸ hy), hrest y hy⟩⟩
  · rintro ⟨hseen, hl, hrest⟩
    exact ⟨⟨fun hx => (hrest x hx).1 rfl, hl⟩, hseen, fun y hy => (hrest y hy).2⟩

theorem new_empty {l : List String} : New [] l ↔ l.Nodup := by simp [New]

theorem validatePackage_iff {seen seen' : Seen} {p : LockedPackage} :
    validatePackage F projectName seen p = .ok seen' ↔ ValidPackage F projectName p ∧
      (p.name ∉ seen.names ∧ pathKey F p.path ∉ seen.paths ∧ modulePathKey F p ∉ seen.modulePaths) ∧
      seen' = ⟨p.name :: seen.names, pathKey F p.path :: seen.paths, modulePathKey F p :: seen.modulePaths⟩ := by
  simp only [validatePackage, ite_error_ok, not_or, Bool.not_eq_true', Bool.not_eq_false, Except.ok.injEq]
  constructor
  · rintro ⟨⟨hname, hversion⟩, hstd, hproject, hdigest, hpath, hmodule, h₁, h₂, h₃, rfl⟩
    exact ⟨⟨hname, hversion, hstd, hproject, hdigest, hpath, hmodule⟩, ⟨h₁, h₂, h₃⟩, rfl⟩
  · rintro ⟨h, ⟨h₁, h₂, h₃⟩, rfl⟩
    exact ⟨⟨h.name, h.version⟩, h.notStd, h.notProject, h.digest, h.path, h.moduleRoot, h₁, h₂, h₃, rfl⟩

theorem validatePackages_iff : ∀ {packages : List LockedPackage} {seen seen' : Seen},
    packages.foldlM (validatePackage F projectName) seen = .ok seen' ↔
      (∀ p ∈ packages, ValidPackage F projectName p) ∧ New seen.names (packages.map (·.name)) ∧
      New seen.paths (packages.map fun p => pathKey F p.path) ∧ New seen.modulePaths (packages.map (modulePathKey F)) ∧
      seen' = ⟨(packages.map (·.name)).reverse ++ seen.names, (packages.map fun p => pathKey F p.path).reverse ++ seen.paths,
        (packages.map (modulePathKey F)).reverse ++ seen.modulePaths⟩ := by
  intro packages
  induction packages with
  | nil =>
    intro seen seen'
    simp only [List.foldlM_nil, List.map_nil, List.reverse_nil, List.nil_append, new_nil, true_and, List.not_mem_nil,
      false_implies, implies_true]
    exact ⟨fun h => (Except.ok.inj h).symm, fun h => h ▸ rfl⟩
  | cons p packages ih =>
    intro seen seen'
    rw [List.foldlM_cons, bind_eq_ok_iff]
    simp only [validatePackage_iff, ih, List.map_cons, List.reverse_cons, List.append_assoc, List.singleton_append,
      new_cons, List.forall_mem_cons]
    constructor
    · rintro ⟨_, ⟨hp, ⟨h₁, h₂, h₃⟩, rfl⟩, hall, hn₁, hn₂, hn₃, rfl⟩
      exact ⟨⟨hp, hall⟩, ⟨h₁, hn₁⟩, ⟨h₂, hn₂⟩, ⟨h₃, hn₃⟩, rfl⟩
    · rintro ⟨⟨hp, hall⟩, ⟨h₁, hn₁⟩, ⟨h₂, hn₂⟩, ⟨h₃, hn₃⟩, rfl⟩
      exact ⟨_, ⟨hp, ⟨h₁, h₂, h₃⟩, rfl⟩, hall, hn₁, hn₂, hn₃, rfl⟩

theorem validateEdge_iff {packageNames : List String} {owner edge : String} {unique unique' : List String} :
    validateEdge packageNames owner unique edge = .ok unique' ↔
      edge ≠ "" ∧ edge ∉ unique ∧ edge ∈ packageNames ∧ unique' = edge :: unique := by
  simp only [validateEdge, ite_error_ok, not_or, not_not, Except.ok.injEq, and_assoc]
  constructor
  · rintro ⟨h₁, h₂, h₃, h₄⟩
    exact ⟨h₁, h₂, h₃, h₄.symm⟩
  · rintro ⟨h₁, h₂, h₃, h₄⟩
    exact ⟨h₁, h₂, h₃, h₄.symm⟩

theorem validateEdgeList_iff {packageNames : List String} {owner : String} : ∀ {edges unique unique' : List String},
    edges.foldlM (validateEdge packageNames owner) unique = .ok unique' ↔
      New unique edges ∧ "" ∉ edges ∧ edges ⊆ packageNames ∧ unique' = edges.reverse ++ unique := by
  intro edges
  induction edges with
  | nil =>
    intro unique unique'
    simp only [List.foldlM_nil, new_nil, List.not_mem_nil, not_false_eq_true, List.nil_subset, List.reverse_nil,
      List.nil_append, true_and]
    exact ⟨fun h => (Except.ok.inj h).symm, fun h => h ▸ rfl⟩
  | cons edge edges ih =>
    intro unique unique'
    rw [List.foldlM_cons, bind_eq_ok_iff]
    simp only [validateEdge_iff, ih, new_cons, List.mem_cons, not_or, List.cons_subset, List.reverse_cons,
      List.append_assoc, List.singleton_append]
    constructor
    · rintro ⟨_, ⟨hempty, hnew, hlocked, rfl⟩, hrest, hempties, hsub, rfl⟩
      exact ⟨⟨hnew, hrest⟩, ⟨Ne.symm hempty, hempties⟩, ⟨hlocked, hsub⟩, rfl⟩
    · rintro ⟨⟨hnew, hrest⟩, ⟨hempty, hempties⟩, ⟨hlocked, hsub⟩, rfl⟩
      exact ⟨_, ⟨Ne.symm hempty, hnew, hlocked, rfl⟩, hrest, hempties, hsub, rfl⟩

theorem validateEdges_iff {packageNames edges : List String} {owner : String} :
    validateEdges packageNames edges owner = .ok () ↔ ValidEdges packageNames edges := by
  rw [validateEdges]
  have hok : (edges.foldlM (validateEdge packageNames owner) []).map (fun _ => ()) = .ok () ↔
      ∃ unique', edges.foldlM (validateEdge packageNames owner) [] = .ok unique' := by
    cases edges.foldlM (validateEdge packageNames owner) [] <;> simp [Except.map]
  rw [hok]
  simp only [validateEdgeList_iff, new_empty]
  constructor
  · rintro ⟨_, hnodup, hempty, hsub, -⟩
    exact ⟨hnodup, hempty, hsub⟩
  · rintro ⟨hnodup, hempty, hsub⟩
    exact ⟨_, hnodup, hempty, hsub, rfl⟩

theorem validEdges_congr {names names' edges : List String} (h : ∀ x, x ∈ names ↔ x ∈ names') :
    ValidEdges names edges ↔ ValidEdges names' edges := by
  constructor
  · rintro ⟨h₁, h₂, h₃⟩
    exact ⟨h₁, h₂, fun x hx => (h x).mp (h₃ hx)⟩
  · rintro ⟨h₁, h₂, h₃⟩
    exact ⟨h₁, h₂, fun x hx => (h x).mpr (h₃ hx)⟩

theorem validateLockfile_iff {lockfile : Lockfile} : validateLockfile F lockfile = .ok () ↔ Valid F lockfile := by
  have hnames : ∀ edges, ValidEdges ((lockfile.packages.map (·.name)).reverse ++ []) edges ↔
      ValidEdges (lockfile.packages.map (·.name)) edges := fun edges => validEdges_congr fun x => by simp
  have hrest : (do
      let seen ← lockfile.packages.foldlM (validatePackage F lockfile.projectName) {}
      validateEdges seen.names lockfile.dependencies "project"
      lockfile.packages.forM fun package => validateEdges seen.names package.dependencies package.name
      if (visited lockfile.packages).length ≠ lockfile.packages.length then
        throw "locked package graph contains a dependency cycle") = .ok () ↔
      ((∀ p ∈ lockfile.packages, ValidPackage F lockfile.projectName p) ∧ (lockfile.packages.map (·.name)).Nodup ∧
        (lockfile.packages.map fun p => pathKey F p.path).Nodup ∧ (lockfile.packages.map (modulePathKey F)).Nodup) ∧
      ValidEdges (lockfile.packages.map (·.name)) lockfile.dependencies ∧
      (∀ p ∈ lockfile.packages, ValidEdges (lockfile.packages.map (·.name)) p.dependencies) ∧
      (visited lockfile.packages).length = lockfile.packages.length := by
    simp only [bind_eq_ok_iff, validatePackages_iff, new_empty]
    constructor
    · rintro ⟨_, ⟨hall, h₁, h₂, h₃, rfl⟩, ⟨⟩, hdependencies, ⟨⟩, hedges, hvisited⟩
      refine ⟨⟨hall, h₁, h₂, h₃⟩, (hnames _).mp (validateEdges_iff.mp hdependencies),
        fun p hp => (hnames _).mp (validateEdges_iff.mp (forM_ok_iff.mp hedges p hp)), ?_⟩
      by_contra hne
      rw [if_pos hne] at hvisited
      cases hvisited
    · rintro ⟨⟨hall, h₁, h₂, h₃⟩, hdependencies, hedges, hvisited⟩
      refine ⟨_, ⟨hall, h₁, h₂, h₃, rfl⟩, (), validateEdges_iff.mpr ((hnames _).mpr hdependencies), (),
        forM_ok_iff.mpr fun p hp => validateEdges_iff.mpr ((hnames _).mpr (hedges p hp)), ?_⟩
      rw [if_neg (not_not.mpr hvisited)]
      rfl
  rw [validateLockfile]
  by_cases hproject : lockfile.projectName = "" ∨ lockfile.projectVersion = ""
  · rw [if_pos hproject]
    refine ⟨fun h => (by cases h), fun h => ?_⟩
    rcases hproject with hname | hversion
    · exact absurd hname h.projectName
    · exact absurd hversion h.projectVersion
  · obtain ⟨hname, hversion⟩ := not_or.mp hproject
    rw [if_neg hproject]
    cases hdigest : isSha256 lockfile.projectManifestSha256 with
    | false =>
      refine ⟨fun h => (by cases h), fun h => ?_⟩
      have := h.digest
      rw [hdigest] at this
      cases this
    | true =>
      refine hrest.trans ⟨?_, ?_⟩
      · rintro ⟨⟨hall, h₁, h₂, h₃⟩, hdependencies, hedges, hvisited⟩
        exact ⟨hname, hversion, hdigest, hall, h₁, h₂, h₃, hdependencies, hedges, hvisited⟩
      · exact fun h => ⟨⟨h.packages, h.names, h.paths, h.modulePaths⟩, h.dependencies, h.edges, h.acyclic⟩

/-! ### Sorted lockfiles -/

end

def LockedPackage.sorted (p : LockedPackage) : LockedPackage := { p with dependencies := sortByName id p.dependencies }

/-- The lockfile in the order of its names. -/
def Lockfile.sorted (lockfile : Lockfile) : Lockfile :=
  { lockfile with
    dependencies := sortByName id lockfile.dependencies
    packages := (sortByName (·.name) lockfile.packages).map LockedPackage.sorted }

theorem perm_sortByName {α : Type} (name : α → String) (l : List α) : (sortByName name l).Perm l :=
  List.perm_insertionSort _ l

section
variable {F : FileSystem} {lockfile : Lockfile}

theorem mem_sorted {p : LockedPackage} : p ∈ lockfile.sorted.packages ↔ ∃ q ∈ lockfile.packages, q.sorted = p := by
  simp only [Lockfile.sorted, List.mem_map, mem_sortByName]

theorem map_sorted_perm {β : Type} {f : LockedPackage → β} (hf : ∀ p, f p.sorted = f p) :
    (lockfile.sorted.packages.map f).Perm (lockfile.packages.map f) := by
  rw [Lockfile.sorted, List.map_map]
  have hsame : f ∘ LockedPackage.sorted = f := funext hf
  rw [hsame]
  exact (perm_sortByName _ _).map f

theorem lists_sorted {a b : String} : Lists lockfile.sorted.packages a b ↔ Lists lockfile.packages a b := by
  constructor
  · rintro ⟨p, hp, rfl, hb⟩
    obtain ⟨q, hq, rfl⟩ := mem_sorted.mp hp
    exact ⟨q, hq, rfl, mem_sortByName.mp hb⟩
  · rintro ⟨q, hq, rfl, hb⟩
    exact ⟨q.sorted, mem_sorted.mpr ⟨q, hq, rfl⟩, rfl, mem_sortByName.mpr hb⟩

theorem ValidEdges.sorted {names edges : List String} (h : ValidEdges names edges) :
    ValidEdges names (sortByName id edges) :=
  ⟨(perm_sortByName id edges).nodup_iff.mpr h.nodup, fun hempty => h.nonempty (mem_sortByName.mp hempty),
    fun _ hx => h.locked (mem_sortByName.mp hx)⟩

theorem Valid.wired (h : Valid F lockfile) : Wired lockfile.packages :=
  ⟨h.names, fun p hp => (h.edges p hp).nodup, fun p hp _ hd => (h.edges p hp).locked hd⟩

/-- Sorting a lockfile keeps it valid. -/
theorem Valid.sorted (h : Valid F lockfile) : Valid F lockfile.sorted := by
  have hnames : (lockfile.sorted.packages.map (·.name)).Perm (lockfile.packages.map (·.name)) :=
    map_sorted_perm fun _ => rfl
  have hmem : ∀ x, x ∈ lockfile.packages.map (·.name) ↔ x ∈ lockfile.sorted.packages.map (·.name) := fun x =>
    hnames.mem_iff.symm
  have hedges : ∀ p ∈ lockfile.sorted.packages, ValidEdges (lockfile.sorted.packages.map (·.name)) p.dependencies := by
    intro p hp
    obtain ⟨q, hq, rfl⟩ := mem_sorted.mp hp
    exact (validEdges_congr hmem).mp (h.edges q hq).sorted
  have hnodup : (lockfile.sorted.packages.map (·.name)).Nodup := hnames.nodup_iff.mpr h.names
  refine ⟨h.projectName, h.projectVersion, h.digest, fun p hp => ?_, hnodup, ?_, ?_, ?_, hedges, ?_⟩
  · obtain ⟨q, hq, rfl⟩ := mem_sorted.mp hp
    obtain ⟨h₁, h₂, h₃, h₄, h₅, h₆, h₇⟩ := h.packages q hq
    exact ⟨h₁, h₂, h₃, h₄, h₅, h₆, h₇⟩
  · exact (map_sorted_perm fun _ => rfl).nodup_iff.mpr h.paths
  · exact (map_sorted_perm fun _ => rfl).nodup_iff.mpr h.modulePaths
  · exact (validEdges_congr hmem).mp h.dependencies.sorted
  · have hwired : Wired lockfile.sorted.packages :=
      ⟨hnodup, fun p hp => (hedges p hp).nodup, fun p hp _ hd => (hedges p hp).locked hd⟩
    obtain ⟨order, horder, hall⟩ := (visited_iff h.wired).mp h.acyclic
    refine (visited_iff hwired).mpr ⟨order, ?_, fun x hx => hall ((hmem x).mpr hx)⟩
    have hsame : Lists lockfile.sorted.packages = Lists lockfile.packages :=
      funext fun a => funext fun b => propext lists_sorted
    rwa [hsame]

/-! ### Reading back -/

variable {entries : List (String × Toml)}

theorem requiredString_ok {key field value : String} (hget : Toml.get entries key = some (.string value))
    (hne : value ≠ "") : requiredString entries key field = .ok value := by
  simp [requiredString, nonEmptyString, hget, Toml.asString, Option.filter, hne]

theorem readStringArray_ok {key field : String} {values : List String}
    (hget : Toml.get entries key = some (makeDependencies values)) (hempty : "" ∉ values) :
    readStringArray entries key field = .ok (sortByName id values) := by
  have hitems : ∀ {l : List String}, "" ∉ l → (l.map Toml.string).mapM (readItem field) = .ok l := by
    intro l
    induction l with
    | nil => exact fun _ => rfl
    | cons value l ih =>
      intro hl
      obtain ⟨hvalue, hrest⟩ := not_or.mp (mt List.mem_cons.mpr hl)
      have hitem : readItem field (.string value) = .ok value := by
        simp [readItem, Toml.asString, Option.filter, Ne.symm hvalue]
      rw [List.map_cons, List.mapM_cons, hitem, ok_bind, ih hrest]
      rfl
  rw [readStringArray, hget]
  exact hitems fun h => hempty (mem_sortByName.mp h)

theorem normalized_nonempty {path : Path} (h : isNormalizedRelativePath F path = true) : path ≠ "" := by
  rintro rfl
  simp [isNormalizedRelativePath] at h

theorem digest_nonempty {value : String} (h : isSha256 value = true) : value ≠ "" := by
  rintro rfl
  simp [isSha256] at h

theorem parsePackage_table {projectName : String} {names : List String} {p : LockedPackage}
    (h : ValidPackage F projectName p) (hedges : ValidEdges names p.dependencies) :
    parsePackage F (packageTable p) = .ok p.sorted := by
  simp only [parsePackage, packageTable, Toml.asTable]
  rw [requiredString_ok rfl h.name, ok_bind, requiredString_ok rfl h.version, ok_bind,
    requiredString_ok rfl (normalized_nonempty h.path), ok_bind, h.path,
    requiredString_ok rfl (normalized_nonempty h.moduleRoot), ok_bind, h.moduleRoot,
    requiredString_ok rfl (digest_nonempty h.digest), ok_bind, readStringArray_ok rfl hedges.nonempty]
  rfl

/-- What a valid lockfile is written as reads back as the sorted lockfile. -/
theorem parse_serialize (h : serializeLockfile F lockfile = .ok entries) :
    parseLockfile F entries = .ok lockfile.sorted := by
  obtain ⟨⟨⟩, hvalidate, h⟩ := bind_ok h
  obtain rfl := Except.ok.inj h
  have hvalid := validateLockfile_iff.mp hvalidate
  have hpackages : ((sortByName (·.name) lockfile.packages).map packageTable).mapM (parsePackage F) =
      .ok lockfile.sorted.packages := by
    have hall : ∀ p ∈ sortByName (·.name) lockfile.packages, parsePackage F (packageTable p) = .ok p.sorted :=
      fun p hp => parsePackage_table (hvalid.packages p (mem_sortByName.mp hp)) (hvalid.edges p (mem_sortByName.mp hp))
    rw [Lockfile.sorted]
    dsimp only
    generalize sortByName (·.name) lockfile.packages = packages at hall ⊢
    induction packages with
    | nil => rfl
    | cons p packages ih =>
      obtain ⟨hp, hrest⟩ := List.forall_mem_cons.mp hall
      rw [List.map_cons, List.mapM_cons, hp, ok_bind, ih hrest]
      rfl
  rw [parseLockfile]
  change (do
    let projectName ← requiredString _ "name" "[project].name"
    let projectVersion ← requiredString _ "version" "[project].version"
    let projectManifestSha256 ← requiredString _ "manifest_sha256" "[project].manifest_sha256"
    let dependencies ← readStringArray _ "dependencies" "[project].dependencies"
    let packages ← List.mapM (parsePackage F) _
    let result : Lockfile := { projectName, projectVersion, projectManifestSha256, dependencies, packages }
    validateLockfile F result
    return result) = _
  rw [requiredString_ok rfl hvalid.projectName, ok_bind, requiredString_ok rfl hvalid.projectVersion, ok_bind,
    requiredString_ok rfl (digest_nonempty hvalid.digest), ok_bind, readStringArray_ok rfl hvalid.dependencies.nonempty,
    ok_bind, hpackages, ok_bind]
  change (validateLockfile F lockfile.sorted >>= fun _ => _) = _
  rw [validateLockfile_iff.mpr hvalid.sorted]
  rfl

end

end Zith.Packages
