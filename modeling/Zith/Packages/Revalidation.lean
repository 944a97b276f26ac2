import Zith.Packages.LockedTree

/-! A fresh lockfile passes the check, and one that passes is what resolving gives when it is canonical. -/

namespace Zith.Packages
open Zith.Lib Relation

/-- Resolving gives the lockfile, up to the order of its entries. -/
def ResolvesTo (T : LocatedTree) (path : Path) (locked : Lockfile) : Prop :=
  ∃ lockfile, (∀ fuel, T.directories.length < fuel → resolveLocalPackages T.toFileSystem fuel path = .ok lockfile) ∧
    lockfile.sorted = locked.sorted

section
variable {T : LocatedTree} {path canonicalManifest : Path}

/-- A lockfile that resolving gives is canonical. -/
theorem canonical_of_resolved {document : ManifestDocument} {lockfile locked : Lockfile}
    (hcanonical : projectManifest T.toFileSystem path = .ok canonicalManifest)
    (hresolved : Resolved T.toFileSystem (T.parentPath canonicalManifest) document lockfile)
    (hsame : lockfile.sorted = locked.sorted) : Canonical T.toFileSystem (T.parentPath canonicalManifest) locked := by
  rw [hresolved.sorted] at hsame
  obtain ⟨directories, -, hmem, hlocks⟩ := hresolved.packages
  have hentry : ∀ p ∈ locked.packages, ∃ directory, Reachable T.toFileSystem document directory ∧
      Locks T.toFileSystem (T.parentPath canonicalManifest) directory p.sorted ∧
      LockedAt T.toFileSystem (T.parentPath canonicalManifest) p directory ∧
      relativePath T.toFileSystem directory (T.parentPath canonicalManifest) "package path" = .ok p.path := by
    intro p hp
    have hsorted : p.sorted ∈ lockfile.packages := by
      rw [hsame]
      exact mem_sorted.mpr ⟨p, hp, rfl⟩
    obtain ⟨directory, hdirectory, hlocked⟩ := exists_of_forall₂ hlocks _ hsorted
    have hreachable := (hmem directory).mp hdirectory
    obtain ⟨source, hsource⟩ := hreachable.located
    obtain ⟨document', -, -, hdocument', -⟩ := id hlocked
    have hpath := (hlocked.agrees hdocument').2.1
    exact ⟨directory, hreachable, hlocked, (T.back hcanonical hsource hpath).1, hpath⟩
  refine ⟨fun p hp => ?_, fun p hp q hq a b moduleKey ha hb hA hB => ?_⟩
  · obtain ⟨directory, hreachable, -, hat, hpath⟩ := hentry p hp
    obtain ⟨document', hdocument', -⟩ := hresolved.matched hreachable
    exact ⟨directory, hat, hpath, (hresolved.foreign hreachable hdocument').2.2⟩
  · obtain ⟨a', hreachA, hlocksA, hatA, -⟩ := hentry p hp
    obtain ⟨b', hreachB, hlocksB, hatB, -⟩ := hentry q hq
    obtain rfl := ha.unique hatA
    obtain rfl := hb.unique hatB
    obtain rfl := hresolved.moduleRoots hreachA hreachB hA hB
    have hsorted : p.sorted = q.sorted := hlocksA.unique hlocksB
    exact show p.sorted.name = q.sorted.name by rw [hsorted]

end

/-- The directories of a project in `/p` and of its package `a`, whose sources are there or not. -/
def localDirectories (sources : Bool) : List Path := ["/p/.", "/p", "/p/a"] ++ if sources then ["/p/a/src"] else []

def localLock : List (String × Toml) :=
  [("lock", .table [("version", .integer 1)]),
    ("project", .table [("name", .string "p"), ("version", .string "1"), ("manifest_sha256", .string blankDigest),
      ("dependencies", .array [.string "a"])]),
    ("package", .array [.table [("name", .string "a"), ("version", .string "1"), ("path", .string "a"),
      ("module_root", .string "src"), ("manifest_sha256", .string blankDigest), ("dependencies", .array [])]])]

/-- The project needs `a`, and its lockfile says so. -/
def localFiles (sources : Bool) : FileSystem where
  isDirectory path := .ok (path ∈ localDirectories sources)
  isRegularFile path := .ok (path = "/p/ZithProject.toml")
  absolute path := .ok path
  weaklyCanonical path :=
    if path = "/p/." then .ok "/p"
    else if path ∈ "/p/ZithProject.toml" :: localDirectories sources then .ok path
    else .error "no such file"
  lexicallyNormal path := if path = "/p/." then "/p" else path
  lexicallyRelative path base := String.ofList (path.toList.drop (base.length + 1))
  join a b := a ++ "/" ++ b
  parentPath path := String.ofList (path.toList.take (path.length - 17))
  hasRootName _ := false
  hasRootDirectory _ := false
  readFile path :=
    if path = "/p/Zith.lock" then .ok "Zith.lock"
    else if path = "/p/ZithProject.toml" ∨ path = "/p/./ZithProject.toml" then .ok "p"
    else if path = "/p/a/ZithProject.toml" then .ok "a"
    else .error .cannotOpen
  parseToml contents :=
    if contents = "Zith.lock" then .ok localLock
    else .ok
      [("project", .table [("name", .string contents), ("version", .string "1")]),
        ("dependencies", .table (if contents = "p" then [("a", .string "a")] else []))]
  sha256Hex _ := blankDigest

def localTree (sources : Bool) : LocatedTree where
  toFileSystem := localFiles sources
  canonical_key := by
    intro path canonical h
    simp only [localFiles] at h
    split at h
    · obtain rfl := Except.ok.inj h
      cases sources <;> decide +kernel
    · next hdot =>
      split at h
      · next hmem =>
        obtain rfl := Except.ok.inj h
        have hkeys : ∀ p ∈ "/p/ZithProject.toml" :: localDirectories sources, p ≠ "/p/." →
            pathKey (localFiles sources) p = p := by cases sources <;> decide +kernel
        exact hkeys path hmem hdot
      · cases h
  directories := "/p/ZithProject.toml" :: localDirectories sources
  mem_directories := by
    intro path canonical document h _
    simp only [localFiles] at h
    split at h
    · obtain rfl := Except.ok.inj h
      simp [localDirectories]
    · split at h
      · next hmem =>
        obtain rfl := Except.ok.inj h
        exact hmem
      · cases h
  distinct_keys := by
    intro contents entries dependencies h hdependencies
    simp only [localFiles] at h
    split at h
    · obtain rfl := Except.ok.inj h
      cases hdependencies
    · obtain rfl := Except.ok.inj h
      obtain rfl := Option.some.inj hdependencies
      split <;> decide
  digest _ := isSha256_blankDigest
  relocated := by
    intro path canonicalManifest source description directory relative hcanonical hdirectory hrelative
    have hsource : source ∈ localDirectories sources := by
      by_contra hout
      simp only [canonicalDirectory, localFiles, hout, decide_false] at hdirectory
      cases hdirectory
    have hmanifest : canonicalManifest = "/p/ZithProject.toml" := by
      rw [projectManifest] at hcanonical
      split at hcanonical
      · cases hcanonical
      · split at hcanonical
        · cases hcanonical
        · split at hcanonical
          · next hregular =>
            obtain rfl := Except.ok.inj hcanonical
            exact of_decide_eq_true (Except.ok.inj hregular)
          · cases hcanonical
    subst hmanifest
    have hall : ∀ source ∈ localDirectories sources, ∀ directory ∈ ((localFiles sources).weaklyCanonical source).toOption,
        ∀ relative ∈ (relativePath (localFiles sources) directory
          ((localFiles sources).parentPath "/p/ZithProject.toml") "package path").toOption,
        (localFiles sources).isDirectory ((localFiles sources).join "/p" relative) = .ok true ∧
        (localFiles sources).weaklyCanonical ((localFiles sources).join "/p" relative) = .ok directory ∧
        (localFiles sources).readFile ((localFiles sources).join ((localFiles sources).join "/p" relative) "ZithProject.toml") =
          (localFiles sources).readFile ((localFiles sources).join directory "ZithProject.toml") ∧
        (localFiles sources).lexicallyNormal ((localFiles sources).parentPath ((localFiles sources).join
          ((localFiles sources).join "/p" relative) "ZithProject.toml")) =
          (localFiles sources).lexicallyNormal ((localFiles sources).parentPath
            ((localFiles sources).join directory "ZithProject.toml")) := by
      cases sources <;> decide +kernel
    have hparent : (localFiles sources).parentPath "/p/ZithProject.toml" = "/p" := by cases sources <;> decide +kernel
    rw [hparent]
    refine hall source hsource directory ?_ relative ?_
    · rw [canonical_of_canonicalDirectory hdirectory]
      rfl
    · rw [hrelative]
      rfl

end Zith.Packages
