import Mathlib.Data.List.Sort
import Zith.Packages.Manifest

/-! `packages/lockfile.cpp`. The cycle check takes packages out of the graph that wait for none, as long as there
    are any; it has seen them all when none waits for itself. -/

namespace Zith.Packages

structure LockedPackage where
  name : String
  version : String
  path : Path
  moduleRoot : Path
  manifestSha256 : String
  dependencies : List String
  deriving DecidableEq

structure Lockfile where
  projectName : String
  projectVersion : String
  projectManifestSha256 : String
  dependencies : List String
  packages : List LockedPackage
  deriving DecidableEq

def isHexDigit (c : Char) : Bool := ('0' ≤ c ∧ c ≤ '9') ∨ ('a' ≤ c ∧ c ≤ 'f')

def isSha256 (value : String) : Bool := value.toList.length = 64 ∧ value.toList.all isHexDigit

/-- The packages by name, as `std::sort` leaves them when no two have one name. -/
def sortByName {α : Type} (name : α → String) (l : List α) : List α := l.insertionSort fun a b => name a ≤ name b

/-! ### The cycle check -/

/-- `remainingDependencies`, with the packages that wait for nothing more. -/
abbrev Remaining := List (String × ℕ)

/-- One dependency of `dependent` is done. No count goes below zero: each edge is taken once. -/
def release (remaining : Remaining) (dependent : String) : Remaining × List String :=
  (remaining.map fun entry => if entry.1 = dependent then (entry.1, entry.2 - 1) else entry,
    if remaining.lookup dependent = some 1 then [dependent] else [])

def releaseAll (remaining : Remaining) : List String → Remaining × List String
  | [] => (remaining, [])
  | dependent :: dependents =>
    let (remaining, freed) := release remaining dependent
    let (remaining, others) := releaseAll remaining dependents
    (remaining, freed ++ others)

/-- The packages that list `name`, once for each time. -/
def dependentsOf (packages : List LockedPackage) (name : String) : List String :=
  packages.flatMap fun package => (package.dependencies.filter (· = name)).map fun _ => package.name

/-- The names that leave the queue, in their order. -/
def drain (packages : List LockedPackage) : ℕ → List String → Remaining → List String
  | 0, _, _ => []
  | _ + 1, [], _ => []
  | fuel + 1, name :: ready, remaining =>
    let (remaining, freed) := releaseAll remaining (dependentsOf packages name)
    name :: drain packages fuel (ready ++ freed) remaining

def visited (packages : List LockedPackage) : List String :=
  drain packages packages.length ((packages.filter (·.dependencies.length = 0)).map (·.name))
    (packages.map fun package => (package.name, package.dependencies.length))

/-! ### Validation -/

/-- The sets of names and paths that were seen. -/
structure Seen where
  names : List String := []
  paths : List String := []
  modulePaths : List String := []

section
variable (F : FileSystem)

def isNormalizedRelativePath (value : Path) : Bool :=
  if value = "" ∨ '\\' ∈ value.toList ∨ ':' ∈ value.toList then false
  else !isRooted F value && value == pathKey F value

def validatePackage (projectName : String) (seen : Seen) (package : LockedPackage) : Except String Seen :=
  let modulePath := F.join package.path package.moduleRoot
  if package.name = "" ∨ package.version = "" then
    .error "locked package name and version must be non-empty"
  else if package.name = "std" then .error "std cannot be a locked package dependency"
  else if package.name = projectName then
    .error ("project package name conflicts with a locked dependency: " ++ package.name)
  else if !isSha256 package.manifestSha256 then
    .error "package manifest fingerprint must be a lowercase SHA-256 digest"
  else if !isNormalizedRelativePath F package.path then
    .error "locked package path must be normalized and project-relative"
  else if !isNormalizedRelativePath F package.moduleRoot then
    .error "locked module root must be normalized and package-relative"
  else if package.name ∈ seen.names then .error ("duplicate locked package name: " ++ package.name)
  else if pathKey F package.path ∈ seen.paths then .error ("duplicate locked package path: " ++ package.path)
  else if pathKey F modulePath ∈ seen.modulePaths then .error ("duplicate locked module root: " ++ modulePath)
  else .ok ⟨package.name :: seen.names, pathKey F package.path :: seen.paths,
    pathKey F modulePath :: seen.modulePaths⟩

def validateEdge (packageNames : List String) (owner : String) (uniqueEdges : List String) (dependency : String) :
    Except String (List String) :=
  if dependency = "" ∨ dependency ∈ uniqueEdges then
    .error (owner ++ " has an empty or duplicate dependency")
  else if dependency ∉ packageNames then
    .error (owner ++ " refers to an unlocked package: " ++ dependency)
  else .ok (dependency :: uniqueEdges)

def validateEdges (packageNames edges : List String) (owner : String) : Except String Unit :=
  (edges.foldlM (validateEdge packageNames owner) []).map fun _ => ()

def validateLockfile (lockfile : Lockfile) : Except String Unit := do
  if lockfile.projectName = "" ∨ lockfile.projectVersion = "" then
    throw "lockfile project name and version must be non-empty"
  if !isSha256 lockfile.projectManifestSha256 then
    throw "project manifest fingerprint must be a lowercase SHA-256 digest"
  let seen ← lockfile.packages.foldlM (validatePackage F lockfile.projectName) {}
  validateEdges seen.names lockfile.dependencies "project"
  lockfile.packages.forM fun package => validateEdges seen.names package.dependencies package.name
  if (visited lockfile.packages).length ≠ lockfile.packages.length then
    throw "locked package graph contains a dependency cycle"

/-! ### TOML -/

def requiredString (entries : List (String × Toml)) (key field : String) : Except String String :=
  match nonEmptyString entries key with
  | some value => .ok value
  | none => .error (field ++ " must be a non-empty string")

def readItem (field : String) (item : Toml) : Except String String :=
  match item.asString.filter (· ≠ "") with
  | some value => .ok value
  | none => .error (field ++ " entries must be non-empty strings")

def readStringArray (entries : List (String × Toml)) (key field : String) : Except String (List String) :=
  match Toml.get entries key with
  | none => .error (field ++ " is required")
  | some node =>
    match node.asArray with
    | none => .error (field ++ " must be an array of strings")
    | some items => items.mapM (readItem field)

def kLockfileFormatVersion : ℤ := 1

def parsePackage (node : Toml) : Except String LockedPackage := do
  let some package := node.asTable | .error "[[package]] entries must be tables"
  let name ← requiredString package "name" "[[package]].name"
  let version ← requiredString package "version" "[[package]].version"
  let path ← requiredString package "path" "[[package]].path"
  if !isNormalizedRelativePath F path then
    throw "[[package]].path must be normalized and project-relative"
  let moduleRoot ← requiredString package "module_root" "[[package]].module_root"
  if !isNormalizedRelativePath F moduleRoot then
    throw "[[package]].module_root must be normalized and package-relative"
  let manifestSha256 ← requiredString package "manifest_sha256" "[[package]].manifest_sha256"
  let dependencies ← readStringArray package "dependencies" "[[package]].dependencies"
  return { name, version, path, moduleRoot, manifestSha256, dependencies }

def parseLockfile (entries : List (String × Toml)) : Except String Lockfile := do
  let some lockTable := (Toml.get entries "lock").bind Toml.asTable | .error "missing [lock] table"
  match Toml.get lockTable "version" with
  | some (.integer version) =>
    if version ≠ kLockfileFormatVersion then throw "unsupported or missing lockfile format version"
  | _ => throw "unsupported or missing lockfile format version"
  let some projectTable := (Toml.get entries "project").bind Toml.asTable
    | .error "missing [project] lockfile table"
  let projectName ← requiredString projectTable "name" "[project].name"
  let projectVersion ← requiredString projectTable "version" "[project].version"
  let projectManifestSha256 ← requiredString projectTable "manifest_sha256" "[project].manifest_sha256"
  let dependencies ← readStringArray projectTable "dependencies" "[project].dependencies"
  let some nodes := (Toml.get entries "package").bind Toml.asArray | .error "package records must be an array"
  let packages ← nodes.mapM (parsePackage F)
  let result : Lockfile := { projectName, projectVersion, projectManifestSha256, dependencies, packages }
  validateLockfile F result
  return result

def makeDependencies (values : List String) : Toml := .array ((sortByName id values).map Toml.string)

def packageTable (package : LockedPackage) : Toml :=
  .table [("name", .string package.name), ("version", .string package.version), ("path", .string package.path),
    ("module_root", .string package.moduleRoot), ("manifest_sha256", .string package.manifestSha256),
    ("dependencies", makeDependencies package.dependencies)]

/-- `serializeLockfile`, up to the text of the table. -/
def serializeLockfile (lockfile : Lockfile) : Except String (List (String × Toml)) := do
  validateLockfile F lockfile
  return [("lock", .table [("version", .integer kLockfileFormatVersion)]),
    ("project", .table [("name", .string lockfile.projectName), ("version", .string lockfile.projectVersion),
      ("manifest_sha256", .string lockfile.projectManifestSha256),
      ("dependencies", makeDependencies lockfile.dependencies)]),
    ("package", .array ((sortByName (·.name) lockfile.packages).map packageTable))]

end

end Zith.Packages
