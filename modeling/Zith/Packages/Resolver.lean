import Zith.Packages.Lockfile

/-! `packages/resolver.cpp`: the packages that a project depends on, depth first. A package is entered once; to come
    to it again while it is being visited is a cycle, and afterwards nothing is left to do.

        visit ──▶ revisit | examine ──▶ enter ──▶ visit each dependency, by name ──▶ complete

    `visit` takes the depth it may go to. A directory is entered once, so there is a depth that is enough. -/

namespace Zith.Packages

inductive Failure where
  | outOfFuel
  | message (text : String)
  deriving DecidableEq

def told {α : Type} (result : Except String α) : Except Failure α := result.mapError .message

inductive VisitState where
  | visiting
  | complete
  deriving DecidableEq

/-- A node by the name of its manifest; nothing asks for the rest of the manifest. -/
structure PackageNode where
  name : String
  locked : LockedPackage
  state : VisitState
  deriving DecidableEq

def PackageNode.completed (node : PackageNode) : PackageNode := { node with state := .complete }

/-- The maps of the resolver, and the packages of its lockfile. -/
structure LocalResolver where
  nodes : List (String × PackageNode) := []
  rootsByName : List (String × String) := []
  moduleOwners : List (String × String) := []
  stack : List String := []
  packages : List LockedPackage := []
  deriving DecidableEq

/-- `emplace` keeps what is there. -/
def emplace {α : Type} (entries : List (String × α)) (key : String) (value : α) : List (String × α) :=
  if (entries.lookup key).isSome then entries else (key, value) :: entries

/-- What is known of a package before its dependencies are visited. -/
structure Found where
  name : String
  moduleKey : String
  dependencies : List DependencyDeclaration
  locked : LockedPackage
  deriving DecidableEq

def cycleError (stack : List String) (name : String) : String :=
  "local package dependency cycle: " ++ String.intercalate " -> " (stack.dropWhile (· ≠ name) ++ [name])

/-- A name or a module root that belongs to something else already. -/
def checkOwner (owners : List (String × String)) (key owner : String) (message : String → String) :
    Except String Unit :=
  match owners.lookup key with
  | none => .ok ()
  | some existing => if existing ≠ owner then .error (message existing) else .ok ()

namespace LocalResolver
variable (s : LocalResolver)

def enter (rootKey : String) (found : Found) : LocalResolver :=
  { s with
    nodes := emplace s.nodes rootKey ⟨found.name, found.locked, .visiting⟩
    rootsByName := emplace s.rootsByName found.name rootKey
    moduleOwners := emplace s.moduleOwners found.moduleKey found.name
    stack := s.stack ++ [found.name] }

def complete (rootKey : String) : Except String LocalResolver :=
  match s.nodes.lookup rootKey with
  | none => .error ("package disappeared while resolving '" ++ rootKey ++ "'")
  | some node => .ok
      { s with
        nodes := s.nodes.map fun entry => if entry.1 = rootKey then (entry.1, entry.2.completed) else entry
        stack := s.stack.dropLast
        packages := s.packages ++ [node.locked] }

def revisit (declaration : DependencyDeclaration) (rootKey : String) (existing : PackageNode) :
    Except String LocalResolver :=
  if existing.name ≠ declaration.name then
    .error ("dependency '" ++ declaration.name ++ "' resolves to package '" ++ existing.name ++ "' at '" ++
      rootKey ++ "'")
  else if existing.state = .visiting then .error (cycleError s.stack declaration.name)
  else .ok s

end LocalResolver

section
variable (F : FileSystem)

def lockPackage (document : ManifestDocument) (projectRelativeRoot packageRelativeModuleRoot : Path) : LockedPackage :=
  { name := document.manifest.name
    version := document.manifest.version
    path := projectRelativeRoot
    moduleRoot := packageRelativeModuleRoot
    manifestSha256 := document.sha256
    dependencies := (sortByName (·.name) document.manifest.dependencies).map (·.name) }

/-- The name that a manifest must have. -/
def checkName (projectName : String) (declaration : DependencyDeclaration) (manifestPath : Path) (name : String) :
    Except String Unit :=
  if name ≠ declaration.name then
    .error ("dependency name '" ++ declaration.name ++ "' does not match package name '" ++ name ++ "' in '" ++
      manifestPath ++ "'")
  else if name = "std" then .error "std is bundled with the compiler and cannot be a package"
  else if name = projectName then
    .error ("dependency package name conflicts with the project: " ++ projectName)
  else .ok ()

/-- The part of `visit` between a new directory and its dependencies. -/
def examine (projectRoot : Path) (projectName : String) (s : LocalResolver) (declaration : DependencyDeclaration)
    (canonicalRoot : Path) : Except String Found := do
  let rootKey := pathKey F canonicalRoot
  let manifestPath := F.join canonicalRoot "ZithProject.toml"
  let document ← loadManifest F manifestPath
  let manifest := document.manifest
  checkName projectName declaration manifestPath manifest.name
  checkOwner s.rootsByName manifest.name rootKey fun existing =>
    "package '" ++ manifest.name ++ "' resolves to multiple paths: '" ++ existing ++ "' and '" ++ rootKey ++ "'"
  let canonicalModuleRoot ← canonicalDirectory F manifest.moduleRoot "package module root"
  let moduleKey := pathKey F canonicalModuleRoot
  checkOwner s.moduleOwners moduleKey manifest.name fun existing =>
    "packages '" ++ existing ++ "' and '" ++ manifest.name ++ "' resolve to the same module root: '" ++
      moduleKey ++ "'"
  let projectRelativeRoot ← relativePath F canonicalRoot projectRoot "package path"
  let packageRelativeModuleRoot ← relativePath F manifest.moduleRoot manifest.root "module root"
  return { name := manifest.name
           moduleKey
           dependencies := sortByName (·.name) manifest.dependencies
           locked := lockPackage document projectRelativeRoot packageRelativeModuleRoot }

/-- `LocalResolver::visit`. -/
def visit (projectRoot : Path) (projectName : String) :
    ℕ → DependencyDeclaration → LocalResolver → Except Failure LocalResolver
  | 0, _, _ => .error .outOfFuel
  | fuel + 1, declaration, s => do
    let canonicalRoot ← told (canonicalDirectory F declaration.path "dependency path")
    let rootKey := pathKey F canonicalRoot
    match s.nodes.lookup rootKey with
    | some existing => told (s.revisit declaration rootKey existing)
    | none =>
      let found ← told (examine F projectRoot projectName s declaration canonicalRoot)
      let s ← found.dependencies.foldlM (fun s dependency => visit projectRoot projectName fuel dependency s)
        (s.enter rootKey found)
      told (s.complete rootKey)

/-- The canonical path of the project's manifest, as both entry points find it. -/
def projectManifest (projectManifestPath : Path) : Except String Path :=
  match F.absolute projectManifestPath with
  | .error detail => .error ("cannot resolve project manifest path '" ++ projectManifestPath ++ "': " ++ detail)
  | .ok absoluteManifest =>
    match F.weaklyCanonical absoluteManifest with
    | .error detail => .error ("cannot resolve project manifest '" ++ absoluteManifest ++ "': " ++ detail)
    | .ok canonicalManifest =>
      match F.isRegularFile canonicalManifest with
      | .ok true => .ok canonicalManifest
      | _ => .error ("project manifest is not a regular file: '" ++ canonicalManifest ++ "'")

def lockProject (document : ManifestDocument) (packages : List LockedPackage) : Lockfile :=
  { projectName := document.manifest.name
    projectVersion := document.manifest.version
    projectManifestSha256 := document.sha256
    dependencies := (sortByName (·.name) document.manifest.dependencies).map (·.name)
    packages := sortByName (·.name) packages }

def resolveLocalPackages (fuel : ℕ) (projectManifestPath : Path) : Except Failure Lockfile := do
  let canonicalManifest ← told (projectManifest F projectManifestPath)
  let projectRoot := F.parentPath canonicalManifest
  let document ← told (loadManifest F canonicalManifest)
  let s ← (sortByName (·.name) document.manifest.dependencies).foldlM
    (fun s dependency => visit F projectRoot document.manifest.name fuel dependency s) {}
  let lockfile := lockProject document s.packages
  told ((serializeLockfile F lockfile).map fun _ => lockfile)

end

end Zith.Packages
