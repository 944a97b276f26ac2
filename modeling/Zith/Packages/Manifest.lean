import Mathlib.Data.String.Basic

/-! `packages/manifest.cpp`, and what the resolver asks of the file system. A path is its generic string; the
    operations on paths, reading a file, TOML and SHA-256 are given. -/

namespace Zith.Packages

abbrev Path := String

/-- A TOML value, as far as the packages read it. A table has its entries in the order of their keys. -/
inductive Toml where
  | string (value : String)
  | integer (value : ℤ)
  | array (items : List Toml)
  | table (entries : List (String × Toml))
  | other

namespace Toml

def get (entries : List (String × Toml)) (key : String) : Option Toml := entries.lookup key

def asString : Toml → Option String
  | .string value => some value
  | _ => none

def asTable : Toml → Option (List (String × Toml))
  | .table entries => some entries
  | _ => none

def asArray : Toml → Option (List Toml)
  | .array items => some items
  | _ => none

end Toml

inductive ReadError where
  | cannotOpen
  | bad
  deriving DecidableEq

structure FileSystem where
  isDirectory : Path → Except String Bool
  isRegularFile : Path → Except String Bool
  absolute : Path → Except String Path
  weaklyCanonical : Path → Except String Path
  lexicallyNormal : Path → Path
  lexicallyRelative : Path → Path → Path
  join : Path → Path → Path
  parentPath : Path → Path
  hasRootName : Path → Bool
  hasRootDirectory : Path → Bool
  readFile : Path → Except ReadError String
  parseToml : String → Except String (List (String × Toml))
  sha256Hex : String → String

structure DependencyDeclaration where
  name : String
  path : Path
  deriving DecidableEq

structure PackageManifest where
  name : String
  version : String
  root : Path
  moduleRoot : Path
  dependencies : List DependencyDeclaration
  deriving DecidableEq

/-- `require` of a non-empty string under a key. -/
def nonEmptyString (entries : List (String × Toml)) (key : String) : Option String :=
  ((Toml.get entries key).bind Toml.asString).filter (· ≠ "")

section
variable (F : FileSystem)

def isRooted (path : Path) : Bool := F.hasRootName path || F.hasRootDirectory path

/-- The `module_root` of the manifest's package table, `src` when there is none. -/
def moduleRootPath (entries : List (String × Toml)) : Except String Path :=
  match Toml.get entries "package" with
  | none => .ok "src"
  | some node =>
    match node.asTable with
    | none => .error "[package] must be a table"
    | some package =>
      match Toml.get package "module_root" with
      | none => .ok "src"
      | some value =>
        match value.asString.filter (· ≠ "") with
        | none => .error "[package].module_root must be a non-empty path string"
        | some path => .ok path

def parseDependency (packageRoot : Path) (entry : String × Toml) : Except String DependencyDeclaration :=
  if entry.1 = "" then .error "[dependencies] package names must not be empty"
  else if entry.1 = "std" then
    .error "std is bundled with the compiler and cannot be a package dependency"
  else
    match entry.2.asString.filter (· ≠ "") with
    | none => .error ("[dependencies]." ++ entry.1 ++ " must be a non-empty local path string")
    | some path =>
      if isRooted F path then .error ("[dependencies]." ++ entry.1 ++ " must be a relative local path")
      else .ok ⟨entry.1, F.lexicallyNormal (F.join packageRoot path)⟩

def parseDependencies (packageRoot : Path) (entries : List (String × Toml)) :
    Except String (List DependencyDeclaration) :=
  match Toml.get entries "dependencies" with
  | none => .ok []
  | some node =>
    match node.asTable with
    | none => .error "[dependencies] must be a table"
    | some dependencies => dependencies.mapM (parseDependency F packageRoot)

/-- `parseManifest`, of a manifest in the directory `packageRoot`. -/
def parseManifestIn (packageRoot : Path) (entries : List (String × Toml)) : Except String PackageManifest := do
  let some node := Toml.get entries "project" | .error "missing [project] table"
  let some project := node.asTable | .error "[project] must be a table"
  let some name := nonEmptyString project "name" | .error "[project].name must be a non-empty string"
  let some version := nonEmptyString project "version" | .error "[project].version must be a non-empty string"
  let moduleRootPath ← moduleRootPath entries
  if isRooted F moduleRootPath then
    throw "[package].module_root must be a relative path"
  let dependencies ← parseDependencies F packageRoot entries
  return { name
           version
           root := packageRoot
           moduleRoot := F.lexicallyNormal (F.join packageRoot moduleRootPath)
           dependencies }

def parseManifest (entries : List (String × Toml)) (manifestPath : Path) : Except String PackageManifest :=
  parseManifestIn F (F.lexicallyNormal (F.parentPath manifestPath)) entries

/-! ### Paths -/

/-- The loop that takes trailing slashes off. -/
def stripSlashes : List Char → List Char
  | '/' :: c :: rest => stripSlashes (c :: rest)
  | value => value

def pathKey (path : Path) : String := String.ofList (stripSlashes (F.lexicallyNormal path).toList.reverse).reverse

def canonicalDirectory (path : Path) (description : String) : Except String Path :=
  match F.isDirectory path with
  | .error detail => .error (description ++ " is not a directory: " ++ path ++ ": " ++ detail)
  | .ok false => .error (description ++ " is not a directory: " ++ path)
  | .ok true =>
    match F.weaklyCanonical path with
    | .error detail => .error ("cannot resolve " ++ description ++ " '" ++ path ++ "': " ++ detail)
    | .ok canonical => .ok canonical

def relativePath (path base : Path) (description : String) : Except String Path :=
  let relative := F.lexicallyRelative path base
  if relative = "" then
    if path = base then .ok "."
    else .error (description ++ " cannot be represented relative to the project")
  else .ok (F.lexicallyNormal relative)

/-! ### Reading -/

structure ManifestDocument where
  manifest : PackageManifest
  sha256 : String
  deriving DecidableEq

def loadManifest (path : Path) : Except String ManifestDocument :=
  match F.readFile path with
  | .error .cannotOpen => .error ("cannot read package manifest '" ++ path ++ "'")
  | .error .bad => .error ("failed while reading package manifest '" ++ path ++ "'")
  | .ok contents =>
    match F.parseToml contents with
    | .error detail => .error ("invalid TOML in package manifest '" ++ path ++ "': " ++ detail)
    | .ok entries => (parseManifest F entries path).map fun manifest => ⟨manifest, F.sha256Hex contents⟩

end

end Zith.Packages
