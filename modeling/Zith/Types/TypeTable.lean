import Zith.Lib.Alike

/-! The type table of sema, which all modules of a compilation share, and the comparison of two of its types.
    Interning an entry always makes a new id; only names go through the registry, where the last
    registration counts.

        a, b ──▶ resolve (names, aliases, qualifiers) ──▶ same id?    ──yes──▶ same
                                                            │ no
                                                            ▼
                             null and an optional, or an error type?  ──yes──▶ same
                                                            │ no
                                                            ▼
                              one kind ──▶ numbers or names equal ──▶ parts, one by one -/

namespace Zith.Types

/-- `TypeId`: 0 is no type, entry `i` has the id `i + 1`. -/
abbrev TypeId := Nat

inductive TypeKind
  | error
  | invalid
  | void
  | never
  | bool
  | char
  | integer
  | float
  | string
  | pointer
  | optional
  | array
  | function
  | struct
  | enum
  | union
  | trait
  | typeVar
  | unknown
  | incomplete
  | sum
  | slice
  | failable
  | pack
  | dyn
  | state
  | alias
  | nominal
  | genericParam
  | opaqueTagged
  | qualified
deriving DecidableEq, Repr

/-- The declaration that an entry was interned for. The table itself does not keep it. -/
structure Origin where
  module : String
  declaration : Nat
deriving DecidableEq, Repr

/-- Of the entries of a generic enum, union or nominal type the table keeps the name alone; the arguments
    stand here with the origin. -/
inductive Entry
  | name (name : String) (kind : TypeKind)
  | invalid
  | integer (bits : Nat) (isSigned : Bool)
  | float (bits : Nat)
  | pointer (pointee : TypeId)
  | optional (inner : TypeId)
  | array (element : TypeId) (size : Nat)
  | function (params : List TypeId) (result : TypeId)
  | stateFunction (params : List TypeId) (result : TypeId)
  | struct (name : String) (fields args : List TypeId) (origin : Origin)
  | enum (name : String) (origin : Origin) (args : List TypeId)
  | union (name : String) (origin : Origin) (args : List TypeId)
  | trait (name : String)
  | typeVar (id : Nat)
  | unknown
  | incomplete
  | sum (members : List TypeId)
  | slice (element : TypeId)
  | failable (inner : TypeId)
  | pack (members : List TypeId)
  | dyn (target : TypeId) (methodCount : Nat)
  | opaqueTagged
  | alias (target : TypeId)
  | nominal (name : String) (origin : Origin) (args : List TypeId)
  | genericParam (origin : Origin) (index : Nat)
  | qualified (inner : TypeId)
deriving DecidableEq, Repr

/-- `reported_kind`. -/
def Entry.kind : Entry → TypeKind
  | .name _ kind => kind
  | .invalid => .invalid
  | .integer _ _ => .integer
  | .float _ => .float
  | .pointer _ => .pointer
  | .optional _ => .optional
  | .array _ _ => .array
  | .function _ _ => .function
  | .stateFunction _ _ => .state
  | .struct _ _ _ _ => .struct
  | .enum _ _ _ => .enum
  | .union _ _ _ => .union
  | .trait _ => .trait
  | .typeVar _ => .typeVar
  | .unknown => .unknown
  | .incomplete => .incomplete
  | .sum _ => .sum
  | .slice _ => .slice
  | .failable _ => .failable
  | .pack _ => .pack
  | .dyn _ _ => .dyn
  | .opaqueTagged => .opaqueTagged
  | .alias _ => .alias
  | .nominal _ _ _ => .nominal
  | .genericParam _ _ => .genericParam
  | .qualified _ => .qualified

structure TypeTable where
  entries : List Entry
  registry : List (String × TypeId)

namespace TypeTable

def findEntry (T : TypeTable) : TypeId → Option Entry
  | 0 => none
  | id + 1 => T.entries[id]?

def lookupNamed (T : TypeTable) (name : String) : Option TypeId := T.registry.lookup name

/-- The loop of `canonical`: a placeholder stands for what is registered under its name. -/
def canonicalFrom (T : TypeTable) : Nat → TypeId → TypeId
  | 0, id => id
  | guard + 1, id =>
    match T.findEntry id with
    | some (.name name _) =>
      if name = "" then id else
        match T.lookupNamed name with
        | none => id
        | some registered => if registered = id then id else canonicalFrom T guard registered
    | _ => id

def canonical (T : TypeTable) (id : TypeId) : TypeId := T.canonicalFrom 8 id

def kindOf (T : TypeTable) (id : TypeId) : TypeKind :=
  match T.findEntry (T.canonical id) with
  | some entry => entry.kind
  | none => .error

/-! ### Interning -/

def intern (T : TypeTable) (entry : Entry) : TypeId × TypeTable :=
  (T.entries.length + 1, { T with entries := T.entries ++ [entry] })

def registerNamed (T : TypeTable) (name : String) (id : TypeId) : TypeTable :=
  { T with registry := (name, id) :: T.registry }

def findOrCreateNamed (T : TypeTable) (name : String) (kind : TypeKind) : TypeId × TypeTable :=
  match T.lookupNamed name with
  | some existing => (existing, T)
  | none =>
    let (id, T) := T.intern (.name name kind)
    (id, T.registerNamed name id)

/-! ### The types of a module -/

def registerPrimitive (T : TypeTable) (name : String) (entry : Entry) : TypeTable :=
  match T.lookupNamed name with
  | some _ => T
  | none =>
    let (id, T) := T.intern entry
    T.registerNamed name id

def primitives : List (String × Entry) :=
  [("void", .name "void" .void), ("bool", .name "bool" .bool), ("char", .name "char" .char),
    ("i8", .integer 8 true), ("i16", .integer 16 true), ("i32", .integer 32 true),
    ("i64", .integer 64 true), ("i128", .integer 128 true), ("isize", .integer 64 true),
    ("u8", .integer 8 false), ("u16", .integer 16 false), ("u32", .integer 32 false),
    ("u64", .integer 64 false), ("u128", .integer 128 false), ("usize", .integer 64 false),
    ("f32", .float 32), ("f64", .float 64)]

/-- Each module has an error and a null type of its own. -/
def registerPrimitiveTypes (T : TypeTable) : (TypeId × TypeId) × TypeTable :=
  let (errorType, T) := T.intern (.name "error" .error)
  let (_, T) := T.intern .invalid
  let (nullType, T) := T.intern (.name "null" .never)
  let (endType, T) := T.findOrCreateNamed "End" .struct
  let T := match T.findEntry endType with
    | some (.struct _ _ _ _) => T
    | _ =>
      let (endType, T) := T.intern (.struct "End" [] [] ⟨"", 0⟩)
      T.registerNamed "End" endType
  let T := primitives.foldl (fun T p => T.registerPrimitive p.1 p.2) T
  ((errorType, nullType), (T.intern .opaqueTagged).2)

/-- The declaration of a struct that is not generic, with the names of its field types. -/
structure StructDeclaration where
  name : String
  fields : List String

def registerNamedTypes (T : TypeTable) (decls : List StructDeclaration) : TypeTable :=
  decls.foldl (fun T decl => (T.findOrCreateNamed decl.name .struct).2) T

def lowerDeclarationTypes (T : TypeTable) (module : String) (errorType : TypeId) (decls : List StructDeclaration) :
    TypeTable :=
  decls.zipIdx.foldl (fun T (decl, index) =>
    let fields := decl.fields.map fun name => (T.lookupNamed name).getD errorType
    let (id, T) := T.intern (.struct decl.name fields [] ⟨module, index + 1⟩)
    T.registerNamed decl.name id) T

/-- `prepareTypes`, of structs. -/
def prepareTypes (T : TypeTable) (module : String) (decls : List StructDeclaration) :
    (TypeId × TypeId) × TypeTable :=
  let (types, T) := T.registerPrimitiveTypes
  (types, (T.registerNamedTypes decls).lowerDeclarationTypes module types.1 decls)

end TypeTable

/-- The part of a name in front of the first `<`. -/
def base (name : String) : List Char := name.toList.takeWhile (· ≠ '<')

/-- A placeholder that has been completed stands for a type that is registered for good: what is found under
    its name is not a placeholder for another one. -/
def Entry.settled (T : TypeTable) : Entry → Bool
  | .name n _ =>
    match T.lookupNamed n with
    | none => true
    | some registered =>
      match T.findEntry registered with
      | some (.name n' _) => T.lookupNamed n' = some registered
      | _ => true
  | _ => true

def Entry.isTemplate (n : String) : Entry → Bool
  | .struct n' _ args _ => base n' = base n && args.isEmpty
  | _ => false

/-- An instance of a struct stands beside the struct that is declared. -/
def Entry.declared (T : TypeTable) : Entry → Bool
  | .struct n _ (_ :: _) _ => T.entries.any (Entry.isTemplate n)
  | _ => true

/-- What the comparison reads of a module's sema. -/
structure PerModuleSema where
  table : TypeTable
  errorType : TypeId
  nullType : TypeId
  error_name : table.findEntry errorType = some (.name "error" .error)
  null_name : table.findEntry nullType = some (.name "null" .never)
  settled : ∀ entry ∈ table.entries, entry.settled table
  declared : ∀ entry ∈ table.entries, entry.declared table

namespace PerModuleSema

def resolveFrom (T : TypeTable) : Nat → TypeId → TypeId
  | 0, t => t
  | guard + 1, t =>
    match T.findEntry t with
    | some (.alias target) => resolveFrom T guard (T.canonical target)
    | some (.qualified inner) => resolveFrom T guard (T.canonical inner)
    | _ => t

def resolve (S : PerModuleSema) (t : TypeId) : TypeId := resolveFrom S.table 16 (S.table.canonical t)

/-- The types of two lists of one length, one by one, until two are not the same. -/
def allSame (same : TypeId → TypeId → Option Bool) : List TypeId → List TypeId → Option Bool
  | a :: as, b :: bs => (same a b).bind fun r => if r then allSame same as bs else some false
  | _, _ => some true

/-- What `sameType` does with two resolved types of one kind; `same` compares their parts. -/
def sameEntry (same : TypeId → TypeId → Option Bool) (a b : Option Entry) : TypeKind → Option Bool
  | .integer =>
    match a, b with
    | some (.integer bits isSigned), some (.integer bits' isSigned') =>
      some (bits = bits' && isSigned = isSigned')
    | _, _ => some false
  | .float =>
    match a, b with
    | some (.float bits), some (.float bits') => some (bits = bits')
    | _, _ => some false
  | .dyn =>
    match a, b with
    | some (.dyn target methodCount), some (.dyn target' methodCount') =>
      if methodCount = methodCount' then same target target' else some false
    | _, _ => some false
  | .void | .never | .bool | .char | .string => some true
  | .pointer =>
    match a, b with
    | some (.pointer pointee), some (.pointer pointee') => same pointee pointee'
    | _, _ => some false
  | .genericParam =>
    match a, b with
    | some (.genericParam origin index), some (.genericParam origin' index') =>
      some (origin.declaration = origin'.declaration && index = index')
    | _, _ => some false
  | .optional =>
    match a, b with
    | some (.optional inner), some (.optional inner') => same inner inner'
    | _, _ => some false
  | .slice =>
    match a, b with
    | some (.slice element), some (.slice element') => same element element'
    | _, _ => some false
  | .array =>
    match a, b with
    | some (.array element size), some (.array element' size') =>
      if size = size' then same element element' else some false
    | _, _ => some false
  | .pack =>
    match a, b with
    | some (.pack members), some (.pack members') =>
      if members.length = members'.length then allSame same members members' else some false
    | _, _ => some false
  | .function | .state =>
    match a, b with
    | some (.function params result), some (.function params' result')
    | some (.function params result), some (.stateFunction params' result')
    | some (.stateFunction params result), some (.function params' result')
    | some (.stateFunction params result), some (.stateFunction params' result') =>
      if params.length = params'.length then allSame same (result :: params) (result' :: params')
      else some false
    | _, _ => some false
  | .struct =>
    match a, b with
    | some (.struct name _ args _), some (.struct name' _ args' _) =>
      if base name = base name' then
        if args ≠ [] ∧ args.length = args'.length then allSame same args args' else some true
      else some false
    | _, _ => some false
  | .enum =>
    match a, b with
    | some (.enum name _ _), some (.enum name' _ _) => some (name = name')
    | _, _ => some false
  | .union =>
    match a, b with
    | some (.union name _ _), some (.union name' _ _) => some (name = name')
    | _, _ => some false
  | .alias =>
    match a, b with
    | some (.alias target), some (.alias target') => same target target'
    | _, _ => some false
  | .nominal =>
    match a, b with
    | some (.nominal name _ _), some (.nominal name' _ _) => some (name = name')
    | _, _ => some false
  | _ => some false

def stateOrFnShape (ka kb : TypeKind) : Bool := (ka = .state && kb = .function) || (ka = .function && kb = .state)

/-- `sameType` after `resolve`. -/
def sameResolved (S : PerModuleSema) (same : TypeId → TypeId → Option Bool) (a b : TypeId) : Option Bool :=
  let ka := S.table.kindOf a
  let kb := S.table.kindOf b
  if a = S.nullType ∨ b = S.nullType then some (ka = .optional || kb = .optional)
  else if a = S.errorType ∨ b = S.errorType then some true
  else if ka ≠ kb ∧ stateOrFnShape ka kb = false then some false
  else sameEntry same (S.table.findEntry a) (S.table.findEntry b) ka

/-- The source has no bound on the depth; on a type that is a part of itself it need not return. -/
def sameType (S : PerModuleSema) : Nat → TypeId → TypeId → Option Bool
  | 0, _, _ => none
  | depth + 1, a, b =>
    if a = b then some true
    else if S.resolve a = S.resolve b then some true
    else S.sameResolved (sameType S depth) (S.resolve a) (S.resolve b)

/-- The comparison returns true. -/
def SameType (S : PerModuleSema) (a b : TypeId) : Prop := ∃ depth, S.sameType depth a b = some true

end PerModuleSema

end Zith.Types
