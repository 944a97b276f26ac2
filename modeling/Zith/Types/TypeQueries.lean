import Zith.Lib.Succeeds
import Zith.Types.Coercion

/-! `typeToString`, and `substituteType` of the pass that instantiates generic declarations. Neither has a bound
    on its depth, nor a list of the types it is in the middle of; `depth` stands for the stack here.

        alias, nominal, struct, enum, union ──▶ parts ──▶ its name and the arguments ──▶ registered? ──▶ that type
                                                                                        │ no
                                                                                        ▼
                                                                          a new type, registered under that name -/

namespace Zith.Types

open Lib (ofOption)

/-! ### Rendering -/

/-- What `typeToString` says of a kind whose data are missing. -/
def TypeKind.text : TypeKind → String
  | .invalid => "invalid"
  | .error => "error"
  | .void => "void"
  | .never => "never"
  | .bool => "bool"
  | .char => "char"
  | .string => "string"
  | .integer => "integer"
  | .float => "float"
  | .pointer => "pointer"
  | .optional => "optional"
  | .slice => "slice"
  | .array => "array"
  | .function => "fn"
  | .state => "state"
  | .struct => "struct"
  | .enum => "enum"
  | .union => "union"
  | .trait => "trait"
  | .typeVar => "typevar"
  | .unknown => "unknown"
  | .genericParam => "T"
  | .sum => "sum"
  | .failable => "failable"
  | .pack => "pack"
  | .dyn => "dyn"
  | .opaqueTagged => "opaque"
  | .alias => "alias"
  | .nominal => "nominal"
  | .incomplete => "incomplete"
  | .qualified => "qualified"

/-- The text of an entry; `toString` renders its parts. -/
def Entry.render (toString : TypeId → Option String) : Entry → Option String
  | .integer bits isSigned => some ((if isSigned then "i" else "u") ++ ToString.toString bits)
  | .float bits => some ("f" ++ ToString.toString bits)
  | .pointer pointee => (toString pointee).map ("*" ++ ·)
  | .optional inner => (toString inner).map ("?" ++ ·)
  | .slice element => (toString element).map ("[]" ++ ·)
  | .array element size => (toString element).map ("[" ++ ToString.toString size ++ "]" ++ ·)
  | .function params result =>
    (params.mapM toString).bind fun params =>
      (toString result).map ("fn(" ++ ", ".intercalate params ++ "): " ++ ·)
  | .stateFunction params result =>
    (params.mapM toString).bind fun params =>
      (toString result).map ("state(" ++ ", ".intercalate params ++ "): " ++ ·)
  | .struct n _ _ _ => some n
  | .enum n _ _ => some n
  | .union n _ _ => some n
  | .trait n => some n
  | .typeVar id => some ("type$" ++ ToString.toString id)
  | .sum members => (members.mapM toString).map (" | ".intercalate ·)
  | .failable inner => (toString inner).map ("!" ++ ·)
  | .dyn target _ => (toString target).map ("dyn " ++ ·)
  | .alias target => toString target
  | .nominal n _ _ => some n
  | .qualified inner => toString inner
  | entry => some entry.kind.text

namespace TypeTable

def typeToString (T : TypeTable) : ℕ → TypeId → Option String
  | 0, _ => none
  | depth + 1, id =>
    match T.findEntry (T.canonical id) with
    | none => some "void"
    | some entry => entry.render (typeToString T depth)

end TypeTable

/-! ### Substitution -/

/-- What the table keeps of an entry beside what the comparison reads. An alias has a name only if it was made
    for arguments. -/
structure EntryRest where
  name : String := ""
  target : TypeId := 0
  members : List TypeId := []
  underlying : TypeId := 0

structure TypeState where
  table : TypeTable
  rests : TypeId → EntryRest

namespace TypeState

def intern (entry : Entry) (rest : EntryRest) : StateT TypeState Option TypeId :=
  modifyGet fun D =>
    ((D.table.intern entry).1,
      { table := (D.table.intern entry).2, rests := Function.update D.rests (D.table.intern entry).1 rest })

def registerNamed (name : String) (id : TypeId) : StateT TypeState Option PUnit :=
  modifyGet fun D => (⟨⟩, { D with table := D.table.registerNamed name id })

/-- 0 where nothing is registered. -/
def lookupNamed (name : String) (D : TypeState) : TypeId := (D.table.lookupNamed name).getD 0

/-- An argument of a registered struct stands for the one that is asked for. -/
def sameArgument (T : TypeTable) (candidate arg : TypeId) : Bool :=
  candidate = arg || candidate = T.canonical arg || T.canonical candidate = T.canonical arg

def lookupReifiedStruct (name : String) (args : List TypeId) (D : TypeState) : TypeId :=
  match D.table.findEntry (lookupNamed name D) with
  | some (.struct _ _ structArgs _) =>
    if structArgs.length = args.length ∧ ∀ p ∈ structArgs.zip args, sameArgument D.table p.1 p.2 then
      lookupNamed name D
    else 0
  | _ => 0

/-- The part of a name in front of the first `<`. -/
def baseTypeName (name : String) : String := String.ofList (base name)

section
variable (toString : TypeTable → TypeId → Option String)

def concreteTypeName (base : String) (args : List TypeId) : StateT TypeState Option String := do
  let D ← get
  let texts ← ofOption (args.mapM (toString D.table))
  return base ++ "<" ++ ",".intercalate texts ++ ">"

def concreteStructName (base : String) (fields : List TypeId) : StateT TypeState Option String := do
  let D ← get
  let texts ← ofOption (fields.mapM (toString D.table))
  return base ++ "<" ++ (if fields = [] then "?" else ",".intercalate texts) ++ ">"

end

/-- The type that is registered under the name, or else a new one. -/
def reify (concrete : String) (existing : TypeState → TypeId) (make : StateT TypeState Option TypeId) :
    StateT TypeState Option TypeId := do
  let D ← get
  if existing D ≠ 0 then return existing D
  else
    let reified ← make
    registerNamed concrete reified
    return reified

/-- What is done with an entry behind names and qualifiers; `substitute` is used on its parts. -/
def substituteEntry (toString : TypeTable → TypeId → Option String)
    (substitute : TypeId → StateT TypeState Option TypeId) (args : List TypeId) (type : TypeId) (rest : EntryRest) :
    Option Entry → StateT TypeState Option TypeId
  | some (.genericParam origin index) =>
    if origin.declaration = 0 then return type
    else return args.getD index type
  | some (.pointer pointee) => do
      let pointee ← substitute pointee
      intern (.pointer pointee) {}
  | some (.optional inner) => do
      let inner ← substitute inner
      intern (.optional inner) {}
  | some (.array element size) => do
      let element ← substitute element
      intern (.array element size) {}
  | some (.slice element) => do
      let element ← substitute element
      intern (.slice element) {}
  | some (.function params result) => do
      let params ← params.mapM substitute
      let result ← substitute result
      intern (.function params result) {}
  | some (.sum members) => do
      let members ← members.mapM substitute
      intern (.sum members) {}
  | some (.struct name fields _ origin) => do
      let fields ← fields.mapM substitute
      let concrete ← concreteTypeName toString (baseTypeName name) args
      reify concrete (lookupReifiedStruct concrete args) (intern (.struct concrete fields args origin) {})
  | some (.enum name origin _) => do
      let concrete ← concreteTypeName toString (baseTypeName name) args
      reify concrete (lookupNamed concrete) do
        let underlying ← substitute rest.underlying
        intern (.enum concrete origin args) { underlying := underlying }
  | some (.union name origin _) => do
      let members ← rest.members.mapM substitute
      -- The name comes from the members, so that instances are told apart by them.
      let concrete ← concreteStructName toString (baseTypeName name) members
      reify concrete (lookupNamed concrete) (intern (.union concrete origin args) { members := members })
  | some (.failable inner) => do
      let inner ← substitute inner
      intern (.failable inner) {}
  | _ => return type

/-- `substituteType` with its recursive calls in the place of `substitute`. No type has no entry, and comes back
    from the last case. -/
def substituteStep (toString : TypeTable → TypeId → Option String)
    (substitute : TypeId → StateT TypeState Option TypeId) (args : List TypeId) (type : TypeId) :
    StateT TypeState Option TypeId := do
  let D ← get
  match D.table.findEntry type with
  | some (.qualified inner) =>
    let inner ← substitute inner
    intern (.qualified inner) {}
  | some (.alias target) =>
    let substituted ← substitute target
    if (D.rests type).name = "" then intern (.alias substituted) {}
    else
      let concrete ← concreteTypeName toString (D.rests type).name args
      reify concrete (lookupNamed concrete) (intern (.alias substituted) { name := concrete })
  | some (.nominal name origin _) =>
    let substituted ← substitute (D.rests type).target
    if name = "" then intern (.nominal name origin args) { target := substituted }
    else
      let concrete ← concreteTypeName toString name args
      reify concrete (lookupNamed concrete) (intern (.nominal concrete origin args) { target := substituted })
  | _ =>
    let resolved := D.table.stripQualifiers type
    substituteEntry toString substitute args type (D.rests resolved) (D.table.findEntry resolved)

def substituteType (args : List TypeId) : ℕ → TypeId → StateT TypeState Option TypeId
  | 0, _ => failure
  | depth + 1, type =>
    substituteStep (fun T => T.typeToString depth) (substituteType args depth) args type

end TypeState

end Zith.Types
