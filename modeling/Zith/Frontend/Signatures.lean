import Zith.Frontend.Snapshot
import Zith.Lib.Numeral
import Zith.Lib.Reading

/-! `canonicalTypeString` and `functionSignature`: what a type looks like in the signature of a function, and the
    signature. Overloads are told apart by it, and linked by it.

    A type expression is a tree (`TypeShape`): its form, with what the form says, and the types in it. The ownership
    qualifiers are not in the tree; parentheses are. -/

namespace Zith.Frontend
open Zith.Lib

/-- The bytes of the texts that types are written with. -/
structure FormTexts : Prop where
  question : text "?" = [0x3F]
  star : text "*" = [0x2A]
  openParen : text "(" = [0x28]
  closeParen : text ")" = [0x29]
  openBracket : text "[" = [0x5B]
  closeBracket : text "]" = [0x5D]
  slice : text "[]" = [0x5B, 0x5D]
  variadicSlice : text "[...]" = [0x5B, 0x2E, 0x2E, 0x2E, 0x5D]
  bar : text "|" = [0x7C]
  dynSpace : text "dyn " = [0x64, 0x79, 0x6E, 0x20]
  rawOpaque : text "raw opaque" = [0x72, 0x61, 0x77, 0x20, 0x6F, 0x70, 0x61, 0x71, 0x75, 0x65]
  taggedOpaque : text "opaque" = [0x6F, 0x70, 0x61, 0x71, 0x75, 0x65]
  fnOpen : text "fn(" = [0x66, 0x6E, 0x28]
  stateOpen : text "state(" = [0x73, 0x74, 0x61, 0x74, 0x65, 0x28]
  less : text "<" = [0x3C]
  greater : text ">" = [0x3E]
  colon : text ":" = [0x3A]
  state : text "state" = [0x73, 0x74, 0x61, 0x74, 0x65]
  fn : text "fn" = [0x66, 0x6E]
  dyn : text "dyn" = [0x64, 0x79, 0x6E]
  dots : text "..." = [0x2E, 0x2E, 0x2E]

theorem formTexts : FormTexts := by
  constructor <;> decide +kernel

/-- `,` between each two of some texts. -/
def commas (texts : List Text) : Text := separated 0x2C texts

/-- The members of a pack, each behind its name. -/
def memberTexts : List Text → List Text → List Text
  | name :: names, member :: members => (name ++ text ":" ++ member) :: memberTexts names members
  | _, members => members

/-- The parameters and the result of a function type: the last text is the result. -/
def functionTypeText (isState : Bool) (arguments : List Text) : Text :=
  (if isState then text "state(" else text "fn(") ++ commas arguments.dropLast ++ text ")" ++
    arguments.getLast?.elim [] fun result => text ":" ++ result

/-- `canonicalTypeString` of a type expression, from the texts of its arguments. -/
def typeText (type : TypeExpression) (arguments : List Text) : Text :=
  let nested := arguments.head?.getD (text "?")
  match type.kind with
  | .name => if arguments = [] then type.name else type.name ++ text "<" ++ commas arguments ++ text ">"
  | .pointer => text "*" ++ nested
  | .optional => text "?" ++ nested
  | .parenthesized => text "(" ++ nested ++ text ")"
  | .slice => (if type.isVariadicSlice then text "[...]" else text "[]") ++ nested
  | .opaqueRaw => text "raw opaque"
  | .opaqueTagged => text "opaque"
  | .pack => text "|" ++ commas (memberTexts type.memberNames arguments) ++ text "|"
  | .dyn => text "dyn " ++ nested
  | .array => text "[" ++ numeral 10 type.arrayLength ++ text "]" ++ nested
  | .function => functionTypeText type.isStateFunctionType arguments
  | .error => text "?"

/-- `canonicalTypeString`. The arguments of a type are earlier entries of the table, so that its length is fuel enough. -/
def canonicalTypeString (types : List TypeExpression) : ℕ → TypeExprId → Text
  | 0, _ => text "?"
  | fuel + 1, id =>
    match entry types id with
    | none => text "?"
    | some type => typeText type (type.arguments.map (canonicalTypeString types fuel))

/-- A snapshot with its table of type expressions. -/
structure TypedSnapshot extends ParsedSnapshot where
  typeExpressions : List TypeExpression := []

def TypedSnapshot.typeString (snapshot : TypedSnapshot) (id : TypeExprId) : Text :=
  canonicalTypeString snapshot.typeExpressions (snapshot.typeExpressions.length + 1) id

/-- A `self` parameter without an explicit type, in front. -/
def implicitSelf (decl : Declaration) : Bool :=
  decl.ownerName ≠ [] && decl.parameters.head?.any fun p => p.name == text "self" && p.type == 0

/-- The names of the generic parameters of the owner, of a method that has none of its own. -/
def ownerArguments (declarations : List Declaration) (decl : Declaration) : Option (List Text) :=
  if decl.ownerName ≠ [] ∧ decl.genericParams = [] then
    (declarations.find? fun owner => owner.name = decl.ownerName ∧ owner.genericParams ≠ []).map
      fun owner => owner.genericParams.map GenericParam.name
  else none

def functionSignature (snapshot : TypedSnapshot) (decl : Declaration) : Text :=
  let declared := (if implicitSelf decl then decl.parameters.tail else decl.parameters).map
    fun p => snapshot.typeString p.type
  let parameters := if implicitSelf decl then (text "*" ++ decl.ownerName) :: declared else declared
  let comma := if parameters = [] then [] else text ","
  text "(" ++ commas parameters ++ (if decl.isVariadic then comma ++ text "..." else []) ++
    (ownerArguments snapshot.declarations decl).elim [] (fun names => comma ++ text "<" ++ commas names ++ text ">") ++
    text ")"

/-! ### Shapes -/

/-- The form of a type with what it says besides the types in it. -/
inductive TypeForm where
  | unknown | name (spelling : Text) | pointer | optional | parenthesized | slice (isVariadic : Bool)
  | opaqueRaw | opaqueTagged | pack (names : List Text) | dyn | array (length : ℕ) | function (isState : Bool)
  deriving DecidableEq, Repr

inductive TypeShape where
  | node (form : TypeForm) (arguments : List TypeShape)

/-- The text of a form, from the texts of the types in it. -/
def TypeForm.spelled (arguments : List Text) : TypeForm → Text
  | .unknown => text "?"
  | .name spelling =>
    if arguments = [] then spelling else spelling ++ text "<" ++ commas arguments ++ text ">"
  | .pointer => text "*" ++ arguments.flatten
  | .optional => text "?" ++ arguments.flatten
  | .parenthesized => text "(" ++ arguments.flatten ++ text ")"
  | .slice isVariadic => (if isVariadic then text "[...]" else text "[]") ++ arguments.flatten
  | .opaqueRaw => text "raw opaque"
  | .opaqueTagged => text "opaque"
  | .pack names => text "|" ++ commas (memberTexts names arguments) ++ text "|"
  | .dyn => text "dyn " ++ arguments.flatten
  | .array length => text "[" ++ numeral 10 length ++ text "]" ++ arguments.flatten
  | .function isState => functionTypeText isState arguments

def TypeShape.spelled : TypeShape → Text
  | .node form arguments => form.spelled (arguments.map TypeShape.spelled)

/-- A shape without parentheses. -/
def TypeShape.bare : TypeShape → TypeShape
  | .node .parenthesized [inner] => inner.bare
  | .node form arguments => .node form (arguments.map TypeShape.bare)

def TypeShape.unknown : TypeShape := .node .unknown []

/-- The shape of a type expression, from the shapes of its arguments. -/
def typeShape (type : TypeExpression) (arguments : List TypeShape) : TypeShape :=
  let nested := [arguments.head?.getD .unknown]
  match type.kind with
  | .name => .node (.name type.name) arguments
  | .pointer => .node .pointer nested
  | .optional => .node .optional nested
  | .parenthesized => .node .parenthesized nested
  | .slice => .node (.slice type.isVariadicSlice) nested
  | .opaqueRaw => .node .opaqueRaw []
  | .opaqueTagged => .node .opaqueTagged []
  | .pack => .node (.pack (type.memberNames.take arguments.length)) arguments
  | .dyn => .node .dyn nested
  | .array => .node (.array type.arrayLength) nested
  | .function => .node (.function type.isStateFunctionType) arguments
  | .error => .unknown

def shapeOf (types : List TypeExpression) : ℕ → TypeExprId → TypeShape
  | 0, _ => .unknown
  | fuel + 1, id =>
    match entry types id with
    | none => .unknown
    | some type => typeShape type (type.arguments.map (shapeOf types fuel))

section
variable {types : List TypeExpression}

@[simp] theorem spelled_unknown : TypeShape.unknown.spelled = text "?" := by
  rw [TypeShape.unknown, TypeShape.spelled]
  rfl

theorem memberTexts_take (members : List Text) : ∀ names : List Text,
    memberTexts (names.take members.length) members = memberTexts names members := by
  induction members with
  | nil =>
    intro names
    cases names <;> rfl
  | cons member members ih =>
    intro names
    cases names with
    | nil => rfl
    | cons name names => simp [memberTexts, ih]

theorem spelled_typeShape (type : TypeExpression) (arguments : List TypeShape) :
    (typeShape type arguments).spelled = typeText type (arguments.map TypeShape.spelled) := by
  have hnested : [(arguments.head?.getD .unknown).spelled].flatten =
      (arguments.map TypeShape.spelled).head?.getD (text "?") := by
    cases arguments <;> simp
  rw [typeShape, typeText]
  have hnames := memberTexts_take (arguments.map TypeShape.spelled) type.memberNames
  rw [List.length_map] at hnames
  cases type.kind
  all_goals simp only [TypeShape.spelled, TypeForm.spelled, spelled_unknown, List.map_cons, List.map_nil,
    List.map_eq_nil_iff, hnested, hnames]

/-- The text of a type is the text of its shape. -/
theorem spelled_shapeOf (types : List TypeExpression) : ∀ (fuel : ℕ) (id : TypeExprId),
    (shapeOf types fuel id).spelled = canonicalTypeString types fuel id
  | 0, _ => spelled_unknown
  | fuel + 1, id => by
    rw [shapeOf, canonicalTypeString]
    cases entry types id with
    | none => exact spelled_unknown
    | some type =>
      simp only [spelled_typeShape, List.map_map]
      congr 2
      exact funext fun id => spelled_shapeOf types fuel id

end

end Zith.Frontend
