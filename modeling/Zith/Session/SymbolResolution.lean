import Zith.Frontend.Snapshot
import Zith.Session.ModuleCache

/-! `FrontendContext::buildResolutions`, as far as it makes the bindings of a module: the imports in effect,
    what the module declares, and what each import brings. The slots of a scope and a name are the bindings
    made under them so far. What two overloads are told apart by is `functionSignature`, a parameter. -/

namespace Zith.Session
open Zith.Lib Zith.Frontend
open Flow (BindingKind)

/-! ### Modules and imports -/

structure ModuleSymbolRef where
  module : ModuleKey := ""
  localSymbol : SymbolId := 0
  deriving DecidableEq, Repr

structure LocalSymbolInfo where
  id : SymbolId
  name : Text
  visibility : Visibility
  kind : DeclKind
  span : TextSpan
  signature : Text
  isExtern : Bool
  externalSymbol : Text
  isVariadic : Bool
  isVariadicSlice : Bool
  discardable : Bool
  bindingKind : BindingKind

structure ImportSelectorRequest where
  name : Text
  aliasName : Text := []
  span : TextSpan := ⟨0, 0⟩

structure ImportRequest where
  path : List Text := []
  selectors : List ImportSelectorRequest := []
  aliasName : Text := []
  isFrom : Bool := false
  isExport : Bool := false
  span : TextSpan := ⟨0, 0⟩
  pathSpan : TextSpan := ⟨0, 0⟩
  aliasSpan : TextSpan := ⟨0, 0⟩

def ImportRequest.importKey (r : ImportRequest) : Text := List.intercalate (text "/") r.path

inductive ImportTargetKind where
  | zith | directory | cHeader | cppHeader | asset
  deriving DecidableEq, Repr

/-- An entry of a C header, of the fields that are read. -/
inductive ForeignEntry where
  | function (name : Text) (isVariadic : Bool)
  | constant (name : Text)
  | global (name : Text) (isConst : Bool)
  | typedef (name : Text)
  deriving DecidableEq, Repr

/-- `CHeaderArtifact`: its functions, constants, globals and typedefs, in this order. -/
structure CHeaderArtifact where
  entries : List ForeignEntry := []

structure ImportEdge where
  importer : ModuleKey
  request : ImportRequest
  targets : List ModuleKey
  targetKind : ImportTargetKind := .zith
  cHeader : Option CHeaderArtifact := none
  error : Text := []

structure ModuleArtifact where
  key : ModuleKey
  fileId : ℕ := 0
  frontend : ParsedSnapshot

section
variable (functionSignature : ParsedSnapshot → Declaration → Text)

def symbolInfo (f : ParsedSnapshot) (d : Declaration) : LocalSymbolInfo where
  id := d.id
  name := d.name
  visibility := d.visibility
  kind := d.kind
  span := d.span
  signature := if d.kind = .function then functionSignature f d else []
  isExtern := d.isExtern
  externalSymbol := d.externalSymbol
  isVariadic := d.isVariadic
  isVariadicSlice := d.isVariadicSlice
  discardable := d.discardable
  bindingKind := if d.kind = .variable then d.bindingKind else .let

/-- The declarations of `buildModule` that go to `publicSymbols`. -/
def isPublic (d : Declaration) : Bool :=
  d.kind ≠ .importDecl && d.ownerName.isEmpty && d.kind ≠ .error && d.visibility = .public

def ModuleArtifact.publicSymbols (m : ModuleArtifact) : List LocalSymbolInfo :=
  (m.frontend.declarations.filter isPublic).map (symbolInfo functionSignature m.frontend)

end

/-- `module_by_key`: a later module of a key takes the place of an earlier one. -/
def moduleByKey (modules : List ModuleArtifact) (key : ModuleKey) : Option ModuleArtifact :=
  modules.reverse.find? fun m => m.key == key

/-! ### The imports in effect -/

section
variable (modules : List ModuleArtifact) (graph : List ImportEdge) (module : ModuleKey)

def ImportEdge.firstTarget (e : ImportEdge) : ModuleKey := e.targets.headD ""

/-- Whether an import is in effect for the module when its importer is reached. -/
def carries (e : ImportEdge) : Bool := e.importer == module || e.request.isExport

/-- The pairs of an importer and the root that its import puts on `pending_export_roots`. -/
def exportRoots : List (ModuleKey × ModuleKey) :=
  (graph.filter fun e => carries module e && (moduleByKey modules e.firstTarget).isSome).map fun e =>
    (e.importer, e.firstTarget)

/-- What a root that is visited first adds to the imports in effect. -/
def visitRoot (root : ModuleKey) (edges : List ImportEdge) : List ImportEdge :=
  edges ++ graph.filter fun e => e.importer == root && carries module e

/-- `effective_edges`, in at most `fuel` rounds. -/
def effectiveEdges (fuel : ℕ) : Option (List ImportEdge) :=
  drain? (exportRoots modules graph module) (visitRoot graph module) fuel [module] [] []

end

/-! ### Bindings -/

inductive ResolutionKind where
  | declaration | «import» | foreign | moduleAlias | unresolved
  deriving DecidableEq, Repr

structure ResolvedName where
  name : Text
  kind : ResolutionKind := .unresolved
  span : TextSpan := ⟨0, 0⟩
  target : ModuleSymbolRef := {}
  declaration : DeclId := 0
  localId : LocalId := 0
  scope : ScopeId := 0
  foreign : Option ForeignEntry := none
  expr : ExprId := 0
  declKind : DeclKind := .error
  signature : Text := []
  isExtern : Bool := false
  externalSymbol : Text := []
  isVariadic : Bool := false
  isVariadicSlice : Bool := false
  bindingKind : BindingKind := .let
  modulePath : List Text := []
  discardable : Bool := false
  deriving DecidableEq, Repr

structure ModuleDiagnostic where
  code : ℕ
  message : Text
  file : ℕ
  span : TextSpan
  deriving DecidableEq, Repr

/-- An error that the bindings of a module end in. -/
inductive Report where
  | duplicate (binding : ResolvedName)
  | missingSelector (selector : ImportSelectorRequest) (importKey : Text)

def Report.diagnostic (file : ℕ) : Report → ModuleDiagnostic
  | .duplicate b =>
    { code := 2002, message := text "duplicate binding '" ++ b.name ++ text "' in this scope", file,
      span := b.span }
  | .missingSelector s importKey =>
    { code := 1006
      message := text "import selector '" ++ s.name ++ text "' was not found in '" ++ importKey ++ text "'"
      file
      span := s.span }

/-- `resolution.bindings` and the errors so far. -/
structure Resolving where
  bindings : List ResolvedName := []
  reports : List Report := []

/-- Two bindings of one scope and name that are no conflict: overloads, and aliases with one root. -/
def mayShareName (existing binding : ResolvedName) : Bool :=
  existing.declKind = .function && binding.declKind = .function && !existing.isExtern &&
      !binding.isExtern && existing.signature ≠ binding.signature ||
    existing.kind = .moduleAlias && binding.kind = .moduleAlias && !existing.modulePath.isEmpty &&
      !binding.modulePath.isEmpty && existing.modulePath.head? = binding.modulePath.head?

namespace Resolving

def slots (s : Resolving) (scope : ScopeId) (name : Text) : List ResolvedName :=
  s.bindings.filter fun b => b.scope == scope && b.name == name

/-- `add_binding`. -/
def addBinding (scope : ScopeId) (binding : ResolvedName) (s : Resolving) : Resolving :=
  let binding := { binding with scope }
  if (s.slots scope binding.name).all (mayShareName · binding) then
    { s with bindings := s.bindings ++ [binding] }
  else { s with reports := s.reports ++ [.duplicate binding] }

def report (r : Report) (s : Resolving) : Resolving := { s with reports := s.reports ++ [r] }

end Resolving

/-! ### Declarations -/

section
variable (functionSignature : ParsedSnapshot → Declaration → Text) (m : ModuleArtifact)

def declarationBinding (d : Declaration) : ResolvedName where
  name := d.name
  kind := .declaration
  span := d.span
  target := { module := m.key, localSymbol := d.id }
  declaration := d.id
  declKind := d.kind
  isExtern := d.isExtern
  externalSymbol := d.externalSymbol
  isVariadic := d.isVariadic
  isVariadicSlice := d.isVariadicSlice
  discardable := d.discardable
  bindingKind := if d.kind = .variable then d.bindingKind else .let
  signature := if d.kind = .function then functionSignature m.frontend d else []

def parameterBinding (d : Declaration) (bindingKind : BindingKind) (p : Parameter) : ResolvedName where
  name := p.name
  kind := .declaration
  span := p.span
  localId := p.id
  declKind := d.kind
  bindingKind := bindingKind

/-- The scope of the block that is a declaration's body. -/
def parameterScope (f : ParsedSnapshot) (d : Declaration) : ScopeId :=
  (entry f.expressions d.body).elim 0 Expression.scope

/-- The declarations that the first loop skips; macros have a namespace of their own. -/
def isUnbound (d : Declaration) : Bool :=
  d.kind = .importDecl || d.kind = .error || d.name.isEmpty || d.parentScope ≠ 0 || d.kind = .macroDecl

def addDeclaration (s : Resolving) (d : Declaration) : Resolving :=
  if isUnbound d then s
  else
    let s := if d.ownerName.isEmpty then s.addBinding 0 (declarationBinding functionSignature m d) else s
    if d.kind = .function && d.body ≠ 0 then
      d.parameters.foldl (fun s p => s.addBinding (parameterScope m.frontend d) (parameterBinding d p.bindingKind p)) s
    else s

/-- A local `state` is visible from the scope it is written in, an anonymous function from none. -/
def addLocalState (s : Resolving) (d : Declaration) : Resolving :=
  if d.kind ≠ .function || d.parentScope = 0 || d.name.isEmpty then s
  else
    let s :=
      if d.isAnonymousFunction then s
      else s.addBinding d.parentScope (declarationBinding functionSignature m d)
    if d.body ≠ 0 && d.body ≤ m.frontend.expressions.length then
      d.parameters.foldl (fun s p => s.addBinding (parameterScope m.frontend d) (parameterBinding d .let p)) s
    else s

/-- `statement_scopes`: the scope of the last block that has the statement. -/
def statementScope (f : ParsedSnapshot) (id : StmtId) : ScopeId :=
  if id = 0 then 0
  else
    ((f.expressions.filter fun e => e.kind = .block && e.statements.contains id).getLast?).elim 0 Expression.scope

def localBinding (b : Binding) : ResolvedName where
  name := b.name
  kind := .declaration
  span := b.span
  localId := b.id
  declKind := .variable
  bindingKind := b.bindingKind

def addLocalBinding (s : Resolving) (statement : Statement) : Resolving :=
  if m.frontend.isMacroTemplateStmt statement.id then s
  else if statement.kind = .binding && !statement.binding.name.isEmpty then
    s.addBinding (statementScope m.frontend statement.id) (localBinding statement.binding)
  else s

def ownBindings : Resolving :=
  let s := m.frontend.declarations.foldl (addDeclaration functionSignature m) {}
  let s := m.frontend.declarations.foldl (addLocalState functionSignature m) s
  m.frontend.statements.foldl (addLocalBinding m) s

end

/-! ### Imports -/

def foreignBinding (e : ImportEdge) (f : ForeignEntry) : ResolvedName :=
  let binding : ResolvedName := { name := [], kind := .foreign, span := e.request.pathSpan }
  match f with
  | .function name isVariadic =>
    { binding with name, foreign := some f, declKind := .function, isExtern := true, isVariadic }
  | .constant name =>
    { binding with name, foreign := some f, declKind := .variable, bindingKind := .const }
  | .global name isConst =>
    { binding with
      name, foreign := some f, declKind := .variable, isExtern := true
      bindingKind := if isConst then .const else .var }
  | .typedef name => { binding with name, foreign := some f, declKind := .typeAlias }

/-- A namespace, under a name of its own or under the first segment of its path. -/
def aliasBinding (e : ImportEdge) (name : Text) (span : TextSpan) (modulePath : List Text) : ResolvedName where
  name := name
  kind := .moduleAlias
  span := span
  target := { module := e.firstTarget }
  modulePath := modulePath

def addCHeader (e : ImportEdge) (header : CHeaderArtifact) (s : Resolving) : Resolving :=
  let s := header.entries.foldl (fun s f => s.addBinding 0 (foreignBinding e f)) s
  if e.request.aliasName.isEmpty then s
  else s.addBinding 0 { name := e.request.aliasName, kind := .moduleAlias, span := e.request.aliasSpan }

def importedBinding (name : Text) (span : TextSpan) (target : ModuleKey) (symbol : LocalSymbolInfo) :
    ResolvedName where
  name := name
  kind := .import
  span := span
  target := { module := target, localSymbol := symbol.id }
  declKind := symbol.kind
  bindingKind := symbol.bindingKind
  signature := symbol.signature
  isExtern := symbol.isExtern
  externalSymbol := symbol.externalSymbol
  isVariadic := symbol.isVariadic
  isVariadicSlice := symbol.isVariadicSlice
  discardable := symbol.discardable

section
variable (functionSignature : ParsedSnapshot → Declaration → Text) (modules : List ModuleArtifact)

/-- The public symbols of each target that is a module. -/
def targetSymbols (target : ModuleKey) : List LocalSymbolInfo :=
  (moduleByKey modules target).elim [] (ModuleArtifact.publicSymbols functionSignature)

/-- What a selector names: the first symbol of the name, in the first target that has one. -/
def selected (targets : List ModuleKey) (selector : ImportSelectorRequest) :
    Option (ModuleKey × LocalSymbolInfo) :=
  targets.findSome? fun target =>
    ((targetSymbols functionSignature modules target).find? fun symbol => symbol.name == selector.name).map
      fun symbol => (target, symbol)

def ImportSelectorRequest.boundName (selector : ImportSelectorRequest) : Text :=
  if selector.aliasName.isEmpty then selector.name else selector.aliasName

def addSelector (e : ImportEdge) (s : Resolving) (selector : ImportSelectorRequest) : Resolving :=
  match selected functionSignature modules e.targets selector with
  | some (target, symbol) => s.addBinding 0 (importedBinding selector.boundName selector.span target symbol)
  | none => s.report (.missingSelector selector e.request.importKey)

/-- `inject_symbols`. -/
def ImportRequest.injects (r : ImportRequest) : Bool := r.isFrom || r.isExport

def addTarget (e : ImportEdge) (s : Resolving) (target : ModuleKey) : Resolving :=
  (targetSymbols functionSignature modules target).foldl
    (fun s symbol => s.addBinding 0 (importedBinding symbol.name e.request.span target symbol)) s

/-- One segment more of an exported path, unless the alias is there already. -/
def addExportedAlias (e : ImportEdge) (defaultName : Text) (s : Resolving) (size : ℕ) : Resolving :=
  let modulePath := e.request.path.take size
  if s.bindings.any fun b =>
      b.scope = 0 && b.kind = .moduleAlias && b.name = defaultName && b.modulePath = modulePath then s
  else s.addBinding 0 (aliasBinding e defaultName e.request.pathSpan modulePath)

def addNamespace (e : ImportEdge) (s : Resolving) : Resolving :=
  let defaultName := e.request.path.headD []
  if e.request.isFrom || !e.request.aliasName.isEmpty || defaultName.isEmpty then s
  else if e.request.isExport then
    ((List.range e.request.path.length).map (· + 1)).foldl (addExportedAlias e defaultName) s
  else s.addBinding 0 (aliasBinding e defaultName e.request.pathSpan e.request.path)

/-- One round of the loop over the imports in effect. -/
def addImport (s : Resolving) (e : ImportEdge) : Resolving :=
  if !e.error.isEmpty then s
  else if e.targetKind = .cHeader then e.cHeader.elim s fun header => addCHeader e header s
  else
    let s :=
      if e.request.aliasName.isEmpty then s
      else s.addBinding 0 (aliasBinding e e.request.aliasName e.request.aliasSpan e.request.path)
    if !e.request.selectors.isEmpty then
      e.request.selectors.foldl (addSelector functionSignature modules e) s
    else
      addNamespace e (if e.request.injects then e.targets.foldl (addTarget functionSignature modules e) s else s)

/-- The bindings of one module and its errors, nothing when the fuel is out. -/
def resolveModule (graph : List ImportEdge) (fuel : ℕ) (m : ModuleArtifact) : Option Resolving :=
  (effectiveEdges modules graph m.key fuel).map fun edges =>
    edges.foldl (addImport functionSignature modules) (ownBindings functionSignature m)

structure ModuleResolution where
  module : ModuleKey
  bindings : List ResolvedName
  diagnostics : List ModuleDiagnostic

def buildResolutions (graph : List ImportEdge) (fuel : ℕ) : Option (List ModuleResolution) :=
  modules.mapM fun m =>
    (resolveModule functionSignature modules graph fuel m).map fun r =>
      { module := m.key, bindings := r.bindings, diagnostics := r.reports.map (Report.diagnostic m.fileId) }

end

end Zith.Session
