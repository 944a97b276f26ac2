import Zith.Lib.Succeeds
import Zith.Session.SymbolResolution

/-! What the imports of a module bring into its scope, against what the import graph says they should.

        module ──own──▶ a ──export──▶ b ──export──▶ c        brings what a, b and c offer for it

    The resolver goes on from the first target of an import only, and offers a symbol again on every path
    that leads to it. -/

namespace Zith.Session
open Zith.Lib Zith.Frontend

/-! ### The graph -/

/-- A symbol of a module, under the name it is bound to. -/
abbrev BoundSymbol := Text × ModuleSymbolRef

section
variable (modules : List ModuleArtifact) (graph : List ImportEdge)

/-- The modules an import names. -/
def namesTarget (e : ImportEdge) (target : ModuleKey) : Prop :=
  target ∈ e.targets ∧ (moduleByKey modules target).isSome

/-- The module the resolver goes on from. -/
def namesFirst (e : ImportEdge) (target : ModuleKey) : Prop :=
  target = e.firstTarget ∧ (moduleByKey modules target).isSome

variable (leads : ImportEdge → ModuleKey → Prop) (module : ModuleKey)

/-- The modules at the end of an import of the module's own and then any number of exports. -/
inductive Reaches : ModuleKey → Prop where
  | root : Reaches module
  | step {e : ImportEdge} {target : ModuleKey} : Reaches e.importer → e ∈ graph → carries module e = true →
      leads e target → Reaches target

/-- An import in effect for the module. -/
def Effective (e : ImportEdge) : Prop := Reaches graph leads module e.importer ∧ carries module e = true

end

section
variable (functionSignature : ParsedSnapshot → Declaration → Text) (modules : List ModuleArtifact)

def importedKey (name : Text) (target : ModuleKey) (symbol : LocalSymbolInfo) : BoundSymbol :=
  (name, { module := target, localSymbol := symbol.id })

/-- The symbols that an import in effect brings: those it selects, or every public symbol of each target
    when it is a `from` or an `export`. -/
def brings (e : ImportEdge) : List BoundSymbol :=
  if !e.error.isEmpty || e.targetKind = .cHeader then []
  else if !e.request.selectors.isEmpty then
    e.request.selectors.filterMap fun selector =>
      (selected functionSignature modules e.targets selector).map fun found =>
        importedKey selector.boundName found.1 found.2
  else if e.request.injects then
    e.targets.flatMap fun target =>
      (targetSymbols functionSignature modules target).map fun symbol => importedKey symbol.name target symbol
  else []

/-- The symbols that a module declares in its own scope. -/
def declares (m : ModuleArtifact) : List BoundSymbol :=
  (m.frontend.declarations.filter fun d => !isUnbound d && d.ownerName.isEmpty).map fun d =>
    (d.name, { module := m.key, localSymbol := d.id })

/-- A symbol that belongs into the scope of a module: one of its own, or one that an import brings. -/
def Belongs (graph : List ImportEdge) (leads : ImportEdge → ModuleKey → Prop) (m : ModuleArtifact)
    (symbol : BoundSymbol) : Prop :=
  symbol ∈ declares m ∨ ∃ e ∈ graph, Effective graph leads m.key e ∧ symbol ∈ brings functionSignature modules e

/-- No symbol comes into the scope of a module twice, of all that the imports in effect bring. -/
structure BroughtOnce (graph : List ImportEdge) (m : ModuleArtifact) : Prop where
  own : (declares m).Nodup
  each : ∀ e ∈ graph, Effective graph (namesFirst modules) m.key e →
    (brings functionSignature modules e).Nodup ∧ (declares m).Disjoint (brings functionSignature modules e)
  apart : graph.Pairwise fun e f => Effective graph (namesFirst modules) m.key e →
    Effective graph (namesFirst modules) m.key f →
      (brings functionSignature modules e).Disjoint (brings functionSignature modules f)

end

/-! ### What a module's scope holds -/

/-- The symbol a binding of the module scope stands for. -/
def ResolvedName.symbol (b : ResolvedName) : Option BoundSymbol :=
  if b.scope = 0 ∧ b.target.localSymbol ≠ 0 then some (b.name, b.target) else none

/-- The symbol a duplicate is reported of. -/
def Report.symbol : Report → Option BoundSymbol
  | .duplicate b => b.symbol
  | .missingSelector _ _ => none

namespace Resolving

def bound (s : Resolving) : List BoundSymbol := s.bindings.filterMap ResolvedName.symbol

def refused (s : Resolving) : List BoundSymbol := s.reports.filterMap Report.symbol

/-- How often a symbol was bound or reported. -/
def outcomes (s : Resolving) (symbol : BoundSymbol) : ℕ := s.bound.count symbol + s.refused.count symbol

/-- A symbol that is dealt with once: bound and not reported, or reported because another entity has its
    name. -/
def Settled (s : Resolving) (symbol : BoundSymbol) : Prop :=
  s.bound.count symbol = 1 ∧ symbol ∉ s.refused ∨
    symbol ∉ s.bound ∧ s.refused.count symbol = 1 ∧
      ∃ other ∈ s.bindings, other.scope = 0 ∧ other.name = symbol.1 ∧ other.symbol ≠ some symbol

/-- A duplicate is reported where its name is taken. -/
def Justified (s : Resolving) : Prop :=
  ∀ b, .duplicate b ∈ s.reports → ∃ other ∈ s.bindings, other.scope = b.scope ∧ other.name = b.name

end Resolving

/-- The scope of a module holds the symbols that belong there, each dealt with once, and no others. -/
def Faithful (functionSignature : ParsedSnapshot → Declaration → Text) (modules : List ModuleArtifact)
    (graph : List ImportEdge) (m : ModuleArtifact) (s : Resolving) : Prop :=
  ∀ symbol : BoundSymbol,
    (Belongs functionSignature modules graph (namesTarget modules) m symbol → s.Settled symbol) ∧
      (¬Belongs functionSignature modules graph (namesTarget modules) m symbol → symbol ∉ s.bound ∧ symbol ∉ s.refused)

/-! ### What each round adds -/

/-- From one state of the resolver to a later one: the symbols of a list were dealt with. -/
structure Resolving.Adds (s t : Resolving) (symbols : List BoundSymbol) : Prop where
  outcomes : ∀ symbol, t.outcomes symbol = s.outcomes symbol + symbols.count symbol
  justified : s.Justified → t.Justified

namespace Resolving

theorem Adds.refl (s : Resolving) : Adds s s [] := ⟨fun _ => rfl, id⟩

theorem Adds.trans {s t u : Resolving} {xs ys : List BoundSymbol} (h : Adds s t xs) (h' : Adds t u ys) :
    Adds s u (xs ++ ys) where
  outcomes symbol := by rw [h'.outcomes, h.outcomes, List.count_append, Nat.add_assoc]
  justified hs := h'.justified (h.justified hs)

/-- A loop adds what its rounds add. -/
theorem Adds.foldl {α : Type} {round : Resolving → α → Resolving} {symbols : α → List BoundSymbol} :
    ∀ (xs : List α) (s : Resolving), (∀ s, ∀ x ∈ xs, Adds s (round s x) (symbols x)) →
      Adds s (xs.foldl round s) (xs.flatMap symbols)
  | [], s, _ => Adds.refl s
  | x :: xs, s, h =>
    (h s x (by simp)).trans (Adds.foldl xs _ fun s y hy => h s y (List.mem_cons_of_mem x hy))

/-- A loop whose rounds deal with no symbol. -/
theorem Adds.foldl_nil {α : Type} {round : Resolving → α → Resolving} (xs : List α) (s : Resolving)
    (h : ∀ s, ∀ x ∈ xs, Adds s (round s x) []) : Adds s (xs.foldl round s) [] := by
  have hnil : (xs.flatMap fun _ => ([] : List BoundSymbol)) = [] := List.flatMap_eq_nil_iff.mpr fun _ _ => rfl
  exact hnil ▸ Adds.foldl xs s h

theorem filterMap_concat {α β : Type} (f : α → Option β) (xs : List α) (x : α) :
    (xs ++ [x]).filterMap f = xs.filterMap f ++ (f x).toList := by
  cases h : f x <;> simp [h]

theorem addBinding_adds (scope : ScopeId) (b : ResolvedName) (s : Resolving) :
    Adds s (s.addBinding scope b) ({ b with scope } : ResolvedName).symbol.toList := by
  rw [addBinding]
  split
  · refine ⟨fun symbol => ?_, fun hs c hc => ?_⟩
    · simp only [outcomes, bound, refused, filterMap_concat, List.count_append]
      omega
    · obtain ⟨other, hmem, hother⟩ := hs c hc
      exact ⟨other, List.mem_append_left _ hmem, hother⟩
  · rename_i htaken
    refine ⟨fun symbol => ?_, fun hs c hc => ?_⟩
    · simp only [outcomes, bound, refused, filterMap_concat, List.count_append, Report.symbol]
      omega
    · rcases List.mem_append.mp hc with hold | hnew
      · exact hs c hold
      · obtain rfl : c = { b with scope } := by simpa using hnew
        obtain ⟨other, hslot, -⟩ : ∃ other ∈ s.slots scope b.name, _ := by simpa using htaken
        obtain ⟨hmem, hkey⟩ := List.mem_filter.mp hslot
        exact ⟨other, hmem, by simpa using hkey⟩

theorem report_adds (s : Resolving) (selector : ImportSelectorRequest) (importKey : Text) :
    Adds s (s.report (.missingSelector selector importKey)) [] := by
  refine ⟨fun symbol => ?_, fun hs c hc => hs c ?_⟩
  · simp only [outcomes, bound, refused, report, filterMap_concat, Report.symbol, Option.toList_none,
      List.append_nil, List.count_nil, Nat.add_zero]
  · simpa [report] using hc

/-- A binding that stands for no symbol. -/
theorem addBinding_adds_nil {scope : ScopeId} {b : ResolvedName} (s : Resolving)
    (h : b.target.localSymbol = 0 ∨ scope ≠ 0) : Adds s (s.addBinding scope b) [] := by
  have hnone : ({ b with scope } : ResolvedName).symbol = none := by
    rw [ResolvedName.symbol, if_neg]
    rintro ⟨hscope, hsymbol⟩
    exact h.elim hsymbol fun hne => hne hscope
  simpa [hnone] using addBinding_adds scope b s

end Resolving

open Resolving

theorem flatMap_ite {α β : Type} (p : α → Bool) (f : α → β) (xs : List α) :
    (xs.flatMap fun x => if p x then [f x] else []) = (xs.filter p).map f := by
  induction xs with
  | nil => rfl
  | cons x xs ih => cases hp : p x <;> simp [hp, ih]

section
variable {functionSignature : ParsedSnapshot → Declaration → Text} {m : ModuleArtifact}

theorem parameters_add (d : Declaration) (scope : ScopeId) (kind : Parameter → Flow.BindingKind) (s : Resolving) :
    Adds s (d.parameters.foldl (fun s p => s.addBinding scope (parameterBinding d (kind p) p)) s) [] :=
  Adds.foldl_nil _ _ fun s _ _ => addBinding_adds_nil s (Or.inl rfl)

theorem addDeclaration_adds (s : Resolving) (d : Declaration) : Adds s (addDeclaration functionSignature m s d)
      (if !isUnbound d && d.ownerName.isEmpty then [(d.name, { module := m.key, localSymbol := d.id })]
        else []) := by
  rw [addDeclaration]
  cases hunbound : isUnbound d with
  | true => exact Adds.refl s
  | false =>
    have hname : ∀ s : Resolving, Adds s
        (if d.ownerName.isEmpty then s.addBinding 0 (declarationBinding functionSignature m d) else s)
        (if d.ownerName.isEmpty then [(d.name, { module := m.key, localSymbol := d.id })] else []) := by
      intro s
      split
      · simpa [ResolvedName.symbol, declarationBinding, d.id_ne_zero] using
          addBinding_adds 0 (declarationBinding functionSignature m d) s
      · exact Adds.refl s
    simp only [Bool.false_eq_true, if_false, Bool.not_false, Bool.true_and]
    split
    · simpa using (hname s).trans (parameters_add d _ Parameter.bindingKind _)
    · exact hname s

theorem addLocalState_adds (s : Resolving) (d : Declaration) : Adds s (addLocalState functionSignature m s d) [] := by
  rw [addLocalState]
  split
  · exact Adds.refl s
  · rename_i hlocal
    have hname : Adds s (if d.isAnonymousFunction then s
        else s.addBinding d.parentScope (declarationBinding functionSignature m d)) [] := by
      split
      · exact Adds.refl s
      · exact addBinding_adds_nil s (Or.inr (by simp at hlocal; exact hlocal.1.2))
    simp only
    split
    · exact hname.trans (parameters_add d _ (fun _ => .let) _)
    · exact hname

theorem addLocalBinding_adds (s : Resolving) (statement : Statement) : Adds s (addLocalBinding m s statement) [] := by
  rw [addLocalBinding]
  split
  · exact Adds.refl s
  · split
    · exact addBinding_adds_nil s (Or.inl rfl)
    · exact Adds.refl s

/-- What a module declares is dealt with once for each declaration. -/
theorem ownBindings_adds (functionSignature : ParsedSnapshot → Declaration → Text) (m : ModuleArtifact) :
    Adds {} (ownBindings functionSignature m) (declares m) := by
  have hdecls := Adds.foldl m.frontend.declarations ({} : Resolving)
    fun s d _ => @addDeclaration_adds functionSignature m s d
  rw [flatMap_ite] at hdecls
  have hstates := Adds.foldl_nil m.frontend.declarations
    (m.frontend.declarations.foldl (addDeclaration functionSignature m) {})
    fun s d _ => @addLocalState_adds functionSignature m s d
  have hlocals := Adds.foldl_nil m.frontend.statements
    (m.frontend.declarations.foldl (addLocalState functionSignature m)
      (m.frontend.declarations.foldl (addDeclaration functionSignature m) {}))
    fun s statement _ => addLocalBinding_adds (m := m) s statement
  simpa [ownBindings, declares] using (hdecls.trans hstates).trans hlocals

end

section
variable {functionSignature : ParsedSnapshot → Declaration → Text} {modules : List ModuleArtifact}

theorem symbol_of_imported {name : Text} {span : TextSpan} {target : ModuleKey} {symbol : LocalSymbolInfo}
    (h : symbol.id ≠ 0) : ({ importedBinding name span target symbol with scope := 0 } : ResolvedName).symbol =
      some (importedKey name target symbol) := by
  simp [ResolvedName.symbol, importedBinding, importedKey, h]

theorem id_ne_zero_of_mem {target : ModuleKey} {symbol : LocalSymbolInfo}
    (h : symbol ∈ targetSymbols functionSignature modules target) : symbol.id ≠ 0 := by
  rw [targetSymbols] at h
  cases hmodule : moduleByKey modules target with
  | none => simp [hmodule] at h
  | some found =>
    rw [hmodule] at h
    obtain ⟨d, -, rfl⟩ := List.mem_map.mp h
    exact d.id_ne_zero

theorem mem_of_selected {targets : List ModuleKey} {selector : ImportSelectorRequest}
    {found : ModuleKey × LocalSymbolInfo} (h : selected functionSignature modules targets selector = some found) :
    found.2 ∈ targetSymbols functionSignature modules found.1 := by
  obtain ⟨target, -, htarget⟩ := List.exists_of_findSome?_eq_some h
  obtain ⟨symbol, hfind, rfl⟩ := Option.map_eq_some_iff.mp htarget
  exact List.mem_of_find?_eq_some hfind

theorem addSelector_adds (e : ImportEdge) (s : Resolving) (selector : ImportSelectorRequest) :
    Adds s (addSelector functionSignature modules e s selector)
      ((selected functionSignature modules e.targets selector).map fun found =>
        importedKey selector.boundName found.1 found.2).toList := by
  rw [addSelector]
  cases hfound : selected functionSignature modules e.targets selector with
  | none => exact report_adds s selector _
  | some found =>
    have hadds := addBinding_adds 0 (importedBinding selector.boundName selector.span found.1 found.2) s
    rw [symbol_of_imported (id_ne_zero_of_mem (mem_of_selected hfound))] at hadds
    exact hadds

theorem addTarget_adds (e : ImportEdge) (s : Resolving) (target : ModuleKey) :
    Adds s (addTarget functionSignature modules e s target)
      ((targetSymbols functionSignature modules target).map fun symbol => importedKey symbol.name target symbol) := by
  rw [addTarget, List.map_eq_flatMap]
  refine Adds.foldl _ s fun s symbol hsymbol => ?_
  have hadds := addBinding_adds 0 (importedBinding symbol.name e.request.span target symbol) s
  rw [symbol_of_imported (id_ne_zero_of_mem hsymbol)] at hadds
  exact hadds

theorem addExportedAlias_adds (e : ImportEdge) (name : Text) (s : Resolving) (size : ℕ) :
    Adds s (addExportedAlias e name s size) [] := by
  rw [addExportedAlias]
  split
  · exact Adds.refl s
  · exact addBinding_adds_nil s (Or.inl rfl)

theorem addNamespace_adds (e : ImportEdge) (s : Resolving) : Adds s (addNamespace e s) [] := by
  rw [addNamespace]
  split
  · exact Adds.refl s
  · split
    · exact Adds.foldl_nil _ s fun s size _ => addExportedAlias_adds e _ s size
    · exact addBinding_adds_nil s (Or.inl rfl)

theorem addCHeader_adds (e : ImportEdge) (header : CHeaderArtifact) (s : Resolving) :
    Adds s (addCHeader e header s) [] := by
  have hentries : Adds s (header.entries.foldl (fun s f => s.addBinding 0 (foreignBinding e f)) s) [] :=
    Adds.foldl_nil header.entries s fun s f _ => addBinding_adds_nil s (Or.inl (by cases f <;> rfl))
  rw [addCHeader]
  split
  · exact hentries
  · exact hentries.trans (addBinding_adds_nil _ (Or.inl rfl))

/-- An import in effect deals with what it brings. -/
theorem addImport_adds (s : Resolving) (e : ImportEdge) :
    Adds s (addImport functionSignature modules s e) (brings functionSignature modules e) := by
  rw [addImport, brings]
  cases herror : e.error.isEmpty with
  | false => simpa using Adds.refl s
  | true =>
    simp only [Bool.not_true, Bool.false_eq_true, if_false, Bool.false_or, decide_eq_true_eq]
    split
    · cases e.cHeader with
      | none => exact Adds.refl s
      | some header => exact addCHeader_adds e header s
    · have halias : ∀ s : Resolving, Adds s (if e.request.aliasName.isEmpty then s
          else s.addBinding 0 (aliasBinding e e.request.aliasName e.request.aliasSpan e.request.path)) [] := by
        intro s
        split
        · exact Adds.refl s
        · exact addBinding_adds_nil s (Or.inl rfl)
      split
      · have hselectors := (halias s).trans (Adds.foldl e.request.selectors _ fun s selector _ =>
          @addSelector_adds functionSignature modules e s selector)
        simpa [List.filterMap_eq_flatMap_toList] using hselectors
      · cases hinjects : e.request.injects with
        | false => simpa using (halias s).trans (addNamespace_adds e _)
        | true =>
          have htargets := (halias s).trans (Adds.foldl e.targets _ fun s target _ =>
            @addTarget_adds functionSignature modules e s target)
          simpa using htargets.trans (addNamespace_adds e _)

end

/-! ### The imports in effect -/

section
variable {modules : List ModuleArtifact} {graph : List ImportEdge} {module : ModuleKey}

theorem mem_exportRoots {root target : ModuleKey} : (root, target) ∈ exportRoots modules graph module ↔
      ∃ e ∈ graph, e.importer = root ∧ carries module e = true ∧ namesFirst modules e target := by
  simp only [exportRoots, List.mem_map, List.mem_filter, Bool.and_eq_true, Prod.mk.injEq, namesFirst]
  constructor
  · rintro ⟨e, ⟨hmem, hcarries, hmodule⟩, rfl, rfl⟩
    exact ⟨e, hmem, rfl, hcarries, rfl, hmodule⟩
  · rintro ⟨e, hmem, rfl, hcarries, rfl, hmodule⟩
    exact ⟨e, ⟨hmem, hcarries, hmodule⟩, rfl, rfl⟩

/-- The imports in effect of the roots visited so far. -/
def carriedBy (graph : List ImportEdge) (module : ModuleKey) (visited : List ModuleKey) : List ImportEdge :=
  graph.filter fun e => decide (e.importer ∈ visited) && carries module e

/-- Collecting a root adds its imports, which were not there before. -/
theorem visitRoot_perm {visited : List ModuleKey} {root : ModuleKey} (hroot : root ∉ visited) :
    ∀ graph : List ImportEdge,
      (carriedBy graph module visited ++ graph.filter fun e => e.importer == root && carries module e).Perm
        (carriedBy graph module (root :: visited))
  | [] => .nil
  | e :: graph => by
    have ih := visitRoot_perm hroot graph
    simp only [carriedBy] at ih ⊢
    by_cases hcarries : carries module e = true
    · by_cases himporter : e.importer = root
      · subst himporter
        simpa [hroot, hcarries] using List.perm_middle.trans (ih.cons e)
      · by_cases hvisited : e.importer ∈ visited
        · simpa [himporter, hvisited, hcarries] using ih.cons e
        · simpa [himporter, hvisited, hcarries] using ih
    · simpa [hcarries] using ih

/-- The worklist under way: what is visited or pending is reached, the heads of the visited are visited or
    pending, and the imports found are those of the visited. -/
structure Collecting (modules : List ModuleArtifact) (graph : List ImportEdge) (module : ModuleKey)
    (visited pending : List ModuleKey) (edges : List ImportEdge) : Prop where
  root : module ∈ visited ∨ module ∈ pending
  sound : ∀ key, key ∈ visited ∨ key ∈ pending → Reaches graph (namesFirst modules) module key
  closed : ∀ key ∈ visited, ∀ target, (key, target) ∈ exportRoots modules graph module →
    target ∈ visited ∨ target ∈ pending
  edges : edges.Perm (carriedBy graph module visited)

theorem Collecting.start : Collecting modules graph module [] [module] [] where
  root := by simp
  sound key h := by
    obtain rfl : key = module := by simpa using h
    exact .root
  closed := by simp
  edges := by simp [carriedBy]

theorem Collecting.skip {visited pending : List ModuleKey} {root : ModuleKey} {edges : List ImportEdge}
    (hmem : root ∈ visited) (h : Collecting modules graph module visited (root :: pending) edges) :
    Collecting modules graph module visited pending edges where
  root := by
    rcases h.root with h | h
    · exact Or.inl h
    · rcases List.mem_cons.mp h with rfl | h
      · exact Or.inl hmem
      · exact Or.inr h
  sound key hkey := h.sound key (hkey.imp_right (List.mem_cons_of_mem _))
  closed key hkey target htarget := by
    rcases h.closed key hkey target htarget with h | h
    · exact Or.inl h
    · rcases List.mem_cons.mp h with rfl | h
      · exact Or.inl hmem
      · exact Or.inr h
  edges := h.edges

theorem Collecting.enter {visited pending : List ModuleKey} {root : ModuleKey} {edges : List ImportEdge}
    (hroot : root ∉ visited) (h : Collecting modules graph module visited (root :: pending) edges) :
    Collecting modules graph module (root :: visited)
      ((successors (exportRoots modules graph module) root).reverse ++ pending)
      (visitRoot graph module root edges) where
  root := by
    rcases h.root with h | h
    · exact Or.inl (List.mem_cons_of_mem _ h)
    · rcases List.mem_cons.mp h with rfl | h
      · exact Or.inl (by simp)
      · exact Or.inr (List.mem_append_right _ h)
  sound key hkey := by
    have hreached := h.sound root (Or.inr (by simp))
    rcases hkey with hkey | hkey
    · rcases List.mem_cons.mp hkey with rfl | hkey
      · exact hreached
      · exact h.sound key (Or.inl hkey)
    · rcases List.mem_append.mp hkey with hkey | hkey
      · obtain ⟨e, hmem, rfl, hcarries, hfirst⟩ :=
          mem_exportRoots.mp (mem_successors.mp (List.mem_reverse.mp hkey))
        exact .step hreached hmem hcarries hfirst
      · exact h.sound key (Or.inr (List.mem_cons_of_mem _ hkey))
  closed key hkey target htarget := by
    rcases List.mem_cons.mp hkey with rfl | hkey
    · exact Or.inr (List.mem_append_left _ (List.mem_reverse.mpr (mem_successors.mpr htarget)))
    · rcases h.closed key hkey target htarget with h | h
      · exact Or.inl (List.mem_cons_of_mem _ h)
      · rcases List.mem_cons.mp h with rfl | h
        · exact Or.inl (by simp)
        · exact Or.inr (List.mem_append_right _ h)
  edges := (h.edges.append_right _).trans (visitRoot_perm hroot graph)

/-- The worklist ends, and has found the imports of the modules reached over first targets. -/
theorem effectiveEdges_eq (modules : List ModuleArtifact) (graph : List ImportEdge) (module : ModuleKey) (extra : ℕ) :
    ∃ edges seen, effectiveEdges modules graph module (graph.length + 1 + extra) = some edges ∧
      (∀ key, key ∈ seen ↔ Reaches graph (namesFirst modules) module key) ∧
      edges.Perm (carriedBy graph module seen) := by
  have hroots : (unvisited (exportRoots modules graph module) []).length ≤ graph.length :=
    (List.length_filter_le _ _).trans (by rw [exportRoots, List.length_map]; exact List.length_filter_le _ _)
  have hfuel : [module].length + (unvisited (exportRoots modules graph module) []).length ≤
      graph.length + 1 + extra := by
    rw [List.length_singleton]
    omega
  obtain ⟨seen, hseen⟩ := drain_rule (Collecting modules graph module) Collecting.skip Collecting.enter _ _ _ _
    hfuel Collecting.start
  refine ⟨_, seen, drain?_eq_some _ _ _ _ hfuel, fun key => ⟨fun h => hseen.sound key (Or.inl h), ?_⟩, hseen.edges⟩
  intro h
  induction h with
  | root => simpa using hseen.root
  | step _ hmem hcarries hfirst ih =>
    simpa using hseen.closed _ ih _ (mem_exportRoots.mpr ⟨_, hmem, rfl, hcarries, hfirst⟩)

end

/-! ### Every symbol once -/

theorem Resolving.absent_iff {s : Resolving} {symbol : BoundSymbol} :
    symbol ∉ s.bound ∧ symbol ∉ s.refused ↔ s.outcomes symbol = 0 := by
  rw [outcomes, Nat.add_eq_zero_iff, List.count_eq_zero, List.count_eq_zero]

theorem Resolving.settled_iff {s : Resolving} (hs : s.Justified) {symbol : BoundSymbol} :
    s.Settled symbol ↔ s.outcomes symbol = 1 := by
  rw [Settled, ← List.count_eq_zero, ← List.count_eq_zero, outcomes]
  constructor
  · rintro (h | ⟨hbound, hrefused, -⟩) <;> omega
  · intro h
    rcases Nat.eq_zero_or_pos (s.refused.count symbol) with hrefused | hrefused
    · exact Or.inl ⟨by omega, hrefused⟩
    · refine Or.inr ⟨by omega, by omega, ?_⟩
      obtain ⟨r, hr, hsymbol⟩ := List.mem_filterMap.mp (List.count_pos_iff.mp hrefused)
      cases r with
      | missingSelector selector importKey => cases hsymbol
      | duplicate b =>
        obtain ⟨other, hmem, hscope, hname⟩ := hs b hr
        rw [Report.symbol, ResolvedName.symbol] at hsymbol
        split at hsymbol
        · rename_i hb
          obtain rfl := Option.some.inj hsymbol
          refine ⟨other, hmem, hscope.trans hb.1, hname, fun hother => ?_⟩
          have hbound : (b.name, b.target) ∈ s.bound := List.mem_filterMap.mpr ⟨other, hmem, hother⟩
          have := List.count_pos_iff.mpr hbound
          omega
        · cases hsymbol

section
variable {functionSignature : ParsedSnapshot → Declaration → Text} {modules : List ModuleArtifact}
  {graph : List ImportEdge} {m : ModuleArtifact} {seen : List ModuleKey}

theorem mem_carriedBy (hseen : ∀ key, key ∈ seen ↔ Reaches graph (namesFirst modules) m.key key) {e : ImportEdge} :
    e ∈ carriedBy graph m.key seen ↔ e ∈ graph ∧ Effective graph (namesFirst modules) m.key e := by
  simp [carriedBy, Effective, hseen]

theorem mem_brought (hseen : ∀ key, key ∈ seen ↔ Reaches graph (namesFirst modules) m.key key) {symbol : BoundSymbol} :
    symbol ∈ declares m ++ (carriedBy graph m.key seen).flatMap (brings functionSignature modules) ↔
      Belongs functionSignature modules graph (namesFirst modules) m symbol := by
  simp [Belongs, mem_carriedBy hseen, and_assoc]

theorem nodup_brought (hseen : ∀ key, key ∈ seen ↔ Reaches graph (namesFirst modules) m.key key) :
    (declares m ++ (carriedBy graph m.key seen).flatMap (brings functionSignature modules)).Nodup ↔
      BroughtOnce functionSignature modules graph m := by
  have hpair : (carriedBy graph m.key seen).Pairwise
      (fun e f => (brings functionSignature modules e).Disjoint (brings functionSignature modules f)) ↔
      graph.Pairwise fun e f => Effective graph (namesFirst modules) m.key e →
        Effective graph (namesFirst modules) m.key f →
          (brings functionSignature modules e).Disjoint (brings functionSignature modules f) := by
    rw [carriedBy, List.pairwise_filter]
    simp [Effective, hseen]
  rw [List.nodup_append', List.nodup_flatMap]
  constructor
  · rintro ⟨hown, ⟨heach, hapart⟩, hdisjoint⟩
    refine ⟨hown, fun e he heffective => ?_, hpair.mp hapart⟩
    have hmem := (mem_carriedBy hseen).mpr ⟨he, heffective⟩
    exact ⟨heach e hmem, fun symbol hdeclared hbrought =>
      hdisjoint hdeclared (List.mem_flatMap.mpr ⟨e, hmem, hbrought⟩)⟩
  · intro h
    refine ⟨h.own, ⟨fun e he => ?_, hpair.mpr h.apart⟩, fun symbol hdeclared hbrought => ?_⟩
    · obtain ⟨hmem, heffective⟩ := (mem_carriedBy hseen).mp he
      exact (h.each e hmem heffective).1
    · obtain ⟨e, he, hbrings⟩ := List.mem_flatMap.mp hbrought
      obtain ⟨hmem, heffective⟩ := (mem_carriedBy hseen).mp he
      exact (h.each e hmem heffective).2 hdeclared hbrings

end

/-- The resolver ends, and the scope of a module is faithful to the import graph exactly when the first
    targets lead to every symbol that belongs there and no symbol is brought twice. -/
theorem scope_faithful_iff (functionSignature : ParsedSnapshot → Declaration → Text)
    (modules : List ModuleArtifact) (graph : List ImportEdge) (m : ModuleArtifact) (extra : ℕ) :
    ∃ s, resolveModule functionSignature modules graph (graph.length + 1 + extra) m = some s ∧
      (Faithful functionSignature modules graph m s ↔
        (∀ symbol, Belongs functionSignature modules graph (namesTarget modules) m symbol ↔
          Belongs functionSignature modules graph (namesFirst modules) m symbol) ∧
        BroughtOnce functionSignature modules graph m) := by
  obtain ⟨edges, seen, hedges, hseen, hperm⟩ := effectiveEdges_eq modules graph m.key extra
  refine ⟨_, by rw [resolveModule, hedges]; rfl, ?_⟩
  set s := edges.foldl (addImport functionSignature modules) (ownBindings functionSignature m) with hs
  have hadds := (ownBindings_adds functionSignature m).trans (Adds.foldl edges _ fun s e _ =>
    @addImport_adds functionSignature modules s e)
  have hjustified : s.Justified := hadds.justified fun b hb => absurd hb List.not_mem_nil
  have hcount : ∀ symbol, s.outcomes symbol =
      (declares m ++ (carriedBy graph m.key seen).flatMap (brings functionSignature modules)).count symbol := by
    intro symbol
    rw [hadds.outcomes symbol, ((hperm.flatMap_right _).append_left _).count_eq]
    exact Nat.zero_add _
  have hfirst := fun symbol => @mem_brought functionSignature modules graph m seen hseen symbol
  rw [← nodup_brought hseen]
  constructor
  · intro hfaithful
    have hdecided : ∀ symbol, s.outcomes symbol ≤ 1 ∧
        (s.outcomes symbol = 1 ↔ Belongs functionSignature modules graph (namesTarget modules) m symbol) := by
      intro symbol
      by_cases hbelongs : Belongs functionSignature modules graph (namesTarget modules) m symbol
      · have hone : s.outcomes symbol = 1 := (settled_iff hjustified).mp ((hfaithful symbol).1 hbelongs)
        simp [hone, hbelongs]
      · have hzero : s.outcomes symbol = 0 := absent_iff.mp ((hfaithful symbol).2 hbelongs)
        simp [hzero, hbelongs]
    refine ⟨fun symbol => ?_, List.nodup_iff_count_le_one.mpr fun symbol => ?_⟩
    · rw [← (hdecided symbol).2, ← hfirst symbol, ← List.count_pos_iff, ← hcount symbol]
      have := (hdecided symbol).1
      omega
    · exact (hcount symbol).symm.trans_le (hdecided symbol).1
  · rintro ⟨hbelongs, hnodup⟩ symbol
    have hle := List.nodup_iff_count_le_one.mp hnodup symbol
    rw [settled_iff hjustified, absent_iff, hcount symbol, hbelongs symbol, ← hfirst symbol]
    refine ⟨fun hmem => ?_, fun hmem => List.count_eq_zero.mpr hmem⟩
    have := List.count_pos_iff.mpr hmem
    omega

/-- Four modules: `a` imports from `b` and `c`, and both export `d`, which declares a public struct. -/
def diamondModules : List ModuleArtifact :=
  let declares (key : ModuleKey) (declarations : List Declaration) : ModuleArtifact :=
    { key, frontend := { toFrontendSnapshot := ⟨[], [], [], []⟩, declarations } }
  [declares "a" [], declares "b" [], declares "c" [],
    declares "d" [{ id := 1, id_ne_zero := Nat.one_ne_zero, kind := .struct, visibility := .public, name := [88] }]]

def diamondGraph : List ImportEdge :=
  let takes (importer target : ModuleKey) : ImportEdge :=
    { importer, targets := [target], request := { isFrom := true } }
  let exports (importer target : ModuleKey) : ImportEdge :=
    { importer, targets := [target], request := { isExport := true } }
  [takes "a" "b", takes "a" "c", exports "b" "d", exports "c" "d"]

/-- The struct is bound, and then reported as a duplicate of itself. -/
theorem diamond_reports_itself :
    ∃ m ∈ diamondModules, ∃ s, resolveModule (fun _ _ => []) diamondModules diamondGraph 5 m = some s ∧
      ¬Faithful (fun _ _ => []) diamondModules diamondGraph m s := by
  refine ⟨diamondModules[0], List.getElem_mem _, _, rfl, fun h => ?_⟩
  have hsettled := (h ([88], { module := "d", localSymbol := 1 })).1 ?_
  · revert hsettled
    rw [Resolving.Settled]
    decide +kernel
  · refine Or.inr ⟨diamondGraph[2], List.getElem_mem _, ⟨?_, rfl⟩, by decide⟩
    exact .step (e := diamondGraph[0]) .root (List.getElem_mem _) rfl ⟨by decide, rfl⟩

end Zith.Session
