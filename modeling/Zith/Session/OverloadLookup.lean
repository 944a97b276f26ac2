import Mathlib.Order.Interval.Finset.Nat
import Zith.Lib.Scan
import Zith.Session.SymbolResolution

/-! The name expressions of `FrontendContext::buildResolutions`, and `lookupExprResolution`. An entry of
    `resolution.expressions` says what one name refers to; its span is that of the name. -/

namespace Zith.Session
open Zith.Frontend

/-- `lookupBinding`: the scopes from the inside out, and last the module. A chain of scopes that does not
    come back to itself is no longer than the table. -/
def lookupBindingFrom (bindings : List ResolvedName) (scopes : List Scope) (name : Text) :
    ℕ → ScopeId → Option ResolvedName
  | 0, _ => none
  | fuel + 1, current =>
    match bindings.find? fun b => b.scope == current && b.name == name with
    | some b => some b
    | none =>
      if current = 0 then none
      else
        match entry scopes current with
        | some scope => lookupBindingFrom bindings scopes name fuel scope.parent
        | none => lookupBindingFrom bindings scopes name fuel 0

def lookupBinding (bindings : List ResolvedName) (name : Text) (scope : ScopeId) (scopes : List Scope) :
    Option ResolvedName :=
  lookupBindingFrom bindings scopes name (scopes.length + 2) scope

section
variable (m : ModuleArtifact) (bindings : List ResolvedName)

/-- Whether an expression is written inside the default value of a variant of the enum. -/
def insideEnumDefault (f : ParsedSnapshot) (d : Declaration) (e : Expression) : Bool :=
  d.parameters.any fun variant =>
    (entry f.expressions variant.defaultValue).any fun value =>
      value.span.start ≤ e.span.start && e.span.stop ≤ value.span.stop

/-- The enum of a variant that is named in a default value of it. -/
def variantEnum (f : ParsedSnapshot) (e : Expression) : Option Declaration :=
  if e.scope = 0 then none
  else
    f.declarations.find? fun d =>
      d.kind = .enum && insideEnumDefault f d e && d.parameters.any fun variant => variant.name = e.text

def variantEntry (e : Expression) (d : Declaration) : ResolvedName where
  name := d.name
  kind := .declaration
  span := e.span
  target := { module := m.key, localSymbol := d.id }
  declaration := d.id
  scope := e.scope
  expr := e.id
  declKind := .enum

def nameEntry (e : Expression) : ResolvedName :=
  match lookupBinding bindings e.text e.scope m.frontend.scopes with
  | some b => { b with span := e.span, scope := e.scope, expr := e.id }
  | none => { name := e.text, span := e.span, scope := e.scope, expr := e.id }

/-- What one round of the loop over the expressions records of a name. -/
def nameEntries (e : Expression) : List ResolvedName :=
  if m.frontend.isMacroTemplateExpr e.id || e.kind ≠ .name then []
  else ((variantEnum m.frontend e).map (variantEntry m e)).toList ++ [nameEntry m bindings e]

def nameResolutions : List ResolvedName := m.frontend.expressions.flatMap (nameEntries m bindings)

end

/-- The order of the entries of one expression. -/
def entryOrder (a b : ResolvedName) : Prop :=
  a.span.start < b.span.start ∨ a.span.start = b.span.start ∧ ¬b.name < a.name

instance : DecidableRel entryOrder := fun _ _ => inferInstanceAs (Decidable (_ ∨ _))

/-- `lookupExprResolution`: the first entry of the expression, when it has a name. -/
def lookupExprResolution (entries : List ResolvedName) (id : ExprId) : Option ResolvedName :=
  if id = 0 then none
  else (((entries.filter fun r => r.expr = id).insertionSort entryOrder).head?).filter fun r => !r.name.isEmpty

/-- What a name refers to. -/
def resolutionOf (m : ModuleArtifact) (bindings : List ResolvedName) (e : Expression) : Option ResolvedName :=
  lookupExprResolution (nameResolutions m bindings) e.id

/-- The ids of a table are the places of its entries. -/
def Numbered (expressions : List Expression) : Prop := ∀ i e, expressions[i]? = some e → e.id = i + 1

theorem Numbered.unique {expressions : List Expression} (h : Numbered expressions) {a b : Expression}
    (ha : a ∈ expressions) (hb : b ∈ expressions) (hid : a.id = b.id) : a = b := by
  obtain ⟨i, hi⟩ := List.getElem?_of_mem ha
  obtain ⟨j, hj⟩ := List.getElem?_of_mem hb
  obtain rfl : i = j := Nat.succ.inj ((h i a hi).symm.trans (hid.trans (h j b hj)))
  exact Option.some.inj (hi.symm.trans hj)

section
variable {m : ModuleArtifact} {bindings : List ResolvedName}

theorem span_of_mem_nameEntries {e : Expression} {r : ResolvedName} (h : r ∈ nameEntries m bindings e) :
    r.expr = e.id ∧ r.span = e.span := by
  rw [nameEntries] at h
  split at h
  · simp at h
  · rcases List.mem_append.mp h with hvariant | hname
    · obtain ⟨d, -, rfl⟩ := Option.map_eq_some_iff.mp (Option.mem_toList.mp hvariant)
      exact ⟨rfl, rfl⟩
    · obtain rfl := List.mem_singleton.mp hname
      rw [nameEntry]
      cases lookupBinding bindings e.text e.scope m.frontend.scopes <;> exact ⟨rfl, rfl⟩

/-- The entry of a name has the span of the name, not that of the binding it refers to. -/
theorem span_of_resolutionOf (hids : Numbered m.frontend.expressions) {e : Expression} {r : ResolvedName}
    (he : e ∈ m.frontend.expressions) (h : resolutionOf m bindings e = some r) : r.span = e.span := by
  rw [resolutionOf, lookupExprResolution] at h
  split at h
  · cases h
  · obtain ⟨hhead, -⟩ := Option.filter_eq_some_iff.mp h
    have hmem := List.mem_of_mem_head? hhead
    rw [List.mem_insertionSort, List.mem_filter, decide_eq_true_eq] at hmem
    obtain ⟨hentry, hid⟩ := hmem
    obtain ⟨e', he', hr⟩ := List.mem_flatMap.mp hentry
    obtain ⟨hexpr, hspan⟩ := span_of_mem_nameEntries hr
    rw [hids.unique he he' (hid.symm.trans hexpr)]
    exact hspan

end

end Zith.Session

/-! `lookupOverloads` beside `lookupBinding`. Both walk the scopes from the inside out and stop at the first
    one that declares the name, or at the module, whose scope is 0. `lookupBinding` walks to the end;
    `lookupOverloads` gives up after `lookupGuard` scopes, and then returns nothing.

        scope ──▶ parent ──▶ … ──▶ 0      (a scope outside the table is followed by 0) -/

namespace Zith.Session
open Zith.Frontend
open Zith.Lib (scan scan_eq_some_iff scan_eq_none_iff)

/-! ### The walk -/

/-- The scope around a scope. The module is around every scope and has none around it. -/
def outer (scopes : List Scope) (current : ScopeId) : ScopeId :=
  match entry scopes current with
  | some scope => scope.parent
  | none => 0

/-- No scope is around itself. -/
def AcyclicScopes (scopes : List Scope) : Prop := ∀ id, id ≠ 0 → ∀ n, (outer scopes)^[n + 1] id ≠ id

/-- The bindings of a name in a scope. -/
def declaredIn (bindings : List ResolvedName) (name : Text) (current : ScopeId) : List ResolvedName :=
  bindings.filter fun b => b.scope == current && b.name == name

def lookupGuard : ℕ := 256

/-- `lookupOverloads`, with the number of scopes it still looks at. -/
def lookupOverloadsFrom (bindings : List ResolvedName) (scopes : List Scope) (name : Text) :
    ℕ → ScopeId → List ResolvedName
  | 0, _ => []
  | guard + 1, current =>
    let result := declaredIn bindings name current
    if result ≠ [] ∨ current = 0 then result
    else
      match entry scopes current with
      | some scope => lookupOverloadsFrom bindings scopes name guard scope.parent
      | none => lookupOverloadsFrom bindings scopes name guard 0

def lookupOverloads (bindings : List ResolvedName) (name : Text) (scope : ScopeId) (scopes : List Scope) :
    List ResolvedName :=
  lookupOverloadsFrom bindings scopes name lookupGuard scope

section
variable {bindings : List ResolvedName} {scopes : List Scope} {name : Text}

theorem outer_zero : outer scopes 0 = 0 := by simp [outer, entry]

/-- A scope that comes after the one around it in the table. -/
theorem acyclicScopes_of_lt (h : ∀ id, id ≠ 0 → outer scopes id < id) : AcyclicScopes scopes := by
  have hle : ∀ id, outer scopes id ≤ id := fun id => by
    rcases Nat.eq_zero_or_pos id with rfl | hpos
    · exact (outer_zero : outer scopes 0 = 0).le
    · exact (h id hpos.ne').le
  have hiter : ∀ n id, (outer scopes)^[n] id ≤ id := by
    intro n
    induction n with
    | zero => exact fun id => le_rfl
    | succ n ih => exact fun id => (ih _).trans (hle id)
  exact fun id hne n => ((hiter n _).trans_lt (h id hne)).ne

theorem entry_of_outer_ne_zero {current : ScopeId} (h : outer scopes current ≠ 0) :
    current ∈ Finset.Icc 1 scopes.length := by
  rw [outer] at h
  cases hscope : entry scopes current with
  | none => exact absurd (by rw [hscope]) h
  | some scope =>
    rw [entry] at hscope
    by_cases hzero : current = 0
    · rw [if_pos hzero] at hscope
      cases hscope
    · rw [if_neg hzero] at hscope
      obtain ⟨hlt, -⟩ := List.getElem?_eq_some_iff.mp hscope
      exact Finset.mem_Icc.mpr ⟨Nat.pos_of_ne_zero hzero, Nat.le_of_pred_lt hlt⟩

/-- A walk over an acyclic table comes to the module: the scopes before it are different entries. -/
theorem exists_outer_eq_zero (h : AcyclicScopes scopes) (current : ScopeId) :
    ∃ d < scopes.length + 2, (outer scopes)^[d] current = 0 := by
  by_contra hnone
  push Not at hnone
  have hmaps : ∀ i ∈ Finset.range (scopes.length + 1),
      (outer scopes)^[i] current ∈ Finset.Icc 1 scopes.length := by
    intro i hi
    have hnext := hnone (i + 1) (by have := Finset.mem_range.mp hi; omega)
    rw [Function.iterate_succ_apply'] at hnext
    exact entry_of_outer_ne_zero hnext
  obtain ⟨i, hi, j, hj, hne, heq⟩ := Finset.exists_ne_map_eq_of_card_lt_of_maps_to (by simp) hmaps
  wlog hlt : i < j generalizing i j
  · exact this j hj i hi hne.symm heq.symm (by omega)
  have hi' := hnone i (by have := Finset.mem_range.mp hi; omega)
  refine h _ hi' (j - i - 1) ?_
  rw [← Function.iterate_add_apply, heq]
  congr 2
  omega

/-- What ends a walk: a scope that declares the name, or the module. -/
def stops (bindings : List ResolvedName) (name : Text) (current : ScopeId) : Bool :=
  declaredIn bindings name current ≠ [] || current = 0

theorem lookupOverloadsFrom_eq_scan : ∀ guard current, lookupOverloadsFrom bindings scopes name guard current =
      ((scan (outer scopes) (stops bindings name) guard current).map (declaredIn bindings name)).getD []
  | 0, current => rfl
  | guard + 1, current => by
    have hstops : stops bindings name current = true ↔ declaredIn bindings name current ≠ [] ∨ current = 0 := by
      simp [stops]
    rw [lookupOverloadsFrom, scan]
    by_cases hs : declaredIn bindings name current ≠ [] ∨ current = 0
    · rw [if_pos (hstops.mpr hs)]
      exact if_pos hs
    · rw [if_neg (mt hstops.mp hs), ← lookupOverloadsFrom_eq_scan guard, outer]
      simp only [if_neg hs]
      cases entry scopes current <;> rfl

theorem find?_eq_head?_declaredIn (current : ScopeId) :
    (bindings.find? fun b => b.scope == current && b.name == name) = (declaredIn bindings name current).head? := by
  rw [declaredIn, List.head?_filter]

theorem lookupBindingFrom_eq_scan : ∀ fuel current, lookupBindingFrom bindings scopes name fuel current =
      (scan (outer scopes) (stops bindings name) fuel current).bind fun s => (declaredIn bindings name s).head?
  | 0, current => rfl
  | fuel + 1, current => by
    rw [lookupBindingFrom, scan, find?_eq_head?_declaredIn]
    cases hd : declaredIn bindings name current with
    | cons b rest => simp [stops, hd]
    | nil =>
      by_cases hzero : current = 0
      · subst hzero
        simp [stops, hd]
      · have hs : stops bindings name current = false := by simp [stops, hd, hzero]
        simp only [List.head?_nil, if_neg hzero, hs, Bool.false_eq_true, if_false]
        rw [← lookupBindingFrom_eq_scan fuel, outer]
        cases entry scopes current <;> rfl

end

/-! ### The nearest declaring scope -/

section
variable (bindings : List ResolvedName) (scopes : List Scope) (name : Text) (current : ScopeId)

/-- The nearest scope that declares the name is this many scopes out. -/
structure Nearest (depth : ℕ) : Prop where
  declares : declaredIn bindings name ((outer scopes)^[depth] current) ≠ []
  first : ∀ j < depth, declaredIn bindings name ((outer scopes)^[j] current) = []

/-- The two lookups find the bindings of the nearest scope that declares the name. -/
structure LookupsAgree : Prop where
  nearest : ∀ depth, Nearest bindings scopes name current depth →
    lookupOverloads bindings name current scopes = declaredIn bindings name ((outer scopes)^[depth] current)
  undeclared : (∀ depth, ¬Nearest bindings scopes name current depth) →
    lookupOverloads bindings name current scopes = []
  binding : ∀ b, lookupBinding bindings name current scopes = some b → b ∈ lookupOverloads bindings name current scopes
  empty : lookupBinding bindings name current scopes = none ↔ lookupOverloads bindings name current scopes = []

end

section
variable {bindings : List ResolvedName} {scopes : List Scope} {name : Text} {current : ScopeId} {depth fuel : ℕ}

/-- Past the module the walk stays where it is. -/
theorem outer_iterate_of_le {i j : ℕ} (hij : i ≤ j) (h : (outer scopes)^[i] current = 0) :
    (outer scopes)^[j] current = 0 := by
  obtain ⟨k, rfl⟩ := Nat.exists_eq_add_of_le' hij
  rw [Function.iterate_add_apply, h]
  exact Function.iterate_fixed outer_zero k

/-- The nearest scope is not looked for beyond the module. -/
theorem Nearest.before (h : Nearest bindings scopes name current depth) {j : ℕ} (hj : j < depth) :
    stops bindings name ((outer scopes)^[j] current) = false := by
  have hne : (outer scopes)^[j] current ≠ 0 := by
    intro hzero
    apply h.declares
    rw [outer_iterate_of_le hj.le hzero, ← hzero]
    exact h.first j hj
  simp [stops, h.first j hj, hne]

theorem Nearest.stops (h : Nearest bindings scopes name current depth) :
    stops bindings name ((outer scopes)^[depth] current) = true := by
  simp [Session.stops, h.declares]

theorem Nearest.scan_eq (h : Nearest bindings scopes name current depth) (hlt : depth < fuel) :
    scan (outer scopes) (Session.stops bindings name) fuel current = some ((outer scopes)^[depth] current) :=
  scan_eq_some_iff.mpr ⟨depth, hlt, rfl, h.stops, fun _ hj => h.before hj⟩

theorem Nearest.scan_eq_none (h : Nearest bindings scopes name current depth) (hle : fuel ≤ depth) :
    scan (outer scopes) (Session.stops bindings name) fuel current = none :=
  scan_eq_none_iff.mpr fun _ hd => h.before (hd.trans_le hle)

/-- Where no scope declares the name, a walk ends at the module or not at all. -/
theorem declared_of_scan (hnone : ∀ depth, ¬Nearest bindings scopes name current depth) {s : ScopeId}
    (h : scan (outer scopes) (stops bindings name) fuel current = some s) : declaredIn bindings name s = [] := by
  obtain ⟨d, -, rfl, -, hfirst⟩ := scan_eq_some_iff.mp h
  by_contra hd
  refine hnone d ⟨hd, fun j hj => ?_⟩
  have hj' := hfirst j hj
  simp only [stops, Bool.or_eq_false_iff, decide_eq_false_iff_not, not_not] at hj'
  exact hj'.1

/-- The module is not farther than the table is long, and the nearest scope is not farther than it. -/
theorem Nearest.lt_length (h : Nearest bindings scopes name current depth) (hacyclic : AcyclicScopes scopes) :
    depth < scopes.length + 2 := by
  obtain ⟨d, hd, hzero⟩ := exists_outer_eq_zero hacyclic current
  by_contra hle
  have := h.before (j := d) (by omega)
  simp [Session.stops, hzero] at this

theorem lookupBinding_of_nearest (hacyclic : AcyclicScopes scopes) (h : Nearest bindings scopes name current depth) :
    lookupBinding bindings name current scopes = (declaredIn bindings name ((outer scopes)^[depth] current)).head? := by
  rw [lookupBinding, lookupBindingFrom_eq_scan, h.scan_eq (h.lt_length hacyclic)]
  rfl

theorem lookupBinding_of_undeclared (hnone : ∀ depth, ¬Nearest bindings scopes name current depth) :
    lookupBinding bindings name current scopes = none := by
  rw [lookupBinding, lookupBindingFrom_eq_scan]
  cases hscan : scan (outer scopes) (stops bindings name) (scopes.length + 2) current with
  | none => rfl
  | some s => simp [declared_of_scan hnone hscan]

theorem lookupOverloads_of_undeclared (hnone : ∀ depth, ¬Nearest bindings scopes name current depth) :
    lookupOverloads bindings name current scopes = [] := by
  rw [lookupOverloads, lookupOverloadsFrom_eq_scan]
  cases hscan : scan (outer scopes) (stops bindings name) lookupGuard current with
  | none => rfl
  | some s => simp [declared_of_scan hnone hscan]

/-- The nearest scope is found when it is among the first ones. -/
theorem lookupOverloads_of_nearest (h : Nearest bindings scopes name current depth) :
    lookupOverloads bindings name current scopes =
      if depth < lookupGuard then declaredIn bindings name ((outer scopes)^[depth] current) else [] := by
  rw [lookupOverloads, lookupOverloadsFrom_eq_scan]
  by_cases hlt : depth < lookupGuard
  · rw [if_pos hlt, h.scan_eq hlt]
    rfl
  · rw [if_neg hlt, h.scan_eq_none (by omega)]
    rfl

theorem Nearest.unique {i j : ℕ} (hi : Nearest bindings scopes name current i)
    (hj : Nearest bindings scopes name current j) : i = j := by
  rcases Nat.lt_trichotomy i j with hlt | heq | hlt
  · exact absurd (hj.first i hlt) hi.declares
  · exact heq
  · exact absurd (hi.first j hlt) hj.declares

/-- The two lookups agree exactly where the nearest scope that declares the name, if there is one, is among
    the scopes that `lookupOverloads` looks at. -/
theorem lookupsAgree_iff (hacyclic : AcyclicScopes scopes) : LookupsAgree bindings scopes name current ↔
      ∀ depth, Nearest bindings scopes name current depth → depth < lookupGuard := by
  constructor
  · intro hagree depth h
    by_contra hge
    have hempty : lookupOverloads bindings name current scopes = [] := by
      rw [lookupOverloads_of_nearest h, if_neg hge]
    exact h.declares ((hagree.nearest depth h).symm.trans hempty)
  · intro hnear
    by_cases hnone : ∀ depth, ¬Nearest bindings scopes name current depth
    · have hbinding := lookupBinding_of_undeclared hnone
      have hempty := lookupOverloads_of_undeclared hnone
      exact ⟨fun depth h => absurd h (hnone depth), fun _ => hempty, fun b hb => by simp [hbinding] at hb,
        by simp [hbinding, hempty]⟩
    · push Not at hnone
      obtain ⟨depth, h⟩ := hnone
      have hbinding := lookupBinding_of_nearest hacyclic h
      have hover : lookupOverloads bindings name current scopes =
          declaredIn bindings name ((outer scopes)^[depth] current) := by
        rw [lookupOverloads_of_nearest h, if_pos (hnear depth h)]
      refine ⟨fun d hd => ?_, fun hno => absurd h (hno depth), fun b hb => ?_, ?_⟩
      · rw [hd.unique h]
        exact hover
      · rw [hover]
        exact List.mem_of_mem_head? (hbinding ▸ hb)
      · rw [hbinding, hover, List.head?_eq_none_iff]

end

/-! ### A chain that is longer than the guard -/

/-- As many scopes as `lookupOverloads` looks at, each in the one before it, the first one in the module. -/
def nestedScopes : List Scope := (List.range lookupGuard).map fun i => { id := i + 1, parent := i }

/-- A name of the module. -/
def moduleBinding : ResolvedName := { name := text "f", kind := .declaration, scope := 0 }

theorem outer_nestedScopes {id : ℕ} (hle : id ≤ lookupGuard) : outer nestedScopes id = id - 1 := by
  rcases Nat.eq_zero_or_pos id with rfl | hpos
  · exact outer_zero
  · have hentry : entry nestedScopes id = some { id := id - 1 + 1, parent := id - 1 } := by
      rw [entry, if_neg hpos.ne', nestedScopes, List.getElem?_map, List.getElem?_range (by omega)]
      rfl
    rw [outer, hentry]

theorem nestedScopes_acyclic : AcyclicScopes nestedScopes := by
  apply acyclicScopes_of_lt
  intro (id : ℕ) hne
  by_cases hle : id ≤ lookupGuard
  · rw [outer_nestedScopes hle]
    exact Nat.sub_lt (Nat.pos_of_ne_zero hne) Nat.one_pos
  · have hentry : entry nestedScopes id = none := by
      rw [entry, if_neg hne, List.getElem?_eq_none]
      simp only [nestedScopes, List.length_map, List.length_range]
      omega
    rw [outer, hentry]
    exact Nat.pos_of_ne_zero hne

theorem outer_nestedScopes_iterate {id : ℕ} (hle : id ≤ lookupGuard) : ∀ n : ℕ, (outer nestedScopes)^[n] id = id - n
  | 0 => rfl
  | n + 1 => by
    rw [Function.iterate_succ_apply', outer_nestedScopes_iterate hle n, outer_nestedScopes (by omega)]
    exact Nat.sub_sub id n 1

/-- The name of the module is as far away as the scopes are deep. -/
theorem nearest_nestedScopes {id : ℕ} (hle : id ≤ lookupGuard) :
    Nearest [moduleBinding] nestedScopes (text "f") id id := by
  refine ⟨?_, fun j hj => ?_⟩
  · rw [outer_nestedScopes_iterate hle, Nat.sub_self]
    simp [declaredIn, moduleBinding]
  · rw [outer_nestedScopes_iterate hle]
    simp only [declaredIn, moduleBinding, List.filter_eq_nil_iff, List.mem_singleton, forall_eq,
      Bool.and_eq_true, beq_iff_eq, not_and]
    exact fun hzero => absurd hzero.symm (Nat.sub_ne_zero_of_lt hj)

/-- One scope less, and the name is found. -/
theorem lookupsAgree_nested : LookupsAgree [moduleBinding] nestedScopes (text "f") 255 :=
  (lookupsAgree_iff nestedScopes_acyclic).mpr fun depth h =>
    (h.unique (nearest_nestedScopes (by decide))).trans_lt (by decide)

/-- The innermost scope does not see the name among the overloads, and `lookupBinding` finds it. -/
theorem lookups_differ_nested : AcyclicScopes nestedScopes ∧
    lookupBinding [moduleBinding] (text "f") 256 nestedScopes = some moduleBinding ∧
    lookupOverloads [moduleBinding] (text "f") 256 nestedScopes = [] ∧
    ¬LookupsAgree [moduleBinding] nestedScopes (text "f") 256 := by
  have hnear : Nearest [moduleBinding] nestedScopes (text "f") 256 256 := nearest_nestedScopes (by decide)
  have hbinding : lookupBinding [moduleBinding] (text "f") 256 nestedScopes = some moduleBinding := by
    rw [lookupBinding_of_nearest nestedScopes_acyclic hnear, outer_nestedScopes_iterate (by decide)]
    simp [declaredIn, moduleBinding]
  have hover : lookupOverloads [moduleBinding] (text "f") 256 nestedScopes = [] := by
    rw [lookupOverloads_of_nearest hnear, if_neg (by decide)]
  refine ⟨nestedScopes_acyclic, hbinding, hover, fun hagree => ?_⟩
  rw [hagree.empty.mpr hover] at hbinding
  cases hbinding

end Zith.Session
