import Mathlib.Data.List.Sort
import Zith.Frontend.Snapshot
import Zith.Lib.DepthFirst

/-! `SemaPipeline::inferFunctionReturnTypes`: a depth-first search along the calls between the functions of all modules.
    It reports the functions of a cycle when it comes back to its stack, and infers the others when it leaves them. -/

namespace Zith.Sema
open Relation Zith.Frontend Zith.Lib.DepthFirst

/-- What `keyFor` writes down: the module, a separator that is no digit, and the digits of the id. -/
structure FunctionKey where
  module : Text
  decl : DeclId
  deriving DecidableEq

/-- `targets` are the functions the calls in the body of a declaration go to, as `collectCalls` comes to them. -/
structure CheckedModule where
  name : Text
  declarations : List Declaration
  targets : DeclId → List FunctionKey

structure FunctionNode where
  module : Text
  decl : Declaration
  targets : List FunctionKey
  deriving DecidableEq

def FunctionNode.key (f : FunctionNode) : FunctionKey := ⟨f.module, f.decl.id⟩

def needsInference (decl : Declaration) : Bool :=
  decl.kind == .function && decl.body != 0 && decl.declaredType == 0 && !decl.isExtern && decl.functionKind != .state &&
    decl.functionKind != .const && decl.functionKind != .externC

def FunctionNode.inferReturn (f : FunctionNode) : Bool := needsInference f.decl

def functionsOf (modules : List CheckedModule) : List FunctionNode :=
  modules.flatMap fun m =>
    (m.declarations.filter fun decl => decl.kind == .function && decl.body != 0 && !decl.isExtern).map fun decl =>
      ⟨m.name, decl, m.targets decl.id⟩

section
variable (functions : List FunctionNode)

def functionByKey (key : FunctionKey) : Option ℕ := functions.findIdx? fun f => f.key == key

/-- The calls of a function to functions that have a node, in order and each once. -/
def callees (index : ℕ) : List ℕ :=
  match functions[index]? with
  | some f => ((f.targets.filterMap (functionByKey functions)).insertionSort (· ≤ ·)).dedup
  | none => []

inductive VisitState where
  | unseen | «open» | closed
  deriving DecidableEq

/-- What the search does to a function: it reports an error at its span, or calls `inferFunctionReturnType`. -/
inductive InferenceEvent where
  | report (function : FunctionKey) (span : TextSpan) (message : Text)
  | infer (function : FunctionKey)
  deriving DecidableEq

structure CallSearch where
  visitState : ℕ → VisitState := fun _ => .unseen
  stack : List ℕ := []
  recursiveInference : ℕ → Bool := fun _ => false
  events : List InferenceEvent := []

def recursionError (f : FunctionNode) : InferenceEvent :=
  .report f.key f.decl.span
    (text "recursive call cycle requires an explicit return type for '" ++ f.decl.name ++ text "'")

def reportMember (s : CallSearch) (member : ℕ) : CallSearch :=
  match functions[member]? with
  | some f =>
    if f.inferReturn && !s.recursiveInference member then
      { s with recursiveInference := Function.update s.recursiveInference member true
               events := s.events ++ [recursionError f] }
    else s
  | none => s

def inferMember (s : CallSearch) (index : ℕ) : CallSearch :=
  match functions[index]? with
  | some f =>
    if f.inferReturn && !s.recursiveInference index then { s with events := s.events ++ [.infer f.key] } else s
  | none => s

def CallSearch.push (s : CallSearch) (index : ℕ) : CallSearch :=
  { s with visitState := Function.update s.visitState index .open, stack := s.stack ++ [index] }

def CallSearch.pop (s : CallSearch) (index : ℕ) : CallSearch :=
  { s with visitState := Function.update s.visitState index .closed, stack := s.stack.dropLast }

/-- A callee on the stack closes a cycle, another one is visited. -/
def scan (visit : ℕ → CallSearch → Option CallSearch) (s : CallSearch) (callee : ℕ) : Option CallSearch :=
  match s.visitState callee with
  | .open => some ((s.stack.dropWhile (· ≠ callee)).foldl (reportMember functions) s)
  | _ => visit callee s

/-- `visit`; nothing when the fuel is out. -/
def visit : ℕ → ℕ → CallSearch → Option CallSearch
  | 0, _, _ => none
  | fuel + 1, index, s =>
    match s.visitState index with
    | .closed => some s
    | .open => some s
    | .unseen => do
      let s ← (callees functions index).foldlM (scan functions (visit fuel)) (s.push index)
      return inferMember functions (s.pop index) index

/-- The calls of `visit` from the outside, with what they report and infer. -/
def inferReturns : Option (List InferenceEvent) :=
  ((List.range functions.length).foldlM (fun s index => visit functions (functions.length + 1) index s) {}).map
    CallSearch.events

end

/-- The modules of a program. No two functions have one key. -/
structure CheckedProgram where
  modules : List CheckedModule
  nodup : ((functionsOf modules).map FunctionNode.key).Nodup

abbrev CheckedProgram.functions (P : CheckedProgram) : List FunctionNode := functionsOf P.modules

def inferFunctionReturnTypes (P : CheckedProgram) : Option (List InferenceEvent) := inferReturns P.functions

/-! ### What the search is for -/

section
variable (functions : List FunctionNode)

def Calls (f g : FunctionNode) : Prop := f ∈ functions ∧ g ∈ functions ∧ g.key ∈ f.targets

def OnCycle (f : FunctionNode) : Prop := TransGen (Calls functions) f f

/-- Exactly the functions without a declared type that are on a call cycle are reported, and each other one is inferred
    after its callees were reported or inferred. -/
structure Exact (events : List InferenceEvent) : Prop where
  once : events.Nodup
  known : ∀ e ∈ events, ∃ f ∈ functions, e = recursionError f ∨ e = .infer f.key
  reported : ∀ f ∈ functions, recursionError f ∈ events ↔ f.inferReturn ∧ OnCycle functions f
  inferred : ∀ f ∈ functions, .infer f.key ∈ events ↔ f.inferReturn ∧ ¬OnCycle functions f
  ordered : ∀ f g, Calls functions f g → g.inferReturn → ∀ l l', events = l ++ .infer f.key :: l' →
    .infer g.key ∈ l ∨ recursionError g ∈ l

/-- Each function without a declared type that is on a cycle is on the first simple call path to some function, not in
    front of a function of this path that the last one calls. -/
def Covered : Prop :=
  ∀ i f, functions[i]? = some f → f.inferReturn → OnCycle functions f →
    Closes (List.range functions.length) (callees functions) i

end

/-- The same modules in another order, with their declarations in another order. -/
def Reordered (P Q : CheckedProgram) : Prop :=
  ∃ modules, P.modules.Perm modules ∧ List.Forall₂ (fun m m' =>
    m.name = m'.name ∧ m.targets = m'.targets ∧ m.declarations.Perm m'.declarations) modules Q.modules

/-- The same functions are reported. -/
def SameReports (P : CheckedProgram) (events events' : List InferenceEvent) : Prop :=
  ∀ f ∈ P.functions, recursionError f ∈ events ↔ recursionError f ∈ events'

end Zith.Sema

/-! The search of `inferFunctionReturnTypes` is a search of the call graph, so what it reports are the paths that close. -/

namespace Zith.Sema
open Relation Zith.Frontend Zith.Lib.DepthFirst

/-! ### The graph -/

section
variable {functions : List FunctionNode} (hn : (functions.map FunctionNode.key).Nodup)
include hn

variable {f g : FunctionNode} {i j : ℕ}

theorem index_unique (hf : functions[i]? = some f) (hg : functions[j]? = some g) (hkey : f.key = g.key) : i = j := by
  obtain ⟨hi, -⟩ := List.getElem?_eq_some_iff.mp hf
  refine (List.getElem?_inj (by simpa using hi) hn).mp ?_
  simp [hf, hg, hkey]

theorem node_unique (hf : f ∈ functions) (hg : g ∈ functions) (hkey : f.key = g.key) : f = g := by
  obtain ⟨i, hi⟩ := List.mem_iff_getElem?.mp hf
  obtain ⟨j, hj⟩ := List.mem_iff_getElem?.mp hg
  obtain rfl := index_unique hn hi hj hkey
  exact Option.some.inj (hi.symm.trans hj)

theorem functionByKey_eq_some {key : FunctionKey} {j : ℕ} :
    functionByKey functions key = some j ↔ ∃ g, functions[j]? = some g ∧ g.key = key := by
  rw [functionByKey, List.findIdx?_eq_some_iff_getElem]
  constructor
  · rintro ⟨hj, hkey, -⟩
    exact ⟨functions[j], List.getElem?_eq_getElem hj, by simpa using hkey⟩
  · rintro ⟨g, hg, rfl⟩
    obtain ⟨hj, rfl⟩ := List.getElem?_eq_some_iff.mp hg
    refine ⟨hj, by simp, fun i hi hkey => ?_⟩
    have hlt : i < functions.length := hi.trans hj
    exact hi.ne (index_unique hn (List.getElem?_eq_getElem hlt) hg (by simpa using hkey))

theorem mem_callees : j ∈ callees functions i ↔
    ∃ f g, functions[i]? = some f ∧ functions[j]? = some g ∧ g.key ∈ f.targets := by
  rw [callees]
  rcases hf : functions[i]? with - | f
  · simp
  · simp only [List.mem_dedup, List.mem_insertionSort, List.mem_filterMap, functionByKey_eq_some hn]
    constructor
    · rintro ⟨key, hkey, g, hg, rfl⟩
      exact ⟨f, g, rfl, hg, hkey⟩
    · rintro ⟨f', g, hf', hg, hkey⟩
      cases hf'
      exact ⟨g.key, hkey, g, hg, rfl⟩

theorem mem_callees_lt (h : j ∈ callees functions i) : j < functions.length := by
  obtain ⟨-, g, -, hg, -⟩ := (mem_callees hn).mp h
  exact (List.getElem?_eq_some_iff.mp hg).1

theorem transGen_callees (h : TransGen (fun a b => b ∈ callees functions a) i j)
    (hf : functions[i]? = some f) (hg : functions[j]? = some g) : TransGen (Calls functions) f g := by
  have hcalls : ∀ {a b : ℕ} {f g : FunctionNode}, b ∈ callees functions a → functions[a]? = some f →
      functions[b]? = some g → Calls functions f g := by
    intro a b f g hab hf hg
    obtain ⟨f', g', hf', hg', hkey⟩ := (mem_callees hn).mp hab
    obtain rfl := Option.some.inj (hf'.symm.trans hf)
    obtain rfl := Option.some.inj (hg'.symm.trans hg)
    exact ⟨List.mem_of_getElem? hf, List.mem_of_getElem? hg, hkey⟩
  induction h generalizing g with
  | single hab => exact .single (hcalls hab hf hg)
  | tail _ hab ih =>
    obtain ⟨f', -, hf', -, -⟩ := (mem_callees hn).mp hab
    exact (ih hf').tail (hcalls hab hf' hg)

theorem callees_transGen (h : TransGen (Calls functions) f g) (hf : functions[i]? = some f)
    (hg : functions[j]? = some g) : TransGen (fun a b => b ∈ callees functions a) i j := by
  induction h generalizing j with
  | single hab => exact .single ((mem_callees hn).mpr ⟨_, _, hf, hg, hab.2.2⟩)
  | tail _ hab ih =>
    obtain ⟨k, hk⟩ := List.mem_iff_getElem?.mp hab.1
    exact (ih hk).tail ((mem_callees hn).mpr ⟨_, _, hk, hg, hab.2.2⟩)

theorem onCycle_iff {i : ℕ} {f : FunctionNode} (hf : functions[i]? = some f) :
    OnCycle functions f ↔ TransGen (fun a b => b ∈ callees functions a) i i :=
  ⟨fun h => callees_transGen hn h hf hf, fun h => transGen_callees hn h hf hf⟩

end

theorem callees_sorted (functions : List FunctionNode) (i : ℕ) : (callees functions i).Pairwise (· ≤ ·) := by
  rw [callees]
  split
  · exact (List.pairwise_insertionSort (· ≤ ·) _).sublist (List.dedup_sublist _)
  · exact List.Pairwise.nil

/-! ### What the search has reported and inferred -/

/-- The code's search at a state of the search of the graph. -/
structure Follows (functions : List FunctionNode) (s : CallSearch) (t : State ℕ) : Prop where
  stack : s.stack = t.path
  opened : ∀ i, s.visitState i = .open ↔ i ∈ t.path
  closed : ∀ i, s.visitState i = .closed ↔ i ∈ t.done
  recursive : ∀ i f, functions[i]? = some f → f.inferReturn → (s.recursiveInference i = true ↔ i ∈ t.marked)
  once : s.events.Nodup
  known : ∀ e ∈ s.events, ∃ f ∈ functions, e = recursionError f ∨ e = .infer f.key
  reported : ∀ i f, functions[i]? = some f → (recursionError f ∈ s.events ↔ f.inferReturn ∧ i ∈ t.marked)
  inferred : ∀ i f, functions[i]? = some f → (.infer f.key ∈ s.events ↔ f.inferReturn ∧ i ∈ t.done ∧ i ∉ t.marked)
  ordered : ∀ f g, Calls functions f g → g.inferReturn → ∀ l l', s.events = l ++ .infer f.key :: l' →
    .infer g.key ∈ l ∨ recursionError g ∈ l

section
variable {functions : List FunctionNode} {s : CallSearch} {t : State ℕ} {p : List ℕ} {b c x : ℕ}

theorem Follows.push (h : Follows functions s t) (hpath : b ∉ t.path) (hdone : b ∉ t.done) :
    Follows functions (s.push b) { t with path := t.path ++ [b], entered := t.entered ++ [t.path ++ [b]] } := by
  refine ⟨congrArg (· ++ [b]) h.stack, fun i => ?_, fun i => ?_, h.recursive, h.once, h.known, h.reported, h.inferred,
    h.ordered⟩
  · rcases eq_or_ne i b with rfl | hne
    · simp [CallSearch.push]
    · simp [CallSearch.push, hne, h.opened]
  · rcases eq_or_ne i b with rfl | hne
    · simp [CallSearch.push, hdone]
    · simp [CallSearch.push, hne, h.closed]

variable (hn : (functions.map FunctionNode.key).Nodup)
include hn

/-- A member of the stack is reported when it has no declared type and was not reported before. -/
theorem Follows.reportMember (h : Follows functions s t) (hx : x ∉ t.done) :
    Follows functions (reportMember functions s x) { t with marked := t.marked ++ [x] } := by
  have hmark : ∀ i, i ∈ t.marked ++ [x] ↔ i ∈ t.marked ∨ i = x := by simp
  -- nothing is reported here: the mark is new to no function that has to be inferred
  have hsame : (∀ f, functions[x]? = some f → f.inferReturn → x ∈ t.marked) →
      Follows functions s { t with marked := t.marked ++ [x] } := by
    intro hold
    have hiff : ∀ i f, functions[i]? = some f → f.inferReturn → (i ∈ t.marked ++ [x] ↔ i ∈ t.marked) := by
      intro i f hf hinfer
      rw [hmark, or_iff_left_iff_imp]
      rintro rfl
      exact hold f hf hinfer
    refine ⟨h.stack, h.opened, h.closed, fun i f hf hinfer => ?_, h.once, h.known, fun i f hf => ?_, fun i f hf => ?_,
      h.ordered⟩
    · rw [h.recursive i f hf hinfer, hiff i f hf hinfer]
    · rw [h.reported i f hf]
      exact and_congr_right fun hinfer => (hiff i f hf hinfer).symm
    · rw [h.inferred i f hf]
      exact and_congr_right fun hinfer => and_congr_right fun _ => not_congr (hiff i f hf hinfer).symm
  rw [Sema.reportMember]
  rcases hf : functions[x]? with - | f
  · exact hsame (by simp [hf])
  · dsimp only
    split
    · next hreport =>
      rw [Bool.and_eq_true, Bool.not_eq_true'] at hreport
      obtain ⟨hinfer, hflag⟩ := hreport
      have hunmarked : x ∉ t.marked := by
        rw [← h.recursive x f hf hinfer, hflag]
        exact Bool.false_ne_true
      have hnew : recursionError f ∉ s.events := fun hold => hunmarked ((h.reported x f hf).mp hold).2
      refine ⟨h.stack, h.opened, h.closed, fun i g hg hinfer' => ?_, ?_, fun e he => ?_, fun i g hg => ?_,
        fun i g hg => ?_, fun f' g hcalls hg l l' hl => ?_⟩
      · rw [hmark]
        rcases eq_or_ne i x with rfl | hne
        · simp
        · simp [hne, h.recursive i g hg hinfer']
      · exact h.once.append (List.nodup_singleton _) (by simpa using hnew)
      · rcases List.mem_append.mp he with he | he
        · exact h.known e he
        · exact ⟨f, List.mem_of_getElem? hf, Or.inl (List.mem_singleton.mp he)⟩
      · rw [hmark, List.mem_append, h.reported i g hg, List.mem_singleton]
        rcases eq_or_ne i x with rfl | hne
        · obtain rfl := Option.some.inj (hg.symm.trans hf)
          simp [hinfer]
        · have hkey : recursionError g ≠ recursionError f := fun heq =>
            hne (index_unique hn hg hf (InferenceEvent.report.inj heq).1)
          simp [hkey, hne]
      · rw [List.mem_append, h.inferred i g hg, hmark]
        rcases eq_or_ne i x with rfl | hne
        · simp [hx, recursionError]
        · simp [hne, recursionError]
      · rcases concat_eq_append_cons hl with ⟨-, heq, -⟩ | ⟨r, hr, -⟩
        · cases heq
        · exact h.ordered f' g hcalls hg l r hr
    · next hquiet =>
      refine hsame fun g hg hinfer => ?_
      obtain rfl := Option.some.inj (hf.symm.trans hg)
      rw [← h.recursive x f hf hinfer]
      simpa [hinfer] using hquiet

theorem Follows.reportMembers (h : Follows functions s t) : ∀ {l : List ℕ}, (∀ x ∈ l, x ∉ t.done) →
    Follows functions (l.foldl (Sema.reportMember functions) s) { t with marked := t.marked ++ l } := by
  intro l
  induction l generalizing s t with
  | nil => simpa using h
  | cons x l ih =>
    intro hl
    have hx := h.reportMember hn (hl x (by simp))
    have hrest := ih hx fun y hy => hl y (by simp [hy])
    simpa using hrest

/-- A function that is left is inferred unless it was reported. Its callees were left before, or it is on a cycle. -/
theorem Follows.pop (h : Follows functions s t) (hs : Stands (List.range functions.length) (callees functions) t)
    (hpath : t.path = p ++ [b]) (hseen : ∀ c ∈ callees functions b, c ∈ t.path ∨ c ∈ t.done)
    (hmarked : ∀ c ∈ callees functions b, c ∈ t.path → ∀ x ∈ since c t.path, x ∈ t.marked) :
    Follows functions (inferMember functions (s.pop b) b) { t with path := p, done := t.done ++ [b] } := by
  have hsimple := hpath ▸ hs.simple
  have hbp : b ∉ p := fun hb => (List.nodup_append.mp hsimple.nodup).2.2 b hb b (by simp) rfl
  have hbdone : b ∉ t.done := hs.fresh b (by rw [hpath]; simp)
  have hdone : ∀ i, i ∈ t.done ++ [b] ↔ i ∈ t.done ∨ i = b := by simp
  have hopened : ∀ i, (s.pop b).visitState i = .open ↔ i ∈ p := by
    intro i
    rcases eq_or_ne i b with rfl | hne
    · simp [CallSearch.pop, hbp]
    · simp [CallSearch.pop, hne, h.opened, hpath]
  have hclosed : ∀ i, (s.pop b).visitState i = .closed ↔ i ∈ t.done ++ [b] := by
    intro i
    rcases eq_or_ne i b with rfl | hne
    · simp [CallSearch.pop]
    · simp [CallSearch.pop, hne, h.closed]
  have hstack : (s.pop b).stack = p := by
    rw [CallSearch.pop, h.stack, hpath, List.dropLast_concat]
  -- nothing is inferred here
  have hsame : (∀ f, functions[b]? = some f → f.inferReturn → b ∈ t.marked) →
      Follows functions (s.pop b) { t with path := p, done := t.done ++ [b] } := by
    intro hold
    refine ⟨hstack, hopened, hclosed, h.recursive, h.once, h.known, h.reported, fun i f hf => ?_, h.ordered⟩
    rw [show (s.pop b).events = s.events from rfl, h.inferred i f hf, hdone]
    rcases eq_or_ne i b with rfl | hne
    · constructor
      · rintro ⟨-, hi, -⟩
        exact absurd hi hbdone
      · rintro ⟨hinfer, -, hi⟩
        exact absurd (hold f hf hinfer) hi
    · simp [hne]
  rw [inferMember]
  rcases hf : functions[b]? with - | f
  · exact hsame (by simp [hf])
  · dsimp only
    split
    · next hinfers =>
      rw [Bool.and_eq_true, Bool.not_eq_true'] at hinfers
      obtain ⟨hinfer, hflag⟩ := hinfers
      have hunmarked : b ∉ t.marked := by
        rw [← h.recursive b f hf hinfer, show s.recursiveInference b = false from hflag]
        exact Bool.false_ne_true
      have hnew : InferenceEvent.infer f.key ∉ s.events := fun hold => hbdone ((h.inferred b f hf).mp hold).2.1
      refine ⟨hstack, hopened, hclosed, h.recursive, ?_, fun e he => ?_, fun i g hg => ?_, fun i g hg => ?_,
        fun f' g hcalls hg l l' hl => ?_⟩
      · exact h.once.append (List.nodup_singleton _) (by simpa using hnew)
      · rcases List.mem_append.mp he with he | he
        · exact h.known e he
        · exact ⟨f, List.mem_of_getElem? hf, Or.inr (List.mem_singleton.mp he)⟩
      · rw [List.mem_append, show (s.pop b).events = s.events from rfl, h.reported i g hg]
        simp [recursionError]
      · rw [List.mem_append, show (s.pop b).events = s.events from rfl, h.inferred i g hg, hdone, List.mem_singleton]
        rcases eq_or_ne i b with rfl | hne
        · obtain rfl := Option.some.inj (hg.symm.trans hf)
          simp [hinfer, hunmarked]
        · have hkey : InferenceEvent.infer g.key ≠ .infer f.key := fun heq =>
            hne (index_unique hn hg hf (InferenceEvent.infer.inj heq))
          simp [hkey, hne]
      · rcases concat_eq_append_cons hl with ⟨rfl, heq, -⟩ | ⟨r, hr, -⟩
        · obtain rfl := node_unique hn hcalls.1 (List.mem_of_getElem? hf) (InferenceEvent.infer.inj heq).symm
          obtain ⟨j, hj⟩ := List.mem_iff_getElem?.mp hcalls.2.1
          have hcall : j ∈ callees functions b := (mem_callees hn).mpr ⟨_, _, hf, hj, hcalls.2.2⟩
          have hjdone : j ∈ t.done := by
            refine (hseen j hcall).resolve_left fun hon => hunmarked (hmarked j hcall hon b ?_)
            obtain ⟨u, r, hu, hsince⟩ := mem_since hon
            rw [hsince]
            have hlast : (u ++ j :: r).getLast? = some b := by rw [← hu, hpath]; simp
            rw [List.getLast?_append_of_ne_nil _ (List.cons_ne_nil j r)] at hlast
            exact List.mem_of_getLast? hlast
          by_cases hjm : j ∈ t.marked
          · exact Or.inr ((h.reported j g hj).mpr ⟨hg, hjm⟩)
          · exact Or.inl ((h.inferred j g hj).mpr ⟨hg, hjdone, hjm⟩)
        · exact h.ordered f' g hcalls hg l r hr
    · next hquiet =>
      refine hsame fun g hg hinfer => ?_
      obtain rfl := Option.some.inj (hf.symm.trans hg)
      rw [← h.recursive b f hf hinfer]
      simpa [hinfer, CallSearch.pop] using hquiet

end

/-! ### The search follows the search of the graph -/

abbrev GraphStep (functions : List FunctionNode) : State ℕ → State ℕ → Prop :=
  Step (List.range functions.length) (callees functions)

/-- A part of the search that comes back to where it started. -/
structure Visited (functions : List FunctionNode) (t : State ℕ) (s' : CallSearch) (t' : State ℕ) : Prop where
  run : ReflTransGen (GraphStep functions) t t'
  follows : Follows functions s' t'
  path : t'.path = t.path
  done : ∀ a ∈ t.done, a ∈ t'.done
  marked : ∀ a ∈ t.marked, a ∈ t'.marked

/-- What a visit is called on: a function that comes next, with the ones in front of it searched. -/
structure Ready (functions : List FunctionNode) (index : ℕ) (s : CallSearch) (t : State ℕ) : Prop where
  run : ReflTransGen (GraphStep functions) {} t
  follows : Follows functions s t
  next : index ∈ after (List.range functions.length) (callees functions) t.path
  fresh : index ∉ t.path
  before : ∀ a ∈ after (List.range functions.length) (callees functions) t.path, a < index → a ∈ t.path ∨ a ∈ t.done

section
variable {functions : List FunctionNode} {s : CallSearch} {t : State ℕ}

theorem Visited.refl (h : Follows functions s t) : Visited functions t s t :=
  ⟨.refl, h, rfl, fun _ ha => ha, fun _ ha => ha⟩

theorem Visited.trans {s' s'' : CallSearch} {t' t'' : State ℕ} (h : Visited functions t s' t')
    (h' : Visited functions t' s'' t'') : Visited functions t s'' t'' :=
  ⟨h.run.trans h'.run, h'.follows, h'.path.trans h.path, fun a ha => h'.done a (h.done a ha),
    fun a ha => h'.marked a (h.marked a ha)⟩

variable (hn : (functions.map FunctionNode.key).Nodup)
include hn

theorem path_length_le (hrun : ReflTransGen (GraphStep functions) {} t) : t.path.length ≤ functions.length := by
  have hs := (run hrun).1
  have hlt : t.path ⊆ List.range functions.length := by
    intro i hi
    obtain ⟨u, r, hu⟩ := List.append_of_mem hi
    have hafter := hs.simple.follows u i r hu
    rw [List.mem_range]
    rcases List.eq_nil_or_concat u with rfl | ⟨u, a, rfl⟩
    · exact List.mem_range.mp hafter
    · rw [List.concat_eq_append, after_concat] at hafter
      exact mem_callees_lt hn hafter
  have hlength := (List.subperm_of_subset hs.simple.nodup hlt).length_le
  rwa [List.length_range] at hlength

/-- One call after the other: a call back to the stack marks, another one is visited. -/
theorem scan_visited {fuel b : ℕ} {p : List ℕ}
    (hvisit : ∀ index s t, Ready functions index s t → functions.length + 1 ≤ fuel + t.path.length →
      ∃ s' t', visit functions fuel index s = some s' ∧ Visited functions t s' t' ∧ index ∈ t'.done) :
    ∀ (rest before : List ℕ) (s : CallSearch) (t : State ℕ), ReflTransGen (GraphStep functions) {} t →
      Follows functions s t → t.path = p ++ [b] → functions.length + 1 ≤ fuel + t.path.length →
      callees functions b = before ++ rest → (∀ c ∈ before, c ∈ t.path ∨ c ∈ t.done) →
      (∀ c ∈ before, c ∈ t.path → ∀ x ∈ since c t.path, x ∈ t.marked) →
      ∃ s' t', rest.foldlM (scan functions (visit functions fuel)) s = some s' ∧ Visited functions t s' t' ∧
        (∀ c ∈ callees functions b, c ∈ t'.path ∨ c ∈ t'.done) ∧
        ∀ c ∈ callees functions b, c ∈ t'.path → ∀ x ∈ since c t'.path, x ∈ t'.marked := by
  intro rest
  induction rest with
  | nil =>
    intro before s t _ hfollows _ _ hcallees hseen hmarked
    rw [List.append_nil] at hcallees
    rw [hcallees]
    exact ⟨s, t, rfl, .refl hfollows, hseen, hmarked⟩
  | cons c rest ih =>
    intro before s t hrun hfollows hpath hfuel hcallees hseen hmarked
    have hc : c ∈ callees functions b := by rw [hcallees]; simp
    have hsplit : callees functions b = (before ++ [c]) ++ rest := by rw [hcallees]; simp
    rw [List.foldlM_cons]
    by_cases hon : c ∈ t.path
    · have hfresh : ∀ x ∈ since c t.path, x ∉ t.done := by
        obtain ⟨u, r, hu, hsince⟩ := mem_since hon
        intro x hx
        rw [hsince] at hx
        exact (run hrun).1.fresh x (by rw [hu]; exact List.mem_append_right _ hx)
      have hmark := hfollows.reportMembers hn hfresh
      have hstep : GraphStep functions t { t with marked := t.marked ++ since c t.path } := .back hpath hc hon
      obtain ⟨s', t', hs', hvisited, hout⟩ := ih (before ++ [c]) _ _ (hrun.tail hstep) hmark hpath hfuel hsplit
        (fun d hd => (List.mem_append.mp hd).elim (hseen d) fun hd => Or.inl (List.mem_singleton.mp hd ▸ hon))
        (fun d hd hdon x hx => by
          rcases List.mem_append.mp hd with hd | hd
          · exact List.mem_append_left _ (hmarked d hd hdon x hx)
          · exact List.mem_append_right _ (List.mem_singleton.mp hd ▸ hx))
      refine ⟨s', t', ?_, ?_, hout⟩
      · rw [scan, (hfollows.opened c).mpr hon, ← hs', since, hfollows.stack]
        rfl
      · exact ⟨hvisited.run.head hstep, hvisited.follows, hvisited.path, hvisited.done,
          fun a ha => hvisited.marked a (List.mem_append_left _ ha)⟩
    · have hready : Ready functions c s t := by
        refine ⟨hrun, hfollows, ?_, hon, fun a ha hlt => hseen a ?_⟩
        · rwa [hpath, after_concat]
        · rw [hpath, after_concat, hcallees] at ha
          have hsorted := hcallees ▸ callees_sorted functions b
          rcases List.mem_append.mp ha with ha | ha
          · exact ha
          · rcases List.mem_cons.mp ha with rfl | ha
            · exact absurd hlt (lt_irrefl a)
            · have hle := List.rel_of_pairwise_cons (List.pairwise_append.mp hsorted).2.1 ha
              omega
      obtain ⟨s₁, t₁, hs₁, hvisited₁, hdone₁⟩ := hvisit c s t hready hfuel
      have hpath₁ := hvisited₁.path
      obtain ⟨s', t', hs', hvisited, hout⟩ := ih (before ++ [c]) s₁ t₁ (hrun.trans hvisited₁.run) hvisited₁.follows
        (hpath₁.trans hpath) (by rwa [hpath₁]) hsplit
        (fun d hd => by
          rcases List.mem_append.mp hd with hd | hd
          · exact (hseen d hd).imp (fun hon => hpath₁ ▸ hon) (hvisited₁.done d)
          · exact Or.inr (List.mem_singleton.mp hd ▸ hdone₁))
        (fun d hd hdon x hx => by
          rw [hpath₁] at hdon hx
          rcases List.mem_append.mp hd with hd | hd
          · exact hvisited₁.marked x (hmarked d hd hdon x hx)
          · exact absurd (List.mem_singleton.mp hd ▸ hdon) hon)
      refine ⟨s', t', ?_, hvisited₁.trans hvisited, hout⟩
      have hscan : scan functions (visit functions fuel) s c = visit functions fuel c s := by
        rw [scan]
        split
        · next hopen => exact absurd ((hfollows.opened c).mp hopen) hon
        · rfl
      rw [hscan, hs₁]
      exact hs'

theorem visit_visited : ∀ (fuel index : ℕ) (s : CallSearch) (t : State ℕ), Ready functions index s t →
    functions.length + 1 ≤ fuel + t.path.length →
    ∃ s' t', visit functions fuel index s = some s' ∧ Visited functions t s' t' ∧ index ∈ t'.done := by
  intro fuel
  induction fuel with
  | zero =>
    intro index s t h hfuel
    have hle := path_length_le hn h.run
    omega
  | succ fuel ih =>
    intro index s t h hfuel
    rw [visit]
    rcases hstate : s.visitState index
    · have hdone : index ∉ t.done := fun hd => by
        rw [(h.follows.closed index).mpr hd] at hstate
        cases hstate
      have hstep : GraphStep functions t _ := .enter h.next h.fresh hdone h.before
      obtain ⟨s', t', hs', hvisited, hseen, hmarked⟩ := scan_visited hn ih (callees functions index) [] _ _
        (h.run.tail hstep) (h.follows.push h.fresh hdone) rfl (by simp; omega) rfl (by simp) (by simp)
      have hpath : t'.path = t.path ++ [index] := hvisited.path
      have hrun' := (h.run.tail hstep).trans hvisited.run
      have hleave : GraphStep functions t' _ := .leave hpath hseen hmarked
      refine ⟨inferMember functions (s'.pop index) index, { t' with path := t.path, done := t'.done ++ [index] }, ?_,
        ⟨?_, ?_, rfl, ?_, ?_⟩, ?_⟩
      · dsimp only
        rw [hs']
        rfl
      · exact (hvisited.run.head hstep).tail hleave
      · exact hvisited.follows.pop hn (run hrun').1 hpath hseen hmarked
      · exact fun a ha => List.mem_append_left _ (hvisited.done a ha)
      · exact hvisited.marked
      · simp
    · exact absurd ((h.follows.opened index).mp hstate) h.fresh
    · exact ⟨s, t, rfl, .refl h.follows, (h.follows.closed index).mp hstate⟩

theorem visits_visited : ∀ (rest before : List ℕ) (s : CallSearch) (t : State ℕ),
    ReflTransGen (GraphStep functions) {} t → Follows functions s t → t.path = [] →
    List.range functions.length = before ++ rest → (∀ i ∈ before, i ∈ t.done) →
    ∃ s' t', rest.foldlM (fun s index => visit functions (functions.length + 1) index s) s = some s' ∧
      ReflTransGen (GraphStep functions) {} t' ∧ Follows functions s' t' ∧ t'.path = [] ∧
      ∀ i ∈ List.range functions.length, i ∈ t'.done := by
  intro rest
  induction rest with
  | nil =>
    intro before s t hrun hfollows hpath hrange hdone
    rw [List.append_nil] at hrange
    exact ⟨s, t, rfl, hrun, hfollows, hpath, by rwa [hrange]⟩
  | cons index rest ih =>
    intro before s t hrun hfollows hpath hrange hdone
    have hready : Ready functions index s t := by
      refine ⟨hrun, hfollows, ?_, by simp [hpath], fun a ha hlt => Or.inr (hdone a ?_)⟩
      · rw [hpath, after_nil, hrange]
        simp
      · rw [hpath, after_nil, hrange] at ha
        have hsorted := hrange ▸ List.pairwise_lt_range (n := functions.length)
        rcases List.mem_append.mp ha with ha | ha
        · exact ha
        · rcases List.mem_cons.mp ha with rfl | ha
          · exact absurd hlt (lt_irrefl a)
          · have hle := List.rel_of_pairwise_cons (List.pairwise_append.mp hsorted).2.1 ha
            omega
    obtain ⟨s₁, t₁, hs₁, hvisited, hindex⟩ := visit_visited hn (functions.length + 1) index s t hready (by omega)
    obtain ⟨s', t', hs', hout⟩ := ih (before ++ [index]) s₁ t₁ (hrun.trans hvisited.run) hvisited.follows
      (hvisited.path.trans hpath) (by rw [hrange]; simp) fun i hi => by
        rcases List.mem_append.mp hi with hi | hi
        · exact hvisited.done i (hdone i hi)
        · exact List.mem_singleton.mp hi ▸ hindex
    refine ⟨s', t', ?_, hout⟩
    rw [List.foldlM_cons, hs₁]
    exact hs'

/-- What is reported closes a path, the rest is inferred, callees first. -/
theorem inferReturns_eq : ∃ events, inferReturns functions = some events ∧ events.Nodup ∧
    (∀ e ∈ events, ∃ f ∈ functions, e = recursionError f ∨ e = .infer f.key) ∧
    (∀ i f, functions[i]? = some f → (recursionError f ∈ events ↔
      f.inferReturn ∧ Closes (List.range functions.length) (callees functions) i)) ∧
    (∀ i f, functions[i]? = some f → (.infer f.key ∈ events ↔
      f.inferReturn ∧ ¬Closes (List.range functions.length) (callees functions) i)) ∧
    ∀ f g, Calls functions f g → g.inferReturn → ∀ l l', events = l ++ .infer f.key :: l' →
      .infer g.key ∈ l ∨ recursionError g ∈ l := by
  have hstart : Follows functions {} {} := by
    refine ⟨rfl, ?_, ?_, ?_, ?_, ?_, ?_, ?_, ?_⟩ <;> simp
  obtain ⟨s, t, hs, hrun, hfollows, hpath, hdone⟩ :=
    visits_visited hn (List.range functions.length) [] {} {} .refl hstart rfl rfl (by simp)
  have hmarked : ∀ i, i ∈ t.marked ↔ Closes (List.range functions.length) (callees functions) i :=
    fun i => mem_marked_iff hrun hpath hdone
  refine ⟨s.events, by rw [inferReturns, hs]; rfl, hfollows.once, hfollows.known, fun i f hf => ?_, fun i f hf => ?_,
    hfollows.ordered⟩
  · rw [hfollows.reported i f hf, hmarked]
  · have hi : i ∈ t.done := hdone i (List.mem_range.mpr (List.getElem?_eq_some_iff.mp hf).1)
    rw [hfollows.inferred i f hf, hmarked]
    simp [hi]

theorem exact_iff_covered : ∃ events, inferReturns functions = some events ∧ (Exact functions events ↔ Covered functions) := by
  obtain ⟨events, hevents, honce, hknown, hreported, hinferred, hordered⟩ := inferReturns_eq hn
  refine ⟨events, hevents, ?_, ?_⟩
  · intro h i f hf hinfer hcycle
    exact ((hreported i f hf).mp ((h.reported f (List.mem_of_getElem? hf)).mpr ⟨hinfer, hcycle⟩)).2
  · intro h
    have hcloses : ∀ i f, functions[i]? = some f → f.inferReturn →
        (Closes (List.range functions.length) (callees functions) i ↔ OnCycle functions f) :=
      fun i f hf hinfer => ⟨fun hc => (onCycle_iff hn hf).mpr hc.cycle, h i f hf hinfer⟩
    refine ⟨honce, hknown, fun f hf => ?_, fun f hf => ?_, hordered⟩
    · obtain ⟨i, hi⟩ := List.mem_iff_getElem?.mp hf
      rw [hreported i f hi]
      exact and_congr_right (hcloses i f hi)
    · obtain ⟨i, hi⟩ := List.mem_iff_getElem?.mp hf
      rw [hinferred i f hi]
      exact and_congr_right fun hinfer => not_congr (hcloses i f hi hinfer)

end

/-! ### Other orders -/

theorem functionsOf_perm {modules modules' : List CheckedModule} (h : List.Forall₂ (fun m m' =>
    m.name = m'.name ∧ m.targets = m'.targets ∧ m.declarations.Perm m'.declarations) modules modules') :
    (functionsOf modules).Perm (functionsOf modules') := by
  induction h with
  | nil => exact List.Perm.refl _
  | @cons m m' modules modules' hm _ ih =>
    obtain ⟨hname, htargets, hperm⟩ := hm
    refine List.Perm.append ?_ ih
    dsimp only
    rw [hname, htargets]
    exact (hperm.filter _).map _

theorem Reordered.functions {P Q : CheckedProgram} (h : Reordered P Q) : P.functions.Perm Q.functions := by
  obtain ⟨modules, hperm, hforall⟩ := h
  exact (hperm.flatMap_right _).trans (functionsOf_perm hforall)

theorem Reordered.refl (P : CheckedProgram) : Reordered P P :=
  ⟨P.modules, List.Perm.refl _, List.forall₂_same.mpr fun _ _ => ⟨rfl, rfl, List.Perm.refl _⟩⟩

theorem onCycle_perm {functions functions' : List FunctionNode} (h : functions.Perm functions') (f : FunctionNode) :
    OnCycle functions f ↔ OnCycle functions' f := by
  have hcalls : Calls functions = Calls functions' := by
    funext f g
    simp only [Calls, h.mem_iff]
  rw [OnCycle, OnCycle, hcalls]

/-- In one order, the reports are exact just when the cycles are covered. In all orders, and with the same reports in all
    of them, they are exact just when the cycles are covered in all orders. -/
theorem inferFunctionReturnTypes_exact (P : CheckedProgram) :
    (∃ events, inferFunctionReturnTypes P = some events ∧ (Exact P.functions events ↔ Covered P.functions)) ∧
    ((∀ Q, Reordered P Q → ∃ events events', inferFunctionReturnTypes P = some events ∧
        inferFunctionReturnTypes Q = some events' ∧ Exact Q.functions events' ∧ SameReports P events events') ↔
      ∀ Q, Reordered P Q → Covered Q.functions) := by
  refine ⟨exact_iff_covered P.nodup, fun h Q hQ => ?_, fun h Q hQ => ?_⟩
  · obtain ⟨-, events', -, hevents', hexact, -⟩ := h Q hQ
    obtain ⟨events, hevents, hiff⟩ := exact_iff_covered Q.nodup
    obtain rfl := Option.some.inj (hevents'.symm.trans hevents)
    exact hiff.mp hexact
  · obtain ⟨events, hevents, hiff⟩ := exact_iff_covered P.nodup
    obtain ⟨events', hevents', hiff'⟩ := exact_iff_covered Q.nodup
    have hexact := hiff.mpr (h P (Reordered.refl P))
    have hexact' := hiff'.mpr (h Q hQ)
    refine ⟨events, events', hevents, hevents', hexact', fun f hf => ?_⟩
    rw [hexact.reported f hf, hexact'.reported f (hQ.functions.mem_iff.mp hf), onCycle_perm hQ.functions f]

/-- A function without declared type in a module where 1 calls 2 and 3, 2 calls 1, and 3 calls 2. -/
def nodeOf (name : String) (id : DeclId) (h : id ≠ 0) : FunctionNode where
  module := text "m"
  decl := { id, kind := .function, body := 1, name := text name, id_ne_zero := h }
  targets := (if id = 1 then [2, 3] else if id = 2 then [1] else [2]).map fun target => ⟨text "m", target⟩

def moduleOf (nodes : List FunctionNode) : CheckedModule where
  name := text "m"
  declarations := nodes.map FunctionNode.decl
  targets := fun id => (if id = 1 then [2, 3] else if id = 2 then [1] else [2]).map fun target => ⟨text "m", target⟩

def nodeA : FunctionNode := nodeOf "a" 1 Nat.one_ne_zero
def nodeB : FunctionNode := nodeOf "b" 2 (by decide)
def nodeC : FunctionNode := nodeOf "c" 3 (by decide)

def fromA : CheckedProgram := ⟨[moduleOf [nodeA, nodeB, nodeC]], by decide +kernel⟩

def fromC : CheckedProgram := ⟨[moduleOf [nodeC, nodeA, nodeB]], by decide +kernel⟩

/-- Function `c` is on the cycle of all three. When the search from `a` comes to it, it has left `b` behind. -/
theorem recursion_of_c_missed : OnCycle fromA.functions nodeC ∧ nodeC ∈ fromA.functions ∧ nodeC.inferReturn ∧
    Reordered fromA fromC ∧ ∃ events events', inferFunctionReturnTypes fromA = some events ∧
      inferFunctionReturnTypes fromC = some events' ∧ recursionError nodeC ∉ events ∧ .infer nodeC.key ∈ events ∧
      recursionError nodeC ∈ events' := by
  have hcb : Calls fromA.functions nodeC nodeB := by unfold Calls; decide +kernel
  have hba : Calls fromA.functions nodeB nodeA := by unfold Calls; decide +kernel
  have hac : Calls fromA.functions nodeA nodeC := by unfold Calls; decide +kernel
  have hfirst : (inferFunctionReturnTypes fromA).any (fun events =>
      decide (recursionError nodeC ∉ events ∧ .infer nodeC.key ∈ events)) = true := by decide +kernel
  have hsecond : (inferFunctionReturnTypes fromC).any (fun events => decide (recursionError nodeC ∈ events)) = true := by
    decide +kernel
  obtain ⟨events, hevents, hmissed⟩ := (Option.any_eq_true _ _).mp hfirst
  obtain ⟨events', hevents', hreported⟩ := (Option.any_eq_true _ _).mp hsecond
  refine ⟨((TransGen.single hcb).tail hba).tail hac, by decide +kernel, rfl,
    ⟨[moduleOf [nodeA, nodeB, nodeC]], List.Perm.refl _, .cons ⟨rfl, rfl, ?_⟩ .nil⟩, events, events', hevents, hevents',
    (of_decide_eq_true hmissed).1, (of_decide_eq_true hmissed).2, of_decide_eq_true hreported⟩
  exact @List.perm_append_comm _ [nodeA.decl, nodeB.decl] [nodeC.decl]

end Zith.Sema
