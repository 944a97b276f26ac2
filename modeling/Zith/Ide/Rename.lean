import Mathlib.Algebra.Order.BigOperators.Group.List
import Zith.Frontend.LexerLossless
import Zith.Lib.KeySort
import Zith.Lib.Succeeds
import Zith.Session.OverloadLookup

/-! `Workspace::analyze` for a rename: `matchingSpans` of an identifier token, and an edit for each span.
    The file of a span is that of the module throughout. `std::sort` may order spans of one start as it
    likes. -/

namespace Zith.Ide
open Zith.Lib Zith.Frontend Zith.Session

section
variable (f : ParsedSnapshot)

/-- The expressions that `walkExpr` goes on to from one. -/
def children (e : Expression) : List ExprId :=
  e.operands ++
    e.statements.flatMap (fun id =>
      (entry f.statements id).elim [] fun s => [s.expression, s.binding.initializer]) ++
    [e.expansion]

/-- What `walkExpr` visits, nothing when the fuel is out. -/
def walkExpr : ℕ → ExprId → Option (List Expression)
  | 0, _ => none
  | fuel + 1, id =>
    match entry f.expressions id with
    | none => some []
    | some e => do
      let below ← (children f e).mapM (walkExpr fuel)
      return e :: below.flatten

/-- Where `matchingSpans` walks from. -/
def roots : List ExprId :=
  f.declarations.flatMap (fun d => [d.initializer, d.body]) ++
    f.statements.flatMap fun s => [s.expression, s.binding.initializer]

/-- The bindings and the declarations of a name, with the spans that the tables have for them. -/
def spansNamed (name : Text) : List TextSpan :=
  ((f.statements.filter fun s => s.kind = .binding && s.binding.name = name).map fun s => s.binding.span) ++
    (f.declarations.filter fun d => d.name = name).map fun d => d.span

end

/-- `std::unique`: equal neighbours once. -/
def unique : List TextSpan → List TextSpan
  | a :: b :: spans => if a = b then unique (b :: spans) else a :: unique (b :: spans)
  | spans => spans

section
variable (m : ModuleArtifact) (bindings : List ResolvedName) (sort : KeySort TextSpan.start)

/-- The name expression at a token: the first one there. -/
def nameAt (token : TextSpan) : Option Expression :=
  m.frontend.expressions.find? fun e => e.kind = .name && e.span = token

/-- `target_span`, empty when there is none. -/
def targetSpan (token : TextSpan) : TextSpan :=
  (((nameAt m token).bind (resolutionOf m bindings)).map fun r => r.span).getD ⟨0, 0⟩

/-- The visited names that are taken: by their text when there is no target, by their resolution when there
    is one. -/
def isMatch (token target : TextSpan) (e : Expression) : Bool :=
  e.kind = .name &&
    if target.stop = 0 then spanText m.frontend.source e.span = spanText m.frontend.source token
    else (resolutionOf m bindings e).any fun r => r.span = target

def matchingSpans (fuel : ℕ) (token : TextSpan) : Option (List TextSpan) := do
  let walked ← (roots m.frontend).mapM (walkExpr m.frontend fuel)
  let target := targetSpan m bindings token
  let names := (walked.flatten.filter (isMatch m bindings token target)).map fun e => e.span
  let named :=
    if target.stop = 0 then spansNamed m.frontend (spanText m.frontend.source token) else []
  return unique (sort.run (names ++ named))

structure TextEdit where
  span : TextSpan
  newText : Text
  deriving DecidableEq, Repr

/-- The edits of a rename, none for an empty new name. -/
def renameChanges (fuel : ℕ) (token : TextSpan) (newText : Text) : Option (List TextEdit) :=
  if newText.isEmpty then some []
  else (matchingSpans m bindings sort fuel token).map fun spans => spans.map fun span => { span, newText }

end

end Zith.Ide

/-! Which renames are right: an edit at the declaring token of the binding and at each name that resolves to
    it, and nowhere else.

        token is a name that resolves     only its own span is found, whatever it resolves to
        any other token                   everything that is spelled like it is found -/

namespace Zith.Ide
open Zith.Lib Zith.Frontend Zith.Session

/-! ### What a rename should edit -/

/-- The spans of the identifier tokens. -/
def identifiers (f : ParsedSnapshot) : List TextSpan :=
  (f.tokens.filter fun token => token.kind = .identifier).map fun token => token.span

/-- The token that declares a binding of the file: the first one in its span that spells its name. -/
def Declares (f : ParsedSnapshot) (b : ResolvedName) (token : TextSpan) : Prop :=
  b.kind = .declaration ∧
    ((identifiers f).find? fun span =>
      b.span.start ≤ span.start && span.stop ≤ b.span.stop && spanText f.source span = b.name) = some token

/-- Two entries for one entity, wherever they are used. -/
def SameBinding (a b : ResolvedName) : Prop :=
  a.kind = b.kind ∧ a.target = b.target ∧ a.declaration = b.declaration ∧ a.localId = b.localId

/-- A name that `buildResolutions` resolves to a binding. -/
def ResolvesTo (m : ModuleArtifact) (bindings : List ResolvedName) (b : ResolvedName) (e : Expression) : Prop :=
  e ∈ m.frontend.expressions ∧ e.kind = .name ∧ ∃ r, resolutionOf m bindings e = some r ∧ SameBinding r b

/-- The tokens of a binding: the one that declares it and those of the names that resolve to it. -/
def TokenOf (m : ModuleArtifact) (bindings : List ResolvedName) (b : ResolvedName) (token : TextSpan) : Prop :=
  token ∈ identifiers m.frontend ∧ (Declares m.frontend b token ∨ ∃ e, ResolvesTo m bindings b e ∧ e.span = token)

/-- The edits of a rename from `token` that belong to a binding: pairwise apart, of tokens of the old
    spelling, and at every token of the binding, with the declaring one, and no other. -/
structure RenamesExactly (m : ModuleArtifact) (bindings : List ResolvedName) (b : ResolvedName)
    (token : TextSpan) (newText : Text) (edits : List TextEdit) : Prop where
  covers : ∀ span, span ∈ edits.map TextEdit.span ↔ TokenOf m bindings b span
  declares : ∃ span ∈ edits.map TextEdit.span, Declares m.frontend b span
  apart : (edits.map TextEdit.span).Pairwise Apart
  spelling : ∀ edit ∈ edits, spanText m.frontend.source edit.span = spanText m.frontend.source token ∧
    edit.newText = newText

/-! ### What is walked -/

section
variable (f : ParsedSnapshot)

/-- The expressions in the reach of `walkExpr`. -/
inductive Walked : Expression → Prop where
  | root {id : ExprId} {e : Expression} : id ∈ roots f → entry f.expressions id = some e → Walked e
  | child {id : ExprId} {e e' : Expression} : Walked e → id ∈ children f e →
      entry f.expressions id = some e' → Walked e'

/-- What the parser promises: the tokens are those of the lexer, the ids are places in the table, and no
    expression is below itself. -/
structure Parsed : Prop where
  lexed : f.toFrontendSnapshot = lex f.source
  numbered : Numbered f.expressions
  acyclic : ∃ rank : Expression → ℕ, ∀ e ∈ f.expressions, ∀ id ∈ children f e, ∀ e',
    entry f.expressions id = some e' → rank e' < rank e

variable {f}

theorem mem_of_entry {α : Type} {table : List α} {id : ℕ} {a : α} (h : entry table id = some a) : a ∈ table := by
  rw [entry] at h
  split at h
  · cases h
  · exact List.mem_of_getElem? h

theorem mem_of_walked {e : Expression} (h : Walked f e) : e ∈ f.expressions := by
  cases h with
  | root _ he => exact mem_of_entry he
  | child _ _ he => exact mem_of_entry he

/-- Fuel for one step more than the rank of the expression. -/
theorem walkExpr_isSome {rank : Expression → ℕ}
    (hrank : ∀ e ∈ f.expressions, ∀ id ∈ children f e, ∀ e', entry f.expressions id = some e' → rank e' < rank e) :
    ∀ (fuel : ℕ) (id : ExprId), 0 < fuel → (∀ e, entry f.expressions id = some e → rank e + 1 < fuel) →
      (walkExpr f fuel id).isSome := by
  intro fuel
  induction fuel with
  | zero => intro _ h; exact absurd h (Nat.lt_irrefl 0)
  | succ fuel ih =>
    intro id _ hfuel
    rw [walkExpr]
    cases he : entry f.expressions id with
    | none => rfl
    | some e =>
      have hlt := hfuel e he
      obtain ⟨below, hbelow⟩ := Option.isSome_iff_exists.mp (isSome_mapM fun child hchild =>
        ih child (by omega) fun e' he' => by
          have := hrank e (mem_of_entry he) child hchild e' he'
          omega)
      simp [hbelow]

/-- What is visited is walked. -/
theorem walked_of_walkExpr : ∀ {fuel : ℕ} {id : ExprId} {found : List Expression},
    walkExpr f fuel id = some found → (∀ e, entry f.expressions id = some e → Walked f e) →
      ∀ x ∈ found, Walked f x := by
  intro fuel
  induction fuel with
  | zero => intro id found h; cases h
  | succ fuel ih =>
    intro id found h hid x hx
    rw [walkExpr] at h
    cases he : entry f.expressions id with
    | none =>
      rw [he] at h
      obtain rfl := Option.some.inj h
      cases hx
    | some e =>
      rw [he] at h
      obtain ⟨below, hbelow, rfl⟩ : ∃ below, (children f e).mapM (walkExpr f fuel) = some below ∧
          e :: below.flatten = found := by simpa [Option.bind_eq_some_iff] using h
      rcases List.mem_cons.mp hx with rfl | hx
      · exact hid x he
      · obtain ⟨part, hpart, hx⟩ := List.mem_flatten.mp hx
        obtain ⟨child, hchild, hwalk⟩ := origin_of_mapM hbelow part hpart
        exact ih hwalk (fun e' he' => .child (hid e he) hchild he') x hx

/-- What is visited is closed under `children`. -/
theorem walkExpr_closed : ∀ {fuel : ℕ} {id : ExprId} {found : List Expression},
    walkExpr f fuel id = some found → (∀ e, entry f.expressions id = some e → e ∈ found) ∧
      ∀ x ∈ found, ∀ child ∈ children f x, ∀ e', entry f.expressions child = some e' → e' ∈ found := by
  intro fuel
  induction fuel with
  | zero => intro id found h; cases h
  | succ fuel ih =>
    intro id found h
    rw [walkExpr] at h
    cases he : entry f.expressions id with
    | none =>
      rw [he] at h
      obtain rfl := Option.some.inj h
      refine ⟨?_, ?_⟩
      · rintro e ⟨⟩
      · rintro x ⟨⟩
    | some e =>
      rw [he] at h
      obtain ⟨below, hbelow, rfl⟩ : ∃ below, (children f e).mapM (walkExpr f fuel) = some below ∧
          e :: below.flatten = found := by simpa [Option.bind_eq_some_iff] using h
      refine ⟨fun e' he' => ?_, fun x hx child hchild e' he' => List.mem_cons_of_mem _ ?_⟩
      · obtain rfl := Option.some.inj he'
        exact List.mem_cons_self
      · rcases List.mem_cons.mp hx with rfl | hx
        · obtain ⟨part, hpart, hwalk⟩ := exists_of_mapM hbelow child hchild
          exact List.mem_flatten.mpr ⟨part, hpart, (ih hwalk).1 e' he'⟩
        · obtain ⟨part, hpart, hx⟩ := List.mem_flatten.mp hx
          obtain ⟨other, -, hwalk⟩ := origin_of_mapM hbelow part hpart
          exact List.mem_flatten.mpr ⟨part, hpart, (ih hwalk).2 x hx child hchild e' he'⟩

/-- The walk from the roots visits what is walked. -/
theorem mem_walked {fuel : ℕ} {found : List (List Expression)}
    (h : (roots f).mapM (walkExpr f fuel) = some found) (x : Expression) : x ∈ found.flatten ↔ Walked f x := by
  constructor
  · intro hx
    obtain ⟨part, hpart, hx⟩ := List.mem_flatten.mp hx
    obtain ⟨id, hid, hwalk⟩ := origin_of_mapM h part hpart
    exact walked_of_walkExpr hwalk (fun e he => .root hid he) x hx
  · intro hx
    induction hx with
    | root hid he =>
      obtain ⟨part, hpart, hwalk⟩ := exists_of_mapM h _ hid
      exact List.mem_flatten.mpr ⟨part, hpart, (walkExpr_closed hwalk).1 _ he⟩
    | child _ hchild he ih =>
      obtain ⟨part, hpart, hx⟩ := List.mem_flatten.mp ih
      obtain ⟨id, -, hwalk⟩ := origin_of_mapM h part hpart
      exact List.mem_flatten.mpr ⟨part, hpart, (walkExpr_closed hwalk).2 _ hx _ hchild _ he⟩

end

/-! ### The spans -/

theorem mem_unique {x : TextSpan} : ∀ {spans : List TextSpan}, x ∈ unique spans ↔ x ∈ spans
  | [] => Iff.rfl
  | [_] => Iff.rfl
  | a :: b :: spans => by
    rw [unique]
    split
    · rename_i heq
      subst heq
      rw [mem_unique]
      simp
    · rw [List.mem_cons, mem_unique, List.mem_cons (l := b :: spans)]

/-- Of spans in order, where those of one start are equal, `unique` leaves spans that are apart. -/
theorem pairwise_unique {R : TextSpan → TextSpan → Prop} : ∀ {spans : List TextSpan},
    spans.Pairwise (fun x y => x.start ≤ y.start) →
      (∀ x ∈ spans, ∀ y ∈ spans, x.start ≤ y.start → x = y ∨ x.start < y.start ∧ R x y) → (unique spans).Pairwise R
  | [], _, _ => .nil
  | [_], _, _ => List.pairwise_singleton ..
  | a :: b :: spans, hsorted, hapart => by
    have hrest := @pairwise_unique R (b :: spans) hsorted.tail fun x hx y hy =>
      hapart x (List.mem_cons_of_mem _ hx) y (List.mem_cons_of_mem _ hy)
    rw [unique]
    split
    · exact hrest
    · rename_i hne
      refine List.pairwise_cons.mpr ⟨fun x hx => ?_, hrest⟩
      rw [mem_unique] at hx
      have hax := (List.pairwise_cons.mp hsorted).1
      have hab := hapart a List.mem_cons_self b (by simp) (hax b List.mem_cons_self)
      have hbx : b.start ≤ x.start := by
        rcases List.mem_cons.mp hx with rfl | hx'
        · exact le_rfl
        · exact (List.pairwise_cons.mp hsorted.tail).1 x hx'
      have hlt := (hab.resolve_left hne).1
      rcases hapart a List.mem_cons_self x (List.mem_cons_of_mem _ hx) (hax x hx) with rfl | h
      · omega
      · exact h.2

section
variable {f : ParsedSnapshot}

/-- The tokens of the file are not empty, and two of them are the same or apart. -/
theorem identifiers_apart (hf : Parsed f) {x y : TextSpan} (hx : x ∈ identifiers f) (hy : y ∈ identifiers f) :
    x.start < x.stop ∧ (x = y ∨ Apart x y) := by
  obtain ⟨spans, position, htiles, htokens⟩ := lex_tiles f.source
  have hmem : ∀ z ∈ identifiers f, z ∈ spans := by
    intro z hz
    obtain ⟨token, htoken, rfl⟩ := List.mem_map.mp hz
    obtain ⟨hin, hkind⟩ := List.mem_filter.mp htoken
    rw [hf.lexed] at hin
    exact htokens token hin fun hend => by simp [hend] at hkind
  exact ⟨(htiles.start_le x (hmem x hx)).2, htiles.apart x (hmem x hx) y (hmem y hy)⟩

theorem apart_of_start_le (hf : Parsed f) {x y : TextSpan} (hx : x ∈ identifiers f) (hy : y ∈ identifiers f)
    (hle : x.start ≤ y.start) : x = y ∨ x.start < y.start ∧ Apart x y := by
  obtain ⟨hxwide, hxy⟩ := identifiers_apart hf hx hy
  have hywide := (identifiers_apart hf hy hy).1
  refine hxy.imp_right fun hapart => ⟨?_, hapart⟩
  rcases hapart with h | h <;> omega

end

/-! ### The result -/

section
variable (m : ModuleArtifact) (bindings : List ResolvedName) (b : ResolvedName) (token : TextSpan)

/-- A token that is a name with a resolution. -/
def IsUse : Prop := ∃ e, nameAt m token = some e ∧ (resolutionOf m bindings e).isSome

/-- The token is all there is of a binding: a name that is walked, declares it and is its only token. -/
structure Alone : Prop where
  walked : ∃ e, Walked m.frontend e ∧ e.kind = .name ∧ e.span = token ∧ (resolutionOf m bindings e).isSome
  only : ∀ span, TokenOf m bindings b span ↔ span = token
  declares : Declares m.frontend b token

/-- The spelling of the token belongs to a binding: what is walked or bound or declared under it is the
    binding's, and what is the binding's has the spelling and is walked or bound or declared. -/
structure OwnsSpelling : Prop where
  names : ∀ e, Walked m.frontend e → e.kind = .name →
    spanText m.frontend.source e.span = spanText m.frontend.source token → TokenOf m bindings b e.span
  named : ∀ span ∈ spansNamed m.frontend (spanText m.frontend.source token), TokenOf m bindings b span
  reached : ∀ span, TokenOf m bindings b span →
    (∃ e, Walked m.frontend e ∧ e.kind = .name ∧ e.span = span) ∨
      span ∈ spansNamed m.frontend (spanText m.frontend.source token)
  spelled : ∀ span, TokenOf m bindings b span → spanText m.frontend.source span = spanText m.frontend.source token
  declared : ∃ span, Declares m.frontend b span

end

section
variable {m : ModuleArtifact} {bindings : List ResolvedName} {b : ResolvedName} {token : TextSpan}

theorem tokenOf_declares {span : TextSpan} (h : Declares m.frontend b span) : TokenOf m bindings b span :=
  ⟨List.mem_of_find?_eq_some h.2, Or.inl h⟩

/-- The target of a use is the token itself, and there is none of any other token. -/
theorem targetSpan_eq (hf : Parsed m.frontend) : IsUse m bindings token ∧ targetSpan m bindings token = token ∨
      ¬IsUse m bindings token ∧ targetSpan m bindings token = ⟨0, 0⟩ := by
  rw [targetSpan, IsUse]
  cases hname : nameAt m token with
  | none => exact Or.inr ⟨by simp, rfl⟩
  | some e =>
    obtain ⟨hmem, hkind⟩ := And.intro (List.mem_of_find?_eq_some hname) (List.find?_some hname)
    cases hresolved : resolutionOf m bindings e with
    | none => exact Or.inr ⟨by simp [hresolved], by simp [hresolved]⟩
    | some r =>
      have hspan : r.span = token := by
        rw [span_of_resolutionOf hf.numbered hmem hresolved]
        simp at hkind
        exact hkind.2
      exact Or.inl ⟨⟨e, rfl, by rw [hresolved]; rfl⟩, by simp [hresolved, hspan]⟩

/-- With fuel enough the walk ends. -/
theorem matchingSpans_isSome (hf : Parsed m.frontend) (sort : KeySort TextSpan.start) :
    ∃ least, ∀ extra, (matchingSpans m bindings sort (least + extra) token).isSome := by
  obtain ⟨rank, hrank⟩ := hf.acyclic
  refine ⟨(m.frontend.expressions.map rank).sum + 2, fun extra => ?_⟩
  obtain ⟨walked, hwalked⟩ := Option.isSome_iff_exists.mp (isSome_mapM (l := roots m.frontend)
    fun id _ => walkExpr_isSome hrank ((m.frontend.expressions.map rank).sum + 2 + extra) id (by omega)
      fun e he => by
        have := List.le_sum_of_mem (List.mem_map_of_mem (f := rank) (mem_of_entry he))
        omega)
  simp [matchingSpans, hwalked]

variable {sort : KeySort TextSpan.start} {spans : List TextSpan}

theorem matchingSpans_eq {fuel : ℕ} (h : matchingSpans m bindings sort fuel token = some spans) :
    ∃ found, spans = unique (sort.run found) ∧ ∀ span, span ∈ found ↔
      (∃ e, Walked m.frontend e ∧ isMatch m bindings token (targetSpan m bindings token) e = true ∧ e.span = span) ∨
      (targetSpan m bindings token).stop = 0 ∧ span ∈ spansNamed m.frontend (spanText m.frontend.source token) := by
  obtain ⟨walked, hwalked, rfl⟩ := by
    simpa only [matchingSpans, Option.bind_eq_bind, Option.bind_eq_some_iff, Option.pure_def, Option.some.injEq] using h
  refine ⟨_, rfl, fun span => ?_⟩
  rw [List.mem_append, List.mem_map]
  refine or_congr ?_ ?_
  · simp only [List.mem_filter, mem_walked hwalked, and_assoc]
  · split
    · rename_i hzero
      simp [hzero]
    · rename_i hzero
      simp [hzero]

/-- What a rename finds from a use, and what from any other token. -/
theorem mem_matchingSpans (hf : Parsed m.frontend) (htoken : token ∈ identifiers m.frontend) {fuel : ℕ}
    (h : matchingSpans m bindings sort fuel token = some spans) (span : TextSpan) :
    (IsUse m bindings token → (span ∈ spans ↔ span = token ∧ ∃ e, Walked m.frontend e ∧ e.kind = .name ∧
      e.span = token ∧ (resolutionOf m bindings e).isSome)) ∧ (¬IsUse m bindings token → (span ∈ spans ↔
      (∃ e, Walked m.frontend e ∧ e.kind = .name ∧
        spanText m.frontend.source e.span = spanText m.frontend.source token ∧ e.span = span) ∨
      span ∈ spansNamed m.frontend (spanText m.frontend.source token))) := by
  have hwide := (identifiers_apart hf htoken htoken).1
  obtain ⟨found, rfl, hfound⟩ := matchingSpans_eq h
  rw [mem_unique, (sort.perm found).mem_iff, hfound span]
  rcases @targetSpan_eq m bindings token hf with ⟨huse, htarget⟩ | ⟨huse, htarget⟩
  · refine ⟨fun _ => ?_, fun hnot => absurd huse hnot⟩
    have hstop : token.stop ≠ 0 := by omega
    simp only [htarget, isMatch, hstop, if_false, false_and, or_false, Bool.and_eq_true, decide_eq_true_eq,
      Option.any_eq_true]
    constructor
    · rintro ⟨e, hwalked, ⟨hkind, r, hr, hspan⟩, rfl⟩
      have hown := span_of_resolutionOf hf.numbered (mem_of_walked hwalked) hr
      exact ⟨hown.symm.trans hspan, e, hwalked, hkind, hown.symm.trans hspan, by rw [hr]; rfl⟩
    · rintro ⟨rfl, e, hwalked, hkind, rfl, hresolved⟩
      obtain ⟨r, hr⟩ := Option.isSome_iff_exists.mp hresolved
      exact ⟨e, hwalked, ⟨hkind, r, hr, span_of_resolutionOf hf.numbered (mem_of_walked hwalked) hr⟩, rfl⟩
  · refine ⟨fun hnot => absurd hnot huse, fun _ => ?_⟩
    simp [htarget, isMatch, and_assoc]

/-- Spans that are all tokens are apart. -/
theorem apart_of_identifiers (hf : Parsed m.frontend) {fuel : ℕ}
    (h : matchingSpans m bindings sort fuel token = some spans)
    (htokens : ∀ span ∈ spans, span ∈ identifiers m.frontend) : spans.Pairwise Apart := by
  obtain ⟨found, rfl, -⟩ := matchingSpans_eq h
  refine pairwise_unique (sort.sorted found) fun x hx y hy hle => ?_
  exact apart_of_start_le hf (htokens x (mem_unique.mpr hx)) (htokens y (mem_unique.mpr hy)) hle

/-- The renames that are right: from a token that is not a use, where its spelling is the binding's, or from
    a use that is all there is of the binding. -/
theorem rename_exact_iff (m : ModuleArtifact) (bindings : List ResolvedName) (b : ResolvedName)
    (sort : KeySort TextSpan.start) (hf : Parsed m.frontend) {token : TextSpan}
    (htoken : token ∈ identifiers m.frontend) {newText : Text} (hnew : newText ≠ []) : ∃ least, ∀ extra, ∃ edits,
      renameChanges m bindings sort (least + extra) token newText = some edits ∧
        (RenamesExactly m bindings b token newText edits ↔ IsUse m bindings token ∧ Alone m bindings b token ∨
            ¬IsUse m bindings token ∧ OwnsSpelling m bindings b token) := by
  obtain ⟨least, hleast⟩ := @matchingSpans_isSome m bindings token hf sort
  refine ⟨least, fun extra => ?_⟩
  obtain ⟨spans, hspans⟩ := Option.isSome_iff_exists.mp (hleast extra)
  refine ⟨_, by rw [renameChanges, if_neg (by simpa using hnew), hspans]; rfl, ?_⟩
  have hfound := mem_matchingSpans hf htoken hspans
  have hedits : (spans.map fun span => ({ span, newText } : TextEdit)).map TextEdit.span = spans := by
    rw [List.map_map]
    exact List.map_id spans
  constructor
  · rintro ⟨hcovers, hdeclares, -, hspelling⟩
    rw [hedits] at hcovers hdeclares
    obtain ⟨declaring, hmem, hdeclaring⟩ := hdeclares
    by_cases huse : IsUse m bindings token
    · obtain ⟨rfl, hwalked⟩ := ((hfound declaring).1 huse).mp hmem
      refine Or.inl ⟨huse, hwalked, fun span => ?_, hdeclaring⟩
      rw [← hcovers span, (hfound span).1 huse, and_iff_left hwalked]
    · have hnotUse := fun span => (hfound span).2 huse
      refine Or.inr ⟨huse, fun e hwalked hkind htext => ?_, fun span hspan => ?_, fun span hspan => ?_,
        fun span hspan => ?_, declaring, hdeclaring⟩
      · exact (hcovers e.span).mp ((hnotUse e.span).mpr (Or.inl ⟨e, hwalked, hkind, htext, rfl⟩))
      · exact (hcovers span).mp ((hnotUse span).mpr (Or.inr hspan))
      · exact ((hnotUse span).mp ((hcovers span).mpr hspan)).imp_left
          fun ⟨e, hwalked, hkind, _, hspan⟩ => ⟨e, hwalked, hkind, hspan⟩
      · exact (hspelling ⟨span, newText⟩ (List.mem_map_of_mem ((hcovers span).mpr hspan))).1
  · intro h
    have hcovers : ∀ span, span ∈ spans ↔ TokenOf m bindings b span := by
      intro span
      rcases h with ⟨huse, halone⟩ | ⟨huse, howns⟩
      · rw [(hfound span).1 huse, halone.only span, and_iff_left halone.walked]
      · rw [(hfound span).2 huse]
        constructor
        · rintro (⟨e, hwalked, hkind, htext, rfl⟩ | hspan)
          · exact howns.names e hwalked hkind htext
          · exact howns.named span hspan
        · intro hspan
          refine (howns.reached span hspan).imp_left ?_
          rintro ⟨e, hwalked, hkind, rfl⟩
          exact ⟨e, hwalked, hkind, howns.spelled _ hspan, rfl⟩
    have hdeclared : ∃ span, Declares m.frontend b span := by
      rcases h with ⟨-, halone⟩ | ⟨-, howns⟩
      · exact ⟨token, halone.declares⟩
      · exact howns.declared
    have hspelled : ∀ span, TokenOf m bindings b span →
        spanText m.frontend.source span = spanText m.frontend.source token := by
      rcases h with ⟨-, halone⟩ | ⟨-, howns⟩
      · intro span hspan
        rw [(halone.only span).mp hspan]
      · exact howns.spelled
    constructor
    · simpa only [hedits] using hcovers
    · obtain ⟨declaring, hdeclaring⟩ := hdeclared
      exact ⟨declaring, by rw [hedits]; exact (hcovers declaring).mpr (tokenOf_declares hdeclaring), hdeclaring⟩
    · rw [hedits]
      exact apart_of_identifiers hf hspans fun span hspan => ((hcovers span).mp hspan).1
    · intro edit hedit
      obtain ⟨span, hspan, rfl⟩ := List.mem_map.mp hedit
      exact ⟨hspelled span ((hcovers span).mp hspan), rfl⟩

end

/-- `fn f() { let x = 1; x; }`, as it is parsed. -/
def localUse : ModuleArtifact where
  key := "main"
  frontend :=
    { toFrontendSnapshot := lex (text "fn f() { let x = 1; x; }")
      declarations := [{ id := 1, id_ne_zero := Nat.one_ne_zero, kind := .function, name := text "f", span := ⟨0, 24⟩, body := 3 }]
      expressions := [{ id := 1, kind := .literal, span := ⟨17, 18⟩, text := text "1", scope := 1 },
        { id := 2, kind := .name, span := ⟨20, 21⟩, text := text "x", scope := 1 },
        { id := 3, kind := .block, span := ⟨7, 24⟩, statements := [1, 2], scope := 1 }]
      statements := [
        { id := 1, kind := .binding
          binding := { id := 1, name := text "x", span := ⟨13, 14⟩, initializer := 1 } },
        { id := 2, kind := .expression, expression := 2 }]
      scopes := [{ id := 1 }] }

def localUseBindings : List ResolvedName := (ownBindings (fun _ _ => []) localUse).bindings

def localUseBinding : ResolvedName where
  name := text "x"
  kind := .declaration
  span := ⟨13, 14⟩
  localId := 1
  scope := 1
  declKind := .variable

theorem localUse_parsed : Parsed localUse.frontend where
  lexed := rfl
  numbered := by
    intro i e he
    match i with
    | 0 | 1 | 2 => cases he; rfl
  acyclic := ⟨Expression.id, by decide⟩

/-- Renamed at its use, the local keeps its old name where it is declared. -/
theorem rename_leaves_declaration : localUseBinding ∈ localUseBindings ∧
    TokenOf localUse localUseBindings localUseBinding ⟨20, 21⟩ ∧
      ∃ edits, renameChanges localUse localUseBindings (stableSort _) 5 ⟨20, 21⟩ (text "y") = some edits ∧
        ¬RenamesExactly localUse localUseBindings localUseBinding ⟨20, 21⟩ (text "y") edits := by
  refine ⟨by decide +kernel, ⟨by decide +kernel, Or.inr ⟨localUse.frontend.expressions[1], ?_, rfl⟩⟩,
    [⟨⟨20, 21⟩, text "y"⟩], by decide +kernel, ?_⟩
  · exact ⟨List.getElem_mem _, rfl, { localUseBinding with span := ⟨20, 21⟩, expr := 2 }, by decide +kernel,
      rfl, rfl, rfl, rfl⟩
  · rintro ⟨-, ⟨span, hspan, -, hdeclares⟩, -, -⟩
    obtain rfl : span = ⟨20, 21⟩ := by simpa using hspan
    revert hdeclares
    decide +kernel

/-- The rename of the local, from its use and from where it is declared. -/
theorem localUse_rename_exact_iff : (∃ least, ∀ extra, ∃ edits,
      renameChanges localUse localUseBindings (stableSort _) (least + extra) ⟨20, 21⟩ [121] = some edits ∧
        (RenamesExactly localUse localUseBindings localUseBinding ⟨20, 21⟩ [121] edits ↔
          IsUse localUse localUseBindings ⟨20, 21⟩ ∧ Alone localUse localUseBindings localUseBinding ⟨20, 21⟩ ∨
            ¬IsUse localUse localUseBindings ⟨20, 21⟩ ∧
              OwnsSpelling localUse localUseBindings localUseBinding ⟨20, 21⟩)) ∧ (∃ least, ∀ extra, ∃ edits,
      renameChanges localUse localUseBindings (stableSort _) (least + extra) ⟨13, 14⟩ [121] = some edits ∧
        (RenamesExactly localUse localUseBindings localUseBinding ⟨13, 14⟩ [121] edits ↔
          IsUse localUse localUseBindings ⟨13, 14⟩ ∧ Alone localUse localUseBindings localUseBinding ⟨13, 14⟩ ∨
            ¬IsUse localUse localUseBindings ⟨13, 14⟩ ∧
              OwnsSpelling localUse localUseBindings localUseBinding ⟨13, 14⟩)) :=
  ⟨rename_exact_iff localUse localUseBindings localUseBinding _ localUse_parsed (by decide +kernel)
      (by decide),
    rename_exact_iff localUse localUseBindings localUseBinding _ localUse_parsed (by decide +kernel) (by decide)⟩

end Zith.Ide
