import Zith.Frontend.TemplateClones

/-! An expansion stands on its own when the templates are as the parser makes them, no call in a template has
    attributes and no type names a parameter.

        `IsTemplate` ──▶ `cloneTemplate_from` ──▶ `instantiate_from` ──▶ the walk ──▶ `SelfContained` -/

namespace Zith.Frontend
open Zith.Lib Zith.Lib.Growing

variable {macros : List MacroInfo} {nodes : MacroInfo → TemplateNodes} {S T T' : Tables} {C : NodeSet}
  {m : MacroInfo} {src src' : Tables}

/-! ### Templates in tables that have grown -/

/-- The second tables have every node of the first, calls up to their expansions, and the scopes of the
    template. -/
structure Extends (m : MacroInfo) (nodes : MacroInfo → TemplateNodes) (src src' : Tables) : Prop where
  exprs : ∀ id e, entry src.expressions id = some e →
    ∃ e', entry src'.expressions id = some e' ∧
      { e' with expansion := e.expansion, expansionIsRaw := e.expansionIsRaw } = e
  stmts : ∀ id s, entry src.statements id = some s → entry src'.statements id = some s
  types : ∀ id t, entry src.typeExpressions id = some t → entry src'.typeExpressions id = some t
  scopes : ∀ id, (nodes m).scopes id → ∀ sc, entry src.scopes id = some sc → entry src'.scopes id = some sc

theorem Extends.refl : Extends m nodes src src :=
  ⟨fun _ e he => ⟨e, he, rfl⟩, fun _ _ h => h, fun _ _ h => h, fun _ _ _ h => h⟩

/-- The source of a macro, as it was and as it is. -/
theorem Good.extends (hT : Good macros nodes S C T) (hm : m ∈ macros) :
    Extends m nodes (m.source.getD S) (m.source.getD T) := by
  rcases hsource : m.source with _ | tables
  · exact ⟨hT.oldExprs, hT.oldStmts, hT.oldTypes, hT.oldScopes m hm hsource⟩
  · exact Extends.refl

theorem TypeAvoids.of_entries {types types' : List TypeExpression} {names : List Text}
    (h : ∀ id t, entry types id = some t → entry types' id = some t) {id : TypeExprId}
    (havoids : TypeAvoids types names id) : TypeAvoids types' names id := by
  induction havoids with
  | none => exact .none
  | node hentry hname _ ih => exact .node (h _ _ hentry) hname ih

/-- Expressions that are equal but for what they were expanded to. -/
theorem fields_of_eq {e e' : Expression}
    (h : { e' with expansion := e.expansion, expansionIsRaw := e.expansionIsRaw } = e) :
    e'.kind = e.kind ∧ e'.text = e.text ∧ e'.operands = e.operands ∧ e'.statements = e.statements := by
  rw [← h]
  exact ⟨rfl, rfl, rfl, rfl⟩

/-- The same accesses are to attributes when their operands are there. -/
theorem isSome_attributesBase (hext : Extends m nodes src src') {e e' : Expression} (hsame : e'.operands = e.operands)
    (h : ∀ op, e.operands.head? = some op → op ≠ 0 → ∃ b, entry src.expressions op = some b) :
    (attributesBase src' e').isSome = (attributesBase src e).isSome := by
  rw [attributesBase, attributesBase, hsame]
  rcases hop : e.operands.head? with _ | op
  · rfl
  · rw [Option.bind_some, Option.bind_some]
    by_cases hzero : op = 0
    · rw [hzero, entry_zero, entry_zero]
    · obtain ⟨b, hb⟩ := h op hop hzero
      obtain ⟨b', hb', hcore⟩ := hext.exprs op b hb
      obtain ⟨hkind, htext, _⟩ := fields_of_eq hcore
      rw [hb, hb', Option.filter_some, Option.filter_some, hkind, htext]
      split <;> rfl

theorem isReplaced_eq (hext : Extends m nodes src src') {e e' : Expression}
    (hcore : { e' with expansion := e.expansion, expansionIsRaw := e.expansionIsRaw } = e)
    (h : e.kind = .field → m.hasAttributes = true →
      ∀ op, e.operands.head? = some op → op ≠ 0 → ∃ b, entry src.expressions op = some b) :
    isReplaced m src' e' = isReplaced m src e := by
  obtain ⟨hkind, htext, hops, _⟩ := fields_of_eq hcore
  rw [isReplaced, isReplaced, hkind, htext]
  by_cases hfield : e.kind = .field ∧ m.hasAttributes = true
  · rw [isSome_attributesBase hext hops (h hfield.1 hfield.2)]
  · have hno : ∀ b : Prop, ¬(e.kind = .field ∧ m.hasAttributes = true ∧ b) :=
      fun b hb => hfield ⟨hb.1, hb.2.1⟩
    simp only [hno, decide_false]

/-- The operand of an access to attributes is there, in a template. -/
theorem IsTemplate.exists_head (htemplate : IsTemplate macros nodes src m) {ctx : Ctx} {id : ExprId}
    {e : Expression} (hid : (nodes m).exprs ctx id) (he : entry src.expressions id = some e)
    (hfield : e.kind = .field) :
    ∀ op, e.operands.head? = some op → op ≠ 0 → ∃ b, entry src.expressions op = some b := by
  intro op hop hne
  obtain ⟨e', he', _, hparts⟩ := htemplate.exprs ctx id hid
  obtain rfl := Option.some.inj (he.symm.trans he')
  by_cases hbase : (attributesBase src e).isSome = true
  · rw [attributesBase, hop, Option.bind_some] at hbase
    rcases hb : entry src.expressions op with _ | b
    · rw [hb] at hbase
      cases hbase
    · exact ⟨b, rfl⟩
  · have hnot : isReplaced m src e = false := by
      rw [isReplaced]
      simp [hfield, hbase]
    obtain ⟨b, hb, _⟩ := htemplate.exprs _ op
      ((hparts hnot).operands op (List.mem_append_left _ (List.mem_of_mem_head? hop)) hne)
    exact ⟨b, hb⟩

/-- A template stays one. -/
theorem IsTemplate.of_extends (htemplate : IsTemplate macros nodes src m) (hext : Extends m nodes src src') :
    IsTemplate macros nodes src' m where
  body := htemplate.body
  exprs := by
    intro ctx id hid
    obtain ⟨e, he, hreads, hparts⟩ := htemplate.exprs ctx id hid
    obtain ⟨e', he', hcore⟩ := hext.exprs id e he
    have hreplaced := isReplaced_eq hext hcore fun hfield _ => htemplate.exists_head hid he hfield
    obtain ⟨hkind, htext, hoperands, _⟩ := fields_of_eq hcore
    refine ⟨e', he', fun hfield hattrs hbase => ?_, fun hnot => ?_⟩
    · rw [htext]
      rw [isSome_attributesBase hext hoperands (htemplate.exists_head hid he (hkind ▸ hfield))] at hbase
      exact hreads (hkind ▸ hfield) hattrs hbase
    · obtain ⟨hops, hstmts, hscope, hown, hattrs, hnested, htypes, hloop, hbinding⟩ := hparts (hreplaced ▸ hnot)
      rw [← hcore] at hops hstmts hscope hown hattrs hnested htypes hloop hbinding
      refine ⟨hops, hstmts, ?_, hown, hattrs, hnested, fun t ht => (htypes t ht).of_entries hext.types, hloop,
        fun hne => ?_⟩
      · rw [ScopeNests] at hscope ⊢
        split at hscope
        · next hblock =>
          obtain ⟨sc, hsc, hparent⟩ := hscope
          exact if_pos hblock ▸ ⟨sc, hext.scopes _ (hown hblock.1 hblock.2) sc hsc, hparent⟩
        · next hblock => exact if_neg hblock ▸ hscope
      · obtain ⟨b, hb, body, hbody, hnotBody, hmem⟩ := hbinding hne
        obtain ⟨body', hbody', hcoreBody⟩ := hext.exprs b body hbody
        have hbid := hops b (List.mem_append_left _ hb) (ne_zero_of_entry hbody)
        refine ⟨b, hb, body', hbody', ?_, ?_⟩
        · rw [isReplaced_eq hext hcoreBody fun hfield _ => htemplate.exists_head hbid hbody hfield]
          exact hnotBody
        · rw [(fields_of_eq hcoreBody).2.2.2]
          exact hmem
  stmts := by
    intro blocks id hid
    obtain ⟨s, hs, hops, hattrs, htypes, hname⟩ := htemplate.stmts blocks id hid
    exact ⟨s, hext.stmts id s hs, hops, hattrs, fun t ht => (htypes t ht).of_entries hext.types, hname⟩

/-! ### A call that is expanded -/

section
variable (macros : List MacroInfo) (nodes : MacroInfo → TemplateNodes) (S : Tables) (C : NodeSet)

/-- A call of a macro: it has an argument for each parameter, and gives the attributes that are read. -/
structure IsCall (T : Tables) (m : MacroInfo) (call : Expression) : Prop where
  found : macros.find? (fun m => m.name == call.text) = some m
  arity : call.operands.length = m.params.length
  operands : ∀ id ∈ call.operands, id ≠ 0 ∧ (own S T C).exprs id
  attributes : ∀ id ∈ call.attributes, id ≠ 0 → (own S T C).exprs id
  scope : call.scope ≠ 0 → (own S T C).scopes call.scope
  gives : GivesAttributes macros nodes call

end

theorem IsCall.mem {call : Expression} (h : IsCall macros nodes S C T m call) : m ∈ macros :=
  List.mem_of_find?_eq_some h.found

theorem failWhen_bind_eq_ok {condition : Prop} [Decidable condition] {problem : MacroDiagnostic}
    {f : Unit → Except (Option MacroDiagnostic) MacroInfo} :
    (failWhen condition problem >>= f) = .ok m ↔ ¬condition ∧ f () = .ok m := by
  unfold failWhen
  split
  · next h => exact ⟨nofun, fun hf => absurd h hf.1⟩
  · next h => exact ⟨fun hf => ⟨h, hf⟩, fun hf => hf.2⟩

/-- What a call that passes the checks is like. -/
theorem checkCall_ok {stack : List Text} {tables : Tables} {call : Expression}
    (h : checkCall macros stack tables call = .ok m) :
    macros.find? (fun m => m.name == call.text) = some m ∧ call.operands.length = m.params.length ∧
      ∀ id ∈ call.operands, id ≠ 0 := by
  unfold checkCall at h
  rcases hfind : macros.find? (fun m => m.name == call.text) with _ | m'
  · rw [hfind] at h
    cases h
  rw [hfind] at h
  obtain ⟨harity, h⟩ := failWhen_bind_eq_ok.mp h
  obtain ⟨_, h⟩ := failWhen_bind_eq_ok.mp h
  obtain ⟨_, h⟩ := failWhen_bind_eq_ok.mp h
  rcases hargs : (m'.params.zip call.operands).findSome? (fun p => checkArgument m' tables stack p.1 p.2) with
    _ | wrong
  · rw [hargs] at h
    obtain ⟨_, h⟩ := failWhen_bind_eq_ok.mp h
    obtain ⟨_, h⟩ := failWhen_bind_eq_ok.mp h
    obtain ⟨_, h⟩ := failWhen_bind_eq_ok.mp h
    obtain rfl := Except.ok.inj h
    have harity := not_not.mp harity
    refine ⟨hfind, harity, fun id hid hzero => ?_⟩
    -- an id of nothing is among what is checked
    obtain ⟨i, hi, rfl⟩ := List.mem_iff_getElem.mp hid
    have hmem : (m'.params[i], call.operands[i]) ∈ m'.params.zip call.operands :=
      List.mem_iff_getElem.mpr ⟨i, by rw [List.length_zip]; omega, List.getElem_zip⟩
    have hnone := List.findSome?_eq_none_iff.mp hargs _ hmem
    rw [checkArgument, hzero, entry_zero] at hnone
    cases hnone
  · rw [hargs] at h
    cases h

/-- The template of a macro may be cloned for a call of it. -/
theorem clonable_of_isTemplate {call : Expression} (hcall : IsCall macros nodes S C T m call)
    (htemplate : IsTemplate macros nodes src m) :
    Clonable macros nodes S C { callSpan := call.span, template := some m, args := call.operands }
      (call.attributeNames.zip call.attributes) src T (nodes m).exprs (nodes m).stmts where
  exprs := by
    intro ctx id hid
    obtain ⟨e, he, hreads, hparts⟩ := htemplate.exprs ctx id hid
    refine ⟨e, he, fun hreplaced => ?_, fun hnot => ?_⟩
    · rw [Cloning.replaces, Option.any_some, isReplaced, Bool.or_eq_true, decide_eq_true_iff, decide_eq_true_iff]
        at hreplaced
      rw [replacedBy, Option.bind_some]
      rcases hreplaced with ⟨hfield, hattrs, hbase⟩ | ⟨hname, hparam⟩
      · obtain ⟨base, hbase'⟩ := Option.isSome_iff_exists.mp hbase
        obtain ⟨attr, hattr, hne⟩ := hcall.gives m hcall.found e.text (hreads hfield hattrs hbase)
        rw [if_pos ⟨hfield, hattrs⟩, hbase', Option.bind_some, hattr]
        refine ⟨attr.2, rfl, hne, hcall.attributes _ ?_ hne⟩
        exact (List.of_mem_zip (List.mem_of_find?_eq_some hattr)).2
      · obtain ⟨i, hi⟩ := Option.isSome_iff_exists.mp hparam
        have hlt : i < call.operands.length := by
          rw [hcall.arity]
          exact (List.findIdx?_eq_some_iff_getElem.mp hi).1
        have hnot : ¬(e.kind = .field ∧ m.hasAttributes = true) := by
          rintro ⟨hfield, _⟩
          rw [hname] at hfield
          cases hfield
        rw [if_neg hnot, if_pos hname, hi, Option.bind_some, List.getElem?_eq_getElem hlt]
        exact ⟨_, rfl, hcall.operands _ (List.getElem_mem hlt)⟩
    · have hparts := hparts hnot
      exact {
        operands := hparts.operands
        statements := hparts.statements
        ownScope := by rintro ⟨⟩
        nests := fun _ => hparts.scope
        attributes := fun a ha => by
          rw [hparts.attributes] at ha
          cases ha
        bindingStmt := fun hne => Or.inr (hparts.bindingStmt hne)
        gives := hparts.nested
        loop := by
          rintro _ ⟨⟩
          exact hparts.loop
        types := by
          rintro _ ⟨⟩
          exact hparts.types }
  stmts := by
    intro blocks id hid
    obtain ⟨s, hs, hparts⟩ := htemplate.stmts blocks id hid
    refine ⟨s, hs, hparts.operands, fun a ha hne => absurd (hparts.attributes a ha) hne, ?_, ?_⟩
    · rintro _ ⟨⟩
      exact hparts.name
    · rintro _ ⟨⟩
      exact hparts.types

/-! ### A template is cloned -/

section
variable (macros nodes S C)

/-- An expansion as a program over tables that grow. -/
def expanding : Growing Expander where
  inv st := Good macros nodes S C st.snapshot
  later s t := s.snapshot.Le t.snapshot
  refl _ := .refl _
  trans h h' := h.trans h'

end

variable {s : Expander} {call : Expression} {fuel : ℕ}

/-- The clone of a template is an instance of it. -/
theorem cloneTemplate_from (hC : IsCaller macros nodes S C) (hM : AreTemplates macros nodes S C)
    (hcall : IsCall macros nodes S C s.snapshot m call) :
    (expanding macros nodes S C).From s (cloneTemplate fuel m call) fun id t =>
      Linked t.exprMap m.body id ∧ (id ≠ 0 → Added S.expressions t.snapshot.expressions id) ∧
        IsInstance m call (m.source.getD s.snapshot) t.snapshot t.exprMap t.stmtMap := by
  intro hs id t hrun
  obtain ⟨_, _, hreset, hrun⟩ := bind_eq_some hrun
  obtain ⟨_, rfl⟩ := Prod.mk.inj (Option.some.inj hreset)
  have htemplate := (hM.templates m hcall.mem).of_extends (Good.extends hs hcall.mem)
  have hstart : CloneInv macros nodes S C { callSpan := call.span, template := some m, args := call.operands }
      (call.attributeNames.zip call.attributes) (m.source.getD s.snapshot) s.snapshot
      { s with
        scopeMap := [], exprMap := [], stmtMap := [], localMap := []
        callAttributes := some (call.attributeNames.zip call.attributes), callSpanForAttrs := call.span } :=
    ⟨hs, .refl _, .refl _, fun _ => rfl, nofun, nofun, nofun⟩
  obtain ⟨ht, hlater, hlinked⟩ := cloneExpr_from hC fuel (clonable_of_isTemplate hcall htemplate) {} call.scope
    m.body _ (by exact ⟨nofun, fun _ => hcall.scope⟩) htemplate.body hstart id t hrun
  refine ⟨ht.good, hlater.tables.le, hlinked, added_of_linked ht hlinked, ?_, ?_, ?_⟩
  · intro x x' e arg hmem he harg
    exact ((ht.exprMap _ hmem).2 e he).1 arg harg
  · intro x x' e hmem he hnot
    obtain ⟨e', he', hcopy, hnames⟩ := ((ht.exprMap _ hmem).2 e he).2 hnot
    exact ⟨e', he', hcopy, hnames m rfl⟩
  · intro x x' stmt hmem hstmt
    obtain ⟨stmt', hstmt', hcopy, hnames⟩ := (ht.stmtMap _ hmem).2 stmt hstmt
    exact ⟨stmt', hstmt', hcopy, hnames m rfl⟩

/-! ### Nodes that change -/

/-- Tables of the same size stay good when what was added stays fresh, and what there was keeps all but its
    expansions and the parents of scopes of no template. -/
theorem Good.update (hT : Good macros nodes S C T) (hle : T.Le T') (hge : T'.Le T)
    (hexprs : ∀ id e', entry T'.expressions id = some e' → ∃ e, entry T.expressions id = some e ∧
      ((Added S.expressions T.expressions id → FreshExpr macros nodes S C T e → FreshExpr macros nodes S C T e') ∧
        (Added S.expressions T.expressions id ∨
          { e' with expansion := e.expansion, expansionIsRaw := e.expansionIsRaw } = e)))
    (hstmts : ∀ id s', entry T'.statements id = some s' → ∃ s, entry T.statements id = some s ∧
      (s' = s ∨ Added S.statements T.statements id ∧ (FreshStmt S C T s → FreshStmt S C T s')))
    (hscopes : ∀ id sc', entry T'.scopes id = some sc' → ∃ sc, entry T.scopes id = some sc ∧
      (sc' = sc ∨ (own S T C).scopes id ∧ (sc'.parent ≠ 0 → (own S T C).scopes sc'.parent)))
    (htypes : T'.typeExpressions = T.typeExpressions)
    (hapart : ∀ m ∈ macros, m.source = none → ∀ id, (nodes m).scopes id → ¬C.scopes id) :
    Good macros nodes S C T' where
  grown := hT.grown.trans hle
  oldExprs id e he := by
    obtain ⟨e₁, he₁, hsame⟩ := hT.oldExprs id e he
    obtain ⟨e₂, he₂⟩ := exists_entry (ne_zero_of_entry he₁) ((le_of_entry he₁).trans hle.expressions)
    obtain ⟨e₃, he₃, _, hadded | hsame'⟩ := hexprs id e₂ he₂
    · exact absurd hadded.1 (Nat.not_lt.mpr (le_of_entry he))
    · obtain rfl := Option.some.inj (he₁.symm.trans he₃)
      refine ⟨e₂, he₂, ?_⟩
      rw [← hsame, ← hsame']
  oldStmts id st hst := by
    have hst₁ := hT.oldStmts id st hst
    obtain ⟨st₂, hst₂⟩ := exists_entry (ne_zero_of_entry hst₁) ((le_of_entry hst₁).trans hle.statements)
    obtain ⟨st₃, hst₃, rfl | ⟨hadded, _⟩⟩ := hstmts id st₂ hst₂
    · exact hst₂.trans (hst₃.symm.trans hst₁)
    · exact absurd hadded.1 (Nat.not_lt.mpr (le_of_entry hst))
  oldTypes id t ht := by
    rw [htypes]
    exact hT.oldTypes id t ht
  oldScopes m hm hsource id hid sc hsc := by
    have hsc₁ := hT.oldScopes m hm hsource id hid sc hsc
    obtain ⟨sc₂, hsc₂⟩ := exists_entry (ne_zero_of_entry hsc₁) ((le_of_entry hsc₁).trans hle.scopes)
    obtain ⟨sc₃, hsc₃, rfl | ⟨hadded | hcaller, _⟩⟩ := hscopes id sc₂ hsc₂
    · exact hsc₂.trans (hsc₃.symm.trans hsc₁)
    · exact absurd hadded.1 (Nat.not_lt.mpr (le_of_entry hsc))
    · exact absurd hcaller (hapart m hm hsource id hid)
  exprs id e' hadded he' := by
    obtain ⟨e, he, hfresh, _⟩ := hexprs id e' he'
    have hadded' := hadded.mono hge.expressions
    exact (hfresh hadded' (hT.exprs id e hadded' he)).mono hle
  stmts id st' hadded hst' := by
    obtain ⟨st, hst, hsame⟩ := hstmts id st' hst'
    have hfresh := hT.stmts id st (hadded.mono hge.statements) hst
    rcases hsame with rfl | ⟨_, hstays⟩
    · exact hfresh.mono hle
    · exact (hstays hfresh).mono hle
  scopes id sc' hadded hsc' hne := by
    obtain ⟨sc, hsc, rfl | ⟨_, hparent⟩⟩ := hscopes id sc' hsc'
    · exact own_scopes_mono hle (hT.scopes id sc' (hadded.mono hge.scopes) hsc hne)
    · exact own_scopes_mono hle (hparent hne)
  types id t hadded ht a ha hne := by
    rw [htypes] at hadded ht ⊢
    exact hT.types id t hadded ht a ha hne

section
variable {α : Type} {l : List α} {a : α} {id : ℕ}

theorem entry_mapIdx {f : ℕ → α → α} : entry (l.mapIdx f) id = (entry l id).map (f (id - 1)) := by
  unfold entry
  split
  · rfl
  · rw [List.getElem?_mapIdx]

/-- An entry of a table of which one entry was changed. -/
theorem entry_of_modify {f : α → α} {k : ℕ} (hk : k ≠ 0) (h : entry (l.modify (k - 1) f) id = some a) :
    ∃ b, entry l id = some b ∧ (a = b ∨ id = k ∧ a = f b) := by
  obtain ⟨hne, hget⟩ := entry_eq_some_iff.mp h
  rw [List.getElem?_modify] at hget
  obtain ⟨b, hb, hab⟩ := Option.map_eq_some_iff.mp hget
  refine ⟨b, entry_eq_some_iff.mpr ⟨hne, hb⟩, ?_⟩
  split at hab
  · next hk' => exact Or.inr ⟨by omega, hab.symm⟩
  · exact Or.inl hab.symm

end

/-! ### The steps of an expansion -/

theorem addExpression_expanding {e : Expression} (he : FreshExpr macros nodes S C s.snapshot e) :
    (expanding macros nodes S C).From s (addExpression e) fun id t =>
      Added S.expressions t.snapshot.expressions id := by
  intro hs id t hrun
  obtain ⟨rfl, rfl⟩ := Prod.mk.inj (Option.some.inj hrun)
  obtain ⟨hle, hgood, hadded⟩ := Good.addExpression hs he
  exact ⟨hgood, hle.le, hadded⟩

theorem addStatement_expanding {stmt : Statement} (hstmt : FreshStmt S C s.snapshot stmt) :
    (expanding macros nodes S C).From s (addStatement stmt) fun id t =>
      Added S.statements t.snapshot.statements id := by
  intro hs id t hrun
  obtain ⟨rfl, rfl⟩ := Prod.mk.inj (Option.some.inj hrun)
  obtain ⟨hle, hgood, hadded⟩ := Good.addStatement hs hstmt
  exact ⟨hgood, hle.le, hadded⟩

theorem present_expanding {α : Type} {o : Option α} :
    (expanding macros nodes S C).From s (present o) fun a t => t = s ∧ o = some a := by
  intro hs a t hrun
  obtain ⟨b, rfl, hb⟩ := Option.map_eq_some_iff.mp hrun
  obtain ⟨rfl, rfl⟩ := Prod.mk.inj hb
  exact ⟨hs, .refl _, rfl, rfl⟩

/-- A step that leaves the tables alone. -/
theorem modify_expanding {f : Expander → Expander} (hf : (f s).snapshot = s.snapshot) :
    (expanding macros nodes S C).From s (modify f) fun _ t => t.snapshot = s.snapshot := by
  refine From.modify (fun hs => ?_) ?_ hf
  · change Good macros nodes S C (f s).snapshot
    rw [hf]
    exact hs
  · change s.snapshot.Le (f s).snapshot
    rw [hf]
    exact .refl _

theorem expansionScope_from (hscope : call.scope ≠ 0 → (own S s.snapshot C).scopes call.scope) :
    (expanding macros nodes S C).From s (expansionScope m call) fun id t =>
      id ≠ 0 → (own S t.snapshot C).scopes id := by
  refine From.ite (fun _ => From.pure hscope) fun _ hs id t hrun => ?_
  obtain ⟨rfl, rfl⟩ := Prod.mk.inj (Option.some.inj hrun)
  have hparent : ({ id := 0, parent := call.scope, span := call.span } : Scope).parent ≠ 0 →
      (own S s.snapshot C).scopes call.scope := hscope
  obtain ⟨hle, hgood, hadded⟩ := Good.addScope hs hparent
  exact ⟨hgood, hle.le, fun _ => Or.inl hadded⟩

/-- Only names and bindings of nodes that were added are renamed. -/
theorem renameHygienic_from (hM : AreTemplates macros nodes S C) {renames : List (Text × Text)}
    {origExprCount origStmtCount : ℕ} (hexprs : S.expressions.length ≤ origExprCount)
    (hstmts : S.statements.length ≤ origStmtCount) :
    (expanding macros nodes S C).From s (renameHygienic renames origExprCount origStmtCount) fun _ _ => True := by
  intro hs _ t hrun
  obtain ⟨_, rfl⟩ := Prod.mk.inj (Option.some.inj hrun)
  refine ⟨Good.update hs ⟨?_, ?_, le_rfl, le_rfl⟩ ⟨?_, ?_, le_rfl, le_rfl⟩ ?_ ?_
    (fun id sc hsc => ⟨sc, hsc, Or.inl rfl⟩) rfl hM.apart, ⟨?_, ?_, le_rfl, le_rfl⟩, trivial⟩
  all_goals try exact (List.length_mapIdx ..).le
  all_goals try exact (List.length_mapIdx ..).ge
  · intro id e' he'
    rw [entry_mapIdx] at he'
    obtain ⟨e, he, rfl⟩ := Option.map_eq_some_iff.mp he'
    refine ⟨e, he, ?_⟩
    split
    · exact ⟨fun _ h => h, Or.inr rfl⟩
    · next hrenamed =>
      have hname : e.kind = .name := by
        by_contra hother
        exact hrenamed (Or.inr (Or.inr hother))
      have hadded : Added S.expressions s.snapshot.expressions id := by
        have hnew : ¬id - 1 < origExprCount := fun hold => hrenamed (Or.inl hold)
        have hne := ne_zero_of_entry he
        exact ⟨by omega, le_of_entry he⟩
      refine ⟨fun _ hfresh => ?_, Or.inl hadded⟩
      obtain ⟨hops, hsts, hattrs, hbinding, hscope, htypes, hexpansion, _⟩ := hfresh
      refine ⟨hops, hsts, hattrs, hbinding, hscope, htypes, hexpansion, fun hcall => ?_⟩
      rw [hname] at hcall
      cases hcall
  · intro id s' hs'
    rw [entry_mapIdx] at hs'
    obtain ⟨stmt, hstmt, rfl⟩ := Option.map_eq_some_iff.mp hs'
    refine ⟨stmt, hstmt, ?_⟩
    split
    · exact Or.inl rfl
    · next hrenamed =>
      have hnew : ¬id - 1 < origStmtCount := fun hold => hrenamed (Or.inl hold)
      have hne := ne_zero_of_entry hstmt
      exact Or.inr ⟨⟨by omega, le_of_entry hstmt⟩, fun hfresh => ⟨hfresh.operands, hfresh.attributes, hfresh.types⟩⟩

/-- A block of the expansion, or of the caller, is put below a scope of the call. -/
theorem reparent_from (hM : AreTemplates macros nodes S C) {block : Expression} {parent : ScopeId}
    (hblock : block.scope ≠ 0 → (own S s.snapshot C).scopes block.scope)
    (hparent : parent ≠ 0 → (own S s.snapshot C).scopes parent) :
    (expanding macros nodes S C).From s (reparent block parent) fun _ _ => True := by
  refine From.ite (fun hne => ?_) fun _ => From.pure trivial
  refine From.get fun _ => present_expanding.bind ?_
  rintro scope t _ _ ⟨rfl, hscope⟩ ht _ u hrun
  obtain ⟨_, rfl⟩ := Prod.mk.inj (Option.some.inj hrun)
  refine ⟨Good.update ht ⟨le_rfl, le_rfl, ?_, le_rfl⟩ ⟨le_rfl, le_rfl, ?_, le_rfl⟩
    (fun id e he => ⟨e, he, fun _ h => h, Or.inr rfl⟩) (fun id stmt hstmt => ⟨stmt, hstmt, Or.inl rfl⟩) ?_ rfl
    hM.apart, ⟨le_rfl, le_rfl, ?_, le_rfl⟩, trivial⟩
  · exact (List.length_modify ..).ge
  · exact (List.length_modify ..).le
  · intro id sc' hsc'
    obtain ⟨sc, hsc, rfl | ⟨rfl, rfl⟩⟩ := entry_of_modify hne hsc'
    · exact ⟨sc', hsc, Or.inl rfl⟩
    · exact ⟨sc, hsc, Or.inr ⟨hblock hne, hparent⟩⟩
  · exact (List.length_modify ..).ge

/-- What stands for a call is a block of the expansion. -/
theorem wrapExpansion_from (hM : AreTemplates macros nodes S C) {body : ExprId}
    (hscope : call.scope ≠ 0 → (own S s.snapshot C).scopes call.scope)
    (hbody : body ≠ 0 → Added S.expressions s.snapshot.expressions body) :
    (expanding macros nodes S C).From s (wrapExpansion m call body) fun id t =>
      Added S.expressions t.snapshot.expressions id := by
  unfold wrapExpansion
  refine (expansionScope_from hscope).bind fun scope t _ hst hown => ?_
  -- a block of statements that were added
  have hblock : ∀ u, t.snapshot.Le u.snapshot → ∀ statements : List StmtId,
      (∀ id ∈ statements, id ≠ 0 → Added S.statements u.snapshot.statements id) →
        (expanding macros nodes S C).From u (addExpression
          { id := 0, kind := .block, span := call.span, scope, statements }) fun id v =>
            Added S.expressions v.snapshot.expressions id := by
    intro u htu statements hstatements
    refine addExpression_expanding ?_
    exact {
      operands := nofun
      statements := hstatements
      attributes := nofun
      bindingStmt := fun hne => absurd rfl hne
      scope := fun hne => own_scopes_mono htu (hown hne)
      types := fun id hid hne => absurd (List.mem_singleton.mp hid) hne
      expansion := fun hne => absurd rfl hne
      gives := nofun }
  refine From.ite (fun _ => hblock t (.refl _) [] nofun) fun hne => ?_
  have hadded := (hbody hne).mono hst.expressions
  refine From.get fun ht => present_expanding.bind ?_
  rintro expanded u hu htu ⟨rfl, hexpanded⟩
  have hfresh := hu.exprs body expanded hadded hexpanded
  refine From.ite (fun _ => ?_) fun _ => From.ite (fun _ => ?_) fun _ => ?_
  · refine (reparent_from hM hfresh.scope fun hne => own_scopes_mono hst (hscope hne)).bind fun _ v _ huv _ => ?_
    exact From.pure (hadded.mono huv.expressions)
  · exact hblock u htu expanded.statements hfresh.statements
  · refine (addStatement_expanding ?_).bind fun id v _ huv hid => ?_
    · refine ⟨?_, nofun, nofun⟩
      rintro id (_ | ⟨_, hid⟩) _
      · exact hadded
      · cases hid
    · refine hblock v (htu.trans huv) [id] fun id' hid' _ => ?_
      rw [List.mem_singleton.mp hid']
      exact hid

/-- The expansion of a call is a block of its own. -/
theorem instantiate_from (hC : IsCaller macros nodes S C) (hM : AreTemplates macros nodes S C)
    (hcall : IsCall macros nodes S C s.snapshot m call) :
    (expanding macros nodes S C).From s (instantiate fuel m call) fun id t =>
      Added S.expressions t.snapshot.expressions id := by
  refine From.get fun hs => ?_
  have hnames : (expanding macros nodes S C).From s (hygieneNames fuel m) fun _ t => t = s := by
    refine From.ite (fun _ => From.pure rfl) fun _ => From.get fun _ => ?_
    exact present_expanding.mono fun _ _ _ _ h => h.1
  refine hnames.bind ?_
  rintro names _ _ _ rfl
  refine (modify_expanding rfl).bind fun _ t _ _ hsame => ?_
  refine (cloneTemplate_from hC hM (hsame ▸ hcall)).bind fun body u _ htu hbody => ?_
  have hscope : call.scope ≠ 0 → (own S u.snapshot C).scopes call.scope :=
    fun hne => own_scopes_mono htu (hsame ▸ hcall.scope hne)
  refine (renameHygienic_from hM hs.grown.expressions hs.grown.statements).bind fun _ v _ huv _ => ?_
  refine (wrapExpansion_from hM (fun hne => own_scopes_mono huv (hscope hne))
    fun hne => (hbody.2.1 hne).mono huv.expressions).bind fun result w _ hvw hresult => ?_
  exact (modify_expanding rfl).bind fun _ x _ hwx _ => From.pure (hresult.mono hwx.expressions)

/-! ### The walk -/

/-- The expansion of a call is noted at it. -/
theorem setExpansion_from (hM : AreTemplates macros nodes S C) {id result : ExprId} {isRaw : Bool} (hne : id ≠ 0)
    (hresult : Added S.expressions s.snapshot.expressions result) :
    (expanding macros nodes S C).From s (setExpansion id result isRaw) fun _ _ => True := by
  intro hs _ t hrun
  obtain ⟨_, rfl⟩ := Prod.mk.inj (Option.some.inj hrun)
  refine ⟨Good.update hs ⟨?_, le_rfl, le_rfl, le_rfl⟩ ⟨?_, le_rfl, le_rfl, le_rfl⟩ ?_
    (fun id stmt hstmt => ⟨stmt, hstmt, Or.inl rfl⟩) (fun id sc hsc => ⟨sc, hsc, Or.inl rfl⟩) rfl hM.apart,
    ⟨?_, le_rfl, le_rfl, le_rfl⟩, trivial⟩
  · exact (List.length_modify ..).ge
  · exact (List.length_modify ..).le
  · intro id' e' he'
    obtain ⟨e, he, rfl | ⟨rfl, rfl⟩⟩ := entry_of_modify hne he'
    · exact ⟨e', he, fun _ h => h, Or.inr rfl⟩
    · refine ⟨e, he, fun _ hfresh => ?_, Or.inr rfl⟩
      obtain ⟨hops, hsts, hattrs, hbinding, hscope, htypes, _, hgives⟩ := hfresh
      exact ⟨hops, hsts, hattrs, hbinding, hscope, htypes, fun _ => hresult, hgives⟩
  · exact (List.length_modify ..).ge

/-- The statements of a node that was added may become others that were added. -/
theorem setStatements_from (hM : AreTemplates macros nodes S C) {id : ExprId} {statements : List StmtId}
    (hid : Added S.expressions s.snapshot.expressions id)
    (hstatements : ∀ sid ∈ statements, sid ≠ 0 → Added S.statements s.snapshot.statements sid) :
    (expanding macros nodes S C).From s (setStatements id statements) fun _ _ => True := by
  intro hs _ t hrun
  obtain ⟨_, rfl⟩ := Prod.mk.inj (Option.some.inj hrun)
  refine ⟨Good.update hs ⟨?_, le_rfl, le_rfl, le_rfl⟩ ⟨?_, le_rfl, le_rfl, le_rfl⟩ ?_
    (fun id stmt hstmt => ⟨stmt, hstmt, Or.inl rfl⟩) (fun id sc hsc => ⟨sc, hsc, Or.inl rfl⟩) rfl hM.apart,
    ⟨?_, le_rfl, le_rfl, le_rfl⟩, trivial⟩
  · exact (List.length_modify ..).ge
  · exact (List.length_modify ..).le
  · intro id' e' he'
    obtain ⟨e, he, rfl | ⟨rfl, rfl⟩⟩ := entry_of_modify hid.ne_zero he'
    · exact ⟨e', he, fun _ h => h, Or.inr rfl⟩
    · refine ⟨e, he, fun _ hfresh => ?_, Or.inl hid⟩
      obtain ⟨hops, _, hattrs, hbinding, hscope, htypes, hexpansion, hgives⟩ := hfresh
      exact ⟨hops, hstatements, hattrs, hbinding, hscope, htypes, hexpansion, hgives⟩
  · exact (List.length_modify ..).ge

/-- The statements of a raw macro that are put in the place of a statement were added. -/
theorem splice_from {stmt : Statement} (hstmt : FreshStmt S C s.snapshot stmt) :
    (expanding macros nodes S C).From s (splice stmt) fun inserted t =>
      t = s ∧ ∀ statements, inserted = some statements →
        ∀ sid ∈ statements, sid ≠ 0 → Added S.statements s.snapshot.statements sid := by
  refine From.ite (fun hexpr => ?_) fun _ => From.pure ⟨rfl, nofun⟩
  refine From.get fun hs => present_expanding.bind ?_
  rintro es _ _ _ ⟨rfl, hes⟩
  have hfresh := hs.exprs _ es (hstmt.operands _ (List.mem_cons_self ..) hexpr.2) hes
  refine From.ite (fun hraw => ?_) fun _ => From.pure ⟨rfl, nofun⟩
  refine From.get fun _ => present_expanding.bind ?_
  rintro expansion _ _ _ ⟨rfl, hexpansion⟩
  refine From.pure ⟨rfl, ?_⟩
  rintro _ ⟨⟩
  exact (hs.exprs _ expansion (hfresh.expansion hraw.2.1) hexpansion).statements

section
variable (macros nodes S C)

/-- A walk that may start at whatever was created. -/
def Expands (expand : ExprId → Expand Unit) : Prop :=
  ∀ id s, (id ≠ 0 → Added S.expressions s.snapshot.expressions id) →
    (expanding macros nodes S C).From s (expand id) fun _ _ => True

end

variable {expand : ExprId → Expand Unit}

theorem walkOperand_from (hexpand : Expands macros nodes S C expand) {id : ExprId}
    (hid : id ≠ 0 → Added S.expressions s.snapshot.expressions id) :
    (expanding macros nodes S C).From s (walkOperand expand id) fun _ _ => True :=
  From.ite (fun _ => hexpand id s hid) fun _ => From.pure trivial

theorem walkAll_from (hexpand : Expands macros nodes S C expand) {ids : List ExprId}
    (hids : ∀ id ∈ ids, id ≠ 0 → Added S.expressions s.snapshot.expressions id) :
    (expanding macros nodes S C).From s (ids.forM expand) fun _ _ => True :=
  From.forM fun id hid t _ hst => hexpand id t fun hne => (hids id hid hne).mono hst.expressions

theorem walkStatement_from (hexpand : Expands macros nodes S C expand) {stmt : Statement}
    (hstmt : FreshStmt S C s.snapshot stmt) :
    (expanding macros nodes S C).From s (walkStatement expand stmt) fun _ _ => True := by
  unfold walkStatement
  refine (walkOperand_from hexpand (hstmt.operands _ (List.mem_cons_self ..))).bind fun _ t _ hst _ => ?_
  have hstmt₁ := hstmt.mono hst
  refine From.bind (Q := fun _ _ => True) (From.ite (fun hbinding => ?_) fun _ => From.pure trivial)
    fun _ u _ htu _ => ?_
  · refine walkOperand_from hexpand (hstmt₁.operands _ ?_)
    rw [Statement.operands, if_pos hbinding]
    exact List.mem_cons_of_mem _ (List.mem_append_left _ (List.mem_singleton_self _))
  · refine walkAll_from hexpand fun id hid => (hstmt₁.mono htu).operands id ?_
    exact List.mem_cons_of_mem _ (List.mem_append_right _ hid)

/-- The statements of a node that was created are walked, those of raw macros in the place of their calls. -/
theorem walkStatements_from (hM : AreTemplates macros nodes S C) (hexpand : Expands macros nodes S C expand)
    (fuel : ℕ) : ∀ (si : ℕ) {id : ExprId} {s : Expander}, Added S.expressions s.snapshot.expressions id →
      (expanding macros nodes S C).From s (walkStatements expand id fuel si) fun _ _ => True := by
  induction fuel with
  | zero =>
    intro si id s _ _ _ t hrun
    cases hrun
  | succ fuel ih =>
    intro si id s hid
    refine From.get fun _ => present_expanding.bind ?_
    rintro expr s hs _ ⟨rfl, hexpr⟩
    have hfresh := hs.exprs id expr hid hexpr
    rcases hsid : expr.statements[si]? with _ | sid
    · exact From.pure trivial
    refine From.get fun _ => ?_
    rcases hstmt : entry s.snapshot.statements sid with _ | stmt
    · exact ih (si + 1) hid
    have hadded := hfresh.statements sid (List.mem_of_getElem? hsid) (ne_zero_of_entry hstmt)
    have hfreshStmt := hs.stmts sid stmt hadded hstmt
    refine (splice_from hfreshStmt).bind ?_
    rintro inserted s _ _ ⟨rfl, hinserted⟩
    rcases inserted with _ | inserted
    · refine (walkStatement_from hexpand hfreshStmt).bind fun _ t _ hst _ => ?_
      exact ih (si + 1) (hid.mono hst.expressions)
    · refine (setStatements_from hM hid ?_).bind fun _ t _ hst _ => ih si (hid.mono hst.expressions)
      intro sid' hsid' hne
      rcases List.mem_append.mp hsid' with hfront | hrest
      · rcases List.mem_append.mp hfront with htake | hmiddle
        · exact hfresh.statements sid' (List.mem_of_mem_take htake) hne
        · exact hinserted inserted rfl sid' hmiddle hne
      · exact hfresh.statements sid' (List.mem_of_mem_drop hrest) hne

/-- A call at which an expansion may start: one of the caller that is not expanded, or of what was created. -/
def IsRoot (macros : List MacroInfo) (nodes : MacroInfo → TemplateNodes) (S : Tables) (C : NodeSet)
    (T : Tables) (id : ExprId) : Prop :=
  Added S.expressions T.expressions id ∨
    ∃ call, entry T.expressions id = some call ∧ C.HasCall call ∧ GivesAttributes macros nodes call

/-- Whatever is expanded, the tables stay good; the induction is on the depth. -/
theorem expandExpr_from (hC : IsCaller macros nodes S C) (hM : AreTemplates macros nodes S C) (fuel : ℕ) :
    ∀ (stack : List Text) (id : ExprId) (s : Expander), (id ≠ 0 → IsRoot macros nodes S C s.snapshot id) →
      (expanding macros nodes S C).From s (expandExpr macros fuel stack id) fun _ _ => True := by
  induction fuel with
  | zero =>
    intro stack id s _ _ _ t hrun
    cases hrun
  | succ fuel ih =>
    intro stack id s hid
    have hexpand : Expands macros nodes S C (expandExpr macros fuel stack) :=
      fun id s hid => ih stack id s fun hne => Or.inl (hid hne)
    refine From.get fun hs => ?_
    rcases hexpr : entry s.snapshot.expressions id with _ | expr
    · exact From.pure trivial
    have hne := ne_zero_of_entry hexpr
    have hroot := hid hne
    refine From.ite (fun hcall => ?_) fun hother => ?_
    · refine From.get fun _ => ?_
      rcases hcheck : checkCall macros stack s.snapshot expr with problem | m
      · rcases problem with _ | problem
        · exact From.pure trivial
        · intro hs _ t hrun
          obtain ⟨_, rfl⟩ := Prod.mk.inj (Option.some.inj hrun)
          exact ⟨hs, .refl _, trivial⟩
      · obtain ⟨hfound, harity, hargs⟩ := checkCall_ok hcheck
        have hcall : IsCall macros nodes S C s.snapshot m expr := by
          rcases hroot with hadded | ⟨call, hentry, hhas, hgives⟩
          · have hfresh := hs.exprs id expr hadded hexpr
            refine ⟨hfound, harity, fun op hop => ⟨hargs op hop, ?_⟩, hfresh.attributes, hfresh.scope,
              hfresh.gives hcall.1⟩
            exact Or.inl (hfresh.operands op (List.mem_append_left _ hop) (hargs op hop))
          · obtain rfl := Option.some.inj (hexpr.symm.trans hentry)
            refine ⟨hfound, harity, fun op hop => ⟨hargs op hop, ?_⟩, fun a ha hne => ?_, fun hne => ?_, hgives⟩
            · exact Or.inr (hhas.operands op hop (hargs op hop))
            · exact Or.inr (hhas.attributes a ha hne)
            · exact Or.inr (hhas.scope hne)
        refine (instantiate_from hC hM hcall).bind fun result t _ _ hresult => ?_
        refine (setExpansion_from hM hne hresult).bind fun _ u _ htu _ => ?_
        exact ih _ result u fun _ => Or.inl (hresult.mono htu.expressions)
    · have hadded : Added S.expressions s.snapshot.expressions id := by
        rcases hroot with hadded | ⟨call, hentry, hhas, _⟩
        · exact hadded
        · obtain rfl := Option.some.inj (hexpr.symm.trans hentry)
          exact absurd ⟨hhas.kind, hhas.expansion⟩ hother
      have hfresh := hs.exprs id expr hadded hexpr
      refine (walkAll_from hexpand fun op hop => hfresh.operands op (List.mem_append_left _ hop)).bind
        fun _ t _ hst _ => ?_
      refine (walkStatements_from hM hexpand fuel 0 (hadded.mono hst.expressions)).bind fun _ u _ htu _ => ?_
      refine walkAll_from hexpand fun op hop hne => ?_
      exact (hfresh.operands op (List.mem_append_right _ hop) hne).mono (hst.trans htu).expressions

/-! ### An expansion -/

theorem Good.initial : Good macros nodes S C S where
  grown := .refl _
  oldExprs _ e he := ⟨e, he, rfl⟩
  oldStmts _ _ h := h
  oldTypes _ _ h := h
  oldScopes _ _ _ _ _ _ h := h
  exprs _ _ hadded _ := absurd (hadded.1.trans_le hadded.2) (lt_irrefl _)
  stmts _ _ hadded _ := absurd (hadded.1.trans_le hadded.2) (lt_irrefl _)
  scopes _ _ hadded _ := absurd (hadded.1.trans_le hadded.2) (lt_irrefl _)
  types _ _ hadded _ := absurd (hadded.1.trans_le hadded.2) (lt_irrefl _)

theorem Good.selfContained (hT : Good macros nodes S C T) : SelfContained S T C where
  exprs id e hadded he := by
    have hfresh := hT.exprs id e hadded he
    refine ⟨fun id' hid' hne => ?_, fun id' hid' hne => ?_, hfresh.scope, fun id' hid' hne => ?_⟩
    · rcases List.mem_append.mp hid' with hpart | hattr
      · exact Or.inl (hfresh.operands id' hpart hne)
      · exact hfresh.attributes id' hattr hne
    · rcases List.mem_append.mp hid' with hstmt | hbinding
      · exact Or.inl (hfresh.statements id' hstmt hne)
      · obtain rfl := List.mem_singleton.mp hbinding
        exact hfresh.bindingStmt hne
    · exact Or.inl (hfresh.types id' hid' hne)
  stmts id stmt hadded hstmt := by
    have hfresh := hT.stmts id stmt hadded hstmt
    exact ⟨fun id' hid' hne => Or.inl (hfresh.operands id' hid' hne), hfresh.attributes,
      fun id' hid' hne => Or.inl (hfresh.types id' hid' hne)⟩
  scopes := hT.scopes
  types id t hadded ht a ha hne := Or.inl (hT.types id t hadded ht a ha hne)

/-- `macro m(x: expr) { x; }`, and a call `@m(y)`. -/
def applyMacro : MacroInfo := { name := [109], params := [([120], [101, 120, 112, 114])], body := 2 }

def applyCall : Expression := { id := 4, kind := .macroCall, text := [109], operands := [3], scope := 2 }

def applyTables : Tables where
  expressions := [{ id := 1, kind := .name, text := [120], scope := 1 },
    { id := 2, kind := .block, statements := [1], scope := 1 },
    { id := 3, kind := .name, text := [121], scope := 2 }, applyCall]
  statements := [{ id := 1, kind := .expression, expression := 1 }, { id := 2, kind := .expression, expression := 4 }]
  scopes := [{ id := 1 }, { id := 2 }]

def applyNodes (_ : MacroInfo) : TemplateNodes where
  exprs ctx id := id = 2 ∧ ctx = {} ∨ id = 1 ∧ ctx = ⟨[1], true⟩
  stmts blocks id := id = 1 ∧ blocks = [1]
  scopes id := id = 1
  reads _ := False

/-- The argument, in the scope of the call. -/
def applyCaller : NodeSet where
  exprs id := id = 3
  stmts _ := False
  scopes id := id = 2
  types _ := False

theorem applyCaller_isCaller : IsCaller [applyMacro] applyNodes applyTables applyCaller where
  closed := by
    refine ⟨?_, nofun, ?_, nofun⟩
    · rintro _ rfl
      refine ⟨{ id := 3, kind := .name, text := [121], scope := 2 }, rfl, nofun, ?_, fun _ => rfl, ?_⟩
      · simp [Expression.stmtIds]
      · simp [Expression.typeIds]
    · rintro _ rfl
      exact ⟨{ id := 2 }, rfl, fun hne => absurd rfl hne⟩
  gives := by
    rintro _ e rfl he hcall
    obtain rfl := Option.some.inj he
    cases hcall

theorem applyNodes_areTemplates : AreTemplates [applyMacro] applyNodes applyTables applyCaller where
  templates := by
    intro m hm
    obtain rfl := List.mem_singleton.mp hm
    refine ⟨fun _ => Or.inl ⟨rfl, rfl⟩, ?_, ?_⟩
    · rintro _ _ (⟨rfl, rfl⟩ | ⟨rfl, rfl⟩)
      · -- the body
        refine ⟨{ id := 2, kind := .block, statements := [1], scope := 1 }, rfl, nofun, fun _ => ?_⟩
        refine ⟨nofun, ?_, ?_, fun _ _ => rfl, rfl, nofun, ?_, nofun, nofun⟩
        · intro id hid _
          exact ⟨List.mem_singleton.mp hid, rfl⟩
        · exact ⟨{ id := 1 }, rfl, nofun⟩
        · intro t ht
          obtain rfl := List.mem_singleton.mp ht
          exact .none
      · -- the parameter
        exact ⟨{ id := 1, kind := .name, text := [120], scope := 1 }, rfl, nofun, nofun⟩
    · rintro _ _ ⟨rfl, rfl⟩
      refine ⟨{ id := 1, kind := .expression, expression := 1 }, rfl, ?_, nofun, nofun, nofun⟩
      intro id hid _
      obtain rfl := List.mem_singleton.mp hid
      exact Or.inr ⟨rfl, rfl⟩
  apart := by
    rintro _ _ _ _ rfl hcaller
    cases hcaller

/-- A module with `macro b(attributes) { }` and `macro a() { @b|k: 1|(); }`. -/
def attributeTables : Tables where
  expressions := [{ id := 1, kind := .block, scope := 1 }, { id := 2, kind := .literal, text := [49], scope := 2 },
    { id := 3, kind := .macroCall, text := [98], scope := 2, attributeNames := [[107]], attributes := [2] },
    { id := 4, kind := .block, statements := [1], scope := 2 }]
  statements := [{ id := 1, kind := .expression, expression := 3 }]
  scopes := [{ id := 1 }, { id := 2 }]

def attributeMacros : List MacroInfo :=
  [{ name := [97], body := 4, source := some attributeTables },
    { name := [98], hasAttributes := true, body := 1, source := some attributeTables }]

def importingCall : Expression := { id := 1, kind := .macroCall, text := [97], scope := 1 }

/-- A module that imports it, with the call `@a()` in a block. -/
def importingTables : Tables where
  expressions := [importingCall, { id := 2, kind := .block, statements := [1], scope := 1 }]
  statements := [{ id := 1, kind := .expression, expression := 1 }]
  scopes := [{ id := 1 }]

/-- The scope of the call. -/
def importingCaller : NodeSet where
  exprs _ := False
  stmts _ := False
  scopes id := id = 1
  types _ := False

end Zith.Frontend
