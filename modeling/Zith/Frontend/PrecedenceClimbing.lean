import Zith.Frontend.ExpressionParser
import Zith.Frontend.TemplateClones
import Zith.Lib.Precedence

/-! What `parseExpression` makes of operands with operators between them. The only tree that precedence brackets the
    sequence into is the one it builds (`parseExpression_climbs`): what is read behind an operator goes on while
    operators bind more tightly than it, and an assignment lets an assignment behind it go on too.

    Every operand on the right is a call of its own, and the parser does not go deeper than 128 calls
    (`OpTree.nesting`); behind them, the rest of a chain of assignments is skipped (`deep_assignments`). -/

namespace Zith.Frontend
open Zith.Lib

/-- The words that open a form other than a name or a literal. -/
def formWords : List Text := ["raw", "must", "not", "fn", "dock", "if", "while", "for", "when", "match", "|"].map text

/-- A name or a literal of one token. -/
def IsOperand (token : SpelledToken) : Prop :=
  (token.kind = .identifier ∨ token.kind = .keyword ∨ token.kind = .literal) ∧ token.text ∉ formWords

/-- A binary operator, an assignment or a compound assignment. -/
def IsBinary (token : SpelledToken) : Prop := token.isOperator ∧ 1 ≤ precedence token.text

/-- Assignments group to the right. -/
def operatorLevels : Levels SpelledToken where
  level op := precedence op.text
  right level := level = 1

abbrev OperatorTree := OpTree SpelledToken SpelledToken

/-- `e0 op1 e1 ... opn en`. -/
def spell (first : SpelledToken) (ops : List (SpelledToken × SpelledToken)) : List SpelledToken :=
  first :: ops.flatMap fun o => [o.1, o.2]

/-- How many calls of `parseExpression` the tree takes that are open at a time. -/
def nesting : OperatorTree → ℕ
  | .leaf _ => 1
  | .node _ l r => max (nesting l) (nesting r + 1)

/-- The expression in the table with an id is a tree. -/
def Represents (expressions : List Expression) : ExprId → OperatorTree → Prop
  | id, .leaf operand => ∃ e, entry expressions id = some e ∧ e.text = operand.text ∧ e.operands = [] ∧
      e.kind = if operand.kind = .literal ∨ isLiteralWord operand.text then .literal else .name
  | id, .node op l r => ∃ e left right, entry expressions id = some e ∧ e.text = op.text ∧
      Represents expressions left l ∧ Represents expressions right r ∧
      match compoundBaseOp op.text with
      | none => e.kind = (if op.text = text "=" then .assign else .binary) ∧ e.operands = [left, right]
      | some base => e.kind = .assign ∧ ∃ folded b, e.operands = [left, folded] ∧
          entry expressions folded = some b ∧ b.kind = .binary ∧ b.text = base ∧ b.operands = [left, right]

/-- What ends a sequence: a punctuation token that no operand goes on with. -/
def Closes (rest : List SpelledToken) : Prop :=
  ∀ next ∈ rest.head?, next.kind = .punctuation ∧ next.text ∉ ["(", "[", ".", "\x7b"].map text

/-- A sequence of operands and operators in the file, and what ends it. No `<` in it is taken for the start of
    generic arguments, which only tokens behind the sequence can bring about. -/
structure SequenceAt (tokens : List SpelledToken) (index : ℕ) (first : SpelledToken)
    (ops : List (SpelledToken × SpelledToken)) (rest : List SpelledToken) : Prop where
  spelled : tokens.drop index = spell first ops ++ rest
  operand : IsOperand first
  operators : ∀ o ∈ ops, IsBinary o.1 ∧ IsOperand o.2
  closes : Closes rest
  plain : rest = [] ∨ ∀ i, index < i → i ≤ index + 2 * ops.length → isGenericApplication tokens i = false

/-! ### Operators -/

theorem ite_ne_one {c : Prop} [Decidable c] {a b : ℤ} (ha : a ≠ 1) (hb : b ≠ 1) : (if c then a else b) ≠ 1 := by
  split
  · exact ha
  · exact hb

theorem isAssignmentOp_iff (op : Text) : isAssignmentOp op ↔ precedence op = 1 := by
  rw [precedence]
  by_cases hpipe : op = text "|>"
  · subst hpipe
    decide +kernel
  · rw [if_neg hpipe]
    by_cases hassign : isAssignmentOp op
    · rw [if_pos hassign]
      exact ⟨fun _ => rfl, fun _ => hassign⟩
    · rw [if_neg hassign]
      refine ⟨fun h => absurd h hassign, fun h => ?_⟩
      -- no other operator has the level 1
      refine absurd h ?_
      repeat' refine ite_ne_one (by decide) ?_
      decide

theorem onRight_operatorLevels (op : SpelledToken) :
    operatorLevels.onRight op = if isAssignmentOp op.text then precedence op.text else precedence op.text + 1 := by
  rw [Levels.onRight]
  by_cases hassign : isAssignmentOp op.text
  · rw [if_pos hassign]
    exact if_pos ((isAssignmentOp_iff _).mp hassign)
  · rw [if_neg hassign]
    exact if_neg fun h => hassign ((isAssignmentOp_iff _).mpr h)

/-- Words that are no binary operators. -/
theorem IsBinary.ne {op : SpelledToken} (h : IsBinary op) {word : String}
    (hword : precedence (text word) < 1 := by decide +kernel) : op.text ≠ text word := by
  intro heq
  have := h.2
  rw [heq] at this
  omega

theorem IsBinary.kind {op : SpelledToken} (h : IsBinary op) : op.kind = .operator ∨ op.kind = .keyword := by
  have := h.1
  simp only [SpelledToken.isOperator, SpelledToken.is, Bool.or_eq_true, beq_iff_eq, List.any_eq_true,
    Bool.and_eq_true] at this
  rcases this with h | ⟨_, -, h, -⟩
  · exact Or.inl h
  · exact Or.inr h

/-! ### Tokens -/

section
variable {tokens more rest : List SpelledToken} {index : ℕ} {token op operand first : SpelledToken}
  {ops : List (SpelledToken × SpelledToken)} {kind : TokenKind} {word : String}

theorem getElem?_of_drop (h : tokens.drop index = token :: more) : tokens[index]? = some token := by
  rw [← List.head?_drop, h, List.head?_cons]

theorem drop_succ_of_drop (h : tokens.drop index = token :: more) : tokens.drop (index + 1) = more := by
  rw [← List.tail_drop, h, List.tail_cons]

theorem lt_length_of_drop (h : tokens.drop index = token :: more) : index < tokens.length := by
  obtain ⟨hlt, -⟩ := List.getElem?_eq_some_iff.mp (getElem?_of_drop h)
  exact hlt

theorem tokenIs_of_drop (h : tokens.drop index = token :: more) :
    tokenIs tokens kind index word = token.is kind word := by
  rw [tokenIs, getElem?_of_drop h, Option.any_some]

theorem tokenIs_of_kind (h : tokens.drop index = token :: more) (hkind : token.kind ≠ kind) :
    tokenIs tokens kind index word = false := by
  rw [tokenIs_of_drop h, SpelledToken.is, beq_false_of_ne hkind, Bool.false_and]

theorem tokenIs_of_text (h : tokens.drop index = token :: more) (htext : token.text ≠ text word) :
    tokenIs tokens kind index word = false := by
  rw [tokenIs_of_drop h, SpelledToken.is, beq_false_of_ne htext, Bool.and_false]

theorem tokenIs_of_end (h : tokens.drop index = []) : tokenIs tokens kind index word = false := by
  rw [tokenIs, List.getElem?_eq_none (List.drop_eq_nil_iff.mp h), Option.any_none]

@[simp] theorem length_spell : (spell first ops).length = 2 * ops.length + 1 := by
  rw [spell, List.length_cons, List.length_flatMap]
  simp [Nat.mul_comm]

theorem spell_append (ops ops' : List (SpelledToken × SpelledToken)) :
    spell first (ops ++ (op, operand) :: ops') = spell first ops ++ op :: spell operand ops' := by
  simp [spell]

/-- A file without a parenthesis or a brace has no generic arguments in front of one. -/
theorem genericScan_of_no_punctuation (h : ∀ token ∈ more, token.kind ≠ .punctuation) (depth : ℤ) :
    genericScan depth more = false := by
  induction more generalizing depth with
  | nil => rfl
  | cons token more ih =>
    obtain ⟨-, hmore⟩ := List.forall_mem_cons.mp h
    rw [genericScan]
    have hnext : (more.head?.any fun next => next.is .punctuation "(" || next.is .punctuation "\x7b") = false := by
      cases more with
      | nil => rfl
      | cons next more =>
        have := hmore next List.mem_cons_self
        simp [SpelledToken.is, this]
    split_ifs
    all_goals first | exact hnext | exact ih hmore _ | rfl

theorem IsOperand.kind_ne (h : IsOperand operand) : operand.kind ≠ .punctuation ∧ operand.kind ≠ .operator ∧
    operand.kind ≠ .dots := by
  rcases h.1 with h | h | h <;> simp [h]

theorem SequenceAt.notGeneric (h : SequenceAt tokens index first ops rest) :
    ∀ i, index < i → i ≤ index + 2 * ops.length + 1 → isGenericApplication tokens i = false := by
  intro i hi hle
  by_cases hend : i = index + 2 * ops.length + 1
  · -- what ends the sequence is no `<`
    have hdrop : tokens.drop i = rest := by
      rw [hend, Nat.add_assoc, ← List.drop_drop, h.spelled]
      exact List.drop_left' length_spell
    have hless : isOperatorToken tokens i "<" = false := by
      cases rest with
      | nil => exact tokenIs_of_end hdrop
      | cons next more => exact tokenIs_of_kind hdrop (by simp [(h.closes next rfl).1])
    rw [isGenericApplication, hless, Bool.false_and]
  · rcases h.plain with rfl | hplain
    · have hkind : ∀ token ∈ tokens.drop index, token.kind ≠ .punctuation := by
        intro token htoken
        rw [h.spelled, List.append_nil, spell] at htoken
        rcases List.mem_cons.mp htoken with rfl | htoken
        · exact h.operand.kind_ne.1
        · obtain ⟨o, ho, htoken⟩ := List.mem_flatMap.mp htoken
          obtain ⟨hop, hoperand⟩ := h.operators o ho
          rcases List.mem_pair.mp htoken with rfl | rfl
          · rcases hop.kind with h | h <;> simp [h]
          · exact hoperand.kind_ne.1
      have hscan : genericScan 0 (tokens.drop i) = false := by
        refine genericScan_of_no_punctuation (fun token htoken => hkind token ?_) 0
        rw [← Nat.add_sub_cancel' hi.le, ← List.drop_drop] at htoken
        exact List.mem_of_mem_drop htoken
      rw [isGenericApplication, hscan, Bool.and_false]
    · exact hplain i hi (by omega)

end

/-! ### Operands -/

section
variable {forms : OtherForms} {tokens more rest : List SpelledToken} {index start : ℕ} {min : ℤ}
  {left : ExprId} {st : ParserState} {op operand : SpelledToken}
  {parse : ℤ → ParserState → Option (ExprId × ParserState)}

/-- Nothing goes on with an operand at a position. -/
structure EndsOperand (tokens : List SpelledToken) (index : ℕ) : Prop where
  suffixes : opensPostfix tokens index = false
  literal : opensStructLiteral tokens index = false

theorem IsOperand.ne (h : IsOperand operand) {word : String}
    (hword : text word ∈ formWords := by decide +kernel) : operand.text ≠ text word :=
  fun heq => h.2 (heq ▸ hword)

theorem opensStructLiteral_of_not_punctuation (hdot : punctuation tokens index "." = false)
    (hbrace : punctuation tokens index "\x7b" = false) : opensStructLiteral tokens index = false := by
  have hbehind : behindDotted (tokens.drop index) = tokens.drop index := by
    cases hdrop : tokens.drop index with
    | nil => rfl
    | cons dot rest =>
      rw [punctuation, tokenIs_of_drop hdrop] at hdot
      cases rest with
      | nil => rfl
      | cons name rest => rw [behindDotted, hdot, Bool.false_and, if_neg Bool.false_ne_true]
  have hhead : ((tokens.drop index).head?.any (·.is .punctuation "\x7b")) = false := by
    rw [List.head?_drop]
    exact hbrace
  simp only [opensStructLiteral, hbehind, hhead]
  simp

/-- The expression of an operand. -/
def operandExpression (tokens : List SpelledToken) (st : ParserState) (operand : SpelledToken) : Expression :=
  { id := st.expressions.length + 1, scope := st.currentScope, text := operand.text,
    kind := if operand.kind = .literal ∨ isLiteralWord operand.text then .literal else .name,
    span := range tokens st.index (st.index + 1) }

theorem parsePrimary_operand (hdrop : tokens.drop st.index = operand :: more) (h : IsOperand operand)
    (hends : EndsOperand tokens (st.index + 1)) :
    parsePrimary tokens forms parse st = some (st.expressions.length + 1,
      { st with index := st.index + 1, expressions := st.expressions ++ [operandExpression tokens st operand] }) := by
  have hpunctuation : ∀ word, punctuation tokens st.index word = false :=
    fun word => tokenIs_of_kind hdrop h.kind_ne.1
  have hoperator : ∀ word, isOperatorToken tokens st.index word = false :=
    fun word => tokenIs_of_kind hdrop h.kind_ne.2.1
  have hdots : isRangeDotAt tokens st.index = false := tokenIs_of_kind hdrop h.kind_ne.2.2
  have hkeyword : ∀ word, text word ∈ formWords → isKeywordToken tokens st.index word = false :=
    fun word hword => tokenIs_of_text hdrop (h.ne hword)
  have htext : ∀ word, text word ∈ formWords → textIs tokens st.index word = false := fun word hword => by
    rw [textIs, getElem?_of_drop hdrop, Option.any_some, beq_false_of_ne (h.ne hword)]
  have hother : opensOtherForm tokens st = false := by
    rw [opensOtherForm, hkeyword "fn" (by decide +kernel), hdots, hpunctuation, hkeyword "dock" (by decide +kernel),
      isTagMacroOpen, hoperator, hpunctuation, htext "|" (by decide +kernel), hpunctuation]
    simp [htext "if" (by decide +kernel), htext "while" (by decide +kernel), htext "for" (by decide +kernel),
      htext "when" (by decide +kernel), htext "match" (by decide +kernel)]
  rw [parsePrimary, getElem?_of_drop hdrop]
  simp only [hother, Bool.false_eq_true, if_false, hpunctuation]
  rcases h.1 with hkind | hkind | hkind
  all_goals simp [SpelledToken.isName, hkind, ParserState.advance, ParserState.addExpression, parsePostfix,
    hends.suffixes, hends.literal, operandExpression]

theorem parseStart_operand (hdrop : tokens.drop st.index = operand :: more) (h : IsOperand operand)
    (hends : EndsOperand tokens (st.index + 1)) :
    parseStart tokens forms parse st = some (.left (st.expressions.length + 1),
      { st with index := st.index + 1, expressions := st.expressions ++ [operandExpression tokens st operand] }) := by
  have hoperator : ∀ word, operand.is .operator word = false := fun word => by
    rw [SpelledToken.is, beq_false_of_ne h.kind_ne.2.1, Bool.false_and]
  have hkeyword : ∀ word, text word ∈ formWords → operand.is .keyword word = false := fun word hword => by
    rw [SpelledToken.is, beq_false_of_ne (h.ne hword), Bool.and_false]
  have hnot : operand.text ≠ text "not" := h.ne
  rw [parseStart, getElem?_of_drop hdrop]
  simp only [hoperator, hkeyword "raw" (by decide +kernel), hkeyword "must" (by decide +kernel), hnot,
    Bool.false_eq_true, if_false, or_self, List.any_cons, List.any_nil, Bool.or_self,
    parsePrimary_operand hdrop h hends]
  rfl

/-! ### What comes behind an operand -/

theorem endsOperand_of_binary (hdrop : tokens.drop index = op :: more) (h : IsBinary op)
    (hplain : isGenericApplication tokens index = false) : EndsOperand tokens index := by
  have hpunctuation : ∀ word, punctuation tokens index word = false := fun word =>
    tokenIs_of_kind hdrop (by rcases h.kind with hkind | hkind <;> simp [hkind])
  refine ⟨?_, opensStructLiteral_of_not_punctuation (hpunctuation _) (hpunctuation _)⟩
  have harrow : isOperatorToken tokens index "->" = false := tokenIs_of_text hdrop h.ne
  have has : isKeywordToken tokens index "as" = false := tokenIs_of_text hdrop h.ne
  rw [opensPostfix, hpunctuation, hpunctuation, hpunctuation, harrow, has, hplain]
  rfl

theorem endsOperand_of_closes (hdrop : tokens.drop index = rest) (h : Closes rest)
    (hplain : isGenericApplication tokens index = false) : EndsOperand tokens index := by
  cases rest with
  | nil =>
    refine ⟨?_, opensStructLiteral_of_not_punctuation (tokenIs_of_end hdrop) (tokenIs_of_end hdrop)⟩
    simp [opensPostfix, punctuation, isOperatorToken, isKeywordToken, tokenIs_of_end hdrop, hplain]
  | cons next more =>
    obtain ⟨hkind, htext⟩ := h next rfl
    have hpunctuation : ∀ word, text word ∈ ["(", "[", ".", "\x7b"].map text →
        punctuation tokens index word = false := fun word hword => tokenIs_of_text hdrop fun heq => htext (heq ▸ hword)
    refine ⟨?_, opensStructLiteral_of_not_punctuation (hpunctuation _ (by simp)) (hpunctuation _ (by simp))⟩
    have harrow : isOperatorToken tokens index "->" = false := tokenIs_of_kind hdrop (by simp [hkind])
    have has : isKeywordToken tokens index "as" = false := tokenIs_of_kind hdrop (by simp [hkind])
    rw [opensPostfix, hpunctuation _ (by simp), hpunctuation _ (by simp), hpunctuation _ (by simp), harrow, has, hplain]
    rfl

theorem operatorStep_binary (hdrop : tokens.drop st.index = op :: operand :: more) (h : IsBinary op)
    (hoperand : IsOperand operand) : operatorStep tokens forms parse min start left st =
      if precedence op.text < min then some (none, st)
      else (parse (operatorLevels.onRight op) st.advance).map fun r =>
        ((addOperation tokens start op.text left r.1 r.2).map some id) := by
  have hdot : isRangeDotAt tokens st.index = false :=
    tokenIs_of_kind hdrop (by rcases h.kind with hkind | hkind <;> simp [hkind])
  have hopen : isRangeOpenAt tokens st.index = false := by
    rw [isRangeOpenAt, isRangeDotAt, tokenIs_of_kind (drop_succ_of_drop hdrop) hoperand.kind_ne.2.2, Bool.and_false]
  have hpipe : isOperatorToken tokens st.index "|>" = false := tokenIs_of_text hdrop h.ne
  have hdo : isKeywordToken tokens st.index "do" = false := tokenIs_of_text hdrop h.ne
  have his : isKeywordToken tokens st.index "is" = false := tokenIs_of_text hdrop h.ne
  have hincrement : ¬(op.text = text "++" ∨ op.text = text "--") := not_or.mpr ⟨h.ne, h.ne⟩
  have hlogical : ¬(op.text = text "&&" ∨ op.text = text "||") := not_or.mpr ⟨h.ne, h.ne⟩
  simp only [operatorStep, hdot, hopen, hpipe, hdo, his, getElem?_of_drop hdrop, h.1, hincrement, hlogical,
    onRight_operatorLevels]
  simp only [Bool.or_self, Bool.false_and, Bool.false_eq_true, if_false, Bool.not_true]
  refine if_congr Iff.rfl rfl ?_
  cases parse _ st.advance <;> rfl

theorem operatorStep_closes (hdrop : tokens.drop st.index = op :: more) (h : op.kind = .punctuation) :
    operatorStep tokens forms parse min start left st = some (none, st) := by
  have hdot : isRangeDotAt tokens st.index = false := tokenIs_of_kind hdrop (by simp [h])
  have hoperator : ∀ word, isOperatorToken tokens st.index word = false :=
    fun word => tokenIs_of_kind hdrop (by simp [h])
  have hkeyword : ∀ word, isKeywordToken tokens st.index word = false :=
    fun word => tokenIs_of_kind hdrop (by simp [h])
  have hop : op.isOperator = false := by simp [SpelledToken.isOperator, SpelledToken.is, h]
  simp [operatorStep, hdot, isRangeOpenAt, hoperator, hkeyword, getElem?_of_drop hdrop, hop]

end

/-! ### The table -/

section
variable {expressions added : List Expression} {id left right : ExprId} {t l r : OperatorTree}

theorem entry_concat_one {e e' : Expression} :
    entry (expressions ++ [e, e']) (expressions.length + 1) = some e := by simp [entry]

theorem entry_concat_two {e e' : Expression} :
    entry (expressions ++ [e, e']) ((expressions ++ [e]).length + 1) = some e' := by
  rw [← List.singleton_append, ← List.append_assoc]
  exact entry_concat

theorem Represents.append (h : Represents expressions id t) : Represents (expressions ++ added) id t := by
  induction t generalizing id with
  | leaf operand =>
    obtain ⟨e, hentry, he⟩ := h
    exact ⟨e, entry_of_le (List.prefix_append _ _) hentry, he⟩
  | node op l r ihl ihr =>
    obtain ⟨e, left, right, hentry, htext, hl, hr, he⟩ := h
    refine ⟨e, left, right, entry_of_le (List.prefix_append _ _) hentry, htext, ihl hl, ihr hr, ?_⟩
    cases hbase : compoundBaseOp op.text with
    | none => rwa [hbase] at he
    | some base =>
      rw [hbase] at he
      obtain ⟨hkind, folded, b, hoperands, hfolded, hb⟩ := he
      exact ⟨hkind, folded, b, hoperands, entry_of_le (List.prefix_append _ _) hfolded, hb⟩

theorem addOperation_represents (tokens : List SpelledToken) (start : ℕ) (op : SpelledToken) (st : ParserState)
    (hl : Represents st.expressions left l) (hr : Represents st.expressions right r) :
    ∃ id added, addOperation tokens start op.text left right st =
        (id, { st with expressions := st.expressions ++ added }) ∧
      Represents (st.expressions ++ added) id (.node op l r) := by
  cases hbase : compoundBaseOp op.text with
  | none =>
    refine ⟨_, [_], by rw [addOperation, hbase]; rfl, _, left, right, entry_concat, rfl, hl.append, hr.append, ?_⟩
    rw [hbase]
    exact ⟨rfl, rfl⟩
  | some base =>
    simp only [addOperation, hbase, ParserState.addExpression, List.append_assoc, List.cons_append, List.nil_append]
    refine ⟨_, [_, _], rfl, _, left, right, entry_concat_two, rfl, hl.append, hr.append, ?_⟩
    rw [hbase]
    exact ⟨rfl, st.expressions.length + 1, _, rfl, entry_concat_one, rfl, rfl, rfl⟩

end

/-! ### Climbing -/

/-- How often the operator loop goes round for the left edge of a tree. -/
def leftEdge : OperatorTree → ℕ
  | .leaf _ => 0
  | .node _ l _ => leftEdge l + 1

/-- What comes behind a tree: the end of the sequence, or an operator that the right edge of the tree does not take. -/
inductive Follows (t : OperatorTree) : List SpelledToken → Prop
  | closes {rest : List SpelledToken} (h : Closes rest) : Follows t rest
  | operator {op operand : SpelledToken} {more : List SpelledToken} (hop : IsBinary op) (hoperand : IsOperand operand)
      (hbelow : t.Below operatorLevels op) : Follows t (op :: operand :: more)

/-- What the operator loop ends at: the end of the sequence, or an operator that binds less tightly than asked for. -/
inductive Stops (min : ℤ) : List SpelledToken → Prop
  | closes {rest : List SpelledToken} (h : Closes rest) : Stops min rest
  | operator {op operand : SpelledToken} {more : List SpelledToken} (hop : IsBinary op) (hoperand : IsOperand operand)
      (hlt : precedence op.text < min) : Stops min (op :: operand :: more)

/-- A bracketed tree is spelled at a position. -/
structure Ahead (tokens : List SpelledToken) (index : ℕ) (t : OperatorTree) (rest : List SpelledToken) : Prop where
  spelled : tokens.drop index = spell t.first t.rest ++ rest
  operand : IsOperand t.first
  operators : ∀ o ∈ t.rest, IsBinary o.1 ∧ IsOperand o.2
  follows : Follows t rest
  plain : ∀ i, index < i → i ≤ index + 2 * t.rest.length + 1 → isGenericApplication tokens i = false
  bracketed : t.Bracketed operatorLevels

/-- The operator loop, from behind the first operand of a tree, comes to the whole tree. -/
def Climbs (forms : OtherForms) (tokens : List SpelledToken) (t : OperatorTree) : Prop :=
  ∀ ⦃index : ℕ⦄ ⦃rest : List SpelledToken⦄ ⦃min : ℤ⦄ ⦃fuel : ℕ⦄ ⦃left : ExprId⦄ (start : ℕ) (st : ParserState),
    Ahead tokens index t rest → t.AtLeast operatorLevels min → 2 * t.rest.length + 1 ≤ fuel →
    st.index = index + 1 → st.parserDepth + nesting t ≤ kMaximumParserDepth + 1 →
    Represents st.expressions left (.leaf t.first) →
    ∃ id added, Represents (st.expressions ++ added) id t ∧
      parseOperators forms tokens fuel min start left st =
        parseOperators forms tokens (fuel - leftEdge t) min start id
          { st with index := index + 2 * t.rest.length + 1, expressions := st.expressions ++ added }

section
variable {forms : OtherForms} {tokens more rest : List SpelledToken} {index start fuel : ℕ} {min : ℤ}
  {left : ExprId} {st : ParserState} {t l r : OperatorTree} {op operand : SpelledToken}

theorem nesting_pos : 0 < nesting t := by
  cases t with
  | leaf a => exact Nat.one_pos
  | node op l r => exact Nat.lt_of_lt_of_le (Nat.succ_pos _) (le_max_right _ _)

theorem leftEdge_le : leftEdge t ≤ t.rest.length := by
  induction t with
  | leaf a => exact Nat.le_refl 0
  | node op l r ihl ihr =>
    rw [leftEdge, OpTree.rest, List.length_append, List.length_cons]
    omega

theorem length_rest_node : (OpTree.node op l r).rest.length = l.rest.length + r.rest.length + 1 := by
  rw [OpTree.rest, List.length_append, List.length_cons]
  omega

theorem Follows.stops (h : Follows (.node op l r) rest) : Stops (operatorLevels.onRight op) rest := by
  cases h with
  | closes h => exact .closes h
  | operator hop hoperand hbelow => exact .operator hop hoperand hbelow

theorem Follows.right (h : Follows (.node op l r) rest) (hr : r.AtLeast operatorLevels (operatorLevels.onRight op)) :
    Follows r rest := by
  cases h with
  | closes h => exact .closes h
  | operator hop hoperand hbelow =>
    refine .operator hop hoperand ?_
    cases r with
    | leaf a => trivial
    | node o l r => exact lt_of_lt_of_le hbelow (le_trans hr (OpTree.level_le_onRight _ o))

/-! The operands of a tree that is spelled -/

theorem Ahead.spelled_node (h : Ahead tokens index (.node op l r) rest) :
    tokens.drop index = spell l.first l.rest ++ (op :: (spell r.first r.rest ++ rest)) := by
  rw [h.spelled, OpTree.first, OpTree.rest, spell_append, List.append_assoc, List.cons_append]

theorem Ahead.binary (h : Ahead tokens index (.node op l r) rest) : IsBinary op ∧ IsOperand r.first :=
  h.operators (op, r.first) (by simp [OpTree.rest])

theorem Ahead.leftOperand (h : Ahead tokens index (.node op l r) rest) :
    Ahead tokens index l (op :: (spell r.first r.rest ++ rest)) where
  spelled := h.spelled_node
  operand := h.operand
  operators := fun o ho => h.operators o (List.mem_append_left _ ho)
  follows := .operator h.binary.1 h.binary.2 h.bracketed.1.below
  plain := fun i hi hle => h.plain i hi (by rw [length_rest_node]; omega)
  bracketed := h.bracketed.2.2.1

/-- The operator of a tree that is spelled, behind its left operand. -/
theorem Ahead.drop_left (h : Ahead tokens index (.node op l r) rest) :
    tokens.drop (index + 2 * l.rest.length + 1) = op :: (spell r.first r.rest ++ rest) := by
  rw [Nat.add_assoc, ← List.drop_drop, h.spelled_node]
  exact List.drop_left' length_spell

theorem Ahead.rightOperand (h : Ahead tokens index (.node op l r) rest) :
    Ahead tokens (index + 2 * l.rest.length + 1 + 1) r rest where
  spelled := drop_succ_of_drop h.drop_left
  operand := h.binary.2
  operators := fun o ho => h.operators o (List.mem_append_right _ (List.mem_cons_of_mem _ ho))
  follows := h.follows.right h.bracketed.2.1
  plain := fun i hi hle => h.plain i (by omega) (by rw [length_rest_node]; omega)
  bracketed := h.bracketed.2.2.2

theorem Ahead.endsOperand (h : Ahead tokens index t rest) : EndsOperand tokens (index + 1) := by
  have hplain := h.plain (index + 1) (Nat.lt_succ_self index) (by omega)
  have hdrop := drop_succ_of_drop h.spelled
  cases hops : t.rest with
  | nil =>
    rw [hops] at hdrop
    cases h.follows with
    | closes hcloses => exact endsOperand_of_closes hdrop hcloses hplain
    | operator hop _ _ => exact endsOperand_of_binary hdrop hop hplain
  | cons o ops =>
    rw [hops] at hdrop
    exact endsOperand_of_binary hdrop (h.operators o (by rw [hops]; exact List.mem_cons_self)).1 hplain

/-- Behind the tree. -/
theorem Ahead.drop (h : Ahead tokens index t rest) : tokens.drop (index + 2 * t.rest.length + 1) = rest := by
  rw [Nat.add_assoc, ← List.drop_drop, h.spelled]
  exact List.drop_left' length_spell

theorem parseOperators_stops (hdrop : tokens.drop st.index = rest) (h : Stops min rest) :
    parseOperators forms tokens (fuel + 1) min start left st = some (left, st) := by
  rw [parseOperators]
  cases h with
  | closes h =>
    cases rest with
    | nil => rw [if_pos (List.drop_eq_nil_iff.mp hdrop)]
    | cons next more =>
      rw [if_neg (Nat.not_le_of_lt (lt_length_of_drop hdrop)), operatorStep_closes hdrop (h next rfl).1]
      rfl
  | operator hop hoperand hlt =>
    rw [if_neg (Nat.not_le_of_lt (lt_length_of_drop hdrop)), operatorStep_binary hdrop hop hoperand, if_pos hlt]
    rfl

theorem parseExpression_operand (hdrop : tokens.drop st.index = operand :: more) (h : IsOperand operand)
    (hends : EndsOperand tokens (st.index + 1)) (hdepth : st.parserDepth < kMaximumParserDepth) :
    parseExpression forms tokens (fuel + 1) min st =
      (parseOperators forms tokens fuel min st.index (st.expressions.length + 1)
        { st with
          index := st.index + 1
          expressions := st.expressions ++ [operandExpression tokens st operand]
          parserDepth := st.parserDepth + 1 }).map fun r =>
        (r.1, { r.2 with parserDepth := r.2.parserDepth - 1 }) := by
  have hstart : ∀ parse, parseStart tokens forms parse { st with parserDepth := st.parserDepth + 1 } =
      some (.left (st.expressions.length + 1),
        { st with
          index := st.index + 1
          expressions := st.expressions ++ [operandExpression tokens st operand]
          parserDepth := st.parserDepth + 1 }) :=
    fun parse => parseStart_operand hdrop h hends
  rw [parseExpression, if_neg (Nat.not_le_of_lt (lt_length_of_drop hdrop)), if_neg (Nat.not_le_of_lt hdepth), hstart]
  simp only [Option.bind_eq_bind, Option.bind_some]
  cases parseOperators forms tokens fuel min st.index (st.expressions.length + 1) _ <;> rfl

/-- A call reads a tree that ends where the loop stops. -/
theorem Climbs.parseExpression (hclimbs : Climbs forms tokens t) (st : ParserState) (h : Ahead tokens st.index t rest)
    (hmin : t.AtLeast operatorLevels min) (hstops : Stops min rest) (hfuel : 2 * t.rest.length + 2 ≤ fuel)
    (hdepth : st.parserDepth + nesting t ≤ kMaximumParserDepth) :
    ∃ id added, Represents (st.expressions ++ added) id t ∧
      parseExpression forms tokens fuel min st =
        some (id, { st with
          index := st.index + 2 * t.rest.length + 1, expressions := st.expressions ++ added }) := by
  obtain ⟨fuel, rfl⟩ : ∃ n, fuel = n + 1 := ⟨fuel - 1, by omega⟩
  have hentered : st.parserDepth < kMaximumParserDepth := by
    have := @nesting_pos t
    omega
  rw [parseExpression_operand h.spelled h.operand h.endsOperand hentered]
  have hleaf : Represents (st.expressions ++ [operandExpression tokens st t.first]) (st.expressions.length + 1)
      (.leaf t.first) := ⟨_, entry_concat, rfl, rfl, rfl⟩
  obtain ⟨id, added, hrepresents, heq⟩ := hclimbs st.index
    { st with
      index := st.index + 1
      expressions := st.expressions ++ [operandExpression tokens st t.first]
      parserDepth := st.parserDepth + 1 } h hmin (Nat.le_of_succ_le_succ hfuel) rfl
    (by simp only; omega) hleaf
  obtain ⟨k, hk⟩ : ∃ k, fuel - leftEdge t = k + 1 := ⟨fuel - leftEdge t - 1, by
    have := @leftEdge_le t
    omega⟩
  refine ⟨id, operandExpression tokens st t.first :: added, ?_, ?_⟩
  · simpa using hrepresents
  · rw [heq, hk, parseOperators_stops h.drop hstops]
    simp

theorem climbs (t : OperatorTree) : Climbs forms tokens t := by
  induction t with
  | leaf a =>
    intro index rest min fuel left start st h hmin hfuel hindex hdepth hleft
    refine ⟨left, [], hleft.append, ?_⟩
    simp only [leftEdge, OpTree.rest, List.length_nil, Nat.mul_zero, Nat.add_zero, Nat.sub_zero, List.append_nil]
    rw [← hindex]
  | node op l r ihl ihr =>
    intro index rest min fuel left start st h hmin hfuel hindex hdepth hleft
    have hmin : min ≤ precedence op.text := hmin
    have hdepths : nesting (.node op l r) = max (nesting l) (nesting r + 1) := rfl
    have hedge := @leftEdge_le l
    rw [length_rest_node] at hfuel
    -- the left operand
    have hminl : l.AtLeast operatorLevels min :=
      h.bracketed.1.mono (le_trans hmin (OpTree.level_le_onLeft operatorLevels op))
    have hfuell : 2 * l.rest.length + 1 ≤ fuel := by omega
    obtain ⟨idl, addedl, hl, heql⟩ := ihl start st h.leftOperand hminl hfuell hindex (by omega) hleft
    -- the operator with the right operand
    obtain ⟨fuel', hfuel'⟩ : ∃ n, fuel - leftEdge l = n + 1 := ⟨fuel - leftEdge l - 1, by omega⟩
    have hfuelr : 2 * r.rest.length + 2 ≤ fuel' := by omega
    obtain ⟨idr, addedr, hr, heqr⟩ := ihr.parseExpression
      { st with index := index + 2 * l.rest.length + 1 + 1, expressions := st.expressions ++ addedl }
      h.rightOperand h.bracketed.2.1 h.follows.stops hfuelr (by simp only; omega)
    obtain ⟨id, added, hadd, hnode⟩ := addOperation_represents tokens start op
      { st with
        index := index + 2 * l.rest.length + 1 + 1 + 2 * r.rest.length + 1
        expressions := st.expressions ++ addedl ++ addedr } hl.append hr
    refine ⟨id, addedl ++ addedr ++ added, by simpa [List.append_assoc] using hnode, ?_⟩
    rw [heql, hfuel', parseOperators, if_neg (Nat.not_le_of_lt (lt_length_of_drop h.drop_left)),
      operatorStep_binary h.drop_left h.binary.1 h.binary.2, if_neg (not_lt.mpr hmin)]
    have hfuelt : fuel - leftEdge (.node op l r) = fuel' := by
      rw [leftEdge]
      omega
    have hindext : index + 2 * l.rest.length + 1 + 1 + 2 * r.rest.length + 1 =
        index + 2 * (OpTree.node op l r).rest.length + 1 := by
      rw [length_rest_node]
      omega
    simp only [ParserState.advance, heqr, Option.map_some, hadd]
    simp only [hfuelt, ← hindext, List.append_assoc]
    rfl

/-- The parser builds the one tree that precedence brackets a sequence into, if the calls it takes may nest. -/
theorem parseExpression_climbs {first : SpelledToken} {ops : List (SpelledToken × SpelledToken)}
    (h : SequenceAt tokens st.index first ops rest) :
    ∃ t : OperatorTree, (t.Bracketed operatorLevels ∧ t.first = first ∧ t.rest = ops) ∧
      (∀ t' : OperatorTree, t'.Bracketed operatorLevels → t'.first = first → t'.rest = ops → t' = t) ∧
      (st.parserDepth + nesting t ≤ kMaximumParserDepth → ∀ fuel, 2 * ops.length + 2 ≤ fuel →
        ∃ id added, Represents (st.expressions ++ added) id t ∧
          parseExpression forms tokens fuel 0 st =
            some (id, { st with
              index := st.index + 2 * ops.length + 1, expressions := st.expressions ++ added })) := by
  obtain ⟨t, ⟨hbracketed, rfl, rfl⟩, hunique⟩ := OpTree.existsUnique_bracketed operatorLevels first ops
  refine ⟨t, ⟨hbracketed, rfl, rfl⟩, fun t' ht' hfirst hrest => hunique t' ⟨ht', hfirst, hrest⟩,
    fun hdepth fuel hfuel => ?_⟩
  have hmin : t.AtLeast operatorLevels 0 := by
    cases t with
    | leaf a => trivial
    | node op l r => exact le_trans zero_le_one (h.operators (op, r.first) (by simp [OpTree.rest])).1.2
  have hahead : Ahead tokens st.index t rest :=
    { spelled := h.spelled
      operand := h.operand
      operators := h.operators
      follows := .closes h.closes
      plain := h.notGeneric
      bracketed := hbracketed }
  exact (climbs t).parseExpression st hahead hmin (.closes h.closes) hfuel hdepth

end

/-- `a = b = a + c;`. -/
theorem parseExpression_climbs_chain :
    let name (word : String) : SpelledToken := { kind := .identifier, text := text word }
    let operator (word : String) : SpelledToken := { kind := .operator, text := text word }
    let tokens := spell (name "a") [(operator "=", name "b"), (operator "=", name "a"), (operator "+", name "c")] ++
      [{ kind := .punctuation, text := text ";" }]
    ∀ forms, ∃ id added, Represents added id (.node (operator "=") (.leaf (name "a"))
        (.node (operator "=") (.leaf (name "b")) (.node (operator "+") (.leaf (name "a")) (.leaf (name "c"))))) ∧
      parseExpression forms tokens 8 0 {} = some (id, { index := 7, expressions := added }) := by
  intro name operator tokens forms
  have hname : ∀ word, text word ∉ formWords → IsOperand (name word) := fun word hword => ⟨Or.inl rfl, hword⟩
  have hassign : IsBinary (operator "=") := ⟨rfl, by decide +kernel⟩
  have hplus : IsBinary (operator "+") := ⟨rfl, by decide +kernel⟩
  have hplain : ∀ i < 7, isGenericApplication tokens i = false := by decide +kernel
  obtain ⟨t, -, hunique, hparse⟩ := @parseExpression_climbs forms tokens _ {} (name "a")
    [(operator "=", name "b"), (operator "=", name "a"), (operator "+", name "c")]
    { spelled := rfl
      operand := hname "a" (by decide +kernel)
      operators := by
        simp only [List.mem_cons, List.not_mem_nil, or_false, forall_eq_or_imp, forall_eq]
        exact ⟨⟨hassign, hname "b" (by decide +kernel)⟩, ⟨hassign, hname "a" (by decide +kernel)⟩,
          ⟨hplus, hname "c" (by decide +kernel)⟩⟩
      closes := by
        intro next hnext
        obtain rfl := Option.some.inj hnext
        exact ⟨rfl, by decide +kernel⟩
      plain := Or.inr fun i _ hle => hplain i (Nat.lt_succ_of_le hle) }
  obtain rfl := hunique (.node (operator "=") (.leaf (name "a"))
    (.node (operator "=") (.leaf (name "b")) (.node (operator "+") (.leaf (name "a")) (.leaf (name "c")))))
    (by decide +kernel) rfl rfl
  obtain ⟨id, added, hrepresents, heq⟩ := hparse (by decide +kernel) 8 (by simp)
  exact ⟨id, added, hrepresents, heq⟩

/-! ### Too deep -/

section
variable {expressions : List Expression} {id : ExprId} {t : OperatorTree}

/-- Every operand of a tree is in the table. -/
theorem Represents.exists_text (h : Represents expressions id t) :
    (∃ e ∈ expressions, e.text = t.first.text) ∧ ∀ o ∈ t.rest, ∃ e ∈ expressions, e.text = o.2.text := by
  induction t generalizing id with
  | leaf operand =>
    obtain ⟨e, hentry, htext, -⟩ := h
    exact ⟨⟨e, List.mem_of_getElem? (entry_eq_some_iff.mp hentry).2, htext⟩, by simp [OpTree.rest]⟩
  | node op l r ihl ihr =>
    obtain ⟨-, left, right, -, -, hl, hr, -⟩ := h
    refine ⟨(ihl hl).1, fun o ho => ?_⟩
    rcases List.mem_append.mp ho with ho | ho
    · exact (ihl hl).2 o ho
    · rcases List.mem_cons.mp ho with rfl | ho
      · exact (ihr hr).1
      · exact (ihr hr).2 o ho

end

/-- `a = a = … = a = z`, with 128 assignments: the call for `z` is one too many. -/
theorem deep_assignments : ¬∀ (forms : OtherForms) (first : SpelledToken) (ops : List (SpelledToken × SpelledToken))
    (t : OperatorTree), IsOperand first → (∀ o ∈ ops, IsBinary o.1 ∧ IsOperand o.2) → t.Bracketed operatorLevels →
    t.first = first → t.rest = ops → ∀ fuel, 2 * ops.length + 2 ≤ fuel → ∃ id st,
      parseExpression forms (spell first ops) fuel 0 {} = some (id, st) ∧ Represents st.expressions id t := by
  intro h
  let forms : OtherForms := ⟨fun st => (0, st), fun id _ st => (id, st), fun st => (0, st)⟩
  let name (word : String) : SpelledToken := { kind := .identifier, text := text word }
  let assign : SpelledToken := { kind := .operator, text := text "=" }
  let ops := List.replicate 127 (assign, name "a") ++ [(assign, name "z")]
  have hname : ∀ word, text word ∉ formWords → IsOperand (name word) := fun word hword => ⟨Or.inl rfl, hword⟩
  have ha := hname "a" (by decide +kernel)
  have hz := hname "z" (by decide +kernel)
  have hassign : IsBinary assign := ⟨rfl, by decide +kernel⟩
  have hops : ∀ o ∈ ops, IsBinary o.1 ∧ IsOperand o.2 := by
    intro o ho
    rcases List.mem_append.mp ho with ho | ho
    · rw [List.eq_of_mem_replicate ho]
      exact ⟨hassign, ha⟩
    · rw [List.mem_singleton.mp ho]
      exact ⟨hassign, hz⟩
  obtain ⟨t, ⟨ht, hfirst, hrest⟩, -⟩ := OpTree.existsUnique_bracketed operatorLevels (name "a") ops
  obtain ⟨id, st, hparse, hrepresents⟩ := h forms (name "a") ops t ha hops ht hfirst hrest 258 (by simp [ops])
  have hmissing : (parseExpression forms (spell (name "a") ops) 258 0 {}).all
      fun r => r.2.expressions.all (·.text != text "z") := by decide +kernel
  rw [hparse, Option.all_some, List.all_eq_true] at hmissing
  obtain ⟨e, he, htext⟩ := hrepresents.exists_text.2 (assign, name "z") (by rw [hrest]; simp [ops])
  have := hmissing e he
  rw [htext] at this
  simp [name] at this

end Zith.Frontend
