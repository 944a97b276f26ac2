import Zith.Frontend.Snapshot

/-! `AstLowerer::parseExpression`. A prefix or a primary operand is read first, and then operators, as long as they
    bind at least as tightly as the caller asks for; what stands behind one of them is read by a call of its own.
    Calls nest to a depth of 128 at most.

    The forms that a primary operand, what is written behind it, and a type can take beyond names, literals and
    parentheses are given from outside (`OtherForms`): they are other parsers over the same state. -/

namespace Zith.Frontend

/-- A token with its text. -/
structure SpelledToken where
  kind : TokenKind
  text : Text
  span : TextSpan := ⟨0, 0⟩
  deriving DecidableEq, Repr

/-- What `AstLowerer` keeps while it parses expressions. -/
structure ParserState where
  index : ℕ := 0
  expressions : List Expression := []
  diagnostics : List Diagnostic := []
  parserDepth : ℕ := 0
  parserDepthErrorReported : Bool := false
  currentScope : ScopeId := 0
  noRangeLiteral : Bool := false
  inPipeStage : Bool := false
  suppressStructLiteral : Bool := false
  deriving DecidableEq, Repr

/-- Parsers that the one of expressions calls. -/
structure OtherForms where
  primary : ParserState → ExprId × ParserState
  suffixes : ExprId → ℕ → ParserState → ExprId × ParserState
  parseType : ParserState → TypeExprId × ParserState

def kMaximumParserDepth : ℕ := 128

def kUnaryPrecedence : ℤ := 12

/-! ### Looking at the tokens -/

def SpelledToken.is (token : SpelledToken) (kind : TokenKind) (word : String) : Bool :=
  token.kind == kind && token.text == Frontend.text word

section
variable (tokens : List SpelledToken)

def tokenIs (kind : TokenKind) (index : ℕ) (word : String) : Bool := (tokens[index]?).any (·.is kind word)

def textIs (index : ℕ) (word : String) : Bool := (tokens[index]?).any (·.text == text word)

def punctuation (index : ℕ) (character : String) : Bool := tokenIs tokens .punctuation index character

def isOperatorToken (index : ℕ) (op : String) : Bool := tokenIs tokens .operator index op

def isKeywordToken (index : ℕ) (word : String) : Bool := tokenIs tokens .keyword index word

def isRangeDotAt (index : ℕ) : Bool := tokenIs tokens .dots index ".."

def isRangeOpenAt (index : ℕ) : Bool := isOperatorToken tokens index ">" && isRangeDotAt tokens (index + 1)

/-- From a `<` to the `>` that matches it; a parenthesis or a brace must follow. -/
def genericScan (depth : ℤ) : List SpelledToken → Bool
  | [] => false
  | token :: rest =>
    if token.kind = .operator then
      if token.text = text "<" then genericScan (depth + 1) rest
      else if token.text = text ">" then
        if depth - 1 = 0 then rest.head?.any fun next => next.is .punctuation "(" || next.is .punctuation "\x7b"
        else genericScan (depth - 1) rest
      else genericScan depth rest
    else if token.is .punctuation "(" ∨ token.kind = .end then false
    else genericScan depth rest

def isGenericApplication (index : ℕ) : Bool := isOperatorToken tokens index "<" && genericScan 0 (tokens.drop index)

/-- The opening tag closes with a `>` before the statement ends. -/
def tagScan : List SpelledToken → Bool
  | [] => false
  | token :: rest =>
    if token.kind = .end then false
    else if token.is .operator ">" then true
    else if token.is .punctuation ";" ∨ token.is .punctuation "\x7d" then false
    else tagScan rest

def isTagMacroOpen (index : ℕ) : Bool :=
  isOperatorToken tokens index "<" && !isGenericApplication tokens index &&
    ((tokens[index + 1]?).any fun name =>
      name.kind == .identifier && name.text.head?.any fun c => 65 ≤ c && c ≤ 90) &&
    tagScan (tokens.drop (index + 2))

def SpelledToken.isName (token : SpelledToken) : Bool := token.kind == .identifier || token.kind == .keyword

/-- What is left behind the parts of a dotted name. -/
def behindDotted : List SpelledToken → List SpelledToken
  | dot :: name :: rest =>
    if dot.is .punctuation "." && name.isName then behindDotted rest else dot :: name :: rest
  | rest => rest

/-- What is left behind the `>` that matches a `<`. -/
def behindGeneric (depth : ℤ) : List SpelledToken → Option (List SpelledToken)
  | [] => none
  | token :: rest =>
    if token.kind = .end then none
    else if token.is .operator "<" then behindGeneric (depth + 1) rest
    else if token.is .operator ">" then if depth - 1 = 0 then some rest else behindGeneric (depth - 1) rest
    else behindGeneric depth rest

/-- A struct literal starts with the name in front of a position: `Name{`, `ns.Name{` or `ns.Name<T>{`. -/
def opensStructLiteral (index : ℕ) : Bool :=
  let behind := tokens.drop index
  let probe := behindDotted behind
  let atBrace (rest : List SpelledToken) := rest.head?.any (·.is .punctuation "\x7b")
  atBrace behind || (probe.length < behind.length &&
    if probe.head?.any (·.is .operator "<") then (behindGeneric 0 probe).any atBrace else atBrace probe)

def tokenSpan (index : ℕ) : TextSpan := (tokens[index]?).elim ⟨0, 0⟩ (·.span)

def range (start stop : ℕ) : TextSpan :=
  if tokens.length ≤ start then ⟨0, 0⟩
  else ⟨(tokenSpan tokens start).start,
    if start < stop then (tokenSpan tokens (stop - 1)).stop else (tokenSpan tokens start).stop⟩

end

/-! ### Operators -/

/-- For a compound assignment, the operator it stands for. -/
def compoundBaseOp (op : Text) : Option Text :=
  if op = text "+=" then some (text "+")
  else if op = text "-=" then some (text "-")
  else if op = text "*=" then some (text "*")
  else if op = text "/=" then some (text "/")
  else if op = text "%=" then some (text "%")
  else if op = text "<<=" then some (text "<<")
  else if op = text ">>=" then some (text ">>")
  else if op = text "&=" then some (text "&.")
  else if op = text "|=" then some (text "|.")
  else if op = text "^=" then some (text "^.")
  else none

def isAssignmentOp (op : Text) : Bool := op = text "=" || (compoundBaseOp op).isSome

def precedence (op : Text) : ℤ :=
  if op = text "|>" then 0
  else if isAssignmentOp op then 1
  else if op = text "or" then 2
  else if op = text "and" then 3
  else if op = text "xor" then 4
  else if op ∈ ["==", "!=", "<", ">", "<=", ">="].map text then 5
  else if op = text "in" then 5
  else if op = text "|." then 6
  else if op = text "^." then 7
  else if op = text "&." then 8
  else if op ∈ ["<<", ">>"].map text then 9
  else if op ∈ ["+", "-"].map text then 10
  else if op ∈ ["*", "/", "%"].map text then 11
  else -1

/-! ### The state -/

def ParserState.addExpression (st : ParserState) (expression : Expression) : ExprId × ParserState :=
  let id := st.expressions.length + 1
  (id, { st with expressions := st.expressions ++ [{ expression with id, scope := st.currentScope }] })

def ParserState.report (st : ParserState) (span : TextSpan) (message : Text) : ParserState :=
  { st with diagnostics := st.diagnostics ++ [⟨span, message⟩] }

def ParserState.advance (st : ParserState) (count : ℕ := 1) : ParserState := { st with index := st.index + count }

/-- An error expression with a diagnostic. -/
def ParserState.addError (st : ParserState) (span : TextSpan) (message : Text) (spelling : Text := []) :
    ExprId × ParserState :=
  (st.report span message).addExpression { id := 0, span, text := spelling }

/-- An entry of the table of expressions is changed in place. -/
def ParserState.modify (st : ParserState) (id : ExprId) (f : Expression → Expression) : ParserState :=
  { st with expressions := st.expressions.modify (id - 1) f }

/-! ### Too deep -/

structure Groups where
  parentheses : ℕ := 0
  brackets : ℕ := 0
  braces : ℕ := 0
  deriving DecidableEq

/-- The groups that are open behind a token, or `none` at a token where the parser can go on. -/
def Groups.read (groups : Groups) (token : SpelledToken) : Option Groups :=
  if token.is .punctuation "(" then some { groups with parentheses := groups.parentheses + 1 }
  else if token.is .punctuation "[" then some { groups with brackets := groups.brackets + 1 }
  else if token.is .punctuation "\x7b" then some { groups with braces := groups.braces + 1 }
  else if token.is .punctuation ")" && 0 < groups.parentheses then
    some { groups with parentheses := groups.parentheses - 1 }
  else if token.is .punctuation "]" && 0 < groups.brackets then some { groups with brackets := groups.brackets - 1 }
  else if token.is .punctuation "\x7d" && 0 < groups.braces then some { groups with braces := groups.braces - 1 }
  else if groups = {} ∧ [")", "]", "\x7d", ",", ";"].any (token.is .punctuation ·) then none
  else some groups

/-- How many tokens are passed over. -/
def skipGroups (startedWithGroup : Bool) (groups : Groups) : List SpelledToken → ℕ
  | [] => 0
  | token :: rest =>
    match groups.read token with
    | none => 0
    | some groups => if startedWithGroup ∧ groups = {} then 1 else skipGroups startedWithGroup groups rest + 1

section
variable (tokens : List SpelledToken)

def recoverParserDepthExceeded (start : ℕ) (st : ParserState) : ParserState :=
  let startedWithGroup := ["(", "[", "\x7b"].any (punctuation tokens st.index ·)
  let st := st.advance (skipGroups startedWithGroup {} (tokens.drop st.index))
  if st.parserDepthErrorReported then st
  else
    { st.report (range tokens start st.index) (text "parser nesting exceeds the maximum depth of 128") with
      parserDepthErrorReported := true }

def parserDepthErrorExpression (start : ℕ) (st : ParserState) : ExprId × ParserState :=
  let st := recoverParserDepthExceeded tokens start st
  st.addExpression { id := 0, span := range tokens start st.index }

/-! ### Operands -/

/-- What `parsePostfix` goes on at. -/
def opensPostfix (index : ℕ) : Bool :=
  punctuation tokens index "(" || punctuation tokens index "[" || punctuation tokens index "." ||
    isOperatorToken tokens index "->" || isKeywordToken tokens index "as" || isGenericApplication tokens index

def parsePostfix (forms : OtherForms) (result : ExprId) (start : ℕ) (st : ParserState) : ExprId × ParserState :=
  if opensPostfix tokens st.index then forms.suffixes result start st else (result, st)

/-- A primary operand that is neither a name, nor a literal, nor in parentheses. -/
def opensOtherForm (st : ParserState) : Bool :=
  isKeywordToken tokens st.index "fn" || (st.inPipeStage && isRangeDotAt tokens st.index) ||
    punctuation tokens st.index "\x7b" || isKeywordToken tokens st.index "dock" || isTagMacroOpen tokens st.index ||
    punctuation tokens st.index "[" || textIs tokens st.index "|" || punctuation tokens st.index "@" ||
    ["if", "while", "for", "when", "match"].any (textIs tokens st.index ·)

def isLiteralWord (word : Text) : Bool := word ∈ ["true", "false", "null"].map text

def parsePrimary (forms : OtherForms) (parse : ℤ → ParserState → Option (ExprId × ParserState)) (st : ParserState) :
    Option (ExprId × ParserState) :=
  let start := st.index
  match tokens[start]? with
  | none => some (0, st)
  | some token =>
    let leaf (kind : ExprKind) (st : ParserState) : ExprId × ParserState :=
      let (id, st) := st.addExpression { id := 0, kind, text := token.text, span := range tokens start st.index }
      parsePostfix tokens forms id start st
    if opensOtherForm tokens st then some (forms.primary st)
    else if punctuation tokens start "(" then do
      let (nested, st) ← parse 0 st.advance
      let st := if punctuation tokens st.index ")" then st.advance
        else st.report (range tokens start st.index) (text "expected ')'")
      return parsePostfix tokens forms nested start st
    else if token.isName then
      if !st.suppressStructLiteral && !isLiteralWord token.text && opensStructLiteral tokens (start + 1) then
        some (forms.primary st)
      else some (leaf (if isLiteralWord token.text then .literal else .name) st.advance)
    else if token.kind = .literal then some (leaf .literal st.advance)
    else
      let st := st.advance
      some (leaf .error (st.report (range tokens start st.index) (text "expected an expression")))

/-- The expression that a chain of field accesses starts from. -/
def rawRoot (expressions : List Expression) : ℕ → ExprId → ExprId
  | 0, root => root
  | guard + 1, root =>
    match entry expressions root with
    | some chain =>
      if chain.kind ≠ .field ∧ chain.kind ≠ .arrow then root
      else match chain.operands with
        | [] => root
        | inner :: _ => rawRoot expressions guard inner
    | none => root

/-- Marks the operand of `raw`. Nothing comes back where the table is read at the id 0. -/
def markRaw (start : ℕ) (operand : ExprId) (st : ParserState) : Option (ExprId × ParserState) :=
  if operand = 0 then none
  else
    match entry st.expressions operand with
    | none => some (0, st)
    | some child =>
      if child.kind = .index ∨ child.kind = .sliceRange ∨ child.kind = .cast then
        some (operand, st.modify operand fun child =>
          { child with isRaw := true, span := range tokens start st.index })
      else
        let root := rawRoot st.expressions 16 operand
        if root = 0 then none
        else
          match entry st.expressions root with
          | none => some (0, st)
          | some rawRoot =>
            if rawRoot.kind = .index ∨ rawRoot.kind = .sliceRange then
              some (operand, st.modify root fun rawRoot => { rawRoot with isRaw := true })
            else if rawRoot.kind = .name then
              some ((st.modify root fun rawRoot => { rawRoot with isRawName := true }).addExpression
                { id := 0, kind := .unary, text := text "raw", operands := [operand],
                  span := range tokens start st.index })
            else
              some (st.addError (range tokens start st.index)
                (text "raw prefix is only valid on an index, slice, or cast expression"))

/-- What the start of an expression is: all of it, or an operand that operators may follow. -/
inductive Started where
  | whole (id : ExprId)
  | left (id : ExprId)

def notAnOperator (spelling : Text) : Text :=
  text "'" ++ spelling ++ text "' is not a Zith operator; use explicit assignment to an updated value"

/-- The start of an expression, up to the operator loop. -/
def parseStart (forms : OtherForms) (parse : ℤ → ParserState → Option (ExprId × ParserState)) (st : ParserState) :
    Option (Started × ParserState) :=
  let start := st.index
  match tokens[start]? with
  | none => none
  | some token =>
    if token.is .operator "?" then do
      let (_, st) ← parse kUnaryPrecedence st.advance
      let (id, st) := st.addError (range tokens start st.index)
        (text "fallback and propagation operators are not supported in this version") token.text
      return (.whole id, st)
    else if token.is .operator "++" ∨ token.is .operator "--" then do
      let (_, st) ← parse kUnaryPrecedence st.advance
      let (id, st) := st.addError (range tokens start st.index) (notAnOperator token.text) token.text
      return (.whole id, st)
    else if token.is .keyword "raw" then do
      let (operand, st) ← parse kUnaryPrecedence st.advance
      let (id, st) ← markRaw tokens start operand st
      return (.left id, st)
    else if token.is .keyword "must" ∨ ["-", "&", "*", "~"].any (token.is .operator ·) ∨
        token.text = text "not" then do
      let (operand, st) ← parse kUnaryPrecedence st.advance
      let (id, st) := st.addExpression
        { id := 0, kind := .unary, text := token.text, operands := [operand], span := range tokens start st.index }
      return (.left id, st)
    else do
      let (id, st) ← parsePrimary tokens forms parse st
      return (.left id, st)

/-! ### Operators behind an operand -/

/-- `x is null`, `x is Type`. -/
def parseIs (forms : OtherForms) (start : ℕ) (left : ExprId) (st : ParserState) : ExprId × ParserState :=
  if isKeywordToken tokens st.index "null" then
    let st := st.advance
    st.addExpression { id := 0, kind := .isNull, operands := [left], span := range tokens start st.index }
  else
    let (type, st) := forms.parseType st
    if type ≠ 0 then
      st.addExpression
        { id := 0, kind := .isType, operands := [left], castType := type, span := range tokens start st.index }
    else st.addError (range tokens start st.index) (text "'is' requires 'null' or a member type")

def SpelledToken.isOperator (token : SpelledToken) : Bool :=
  token.kind == .operator || ["and", "or", "xor", "in"].any (token.is .keyword ·)

/-- An operation that has been read with both its operands. -/
def addOperation (start : ℕ) (spelling : Text) (left right : ExprId) (st : ParserState) : ExprId × ParserState :=
  let span := range tokens start st.index
  match compoundBaseOp spelling with
  | some base =>
    -- `x op= v` is `x = x op v`, and shares the expression of `x`
    let (folded, st) := st.addExpression { id := 0, kind := .binary, text := base, operands := [left, right], span }
    st.addExpression { id := 0, kind := .assign, text := spelling, operands := [left, folded], span }
  | none =>
    st.addExpression
      { id := 0, kind := if spelling = text "=" then .assign else .binary, text := spelling,
        operands := [left, right], span }

/-- One round of the operator loop: the expression so far, or `none` where the loop ends. -/
def operatorStep (forms : OtherForms) (parse : ℤ → ParserState → Option (ExprId × ParserState)) (min : ℤ) (start : ℕ)
    (left : ExprId) (st : ParserState) : Option (Option ExprId × ParserState) :=
  let openLo := isRangeOpenAt tokens st.index
  if (isRangeDotAt tokens st.index || openLo) && !st.noRangeLiteral then do
    let st := st.advance (if openLo then 2 else 1)
    let openHi := isOperatorToken tokens st.index "<"
    let (right, st) ← parse kUnaryPrecedence (if openHi then st.advance else st)
    let (id, st) := st.addExpression
      { id := 0, kind := .range, operands := [left, right], openAtLo := openLo, openAtHi := openHi,
        span := range tokens start st.index }
    return (some id, st)
  else if (isOperatorToken tokens st.index "|>" || isKeywordToken tokens st.index "do") && min ≤ 0 then do
    let isPipe := isOperatorToken tokens st.index "|>"
    let (stage, after) ← parse 1 { st.advance with inPipeStage := true }
    let (id, st) := { after with inPipeStage := st.inPipeStage }.addExpression
      { id := 0, kind := if isPipe then .pipe else .pipeDo, text := if isPipe then text "|>" else text "do",
        operands := [left, stage], span := range tokens start after.index }
    return (some id, st)
  else if isKeywordToken tokens st.index "is" then
    if 5 < min then some (none, st)
    else
      let (id, st) := parseIs tokens forms start left st.advance
      some (some id, st)
  else
    match tokens[st.index]? with
    | none => some (none, st)
    | some token =>
      if !token.isOperator then some (none, st)
      else if token.text = text "++" ∨ token.text = text "--" then
        let st := st.advance
        let (id, st) := st.addError (range tokens start st.index) (notAnOperator token.text) token.text
        some (some id, st)
      else if token.text = text "&&" ∨ token.text = text "||" then do
        let (_, st) ← parse 0 st.advance
        let (id, st) := st.addError (range tokens start st.index)
          (text "'" ++ token.text ++ text "' is not a Zith operator; use '" ++
            (if token.text = text "&&" then text "and" else text "or") ++ text "'") token.text
        return (some id, st)
      else if precedence token.text < min then some (none, st)
      else do
        let right := if isAssignmentOp token.text then precedence token.text else precedence token.text + 1
        let (right, st) ← parse right st.advance
        let (id, st) := addOperation tokens start token.text left right st
        return (some id, st)

end

mutual

/-- `parseExpression`; with enough fuel, the number of calls that may nest and of operators that may follow each
    other, it says which expression was read. -/
def parseExpression (forms : OtherForms) (tokens : List SpelledToken) :
    ℕ → ℤ → ParserState → Option (ExprId × ParserState)
  | 0, _, _ => none
  | fuel + 1, min, st =>
    if tokens.length ≤ st.index then some (0, st)
    else if kMaximumParserDepth ≤ st.parserDepth then some (parserDepthErrorExpression tokens st.index st)
    else do
      let (started, entered) ← parseStart tokens forms (fun min st => parseExpression forms tokens fuel min st)
        { st with parserDepth := st.parserDepth + 1 }
      let (id, after) ← match started with
        | .whole id => some (id, entered)
        | .left id => parseOperators forms tokens fuel min st.index id entered
      return (id, { after with parserDepth := after.parserDepth - 1 })

/-- The operator loop of `parseExpression`. -/
def parseOperators (forms : OtherForms) (tokens : List SpelledToken) :
    ℕ → ℤ → ℕ → ExprId → ParserState → Option (ExprId × ParserState)
  | 0, _, _, _, _ => none
  | fuel + 1, min, start, left, st =>
    if tokens.length ≤ st.index then some (left, st)
    else do
      match ← operatorStep tokens forms (fun min st => parseExpression forms tokens fuel min st) min start left
          st with
      | (none, st) => return (left, st)
      | (some left, st) => parseOperators forms tokens fuel min start left st

end

end Zith.Frontend
