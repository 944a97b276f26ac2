import Mathlib.Data.List.Basic

/-! `lex`: a source as tokens, each with the trivia in front of it, and `reconstruct`, which writes the
    source down again.

        trivia, trivia, …, token   trivia, token   token   trivia, …   End

    A position is a natural number: in a source of less than 2^32 bytes none wraps around. -/

namespace Zith.Frontend

abbrev Text := List UInt8

def text (s : String) : Text := s.toUTF8.toList

/-! ### Characters -/

def isAlpha (c : UInt8) : Bool := (0x41 ≤ c && c ≤ 0x5A) || (0x61 ≤ c && c ≤ 0x7A)

def isDigit (c : UInt8) : Bool := 0x30 ≤ c && c ≤ 0x39

def isAlnum (c : UInt8) : Bool := isAlpha c || isDigit c

def isIdentifierStart (c : UInt8) : Bool := isAlpha c || c == 0x5F

def isIdentifierContinue (c : UInt8) : Bool := isAlnum c || c == 0x5F

def isWhitespace (c : UInt8) : Bool := c == 0x20 || (0x09 ≤ c && c ≤ 0x0D)

def isOperator (c : UInt8) : Bool := (text "+-*/%=<>!&|^~?").contains c

def isPunctuation (c : UInt8) : Bool := (text "()[]\x7b\x7d:;,.@`#").contains c

def newline : UInt8 := 0x0A

def dot : UInt8 := 0x2E

def backslash : UInt8 := 0x5C

/-- `"` and `'`. -/
def isQuote (c : UInt8) : Bool := c == 0x22 || c == 0x27

def keywords : List Text :=
  ["i8", "i16", "i32", "i64", "i128", "u8", "u16", "u32", "u64", "u128", "f32", "f64", "bool", "char",
    "void", "invalid", "unknown", "null", "true", "false", "type", "struct", "component", "enum", "raw",
    "unsafe", "union", "trait", "interface", "extends", "dyn", "implement", "fn", "import", "use",
    "context", "macro", "export", "extern", "from", "alias", "as", "let", "var", "auto", "const", "mut",
    "global", "lend", "share", "view", "unique", "belong", "yield", "async", "state", "dock", "never",
    "pub", "mod", "if", "else", "for", "in", "when", "match", "return", "break", "continue", "jump",
    "while", "marker", "spawn", "await", "with", "catch", "must", "throw", "fail", "drop", "require",
    "is", "prefix", "suffix", "infix", "nop", "and", "or", "not", "xor", "tag", "defer", "opaque",
    "optional", "do"].map text

def isKeyword (word : Text) : Bool := keywords.contains word

/-! ### Tokens -/

structure TextSpan where
  start : ℕ
  stop : ℕ
  deriving DecidableEq, Repr

inductive TriviaKind where
  | whitespace | lineComment | blockComment | docLine | docBlock
  deriving DecidableEq, Repr

structure Trivia where
  kind : TriviaKind
  span : TextSpan
  deriving DecidableEq, Repr

inductive TokenKind where
  | identifier | keyword | literal | operator | punctuation | dots | unknown | end
  deriving DecidableEq, Repr

structure Token where
  kind : TokenKind
  span : TextSpan
  leadingTriviaStart : ℕ
  leadingTriviaCount : ℕ
  deriving DecidableEq, Repr

structure Diagnostic where
  span : TextSpan
  message : Text
  deriving DecidableEq, Repr

/-! ### Looking at the source -/

def substr (source : Text) (position count : ℕ) : Text := (source.drop position).take count

/-- `source.substr(position).starts_with(pattern)`. -/
def startsWith (source : Text) (position : ℕ) (pattern : Text) : Bool := pattern.isPrefixOf (source.drop position)

/-- `while (position < source.size() && p(source[position])) ++position;`. -/
def skipWhile (p : UInt8 → Bool) (source : Text) (position : ℕ) : ℕ :=
  position + ((source.drop position).takeWhile p).length

/-- Where `pattern` is in a text first. -/
def find (pattern : Text) : Text → Option ℕ
  | [] => none
  | b :: rest => if pattern.isPrefixOf (b :: rest) then some 0 else (find pattern rest).map (· + 1)

/-! ### Trivia -/

/-- What one round of a loop reads from a position: its kind, where it ends, and what it reports. -/
structure Lexeme (κ : Type) where
  kind : κ
  stop : ℕ
  diagnostics : List Diagnostic := []

def scanLineComment (kind : TriviaKind) (source : Text) (position : ℕ) : Lexeme TriviaKind :=
  ⟨kind, skipWhile (· != newline) source position, []⟩

def scanBlockComment (source : Text) (start : ℕ) : Lexeme TriviaKind :=
  let documentation := startsWith source start (text "/**")
  let position := start + if documentation then 3 else 2
  let kind := if documentation then TriviaKind.docBlock else .blockComment
  match find (text "*/") (source.drop position) with
  | none => ⟨kind, source.length, [⟨⟨start, source.length⟩, text "unterminated block comment"⟩]⟩
  | some close => ⟨kind, position + close + 2, []⟩

/-- The trivia that starts at a position. -/
def scanTrivia (source : Text) (start : ℕ) : Option (Lexeme TriviaKind) :=
  match source[start]? with
  | none => none
  | some c =>
    if isWhitespace c then some ⟨.whitespace, skipWhile isWhitespace source (start + 1), []⟩
    else if startsWith source start (text "///") then some (scanLineComment .docLine source (start + 3))
    else if startsWith source start (text "//") then some (scanLineComment .lineComment source (start + 2))
    else if startsWith source start (text "/*") then some (scanBlockComment source start)
    else none

/-! ### Tokens of more than one character -/

/-- Behind the digits of a number: letters, digits, and a point that no other point follows. -/
def numberEnd : Text → ℕ → ℕ
  | [], position => position
  | b :: rest, position =>
    if isAlnum b || (b == dot && rest.head? != some dot) then numberEnd rest (position + 1) else position

/-- Behind the opening quote of a string: where it ends, and whether a quote ends it. -/
def stringEnd (quote : UInt8) : Text → ℕ → ℕ × Bool
  | [], position => (position, false)
  | b :: rest, position =>
    match b == backslash, rest with
    | true, _ :: rest => stringEnd quote rest (position + 2)
    | _, rest => if b == quote then (position + 1, true) else stringEnd quote rest (position + 1)

def kThreeChar : List Text := ["<<=", ">>="].map text

def kTwoChar : List Text :=
  ["==", "!=", "<=", ">=", "->", "~>", "<<", ">>", "+=", "-=", "*=", "/=", "%=", "&=", "|=", "^=", "&.",
    "|.", "^.", "&&", "||", "??", "|>", "++", "--"].map text

def operatorEnd (source : Text) (start : ℕ) : ℕ :=
  if start + 3 ≤ source.length && kThreeChar.contains (substr source start 3) then start + 3
  else if start + 2 ≤ source.length && kTwoChar.contains (substr source start 2) then
    -- `??` is two tokens
    if substr source start 2 = text "??" then start + 1 else start + 2
  else start + 1

/-- The token that starts at a position with the byte `c`. -/
def scanToken (source : Text) (start : ℕ) (c : UInt8) : Lexeme TokenKind :=
  if isIdentifierStart c then
    let stop := skipWhile isIdentifierContinue source (start + 1)
    ⟨if isKeyword (substr source start (stop - start)) then .keyword else .identifier, stop, []⟩
  else if isDigit c then ⟨.literal, numberEnd (source.drop (start + 1)) (start + 1), []⟩
  else if isQuote c then
    match stringEnd c (source.drop (start + 1)) (start + 1) with
    | (stop, true) => ⟨.literal, stop, []⟩
    | (stop, false) => ⟨.literal, stop, [⟨⟨start, stop⟩, text "unterminated string literal"⟩]⟩
  else if isOperator c then ⟨.operator, operatorEnd source start, []⟩
  else if isPunctuation c then
    if c = dot ∧ source[start + 1]? = some dot then ⟨.dots, skipWhile (· == dot) source (start + 1), []⟩
    else ⟨.punctuation, start + 1, []⟩
  else ⟨.unknown, start + 1, [⟨⟨start, start + 1⟩, text "unknown token"⟩]⟩

/-! ### `lex` -/

/-- What `lex` writes to the snapshot, and its two local variables. -/
structure LexState where
  tokens : List Token := []
  trivia : List Trivia := []
  diagnostics : List Diagnostic := []
  position : ℕ := 0
  eofTriviaStart : ℕ := 0

/-- The inner loop: the trivia in front of a token. -/
def lexTrivia (source : Text) : ℕ → LexState → LexState
  | 0, s => s
  | fuel + 1, s =>
    match scanTrivia source s.position with
    | none => s
    | some found =>
      lexTrivia source fuel { s with
        trivia := s.trivia ++ [⟨found.kind, ⟨s.position, found.stop⟩⟩]
        diagnostics := s.diagnostics ++ found.diagnostics
        position := found.stop }

/-- The outer loop. A round reads at least one byte, so it takes no more rounds than there are bytes. -/
def lexTokens (source : Text) : ℕ → LexState → LexState
  | 0, s => s
  | fuel + 1, s =>
    if s.position < source.length then
      let triviaStart := s.trivia.length
      let s := lexTrivia source source.length { s with eofTriviaStart := triviaStart }
      match source[s.position]? with
      | none => s
      | some c =>
        let found := scanToken source s.position c
        lexTokens source fuel { s with
          tokens := s.tokens ++ [⟨found.kind, ⟨s.position, found.stop⟩, triviaStart, s.trivia.length - triviaStart⟩]
          diagnostics := s.diagnostics ++ found.diagnostics
          position := found.stop }
    else s

structure FrontendSnapshot where
  source : Text
  tokens : List Token
  trivia : List Trivia
  diagnostics : List Diagnostic
  deriving DecidableEq

def lex (source : Text) : FrontendSnapshot :=
  let s := lexTokens source source.length {}
  { source
    tokens := s.tokens ++ [⟨.end, ⟨source.length, source.length⟩, s.eofTriviaStart, s.trivia.length - s.eofTriviaStart⟩]
    trivia := s.trivia
    diagnostics := s.diagnostics }

/-! ### `FrontendSnapshot::reconstruct` -/

def spanText (source : Text) (span : TextSpan) : Text := substr source span.start (span.stop - span.start)

/-- The trivia of a token: `trivia_[leadingTriviaStart + index]` for each index. -/
def leadingTrivia (snapshot : FrontendSnapshot) (token : Token) : Option (List Trivia) :=
  (List.range token.leadingTriviaCount).mapM fun index => snapshot.trivia[token.leadingTriviaStart + index]?

/-- The spans that are written for a token. -/
def writtenSpans (snapshot : FrontendSnapshot) (token : Token) : Option (List TextSpan) := do
  let trivia ← leadingTrivia snapshot token
  return trivia.map (·.span) ++ if token.kind = .end then [] else [token.span]

def FrontendSnapshot.reconstruct (snapshot : FrontendSnapshot) : Option Text := do
  let spans ← snapshot.tokens.mapM (writtenSpans snapshot)
  return spans.flatten.flatMap (spanText snapshot.source)

end Zith.Frontend
