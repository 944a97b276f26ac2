import Zith.Frontend.Lexer
import Mathlib.Tactic.Ring

/-! When `lex` is lossless. Each round of the outer loop attaches the trivia it reads to the token it
    reads, and the trivia it finds no token for belong to `End`. A source that ends in a token leaves
    the loop by its condition instead, with the trivia of that token in `eofTriviaStart`: `End` gets
    them a second time. -/

namespace Zith.Frontend

/-! ### What the scanners consume -/

theorem le_skipWhile (p : UInt8 → Bool) (source : Text) (position : ℕ) :
    position ≤ skipWhile p source position := Nat.le_add_right _ _

variable {source : Text} {snapshot : FrontendSnapshot} {added : List Trivia} {start : ℕ}

theorem skipWhile_le {p : UInt8 → Bool} {position : ℕ} (h : position ≤ source.length) :
    skipWhile p source position ≤ source.length := by
  have htake := (List.takeWhile_sublist p (l := source.drop position)).length_le
  rw [List.length_drop] at htake
  rw [skipWhile]
  omega

theorem startsWith_le {position k : ℕ} {pattern : Text} (h : startsWith source position pattern = true)
    (hlength : pattern.length = k) (hk : 0 < k) : position + k ≤ source.length := by
  have hle := (List.isPrefixOf_iff_prefix.mp h).length_le
  rw [List.length_drop] at hle
  omega

theorem find_le {pattern : Text} : ∀ {t : Text} {i : ℕ}, find pattern t = some i → i + pattern.length ≤ t.length := by
  intro t
  induction t with
  | nil => intro i h; cases h
  | cons b rest ih =>
    intro i h
    rw [find] at h
    split at h
    · rename_i hprefix
      obtain rfl : (0 : ℕ) = i := Option.some.inj h
      have hle := (List.isPrefixOf_iff_prefix.mp hprefix).length_le
      omega
    · obtain ⟨j, hj, rfl⟩ := Option.map_eq_some_iff.mp h
      have hle := ih hj
      rw [List.length_cons]
      omega

theorem numberEnd_bounds : ∀ (t : Text) (position : ℕ),
    position ≤ numberEnd t position ∧ numberEnd t position ≤ position + t.length := by
  intro t
  induction t with
  | nil => intro position; exact ⟨le_rfl, Nat.le_add_right _ _⟩
  | cons b rest ih =>
    intro position
    rw [numberEnd, List.length_cons]
    split
    · have h := ih (position + 1)
      omega
    · omega

theorem stringEnd_bounds (quote : UInt8) : ∀ (t : Text) (position : ℕ), position ≤ (stringEnd quote t position).1 ∧
      (stringEnd quote t position).1 ≤ position + t.length := by
  intro t position
  induction t, position using stringEnd.induct quote with
  | case1 position => exact ⟨le_rfl, Nat.le_add_right _ _⟩
  | case2 b position b' rest hescape ih =>
    rw [stringEnd]
    · simp only [List.length_cons]
      omega
    · exact hescape
  | case3 b position rest hquote hplain =>
    rw [stringEnd, if_pos hquote]
    · simp only [List.length_cons]
      omega
    · exact hplain
  | case4 b position rest hquote hplain ih =>
    rw [stringEnd, if_neg hquote]
    · simp only [List.length_cons]
      omega
    · exact hplain

theorem operatorEnd_bounds (h : start < source.length) :
    start < operatorEnd source start ∧ operatorEnd source start ≤ source.length := by
  rw [operatorEnd]
  split
  · rename_i hthree
    have hle := of_decide_eq_true (Bool.and_eq_true_iff.mp hthree).1
    omega
  · split
    · rename_i htwo
      have hle := of_decide_eq_true (Bool.and_eq_true_iff.mp htwo).1
      split <;> omega
    · omega

theorem scanBlockComment_bounds (h : startsWith source start (text "/*") = true) :
    start < (scanBlockComment source start).stop ∧ (scanBlockComment source start).stop ≤ source.length := by
  have hopen := startsWith_le (k := 2) h (by decide +kernel) (by omega)
  have hposition : start < start + if startsWith source start (text "/**") then 3 else 2 := by
    split <;> omega
  rw [scanBlockComment]
  split
  · exact ⟨by dsimp only; omega, le_rfl⟩
  · rename_i close hclose
    have hle := find_le hclose
    have htwo : (text "*/").length = 2 := by decide +kernel
    rw [List.length_drop, htwo] at hle
    exact ⟨by dsimp only; omega, by dsimp only; omega⟩

/-- Trivia are never empty. -/
theorem scanTrivia_bounds {found : Lexeme TriviaKind} (h : scanTrivia source start = some found) :
    start < found.stop ∧ found.stop ≤ source.length := by
  rw [scanTrivia] at h
  cases hc : source[start]? with
  | none =>
    rw [hc] at h
    cases h
  | some c =>
    have hstart := (List.getElem?_eq_some_iff.mp hc).1
    simp only [hc] at h
    split_ifs at h with hspace hdoc hline hblock
    · cases h
      exact ⟨le_skipWhile _ _ _, skipWhile_le hstart⟩
    · cases h
      have hle : start + 3 ≤ source.length := startsWith_le hdoc (by decide +kernel) (by omega)
      exact ⟨Nat.lt_of_lt_of_le (by omega) (le_skipWhile _ _ (start + 3)), skipWhile_le hle⟩
    · cases h
      have hle : start + 2 ≤ source.length := startsWith_le hline (by decide +kernel) (by omega)
      exact ⟨Nat.lt_of_lt_of_le (by omega) (le_skipWhile _ _ (start + 2)), skipWhile_le hle⟩
    · cases h
      exact scanBlockComment_bounds hblock

/-- Neither are tokens. -/
theorem scanToken_bounds (c : UInt8) (h : start < source.length) :
    start < (scanToken source start c).stop ∧ (scanToken source start c).stop ≤ source.length := by
  have hrest : (source.drop (start + 1)).length = source.length - (start + 1) := List.length_drop
  rw [scanToken]
  split_ifs
  · exact ⟨le_skipWhile _ _ _, skipWhile_le h⟩
  · have hnumber := numberEnd_bounds (source.drop (start + 1)) (start + 1)
    exact ⟨by dsimp only; omega, by dsimp only; omega⟩
  · have hstring := stringEnd_bounds c (source.drop (start + 1)) (start + 1)
    split
    · rename_i stop hstop
      rw [hstop] at hstring
      dsimp only at hstring ⊢
      omega
    · rename_i stop hstop
      rw [hstop] at hstring
      dsimp only at hstring ⊢
      omega
  · exact operatorEnd_bounds h
  · exact ⟨le_skipWhile _ _ _, skipWhile_le h⟩
  · exact ⟨Nat.lt_succ_self _, h⟩
  · exact ⟨Nat.lt_succ_self _, h⟩

/-! ### Spans that tile a source -/

/-- Spans that are not empty and follow each other from `a` to `b`. -/
def Tiles : ℕ → List TextSpan → ℕ → Prop
  | a, [], b => a = b
  | a, span :: spans, b => span.start = a ∧ a < span.stop ∧ Tiles span.stop spans b

theorem tiles_append {b c : ℕ} {ys : List TextSpan} : ∀ {a : ℕ} {xs : List TextSpan},
    Tiles a xs b → Tiles b ys c → Tiles a (xs ++ ys) c := by
  intro a xs
  induction xs generalizing a with
  | nil =>
    rintro rfl hys
    exact hys
  | cons span xs ih =>
    rintro ⟨hstart, hstop, hxs⟩ hys
    exact ⟨hstart, hstop, ih hxs hys⟩

theorem Tiles.le {b : ℕ} : ∀ {a : ℕ} {spans : List TextSpan}, Tiles a spans b → a ≤ b := by
  intro a spans
  induction spans generalizing a with
  | nil => rintro rfl; exact le_rfl
  | cons span spans ih =>
    rintro ⟨_, hstop, hspans⟩
    exact hstop.le.trans (ih hspans)

theorem Tiles.start_le {b : ℕ} : ∀ {a : ℕ} {spans : List TextSpan}, Tiles a spans b →
    ∀ span ∈ spans, a ≤ span.start ∧ span.start < span.stop := by
  intro a spans
  induction spans generalizing a with
  | nil => simp
  | cons first spans ih =>
    rintro ⟨rfl, hstop, hspans⟩ span hspan
    rcases List.mem_cons.mp hspan with rfl | hspan
    · exact ⟨le_rfl, hstop⟩
    · obtain ⟨hle, hlt⟩ := ih hspans span hspan
      exact ⟨hstop.le.trans hle, hlt⟩

/-- Spans that do not overlap. -/
def Apart (x y : TextSpan) : Prop := x.stop ≤ y.start ∨ y.stop ≤ x.start

theorem Tiles.apart {b : ℕ} : ∀ {a : ℕ} {spans : List TextSpan}, Tiles a spans b →
    ∀ x ∈ spans, ∀ y ∈ spans, x = y ∨ Apart x y := by
  intro a spans
  induction spans generalizing a with
  | nil => simp
  | cons first spans ih =>
    rintro ⟨rfl, -, hspans⟩ x hx y hy
    rcases List.mem_cons.mp hx with rfl | hx' <;> rcases List.mem_cons.mp hy with rfl | hy'
    · exact Or.inl rfl
    · exact Or.inr (Or.inl (hspans.start_le y hy').1)
    · exact Or.inr (Or.inr (hspans.start_le x hx').1)
    · exact ih hspans x hx' y hy'

/-- Their texts in order are the text from `a` to `b`. -/
theorem Tiles.text {b : ℕ} (hb : b ≤ source.length) : ∀ {a : ℕ} {spans : List TextSpan}, Tiles a spans b →
      spans.flatMap (spanText source) = substr source a (b - a) := by
  intro a spans
  induction spans generalizing a with
  | nil =>
    rintro rfl
    simp [substr]
  | cons span spans ih =>
    rintro ⟨rfl, hstop, hspans⟩
    have hle := hspans.le
    rw [List.flatMap_cons, ih hspans, spanText, substr, substr, substr]
    have hsum : b - span.start = (span.stop - span.start) + (b - span.stop) := by omega
    rw [hsum, List.take_add, List.drop_drop]
    congr 3
    omega

/-! ### The pieces of a source -/

/-- A trivia or a token where the scanners find it, whatever it is attached to. -/
structure Piece where
  isTrivia : Bool
  span : TextSpan

def nextPiece (source : Text) (position : ℕ) : Option Piece :=
  match source[position]? with
  | none => none
  | some c =>
    match scanTrivia source position with
    | some found => some ⟨true, ⟨position, found.stop⟩⟩
    | none => some ⟨false, ⟨position, (scanToken source position c).stop⟩⟩

def piecesFrom (source : Text) : ℕ → ℕ → List Piece
  | 0, _ => []
  | fuel + 1, position =>
    match nextPiece source position with
    | none => []
    | some piece => piece :: piecesFrom source fuel piece.span.stop

/-- The trivia and tokens from a position on. -/
def pieces (source : Text) (position : ℕ) : List Piece := piecesFrom source source.length position

/-- The last piece is a token, and the piece before it a trivia. -/
def EndsInSpacedToken (source : Text) : Prop :=
  ∃ before trivia token, pieces source 0 = before ++ [trivia, token] ∧ trivia.isTrivia = true ∧ token.isTrivia = false

theorem nextPiece_bounds {position : ℕ} {piece : Piece} (h : nextPiece source position = some piece) :
    position < source.length ∧ position < piece.span.stop ∧ piece.span.stop ≤ source.length := by
  rw [nextPiece] at h
  cases hc : source[position]? with
  | none =>
    rw [hc] at h
    cases h
  | some c =>
    have hposition := (List.getElem?_eq_some_iff.mp hc).1
    simp only [hc] at h
    cases hfound : scanTrivia source position with
    | none =>
      rw [hfound] at h
      cases h
      exact ⟨hposition, scanToken_bounds c hposition⟩
    | some found =>
      rw [hfound] at h
      cases h
      exact ⟨hposition, scanTrivia_bounds hfound⟩

theorem piecesFrom_fuel {source : Text} : ∀ {fuel fuel' position : ℕ}, source.length - position ≤ fuel →
    source.length - position ≤ fuel' → piecesFrom source fuel position = piecesFrom source fuel' position := by
  intro fuel
  induction fuel with
  | zero =>
    intro fuel' position h _
    cases fuel' with
    | zero => rfl
    | succ fuel' =>
      have hend : source[position]? = none := List.getElem?_eq_none (by omega)
      simp only [piecesFrom, nextPiece, hend]
  | succ fuel ih =>
    intro fuel' position h h'
    cases fuel' with
    | zero =>
      have hend : source[position]? = none := List.getElem?_eq_none (by omega)
      simp only [piecesFrom, nextPiece, hend]
    | succ fuel' =>
      rw [piecesFrom, piecesFrom]
      cases hnext : nextPiece source position with
      | none => rfl
      | some piece =>
        obtain ⟨_, hlt, _⟩ := nextPiece_bounds hnext
        exact congrArg _ (ih (by omega) (by omega))

theorem pieces_cons {position : ℕ} {piece : Piece} (h : nextPiece source position = some piece) :
    pieces source position = piece :: pieces source piece.span.stop := by
  obtain ⟨hposition, _, hstop⟩ := nextPiece_bounds h
  obtain ⟨fuel, hfuel⟩ : ∃ fuel, source.length = fuel + 1 := ⟨source.length - 1, by omega⟩
  have hstep : pieces source position = piece :: piecesFrom source fuel piece.span.stop := by
    rw [pieces, hfuel, piecesFrom, h]
  rw [hstep, pieces]
  exact congrArg _ (piecesFrom_fuel (by omega) (by omega))

theorem pieces_end (source : Text) : pieces source source.length = [] := by
  rw [pieces, @piecesFrom_fuel source source.length 0 _ (Nat.sub_le _ _) (by omega)]
  rfl

/-! ### The inner loop -/

def triviaPiece (t : Trivia) : Piece := ⟨true, t.span⟩

/-- What the inner loop adds to a state: trivia that tile the source up to a place where none starts. -/
structure TriviaRead (source : Text) (s s' : LexState) (added : List Trivia) : Prop where
  trivia : s'.trivia = s.trivia ++ added
  tokens : s'.tokens = s.tokens
  eof : s'.eofTriviaStart = s.eofTriviaStart
  tiles : Tiles s.position (added.map (·.span)) s'.position
  position_le : s'.position ≤ source.length
  pieces : pieces source s.position = added.map triviaPiece ++ pieces source s'.position
  next : scanTrivia source s'.position = none

theorem lexTrivia_read : ∀ {fuel : ℕ} {s : LexState}, s.position ≤ source.length →
    source.length - s.position ≤ fuel → ∃ added, TriviaRead source s (lexTrivia source fuel s) added := by
  intro fuel
  induction fuel with
  | zero =>
    intro s hposition hfuel
    have hend : source[s.position]? = none := List.getElem?_eq_none (by omega)
    refine ⟨[], (List.append_nil _).symm, rfl, rfl, rfl, hposition, rfl, ?_⟩
    rw [lexTrivia, scanTrivia, hend]
  | succ fuel ih =>
    intro s hposition hfuel
    rw [lexTrivia]
    cases hfound : scanTrivia source s.position with
    | none => exact ⟨[], (List.append_nil _).symm, rfl, rfl, rfl, hposition, rfl, hfound⟩
    | some found =>
      obtain ⟨hlt, hle⟩ := scanTrivia_bounds hfound
      obtain ⟨added, h⟩ := ih (s := { s with
        trivia := s.trivia ++ [⟨found.kind, ⟨s.position, found.stop⟩⟩]
        diagnostics := s.diagnostics ++ found.diagnostics
        position := found.stop }) hle (by dsimp only; omega)
      refine ⟨⟨found.kind, ⟨s.position, found.stop⟩⟩ :: added, ?_, h.tokens, h.eof, ⟨rfl, hlt, h.tiles⟩,
        h.position_le, ?_, h.next⟩
      · rw [h.trivia, List.append_assoc]
        rfl
      · obtain ⟨c, hc⟩ : ∃ c, source[s.position]? = some c :=
          ⟨_, List.getElem?_eq_getElem (by omega)⟩
        have hnext : nextPiece source s.position = some ⟨true, ⟨s.position, found.stop⟩⟩ := by
          simp only [nextPiece, hc, hfound]
        rw [pieces_cons hnext, h.pieces]
        rfl

/-! ### The outer loop -/

/-- The spans that `reconstruct` writes for a token. -/
def spansOf (trivia : List Trivia) (token : Token) : List TextSpan :=
  ((trivia.drop token.leadingTriviaStart).take token.leadingTriviaCount).map (·.span) ++
    if token.kind = .end then [] else [token.span]

/-- The indices of the trivia of a token. -/
def triviaRange (token : Token) : List ℕ := List.range' token.leadingTriviaStart token.leadingTriviaCount

/-- The state between two rounds: everything read so far belongs to one token. -/
structure Attached (source : Text) (s : LexState) : Prop where
  position_le : s.position ≤ source.length
  inRange : ∀ t ∈ s.tokens, t.kind ≠ .end ∧ t.leadingTriviaStart + t.leadingTriviaCount ≤ s.trivia.length
  tiles : Tiles 0 (s.tokens.flatMap (spansOf s.trivia)) s.position
  once : s.tokens.flatMap triviaRange = List.range s.trivia.length
  wide : ∀ t ∈ s.trivia, t.span.start < t.span.stop ∧ t.span.stop ≤ source.length
  eof_le : s.eofTriviaStart ≤ s.trivia.length
  /-- The pieces behind it, which do not end in trivia; `eofTriviaStart` is before the trivia of the last
      token. -/
  pieces : ∃ before, pieces source 0 = before ++ pieces source s.position ∧
    (∀ piece ∈ before.getLast?, piece.isTrivia = false) ∧
      (s.eofTriviaStart < s.trivia.length ↔ ∃ front trivia token, before = front ++ [trivia, token] ∧
        trivia.isTrivia = true ∧ token.isTrivia = false)

theorem attached_start (source : Text) : Attached source {} where
  position_le := Nat.zero_le _
  inRange := fun t ht => absurd ht (List.not_mem_nil)
  tiles := rfl
  once := rfl
  wide := fun t ht => absurd ht (List.not_mem_nil)
  eof_le := le_rfl
  pieces := by
    refine ⟨[], rfl, fun piece hpiece => absurd hpiece (by simp), ?_⟩
    constructor
    · intro h
      exact absurd h (Nat.lt_irrefl 0)
    · rintro ⟨front, trivia, token, heq, -⟩
      exact absurd heq (by simp)

theorem spansOf_append {trivia added : List Trivia} {t : Token}
    (h : t.leadingTriviaStart + t.leadingTriviaCount ≤ trivia.length) :
    spansOf (trivia ++ added) t = spansOf trivia t := by
  rw [spansOf, spansOf, List.drop_append_of_le_length (by omega),
    List.take_append_of_le_length (by rw [List.length_drop]; omega)]

theorem wide_of_tiles {a b : ℕ} (h : Tiles a (added.map (·.span)) b) :
    ∀ t ∈ added, t.span.start < t.span.stop ∧ t.span.stop ≤ b := by
  induction added generalizing a with
  | nil => intro t ht; exact absurd ht List.not_mem_nil
  | cons t added ih =>
    obtain ⟨hstart, hstop, hspans⟩ := h
    dsimp only at hstart hstop
    intro u hu
    rcases List.mem_cons.mp hu with rfl | hu
    · exact ⟨by omega, hspans.le⟩
    · exact ih hspans u hu

theorem scanToken_kind (source : Text) (start : ℕ) (c : UInt8) : (scanToken source start c).kind ≠ .end := by
  rw [scanToken]
  split_ifs
  · dsimp only
    split <;> exact TokenKind.noConfusion
  · exact TokenKind.noConfusion
  · split <;> exact TokenKind.noConfusion
  · exact TokenKind.noConfusion
  · exact TokenKind.noConfusion
  · exact TokenKind.noConfusion
  · exact TokenKind.noConfusion

theorem spansOf_read {trivia added : List Trivia} {kind : TokenKind} {span : TextSpan} (hkind : kind ≠ .end) :
    spansOf (trivia ++ added) ⟨kind, span, trivia.length, added.length⟩ = added.map (·.span) ++ [span] := by
  rw [spansOf, List.drop_left, List.take_length, if_neg hkind]

theorem range_append (n k : ℕ) : List.range n ++ List.range' n k = List.range (n + k) := by
  rw [List.range_eq_range', List.range_eq_range', ← List.range'_append_1, Nat.zero_add]

theorem ends_spaced_iff {before : List Piece} {token : Piece}
    (hlast : ∀ piece ∈ before.getLast?, piece.isTrivia = false) (htoken : token.isTrivia = false) :
    added ≠ [] ↔ ∃ front trivia last, before ++ added.map triviaPiece ++ [token] = front ++ [trivia, last] ∧
      trivia.isTrivia = true ∧ last.isTrivia = false := by
  constructor
  · intro hadded
    refine ⟨before ++ added.dropLast.map triviaPiece, triviaPiece (added.getLast hadded), token, ?_, rfl, htoken⟩
    conv_lhs => rw [← List.dropLast_append_getLast hadded]
    simp
  · rintro ⟨front, trivia, last, heq, htrivia, -⟩ rfl
    have hconcat : before ++ [token] = (front ++ [trivia]) ++ [last] := by simpa using heq
    have hbefore : before = front ++ [trivia] := (List.append_inj' hconcat rfl).1
    rw [hbefore, List.getLast?_concat] at hlast
    rw [hlast trivia rfl] at htrivia
    cases htrivia

/-- A round that reads a token attaches the trivia before it to the token. -/
theorem Attached.round {s s' : LexState} (h : Attached source s)
    (hread : TriviaRead source { s with eofTriviaStart := s.trivia.length } s' added) {c : UInt8}
    (hc : source[s'.position]? = some c) (diagnostics : List Diagnostic) :
    Attached source { s' with
      tokens := s'.tokens ++ [⟨(scanToken source s'.position c).kind,
        ⟨s'.position, (scanToken source s'.position c).stop⟩, s.trivia.length,
        s'.trivia.length - s.trivia.length⟩]
      diagnostics := diagnostics
      position := (scanToken source s'.position c).stop } := by
  have hposition := (List.getElem?_eq_some_iff.mp hc).1
  obtain ⟨hlt, hle⟩ := scanToken_bounds c hposition
  have hkind := scanToken_kind source s'.position c
  have htrivia : s'.trivia = s.trivia ++ added := hread.trivia
  have htokens : s'.tokens = s.tokens := hread.tokens
  have hcount : s'.trivia.length - s.trivia.length = added.length := by
    rw [htrivia, List.length_append]
    omega
  have hspans : s.tokens.flatMap (spansOf s'.trivia) = s.tokens.flatMap (spansOf s.trivia) := by
    rw [htrivia]
    exact List.flatMap_congr fun t ht => spansOf_append (h.inRange t ht).2
  rw [hcount, htokens]
  constructor
  · exact hle
  · intro t ht
    rcases List.mem_append.mp ht with ht | ht
    · have hold := (h.inRange t ht).2
      refine ⟨(h.inRange t ht).1, ?_⟩
      dsimp only
      rw [htrivia, List.length_append]
      omega
    · obtain rfl := List.mem_singleton.mp ht
      refine ⟨hkind, ?_⟩
      dsimp only
      rw [htrivia, List.length_append]
  · dsimp only
    rw [List.flatMap_append, hspans, List.flatMap_singleton, htrivia, spansOf_read hkind]
    exact tiles_append h.tiles (tiles_append hread.tiles ⟨rfl, hlt, rfl⟩)
  · dsimp only
    rw [List.flatMap_append, h.once, List.flatMap_singleton, htrivia, List.length_append]
    exact range_append _ _
  · intro t ht
    dsimp only at ht
    rw [htrivia] at ht
    rcases List.mem_append.mp ht with ht | ht
    · exact h.wide t ht
    · have hwide := wide_of_tiles hread.tiles t ht
      exact ⟨hwide.1, hwide.2.trans hposition.le⟩
  · have heof : s'.eofTriviaStart = s.trivia.length := hread.eof
    dsimp only
    rw [heof, htrivia, List.length_append]
    exact Nat.le_add_right _ _
  · obtain ⟨before, hbefore, hlast, -⟩ := h.pieces
    have hnext : nextPiece source s'.position =
        some ⟨false, ⟨s'.position, (scanToken source s'.position c).stop⟩⟩ := by
      simp only [nextPiece, hc, hread.next]
    refine ⟨before ++ added.map triviaPiece ++
      [⟨false, ⟨s'.position, (scanToken source s'.position c).stop⟩⟩], ?_, ?_, ?_⟩
    · have hpieces := hread.pieces
      dsimp only at hpieces ⊢
      rw [hbefore, hpieces, pieces_cons hnext, List.append_assoc, List.append_assoc]
      rfl
    · intro piece hpiece
      rw [List.getLast?_concat, Option.mem_some_iff] at hpiece
      rw [← hpiece]
    · rw [← ends_spaced_iff hlast rfl]
      have heof : s'.eofTriviaStart = s.trivia.length := hread.eof
      dsimp only
      rw [heof, htrivia, List.length_append, ← List.length_pos_iff]
      omega

/-- `lexTokens` ends with everything attached, or with trivia behind the last token. -/
theorem lexTokens_ends : ∀ {fuel : ℕ} {s : LexState}, Attached source s → source.length - s.position ≤ fuel →
      Attached source (lexTokens source fuel s) ∧ (lexTokens source fuel s).position = source.length ∨
        ∃ before added, Attached source before ∧ added ≠ [] ∧
          TriviaRead source { before with eofTriviaStart := before.trivia.length } (lexTokens source fuel s) added ∧
            (lexTokens source fuel s).position = source.length := by
  intro fuel
  induction fuel with
  | zero =>
    intro s h hfuel
    exact .inl ⟨h, by have hle := h.position_le; rw [lexTokens]; omega⟩
  | succ fuel ih =>
    intro s h hfuel
    rw [lexTokens]
    split
    · rename_i hposition
      obtain ⟨added, hread⟩ := lexTrivia_read (s := { s with eofTriviaStart := s.trivia.length })
        h.position_le (Nat.sub_le _ _)
      dsimp only
      split
      · -- the trivia reach the end of the source
        rename_i hnone
        have hend := List.getElem?_eq_none_iff.mp hnone
        have hposition' := hread.position_le.antisymm hend
        refine .inr ⟨s, added, h, ?_, hread, hposition'⟩
        rintro rfl
        have htiles := hread.tiles
        rw [List.map_nil] at htiles
        have hsame : s.position = _ := htiles
        omega
      · rename_i c hc
        obtain ⟨hlt, _⟩ := scanToken_bounds c (List.getElem?_eq_some_iff.mp hc).1
        have hle := hread.tiles.le
        dsimp only at hle
        exact ih (h.round hread hc _) (by dsimp only; omega)
    · rename_i hposition
      exact .inl ⟨h, h.position_le.antisymm (Nat.le_of_not_lt hposition)⟩

/-! ### `reconstruct` -/

theorem mapM_getElem? {α : Type} {l : List α} {a : ℕ} : ∀ {n : ℕ}, a + n ≤ l.length →
    ((List.range n).mapM fun i => l[a + i]?) = some ((l.drop a).take n) := by
  intro n
  induction n with
  | zero => intro _; rfl
  | succ n ih =>
    intro h
    have hlast : l[a + n]? = some l[a + n] := List.getElem?_eq_getElem (by omega)
    rw [List.range_succ, List.mapM_append, ih (by omega)]
    simp [hlast, List.take_add_one, List.getElem?_drop]

theorem writtenSpans_eq {t : Token} (h : t.leadingTriviaStart + t.leadingTriviaCount ≤ snapshot.trivia.length) :
    writtenSpans snapshot t = some (spansOf snapshot.trivia t) := by
  rw [writtenSpans, leadingTrivia, mapM_getElem? h]
  rfl

theorem mapM_writtenSpans : ∀ {tokens : List Token},
    (∀ t ∈ tokens, t.leadingTriviaStart + t.leadingTriviaCount ≤ snapshot.trivia.length) →
      tokens.mapM (writtenSpans snapshot) = some (tokens.map (spansOf snapshot.trivia)) := by
  intro tokens
  induction tokens with
  | nil => intro _; rfl
  | cons t tokens ih =>
    intro h
    rw [List.mapM_cons, writtenSpans_eq (h t (List.mem_cons_self ..)), ih fun u hu => h u (List.mem_cons_of_mem _ hu)]
    rfl

/-- The spans are attached to the tokens once, and they tile the source. -/
structure Lossless (snapshot : FrontendSnapshot) : Prop where
  reconstruct : snapshot.reconstruct = some snapshot.source
  tiles : ∃ spans, snapshot.tokens.mapM (writtenSpans snapshot) = some spans ∧
    Tiles 0 spans.flatten snapshot.source.length
  once : snapshot.tokens.flatMap triviaRange = List.range snapshot.trivia.length

/-- The token behind the source. -/
def endToken (source : Text) (s : LexState) : Token :=
  ⟨.end, ⟨source.length, source.length⟩, s.eofTriviaStart, s.trivia.length - s.eofTriviaStart⟩

/-- The spans of the tokens and those of `End`. -/
theorem lex_spans {s : LexState}
    (hrange : ∀ t ∈ s.tokens, t.leadingTriviaStart + t.leadingTriviaCount ≤ s.trivia.length)
    (heof : s.eofTriviaStart ≤ s.trivia.length) (htrivia : snapshot.trivia = s.trivia) :
    (s.tokens ++ [endToken source s]).mapM (writtenSpans snapshot) =
      some (s.tokens.map (spansOf s.trivia) ++ [(s.trivia.drop s.eofTriviaStart).map (·.span)]) := by
  have hend : spansOf s.trivia (endToken source s) = (s.trivia.drop s.eofTriviaStart).map (·.span) := by
    rw [spansOf, endToken, if_pos rfl, List.append_nil, List.take_of_length_le (by rw [List.length_drop])]
  rw [mapM_writtenSpans, htrivia, List.map_append, List.map_singleton, hend]
  intro t ht
  rw [htrivia]
  rcases List.mem_append.mp ht with ht | ht
  · exact hrange t ht
  · obtain rfl := List.mem_singleton.mp ht
    dsimp only [endToken]
    omega

/-- With everything attached, what `End` gets beside is the trivia from `eofTriviaStart` on. -/
theorem Attached.reconstruct {source : Text} {s : LexState} (h : Attached source s)
    (hposition : s.position = source.length) {snapshot : FrontendSnapshot}
    (hsource : snapshot.source = source) (htrivia : snapshot.trivia = s.trivia)
    (htokens : snapshot.tokens = s.tokens ++ [endToken source s]) : snapshot.reconstruct =
      some (source ++ (s.trivia.drop s.eofTriviaStart).flatMap fun t => spanText source t.span) := by
  have htext := h.tiles.text h.position_le
  rw [hposition, substr, List.drop_zero, Nat.sub_zero, List.take_length] at htext
  rw [FrontendSnapshot.reconstruct, htokens, lex_spans (fun t ht => (h.inRange t ht).2) h.eof_le htrivia]
  simp only [Option.bind_eq_bind, Option.bind_some, Option.pure_def, List.flatten_append,
    List.flatten_singleton, List.flatMap_append, hsource, List.flatMap_map]
  rw [← List.flatMap_def, htext]

theorem spanText_ne_nil {span : TextSpan} (hwide : span.start < span.stop) (hle : span.stop ≤ source.length) :
    spanText source span ≠ [] := by
  intro h
  have hlength := congrArg List.length h
  rw [spanText, substr, List.length_take, List.length_drop, List.length_nil] at hlength
  omega

/-- No trivia is left over for `End`: nothing is written twice. -/
theorem Attached.lossless {s : LexState} (h : Attached source s) (hposition : s.position = source.length)
    (heof : s.eofTriviaStart = s.trivia.length) (hsource : snapshot.source = source)
    (htrivia : snapshot.trivia = s.trivia) (htokens : snapshot.tokens = s.tokens ++ [endToken source s]) :
    Lossless snapshot := by
  constructor
  · rw [h.reconstruct hposition hsource htrivia htokens, heof, List.drop_length, List.flatMap_nil,
      List.append_nil, hsource]
  · refine ⟨_, by rw [htokens]; exact lex_spans (fun t ht => (h.inRange t ht).2) h.eof_le htrivia, ?_⟩
    rw [List.flatten_append, ← List.flatMap_def, heof, List.drop_length, List.map_nil,
      List.flatten_singleton, List.append_nil, hsource, ← hposition]
    exact h.tiles
  · rw [htokens, List.flatMap_append, h.once, htrivia, List.flatMap_singleton, triviaRange, endToken, heof,
      Nat.sub_self, List.range'_zero, List.append_nil]

/-- The trivia behind the last token belong to `End`. -/
theorem TriviaRead.lossless {s s' : LexState} (h : Attached source s)
    (hread : TriviaRead source { s with eofTriviaStart := s.trivia.length } s' added)
    (hposition : s'.position = source.length) {snapshot : FrontendSnapshot}
    (hsource : snapshot.source = source) (htrivia : snapshot.trivia = s'.trivia)
    (htokens : snapshot.tokens = s'.tokens ++ [endToken source s']) : Lossless snapshot := by
  have hadded : s'.trivia = s.trivia ++ added := hread.trivia
  have hsame : s'.tokens = s.tokens := hread.tokens
  have heof : s'.eofTriviaStart = s.trivia.length := hread.eof
  have hspans : s'.tokens.flatMap (spansOf s'.trivia) = s.tokens.flatMap (spansOf s.trivia) := by
    rw [hsame, hadded]
    exact List.flatMap_congr fun t ht => spansOf_append (h.inRange t ht).2
  have hwritten : snapshot.tokens.mapM (writtenSpans snapshot) =
      some (s'.tokens.map (spansOf s'.trivia) ++ [added.map (·.span)]) := by
    rw [htokens, lex_spans _ _ htrivia, heof, hadded, List.drop_left]
    · intro t ht
      rw [hsame] at ht
      have hle := (h.inRange t ht).2
      rw [hadded, List.length_append]
      omega
    · rw [heof, hadded, List.length_append]
      exact Nat.le_add_right _ _
  have htiles : Tiles 0 (s'.tokens.map (spansOf s'.trivia) ++ [added.map (·.span)]).flatten
      source.length := by
    rw [List.flatten_append, ← List.flatMap_def, hspans, List.flatten_singleton, ← hposition]
    exact tiles_append h.tiles hread.tiles
  constructor
  · rw [FrontendSnapshot.reconstruct, hwritten]
    simp only [Option.bind_eq_bind, Option.bind_some, Option.pure_def, hsource]
    rw [htiles.text le_rfl, substr, List.drop_zero, Nat.sub_zero, List.take_length]
  · exact ⟨_, hwritten, hsource ▸ htiles⟩
  · rw [htokens, List.flatMap_append, hsame, h.once, List.flatMap_singleton, triviaRange, endToken, htrivia,
      heof, hadded, List.length_append, Nat.add_sub_cancel_left]
    exact range_append _ _

/-! ### The whole lexer -/

theorem lex_tokens (source : Text) : (lex source).tokens = (lexTokens source source.length {}).tokens ++
      [endToken source (lexTokens source source.length {})] := rfl

/-- The spans of the tokens before `End` are spans that tile a part of the source. -/
theorem lex_tiles (source : Text) : ∃ spans position, Tiles 0 spans position ∧
    ∀ token ∈ (lex source).tokens, token.kind ≠ .end → token.span ∈ spans := by
  obtain ⟨s, hs, htokens⟩ : ∃ s, Attached source s ∧
      (lexTokens source source.length {}).tokens = s.tokens := by
    rcases lexTokens_ends (attached_start source) (Nat.sub_le _ _) with
      ⟨h, -⟩ | ⟨before, added, h, -, hread, -⟩
    · exact ⟨_, h, rfl⟩
    · exact ⟨before, h, hread.tokens⟩
  refine ⟨_, _, hs.tiles, fun token htoken hkind => ?_⟩
  rw [lex_tokens, htokens] at htoken
  rcases List.mem_append.mp htoken with htoken | htoken
  · refine List.mem_flatMap.mpr ⟨token, htoken, List.mem_append_right _ ?_⟩
    rw [if_neg hkind]
    exact List.mem_singleton.mpr rfl
  · obtain rfl := List.mem_singleton.mp htoken
    exact absurd rfl hkind

/-- A source that ends in a token with trivia before it is not written back. -/
theorem reconstruct_ne (hends : EndsInSpacedToken source) : (lex source).reconstruct ≠ some source := by
  rcases lexTokens_ends (attached_start source) (Nat.sub_le _ _) with
    ⟨h, hposition⟩ | ⟨s, added, h, hadded, hread, hposition⟩
  · intro htext
    obtain ⟨before, hpieces, -, hspaced⟩ := h.pieces
    rw [hposition, pieces_end, List.append_nil] at hpieces
    rw [EndsInSpacedToken, hpieces] at hends
    have heof := hspaced.mpr hends
    rw [h.reconstruct hposition rfl rfl (lex_tokens source)] at htext
    have hnil := List.append_right_eq_self.mp (Option.some.inj htext)
    rw [List.flatMap_eq_nil_iff] at hnil
    obtain ⟨t, ht⟩ := List.exists_mem_of_length_pos
      (l := (lexTokens source source.length {}).trivia.drop (lexTokens source source.length {}).eofTriviaStart)
      (by rw [List.length_drop]; omega)
    obtain ⟨hwide, hle⟩ := h.wide t (List.mem_of_mem_drop ht)
    exact spanText_ne_nil hwide hle (hnil t ht)
  · -- the last piece is a trivia
    exfalso
    obtain ⟨front, trivia, token, heq, -, htoken⟩ := hends
    obtain ⟨before, hbefore, -⟩ := h.pieces
    have hpieces := hread.pieces
    dsimp only at hpieces
    rw [hbefore, hpieces, hposition, pieces_end, List.append_nil,
      ← List.dropLast_append_getLast hadded, List.map_append, List.map_singleton, ← List.append_assoc,
      List.append_cons front, List.append_singleton_inj] at heq
    rw [← heq.2] at htoken
    cases htoken

theorem lossless_of (hends : ¬EndsInSpacedToken source) : Lossless (lex source) := by
  rcases lexTokens_ends (attached_start source) (Nat.sub_le _ _) with
    ⟨h, hposition⟩ | ⟨s, added, h, -, hread, hposition⟩
  · obtain ⟨before, hpieces, -, hspaced⟩ := h.pieces
    rw [hposition, pieces_end, List.append_nil] at hpieces
    rw [EndsInSpacedToken, hpieces] at hends
    have heof := Nat.le_of_not_lt fun hlt => hends (hspaced.mp hlt)
    exact h.lossless hposition (h.eof_le.antisymm heof) rfl rfl (lex_tokens source)
  · exact hread.lossless h hposition rfl rfl (lex_tokens source)

/-- `lex` is lossless except on a source that ends in a token with trivia before it. -/
theorem lex_lossless_iff (source : Text) : ((lex source).reconstruct = some source ↔ ¬EndsInSpacedToken source) ∧
      (Lossless (lex source) ↔ ¬EndsInSpacedToken source) := by
  constructor
  · constructor
    · intro htext hends
      exact reconstruct_ne hends htext
    · intro hends
      exact (lossless_of hends).reconstruct
  · constructor
    · intro h hends
      exact reconstruct_ne hends h.reconstruct
    · exact lossless_of

/-- The space before `b` is written again behind it. -/
theorem lex_writes_trivia_twice : (lex (text "a b")).reconstruct = some (text "a b ") ∧
    ¬Lossless (lex (text "a b")) := by
  have htext : (lex (text "a b")).reconstruct = some (text "a b ") := by decide +kernel
  refine ⟨htext, fun h => ?_⟩
  have hsource := h.reconstruct
  rw [htext] at hsource
  exact absurd hsource (by decide +kernel)

end Zith.Frontend
