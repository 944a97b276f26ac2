import Zith.Frontend.Lexer

/-! String literals. One decoder reads the escapes of a literal for all its uses; for a slice and for a length it writes
    a marker in place of the `#` of an escaped hash, by which a format scanner tells it from a placeholder.

        *char      decodeEscapes(body)                       "\#" ──▶ 23
        []char     decodeEscapes(body, keep_marker), size    "\#" ──▶ 1f
        lengthOf   the size of decodeEscapes(body, keep_marker) -/

namespace Zith.Sema
open Zith.Frontend

/-- `kFormatHashSentinel`. -/
def kFormatHashSentinel : UInt8 := 0x1f

/-! ### The decoder -/

def isOctalDigit (c : UInt8) : Bool := 48 ≤ c && c ≤ 55

def octalDigit (c : UInt8) : ℕ := c.toNat - 48

def isHexDigit (c : UInt8) : Bool := (48 ≤ c && c ≤ 57) || (97 ≤ c && c ≤ 102) || (65 ≤ c && c ≤ 70)

def hexDigit (c : UInt8) : ℕ :=
  if 48 ≤ c ∧ c ≤ 57 then c.toNat - 48 else if 97 ≤ c ∧ c ≤ 102 then c.toNat - 97 + 10 else c.toNat - 65 + 10

/-- `\n`, `\r`, `\t`, and the characters that stand for themselves. -/
def simpleEscape (c : UInt8) : Option UInt8 :=
  if c = 110 then some 10 else if c = 114 then some 13 else if c = 116 then some 9
  else if c = 92 ∨ c = 39 ∨ c = 34 then some c else none

def push (b : UInt8) (decoded : Text × Bool) : Text × Bool := (b :: decoded.1, decoded.2)

/-- What is appended to the output, and whether all escapes were well formed. -/
def decodeEscapes (keepMarker : Bool) : Text → Text × Bool
  | [] => ([], true)
  | [c] => if c = 92 then ([], false) else ([c], true)
  | c :: e :: rest =>
    if c ≠ 92 then push c (decodeEscapes keepMarker (e :: rest))
    else if isOctalDigit e then
      match rest with
      | d :: d' :: rest' =>
        if isOctalDigit d then
          if isOctalDigit d' then
            push (UInt8.ofNat ((octalDigit e * 8 + octalDigit d) * 8 + octalDigit d')) (decodeEscapes keepMarker rest')
          else push (UInt8.ofNat (octalDigit e * 8 + octalDigit d)) (decodeEscapes keepMarker (d' :: rest'))
        else push (UInt8.ofNat (octalDigit e)) (decodeEscapes keepMarker (d :: d' :: rest'))
      | [d] =>
        if isOctalDigit d then push (UInt8.ofNat (octalDigit e * 8 + octalDigit d)) (decodeEscapes keepMarker [])
        else push (UInt8.ofNat (octalDigit e)) (decodeEscapes keepMarker [d])
      | [] => push (UInt8.ofNat (octalDigit e)) (decodeEscapes keepMarker [])
    else if e = 35 then push (if keepMarker then kFormatHashSentinel else 35) (decodeEscapes keepMarker rest)
    else if e = 120 then
      match rest with
      | h :: l :: rest' =>
        if isHexDigit h ∧ isHexDigit l then
          push (UInt8.ofNat (hexDigit h * 16 + hexDigit l)) (decodeEscapes keepMarker rest')
        else ([], false)
      | _ => ([], false)
    else
      match simpleEscape e with
      | some b => push b (decodeEscapes keepMarker rest)
      | none => ([], false)

/-! ### A literal and its uses -/

def looksString (literal : Text) : Bool := 2 ≤ literal.length && literal.head? = some 34 && literal.getLast? = some 34

/-- What stands between the quotes. -/
def body (literal : Text) : Text := (literal.drop 1).dropLast

/-- What `inferLiteral` accepts as a string: `checkLiteralEscapes`, where the text is in quotes. -/
def checkLiteralEscapes (literal : Text) : Bool := looksString literal && (decodeEscapes false (body literal)).2

/-- `lowerLiteral` at a pointer type: the bytes that are interned. -/
def lowerPointerLiteral (literal : Text) : Option Text :=
  if looksString literal then
    let (decoded, valid) := decodeEscapes false (body literal)
    if valid then some decoded else none
  else some []

/-- `lowerCoerceToTarget` at a slice of `char`, and `lowerFormatMessage`: the bytes, and the upper bound. -/
def lowerSliceLiteral (literal : Text) : Option (Text × ℕ) :=
  if looksString literal then
    let (decoded, valid) := decodeEscapes true (body literal)
    if valid then some (decoded, decoded.length) else none
  else none

/-- `lengthOf`, lowered to a constant. -/
def lowerLengthOf (literal : Text) : ℕ :=
  if looksString literal then (decodeEscapes true (body literal)).1.length else 0

/-! ### What a literal spells -/

/-- One byte of a literal. -/
inductive Piece
  | byte (b : UInt8)
  | hash
  deriving DecidableEq

def Piece.decoded (keepMarker : Bool) : Piece → UInt8
  | .byte b => b
  | .hash => if keepMarker then kFormatHashSentinel else 35

/-- A body and the bytes it spells. An octal escape takes all digits that stand there, up to three. -/
inductive Spells : Text → List Piece → Prop
  | nil : Spells [] []
  | char {c : UInt8} {rest : Text} {pieces : List Piece} : c ≠ 92 → Spells rest pieces →
      Spells (c :: rest) (.byte c :: pieces)
  | simple {e b : UInt8} {rest : Text} {pieces : List Piece} : simpleEscape e = some b → Spells rest pieces →
      Spells (92 :: e :: rest) (.byte b :: pieces)
  | octal {digits rest : Text} {pieces : List Piece} : digits ≠ [] → digits.length ≤ 3 →
      (∀ d ∈ digits, isOctalDigit d) → (digits.length = 3 ∨ ∀ d ∈ rest.head?, ¬isOctalDigit d) → Spells rest pieces →
      Spells (92 :: digits ++ rest)
        (.byte (UInt8.ofNat (digits.foldl (fun value d => value * 8 + octalDigit d) 0)) :: pieces)
  | hash {rest : Text} {pieces : List Piece} : Spells rest pieces → Spells (92 :: 35 :: rest) (.hash :: pieces)
  | hex {h l : UInt8} {rest : Text} {pieces : List Piece} : isHexDigit h → isHexDigit l → Spells rest pieces →
      Spells (92 :: 120 :: h :: l :: rest) (.byte (UInt8.ofNat (hexDigit h * 16 + hexDigit l)) :: pieces)

/-! ### Decoding what is spelled -/

theorem decode_char {c : UInt8} (hc : c ≠ 92) (keepMarker : Bool) (rest : Text) :
    decodeEscapes keepMarker (c :: rest) = push c (decodeEscapes keepMarker rest) := by
  cases rest with
  | nil => simp [decodeEscapes, hc, push]
  | cons e rest =>
    rw [decodeEscapes.eq_def]
    simp [hc]

theorem simpleEscape_other {e b : UInt8} (h : simpleEscape e = some b) : isOctalDigit e = false ∧ e ≠ 35 ∧ e ≠ 120 := by
  simp only [simpleEscape] at h
  split_ifs at h with hn hr ht hself
  · subst hn
    decide
  · subst hr
    decide
  · subst ht
    decide
  · rcases hself with rfl | rfl | rfl <;> decide

theorem decode_octal {digits rest : Text} (hne : digits ≠ []) (hlen : digits.length ≤ 3)
    (hdigits : ∀ d ∈ digits, isOctalDigit d) (hrest : digits.length = 3 ∨ ∀ d ∈ rest.head?, ¬isOctalDigit d)
    (keepMarker : Bool) : decodeEscapes keepMarker (92 :: digits ++ rest) =
      push (UInt8.ofNat (digits.foldl (fun value d => value * 8 + octalDigit d) 0)) (decodeEscapes keepMarker rest) := by
  rcases digits with _ | ⟨a, _ | ⟨b, _ | ⟨c, _ | ⟨d, digits⟩⟩⟩⟩
  · exact absurd rfl hne
  · have ha : isOctalDigit a := hdigits a (by simp)
    have hstop := hrest.resolve_left (by simp)
    rcases rest with _ | ⟨x, _ | ⟨y, rest⟩⟩ <;> simp_all [decodeEscapes]
  · have ha : isOctalDigit a := hdigits a (by simp)
    have hb : isOctalDigit b := hdigits b (by simp)
    have hstop := hrest.resolve_left (by simp)
    rcases rest with _ | ⟨x, rest⟩ <;> simp_all [decodeEscapes]
  · have ha : isOctalDigit a := hdigits a (by simp)
    have hb : isOctalDigit b := hdigits b (by simp)
    have hc : isOctalDigit c := hdigits c (by simp)
    simp [decodeEscapes, ha, hb, hc]
  · simp only [List.length_cons] at hlen
    omega

/-- The decoder reads the body the same way for both uses, or rejects it for both. -/
def Decodes (body : Text) : Prop :=
  (∃ pieces, Spells body pieces ∧ ∀ keepMarker, decodeEscapes keepMarker body = (pieces.map (Piece.decoded keepMarker), true)) ∨
  ∀ keepMarker, (decodeEscapes keepMarker body).2 = false

theorem Decodes.push (piece : Piece) {body rest : Text} (h : Decodes rest)
    (heq : ∀ keepMarker, decodeEscapes keepMarker body = push (piece.decoded keepMarker) (decodeEscapes keepMarker rest))
    (hspells : ∀ {pieces}, Spells rest pieces → Spells body (piece :: pieces)) : Decodes body := by
  rcases h with ⟨pieces, hpieces, hdecode⟩ | hinvalid
  · exact .inl ⟨piece :: pieces, hspells hpieces, fun keepMarker => by rw [heq, hdecode]; rfl⟩
  · exact .inr fun keepMarker => by rw [heq]; exact hinvalid keepMarker

theorem Decodes.octal (digits : Text) {rest : Text} (h : Decodes rest) (hne : digits ≠ []) (hlen : digits.length ≤ 3)
    (hdigits : ∀ d ∈ digits, isOctalDigit d) (hrest : digits.length = 3 ∨ ∀ d ∈ rest.head?, ¬isOctalDigit d) :
    Decodes (92 :: digits ++ rest) :=
  h.push (.byte _) (decode_octal hne hlen hdigits hrest) (.octal hne hlen hdigits hrest)

theorem decodes (body : Text) : Decodes body := by
  fun_induction decodeEscapes false body with
  | case1 => exact .inl ⟨[], .nil, fun _ => rfl⟩
  | case2 => exact .inr fun _ => rfl
  | case3 c hc => exact .inl ⟨[.byte c], .char hc .nil, fun _ => by simp [decodeEscapes, hc, Piece.decoded]⟩
  | case4 c e rest hc ih => exact ih.push (.byte c) (fun keepMarker => decode_char hc keepMarker _) (.char hc)
  | case5 c e hc he d d' rest hd hd' ih =>
    obtain rfl := not_not.mp hc
    exact ih.octal [e, d, d'] (by simp) (by simp) (by simp [he, hd, hd']) (.inl rfl)
  | case6 c e hc he d d' rest hd hd' ih =>
    obtain rfl := not_not.mp hc
    exact ih.octal [e, d] (by simp) (by simp) (by simp [he, hd]) (.inr (by simpa using hd'))
  | case7 c e hc he d d' rest hd ih =>
    obtain rfl := not_not.mp hc
    exact ih.octal [e] (by simp) (by simp) (by simp [he]) (.inr (by simpa using hd))
  | case8 c e hc he d hd ih =>
    obtain rfl := not_not.mp hc
    exact ih.octal [e, d] (by simp) (by simp) (by simp [he, hd]) (.inr (by simp))
  | case9 c e hc he d hd ih =>
    obtain rfl := not_not.mp hc
    exact ih.octal [e] (by simp) (by simp) (by simp [he]) (.inr (by simpa using hd))
  | case10 c e hc he ih =>
    obtain rfl := not_not.mp hc
    exact ih.octal [e] (by simp) (by simp) (by simp [he]) (.inr (by simp))
  | case11 c rest hc hoctal ih =>
    obtain rfl := not_not.mp hc
    exact ih.push .hash (fun _ => by rw [decodeEscapes.eq_def]; simp [hoctal, Piece.decoded]) .hash
  | case12 c hc h l rest hhex hoctal hhash ih =>
    obtain rfl := not_not.mp hc
    exact ih.push (.byte _) (fun _ => by rw [decodeEscapes.eq_def]; simp [hoctal, hhash, hhex, Piece.decoded]) (.hex hhex.1 hhex.2)
  | case13 c hc h l rest hhex hoctal hhash =>
    exact .inr fun _ => by simp [decodeEscapes, not_not.mp hc, hoctal, hhash, hhex]
  | case14 c rest hc hshort hoctal hhash =>
    refine .inr fun _ => ?_
    rcases rest with _ | ⟨h, _ | ⟨l, rest⟩⟩
    · simp [decodeEscapes, not_not.mp hc, hoctal, hhash]
    · simp [decodeEscapes, not_not.mp hc, hoctal, hhash]
    · exact (hshort h l rest rfl).elim
  | case15 c e rest hc hoctal hhash hhex b hb ih =>
    obtain rfl := not_not.mp hc
    exact ih.push (.byte b) (fun _ => by rw [decodeEscapes.eq_def]; simp [hoctal, hhash, hhex, hb, Piece.decoded]) (.simple hb)
  | case16 c e rest hc hoctal hhash hhex hnone =>
    exact .inr fun _ => by rw [decodeEscapes.eq_def]; simp [not_not.mp hc, hoctal, hhash, hhex, hnone]

/-! ### The uses agree -/

/-- The uses of a literal show the same bytes, as many as its length, and those are the bytes the literal spells: no
    marker stands for one of them. -/
def SameBytes (literal : Text) : Prop :=
  ∃ bytes pieces, Spells (body literal) pieces ∧ bytes = pieces.map (Piece.decoded false) ∧
    lowerPointerLiteral literal = some bytes ∧ lowerSliceLiteral literal = some (bytes, bytes.length) ∧
    lowerLengthOf literal = bytes.length

/-- The literal has an escaped hash. -/
def EscapesHash (literal : Text) : Prop := ∃ pieces, Spells (body literal) pieces ∧ .hash ∈ pieces

theorem decoded_eq_iff {pieces : List Piece} :
    pieces.map (Piece.decoded true) = pieces.map (Piece.decoded false) ↔ .hash ∉ pieces := by
  induction pieces with
  | nil => simp
  | cons piece pieces ih =>
    cases piece with
    | byte b => simp [Piece.decoded, ih]
    | hash => simp [Piece.decoded, kFormatHashSentinel]

/-- What a literal spells is determined. -/
theorem Spells.decodes {body : Text} {pieces : List Piece} (h : Spells body pieces) (keepMarker : Bool) :
    decodeEscapes keepMarker body = (pieces.map (Piece.decoded keepMarker), true) := by
  induction h with
  | nil => rfl
  | char hc _ ih =>
    rw [decode_char hc, ih]
    rfl
  | simple hb _ ih =>
    obtain ⟨hoctal, hhash, hhex⟩ := simpleEscape_other hb
    rw [decodeEscapes.eq_def]
    simp [hoctal, hhash, hhex, hb, ih, push, Piece.decoded]
  | octal hne hlen hdigits hrest _ ih =>
    rw [decode_octal hne hlen hdigits hrest, ih]
    rfl
  | hash _ ih =>
    have hoctal : isOctalDigit 35 = false := by decide
    rw [decodeEscapes.eq_def]
    simp [hoctal, ih, push, Piece.decoded]
  | hex hh hl _ ih =>
    have hoctal : isOctalDigit 120 = false := by decide
    rw [decodeEscapes.eq_def]
    simp [hoctal, hh, hl, ih, push, Piece.decoded]

/-- A literal that sema accepts shows the same bytes everywhere, unless it escapes a hash. -/
theorem sameBytes_iff (literal : Text) (haccepted : checkLiteralEscapes literal) :
    SameBytes literal ↔ ¬EscapesHash literal := by
  obtain ⟨hliteral, haccepted⟩ := Bool.and_eq_true_iff.mp haccepted
  rcases decodes (body literal) with ⟨pieces, hpieces, hdecode⟩ | hinvalid
  · have hpointer : lowerPointerLiteral literal = some (pieces.map (Piece.decoded false)) := by
      simp [lowerPointerLiteral, hliteral, hdecode]
    have hslice : lowerSliceLiteral literal = some (pieces.map (Piece.decoded true), pieces.length) := by
      simp [lowerSliceLiteral, hliteral, hdecode]
    have hlength : lowerLengthOf literal = pieces.length := by simp [lowerLengthOf, hliteral, hdecode]
    constructor
    · rintro ⟨bytes, -, -, -, hbytes, hbytes', -⟩ ⟨pieces', hpieces', hhash⟩
      have hplain : pieces'.map (Piece.decoded false) = pieces.map (Piece.decoded false) := by
        rw [← (Prod.mk.inj ((hpieces'.decodes false).symm.trans (hdecode false))).1]
      have hmarked : pieces'.map (Piece.decoded true) = pieces.map (Piece.decoded true) := by
        rw [← (Prod.mk.inj ((hpieces'.decodes true).symm.trans (hdecode true))).1]
      refine decoded_eq_iff.mp ?_ hhash
      rw [hplain, hmarked, Option.some.inj (hpointer.symm.trans hbytes)]
      exact (Prod.mk.inj (Option.some.inj (hslice.symm.trans hbytes'))).1
    · intro hhash
      have hsame : pieces.map (Piece.decoded true) = pieces.map (Piece.decoded false) :=
        decoded_eq_iff.mpr fun hmem => hhash ⟨pieces, hpieces, hmem⟩
      exact ⟨_, pieces, hpieces, rfl, hpointer, by rw [hslice, hsame, List.length_map], by rw [hlength, List.length_map]⟩
  · rw [hinvalid] at haccepted
    cases haccepted

/-- `"\\x1f"`: the byte of the marker is a byte as any other. -/
theorem sameBytes_marker : SameBytes [34, 92, 120, 49, 102, 34] := by
  refine (sameBytes_iff _ (by decide)).mpr ?_
  rintro ⟨pieces, hpieces, hhash⟩
  have hdecode : [0x1f] = pieces.map (Piece.decoded false) := (Prod.mk.inj (hpieces.decodes false)).1
  have hmem : Piece.hash.decoded false ∈ pieces.map (Piece.decoded false) := List.mem_map_of_mem hhash
  rw [← hdecode] at hmem
  exact absurd hmem (by decide)

/-- `"\\#"`: the pointer shows a hash, the slice the marker. -/
theorem sameBytes_hash : checkLiteralEscapes [34, 92, 35, 34] ∧ lowerPointerLiteral [34, 92, 35, 34] = some [35] ∧
    lowerSliceLiteral [34, 92, 35, 34] = some ([kFormatHashSentinel], 1) ∧ ¬SameBytes [34, 92, 35, 34] := by
  refine ⟨by decide, by decide, by decide, ?_⟩
  rintro ⟨bytes, -, -, -, hpointer, hslice, -⟩
  have hbytes : bytes = [35] := Option.some.inj (hpointer.symm.trans (by decide))
  subst hbytes
  exact absurd hslice (by decide)

end Zith.Sema
