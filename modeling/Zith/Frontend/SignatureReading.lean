import Mathlib.Order.Filter.AtTopBot.Basic
import Mathlib.Order.Filter.Finite
import Zith.Frontend.Signatures

/-! A type can be read back from what it looks like in a signature (`readType_spelled`), with its parentheses. Two
    types that look the same are the same (`spelled_injective`).

    What has no type has a `?` in its place. In front of the `|` that closes a pack it would look like the `?` of
    an optional pack; a member of a pack has a type, therefore (`WellFormed`). -/

namespace Zith.Frontend
open Zith.Lib Filter

/-- ` *(),:<>?[]|`. -/
def isDelimiter (c : UInt8) : Bool :=
  [0x20, 0x28, 0x29, 0x2A, 0x2C, 0x3A, 0x3C, 0x3E, 0x3F, 0x5B, 0x5D, 0x7C].contains c

/-- An identifier, or several with dots between them. -/
structure IsWord (word : Text) : Prop where
  ne_nil : word ≠ []
  bytes : ∀ c ∈ word, isDelimiter c = false
  start : word.head? ≠ some dot

/-- The types that the parser makes, as far as their texts go. In front of a bar, there must be a type. -/
inductive WellFormed : Bool → TypeShape → Prop
  | unknown : WellFormed false .unknown
  | name {bar : Bool} {spelling : Text} {arguments : List TypeShape} (hword : IsWord spelling)
      (hne : spelling ≠ text "opaque") (h : ∀ a ∈ arguments, WellFormed false a) :
      WellFormed bar (.node (.name spelling) arguments)
  | pointer {bar : Bool} {inner : TypeShape} (h : WellFormed bar inner) : WellFormed bar (.node .pointer [inner])
  | optional {bar : Bool} {inner : TypeShape} (h : WellFormed bar inner) : WellFormed bar (.node .optional [inner])
  | parenthesized {bar : Bool} {inner : TypeShape} (h : WellFormed false inner) :
      WellFormed bar (.node .parenthesized [inner])
  | slice {bar isVariadic : Bool} {inner : TypeShape} (h : WellFormed bar inner) :
      WellFormed bar (.node (.slice isVariadic) [inner])
  | opaqueRaw {bar : Bool} : WellFormed bar (.node .opaqueRaw [])
  | opaqueTagged {bar : Bool} : WellFormed bar (.node .opaqueTagged [])
  | pack {bar : Bool} {names : List Text} {members : List TypeShape} (hlength : names.length = members.length)
      (hnames : ∀ name ∈ names, IsWord name) (h : ∀ a ∈ members, WellFormed true a) :
      WellFormed bar (.node (.pack names) members)
  | dyn {bar : Bool} {inner : TypeShape} (h : WellFormed bar inner) : WellFormed bar (.node .dyn [inner])
  | array {bar : Bool} {length : ℕ} {inner : TypeShape} (h : WellFormed bar inner) :
      WellFormed bar (.node (.array length) [inner])
  | function {bar isState : Bool} {parameters : List TypeShape} {result : TypeShape}
      (hparameters : ∀ a ∈ parameters, WellFormed false a) (hresult : WellFormed bar result) :
      WellFormed bar (.node (.function isState) (parameters ++ [result]))
  | noResult {bar isState : Bool} : WellFormed bar (.node (.function isState) [])

/-- What may come behind a type. -/
def EndsType (bar : Bool) (rest : Text) : Prop := ∀ c ∈ rest.head?, c ∈ [0x2C, 0x29, 0x3E] ∨ bar ∧ c = 0x7C

/-! ### The reader -/

def readWord (s : Text) : Text × Text := readWhile (fun c => !isDelimiter c) s

/-- `name:type`, of a pack. -/
def readMember (read : Text → Option (TypeShape × Text)) (s : Text) : Option ((Text × TypeShape) × Text) :=
  match readWord s with
  | (name, 0x3A :: rest) => (read rest).map fun r => ((name, r.1), r.2)
  | _ => none

def readType : ℕ → Text → Option (TypeShape × Text)
  | 0, _ => none
  | fuel + 1, s =>
    let inner (form : TypeForm) (rest : Text) : Option (TypeShape × Text) :=
      (readType fuel rest).map fun r => (.node form [r.1], r.2)
    match readWord s with
    | ([], []) => none
    | ([], c :: rest) =>
      if c = 0x3F then
        if rest.head?.all ([0x2C, 0x29, 0x3E].contains ·) then some (.unknown, rest) else inner .optional rest
      else if c = 0x2A then inner .pointer rest
      else if c = 0x28 then (inner .parenthesized rest).map fun r => (r.1, r.2.tail)
      else if c = 0x5B then
        match readWord rest with
        | (word, rest) =>
          if word = [] then inner (.slice false) rest.tail
          else if word = text "..." then inner (.slice true) rest.tail
          else (number 10 0 word).bind fun length => inner (.array length) rest.tail
      else
        (readSeparated (readMember fun s => readType fuel s) 0x2C 0x7C fuel rest).map fun r =>
          (.node (.pack (r.1.map Prod.fst)) (r.1.map Prod.snd), r.2)
    | (word, 0x28 :: rest) =>
      (readSeparated (fun s => readType fuel s) 0x2C 0x29 fuel rest).bind fun parameters =>
        match parameters.2 with
        | 0x3A :: rest =>
          (readType fuel rest).map fun r =>
            (.node (.function (word = text "state")) (parameters.1 ++ [r.1]), r.2)
        | rest => some (.node (.function (word = text "state")) [], rest)
    | (word, 0x20 :: rest) =>
      if word = text "dyn" then inner .dyn rest else some (.node .opaqueRaw [], rest.drop 6)
    | (word, 0x3C :: rest) =>
      (readSeparated (fun s => readType fuel s) 0x2C 0x3E fuel rest).map fun r =>
        (.node (.name word) r.1, r.2)
    | (word, rest) =>
      if word = text "opaque" then some (.node .opaqueTagged [], rest) else some (.node (.name word) [], rest)

/-- No text, no type. -/
example (fuel : ℕ) : readType (fuel + 1) [] = none := by rw [readType]; rfl

/-! ### Words and ends -/

section
variable {bar : Bool} {word rest : Text} {c : UInt8} {t : TypeShape} {fuel : ℕ}

theorem readWord_delimiter (hc : isDelimiter c) : readWord (c :: rest) = ([], c :: rest) := by
  simp [readWord, readWhile, hc]

theorem readWord_word (hword : ∀ c ∈ word, isDelimiter c = false) (hrest : ∀ c ∈ rest.head?, isDelimiter c) :
    readWord (word ++ rest) = (word, rest) :=
  readWhile_append (fun c hc => by simp [hword c hc]) (fun c hc => by simp [hrest c hc])

theorem readWord_append (hword : ∀ c ∈ word, isDelimiter c = false) (hc : isDelimiter c) :
    readWord (word ++ c :: rest) = (word, c :: rest) :=
  readWord_word hword fun d hd => by
    obtain rfl := Option.some.inj hd
    exact hc

theorem EndsType.delimiter (h : EndsType bar rest) : ∀ c ∈ rest.head?, isDelimiter c := by
  intro c hc
  rcases h c hc with hmem | ⟨-, rfl⟩
  · simp only [List.mem_cons, List.not_mem_nil, or_false] at hmem
    rcases hmem with rfl | rfl | rfl <;> decide
  · decide

/-- What ends a type is neither `(`, `:`, `<` nor a space. -/
theorem EndsType.ne (h : EndsType bar (c :: rest)) : c ≠ 0x28 ∧ c ≠ 0x3A ∧ c ≠ 0x3C ∧ c ≠ 0x20 := by
  have hends : ∀ c ∈ [0x2C, 0x29, 0x3E, (0x7C : UInt8)], c ≠ 0x28 ∧ c ≠ 0x3A ∧ c ≠ 0x3C ∧ c ≠ 0x20 := by
    simp
  refine hends c ?_
  rcases h c rfl with hmem | ⟨-, rfl⟩
  · exact List.mem_append_left [0x7C] hmem
  · decide

theorem endsType_cons (hc : c ∈ [0x2C, 0x29, 0x3E] ∨ bar ∧ c = 0x7C) : EndsType bar (c :: rest) := by
  intro d hd
  obtain rfl := Option.some.inj hd
  exact hc

theorem IsWord.first (h : IsWord word) : ∃ c tail, word = c :: tail ∧ isDelimiter c = false ∧ c ≠ dot := by
  cases word with
  | nil => exact absurd rfl h.ne_nil
  | cons c tail => exact ⟨c, tail, rfl, h.bytes c List.mem_cons_self, fun hdot => h.start (by rw [hdot]; rfl)⟩

/-! ### The reader on what has been written -/

theorem readType_unknown (h : EndsType false rest) :
    readType (fuel + 1) (text "?" ++ rest) = some (.unknown, rest) := by
  have hall : rest.head?.all ([0x2C, 0x29, 0x3E].contains ·) := by
    cases rest with
    | nil => rfl
    | cons c rest =>
      rcases h c rfl with hmem | ⟨hfalse, -⟩
      · simpa using hmem
      · cases hfalse
  rw [formTexts.question, List.singleton_append, readType, readWord_delimiter (by decide)]
  simp only [hall, if_true]

/-- What the reader goes on to behind a type that is not closed. -/
theorem readType_nested {form : TypeForm} {opening : Text} (hread : ∀ rest, readType (fuel + 1) (opening ++ rest) =
      (readType fuel rest).map fun r => (.node form [r.1], r.2))
    (ht : readType fuel (t.spelled ++ rest) = some (t, rest)) :
    readType (fuel + 1) (opening ++ t.spelled ++ rest) = some (.node form [t], rest) := by
  rw [List.append_assoc, hread, ht]
  rfl

theorem readType_pointer : readType (fuel + 1) (text "*" ++ rest) =
    (readType fuel rest).map fun r => (.node .pointer [r.1], r.2) := by
  rw [formTexts.star, List.singleton_append, readType, readWord_delimiter (by decide)]
  rfl

theorem readType_dyn : readType (fuel + 1) (text "dyn " ++ rest) =
    (readType fuel rest).map fun r => (.node .dyn [r.1], r.2) := by
  have htext : text "dyn " ++ rest = text "dyn" ++ 0x20 :: rest := by
    rw [formTexts.dynSpace, formTexts.dyn]
    rfl
  rw [htext, readType, readWord_append (by simp [formTexts.dyn, isDelimiter]) (by decide)]
  simp [formTexts.dyn]

theorem readType_slice {isVariadic : Bool} :
    readType (fuel + 1) ((if isVariadic then text "[...]" else text "[]") ++ rest) =
      (readType fuel rest).map fun r => (.node (.slice isVariadic) [r.1], r.2) := by
  cases isVariadic with
  | false =>
    rw [if_neg Bool.false_ne_true, formTexts.slice, List.cons_append, readType, readWord_delimiter (by decide)]
    simp [readWord_delimiter (show isDelimiter 0x5D by decide)]
  | true =>
    have hword : readWord ([0x2E, 0x2E, 0x2E] ++ 0x5D :: rest) = ([0x2E, 0x2E, 0x2E], 0x5D :: rest) :=
      readWord_append (by simp [isDelimiter]) (by decide)
    rw [if_pos rfl, formTexts.variadicSlice, List.cons_append, readType, readWord_delimiter (by decide)]
    simp only [List.cons_append, List.nil_append] at hword ⊢
    simp [hword, formTexts.dots]

theorem readType_array {length : ℕ} : readType (fuel + 1) (text "[" ++ numeral 10 length ++ text "]" ++ rest) =
      (readType fuel rest).map fun r => (.node (.array length) [r.1], r.2) := by
  have hdigits : ∀ c ∈ numeral 10 length, isDelimiter c = false := by
    intro c hc
    by_contra hdelimiter
    have hdigit : ∀ c : UInt8, isDelimiter c → digitValue 16 c = none := by
      intro c hc
      simp only [isDelimiter, List.contains_iff_mem, List.mem_cons, List.not_mem_nil, or_false] at hc
      rcases hc with rfl | rfl | rfl | rfl | rfl | rfl | rfl | rfl | rfl | rfl | rfl | rfl <;> decide
    exact not_mem_numeral (by decide) (by decide) (hdigit c (by simpa using hdelimiter)) length hc
  have hdots : numeral 10 length ≠ text "..." := by
    intro heq
    have := @not_mem_numeral 10 (by decide) (by decide) dot (by decide) length
    rw [heq, formTexts.dots] at this
    exact this (by decide)
  rw [formTexts.openBracket, formTexts.closeBracket, List.append_assoc, List.append_assoc, List.singleton_append,
    List.singleton_append, readType, readWord_delimiter (by decide)]
  have hword : readWord (numeral 10 length ++ 0x5D :: rest) = (numeral 10 length, 0x5D :: rest) :=
    readWord_append hdigits (by decide)
  simp [hword, numeral_ne_nil, hdots, number_numeral]

/-- What a type starts with neither separates nor closes anything. -/
theorem WellFormed.first (h : WellFormed bar t) :
    ∃ c tail, t.spelled = c :: tail ∧ c ∉ [0x2C, 0x29, 0x3E, dot, 0x3C] := by
  have hliteral : ∀ {literal more : Text} {c : UInt8} {tail : Text}, literal = c :: tail →
      c ∉ [0x2C, 0x29, 0x3E, dot, 0x3C] →
      ∃ c tail, literal ++ more = c :: tail ∧ c ∉ [0x2C, 0x29, 0x3E, dot, 0x3C] := by
    rintro _ more c tail rfl hc
    exact ⟨c, tail ++ more, rfl, hc⟩
  cases h with
  | unknown => exact ⟨0x3F, [], by rw [spelled_unknown, formTexts.question], by decide⟩
  | @name _ spelling arguments hword =>
    obtain ⟨c, tail, rfl, hc, hdot⟩ := hword.first
    have hne : c ∉ [0x2C, 0x29, 0x3E, dot, 0x3C] := by
      intro hmem
      simp only [List.mem_cons, List.not_mem_nil, or_false] at hmem
      rcases hmem with rfl | rfl | rfl | rfl | rfl <;> first | exact hdot rfl | exact absurd hc (by decide)
    rw [TypeShape.spelled, TypeForm.spelled]
    split
    · exact ⟨c, tail, rfl, hne⟩
    · exact ⟨c, _, rfl, hne⟩
  | pointer =>
    rw [TypeShape.spelled, TypeForm.spelled]
    exact hliteral formTexts.star (by decide)
  | optional =>
    rw [TypeShape.spelled, TypeForm.spelled]
    exact hliteral formTexts.question (by decide)
  | parenthesized =>
    rw [TypeShape.spelled, TypeForm.spelled, List.append_assoc]
    exact hliteral formTexts.openParen (by decide)
  | slice =>
    rw [TypeShape.spelled, TypeForm.spelled]
    split
    · exact hliteral formTexts.variadicSlice (by decide)
    · exact hliteral formTexts.slice (by decide)
  | opaqueRaw => exact ⟨0x72, _, by rw [TypeShape.spelled, TypeForm.spelled, formTexts.rawOpaque], by decide⟩
  | opaqueTagged => exact ⟨0x6F, _, by rw [TypeShape.spelled, TypeForm.spelled, formTexts.taggedOpaque], by decide⟩
  | pack =>
    rw [TypeShape.spelled, TypeForm.spelled, List.append_assoc]
    exact hliteral formTexts.bar (by decide)
  | dyn =>
    rw [TypeShape.spelled, TypeForm.spelled]
    exact hliteral formTexts.dynSpace (by decide)
  | array =>
    rw [TypeShape.spelled, TypeForm.spelled, List.append_assoc, List.append_assoc]
    exact hliteral formTexts.openBracket (by decide)
  | function =>
    rw [TypeShape.spelled, TypeForm.spelled, functionTypeText, List.append_assoc, List.append_assoc]
    split
    · exact hliteral formTexts.stateOpen (by decide)
    · exact hliteral formTexts.fnOpen (by decide)
  | noResult =>
    rw [TypeShape.spelled, TypeForm.spelled, functionTypeText, List.append_assoc, List.append_assoc]
    split
    · exact hliteral formTexts.stateOpen (by decide)
    · exact hliteral formTexts.fnOpen (by decide)

theorem readType_optional (h : WellFormed bar t) (ht : readType fuel (t.spelled ++ rest) = some (t, rest)) :
    readType (fuel + 1) (text "?" ++ t.spelled ++ rest) = some (.node .optional [t], rest) := by
  obtain ⟨c, tail, hfirst, hc⟩ := h.first
  have hnot : ((t.spelled ++ rest).head?.all ([0x2C, 0x29, 0x3E].contains ·)) = false := by
    rw [hfirst, List.cons_append, List.head?_cons, Option.all_some]
    simp only [List.contains_eq_mem, decide_eq_false_iff_not]
    exact fun hmem => hc (List.mem_append_left [dot, 0x3C] hmem)
  rw [formTexts.question, List.append_assoc, List.singleton_append, readType, readWord_delimiter (by decide)]
  simp only [hnot, ht, if_true, Bool.false_eq_true, if_false]
  rfl

theorem readType_parenthesized (ht : readType fuel (t.spelled ++ 0x29 :: rest) = some (t, 0x29 :: rest)) :
    readType (fuel + 1) (text "(" ++ t.spelled ++ text ")" ++ rest) = some (.node .parenthesized [t], rest) := by
  rw [formTexts.openParen, formTexts.closeParen, List.append_assoc, List.append_assoc, List.singleton_append,
    List.singleton_append, readType, readWord_delimiter (by decide)]
  simp [ht]

theorem readType_opaqueRaw : readType (fuel + 1) (text "raw opaque" ++ rest) = some (.node .opaqueRaw [], rest) := by
  have hword : readWord ([0x72, 0x61, 0x77] ++ 0x20 :: ([0x6F, 0x70, 0x61, 0x71, 0x75, 0x65] ++ rest)) =
      ([0x72, 0x61, 0x77], 0x20 :: ([0x6F, 0x70, 0x61, 0x71, 0x75, 0x65] ++ rest)) :=
    readWord_append (by simp [isDelimiter]) (by decide)
  rw [formTexts.rawOpaque, readType]
  simp only [List.cons_append, List.nil_append] at hword ⊢
  simp [hword, formTexts.dyn]

theorem readType_opaqueTagged (h : EndsType bar rest) :
    readType (fuel + 1) (text "opaque" ++ rest) = some (.node .opaqueTagged [], rest) := by
  rw [readType, readWord_word (by simp [formTexts.taggedOpaque, isDelimiter]) h.delimiter, formTexts.taggedOpaque]
  cases rest with
  | nil => rfl
  | cons c rest =>
    obtain ⟨hopen, -, hless, hspace⟩ := h.ne
    split <;> simp_all

/-- A name without arguments. -/
theorem readType_name {spelling : Text} (hword : IsWord spelling) (hne : spelling ≠ text "opaque")
    (h : EndsType bar rest) : readType (fuel + 1) (spelling ++ rest) = some (.node (.name spelling) [], rest) := by
  rw [readType, readWord_word hword.bytes h.delimiter]
  cases rest with
  | nil =>
    split <;> simp_all [hword.ne_nil]
  | cons c rest =>
    obtain ⟨hopen, -, hless, hspace⟩ := h.ne
    split <;> simp_all [hword.ne_nil]

/-- A name with arguments. -/
theorem readType_application {spelling : Text} {arguments : List TypeShape} (hword : IsWord spelling)
    (h : readSeparated (fun s => readType fuel s) 0x2C 0x3E fuel
      (commas (arguments.map TypeShape.spelled) ++ 0x3E :: rest) = some (arguments, rest)) :
    readType (fuel + 1) (spelling ++ text "<" ++ commas (arguments.map TypeShape.spelled) ++ text ">" ++ rest) =
      some (.node (.name spelling) arguments, rest) := by
  have htext : spelling ++ text "<" ++ commas (arguments.map TypeShape.spelled) ++ text ">" ++ rest =
      spelling ++ 0x3C :: (commas (arguments.map TypeShape.spelled) ++ 0x3E :: rest) := by
    simp [formTexts.less, formTexts.greater]
  obtain ⟨c, tail, rfl, -⟩ := hword.first
  rw [htext, readType, readWord_append hword.bytes (by decide)]
  simp [h]

theorem readMember_spelled {name : Text} (hword : IsWord name)
    (ht : readType fuel (t.spelled ++ rest) = some (t, rest)) :
    readMember (fun s => readType fuel s) (name ++ text ":" ++ t.spelled ++ rest) = some ((name, t), rest) := by
  have htext : name ++ text ":" ++ t.spelled ++ rest = name ++ 0x3A :: (t.spelled ++ rest) := by
    simp [formTexts.colon]
  rw [htext, readMember, readWord_append hword.bytes (by decide)]
  simp [ht]

theorem memberTexts_eq_map {names : List Text} {members : List TypeShape} (h : names.length = members.length) :
    memberTexts names (members.map TypeShape.spelled) =
      (names.zip members).map fun m => m.1 ++ text ":" ++ m.2.spelled := by
  induction names generalizing members with
  | nil =>
    cases members with
    | nil => rfl
    | cons member members => cases h
  | cons name names ih =>
    cases members with
    | nil => cases h
    | cons member members => simp [memberTexts, ih (Nat.succ.inj h)]

theorem readType_pack {names : List Text} {members : List TypeShape} (hlength : names.length = members.length)
    (h : readSeparated (readMember fun s => readType fuel s) 0x2C 0x7C fuel
      (commas ((names.zip members).map fun m => m.1 ++ text ":" ++ m.2.spelled) ++ 0x7C :: rest) =
        some (names.zip members, rest)) :
    readType (fuel + 1) (text "|" ++ commas (memberTexts names (members.map TypeShape.spelled)) ++ text "|" ++ rest) =
      some (.node (.pack names) members, rest) := by
  rw [memberTexts_eq_map hlength, formTexts.bar, List.append_assoc, List.append_assoc, List.singleton_append,
    List.singleton_append, readType, readWord_delimiter (by decide)]
  simp only [List.append_assoc] at h ⊢
  simp [h, List.map_fst_zip hlength.le, List.map_snd_zip hlength.ge]

/-- The opening of a function type is a word in front of a parenthesis. -/
theorem readType_function_open {isState : Bool} {more : Text} :
    readType (fuel + 1) ((if isState then text "state(" else text "fn(") ++ more) =
      (readSeparated (fun s => readType fuel s) 0x2C 0x29 fuel more).bind fun parameters =>
        match parameters.2 with
        | 0x3A :: rest =>
          (readType fuel rest).map fun r => (.node (.function isState) (parameters.1 ++ [r.1]), r.2)
        | rest => some (.node (.function isState) [], rest) := by
  cases isState with
  | false =>
    have hword : readWord (text "fn" ++ 0x28 :: more) = (text "fn", 0x28 :: more) :=
      readWord_append (by simp [formTexts.fn, isDelimiter]) (by decide)
    have htext : text "fn(" ++ more = text "fn" ++ 0x28 :: more := by simp [formTexts.fn, formTexts.fnOpen]
    rw [if_neg Bool.false_ne_true, htext, readType, hword]
    simp [formTexts.fn, formTexts.state]
  | true =>
    have hword : readWord (text "state" ++ 0x28 :: more) = (text "state", 0x28 :: more) :=
      readWord_append (by simp [formTexts.state, isDelimiter]) (by decide)
    have htext : text "state(" ++ more = text "state" ++ 0x28 :: more := by simp [formTexts.state, formTexts.stateOpen]
    rw [if_pos rfl, htext, readType, hword]
    simp [formTexts.state]

theorem readType_function {isState : Bool} {parameters : List TypeShape} {result : TypeShape}
    (h : readSeparated (fun s => readType fuel s) 0x2C 0x29 fuel
      (commas (parameters.map TypeShape.spelled) ++ 0x29 :: (0x3A :: (result.spelled ++ rest))) =
        some (parameters, 0x3A :: (result.spelled ++ rest)))
    (hresult : readType fuel (result.spelled ++ rest) = some (result, rest)) :
    readType (fuel + 1) (functionTypeText isState ((parameters ++ [result]).map TypeShape.spelled) ++ rest) =
      some (.node (.function isState) (parameters ++ [result]), rest) := by
  have htext : functionTypeText isState ((parameters ++ [result]).map TypeShape.spelled) ++ rest =
      (if isState then text "state(" else text "fn(") ++
        (commas (parameters.map TypeShape.spelled) ++ 0x29 :: (0x3A :: (result.spelled ++ rest))) := by
    simp [functionTypeText, formTexts.closeParen, formTexts.colon]
  rw [htext, readType_function_open, h]
  simp [hresult]

theorem readType_noResult {isState : Bool} (h : EndsType bar rest) :
    readType (fuel + 2) (functionTypeText isState [] ++ rest) = some (.node (.function isState) [], rest) := by
  have htext : functionTypeText isState [] ++ rest =
      (if isState then text "state(" else text "fn(") ++ 0x29 :: rest := by
    simp [functionTypeText, formTexts.closeParen, commas, separated]
  rw [htext, readType_function_open]
  cases rest with
  | nil => rfl
  | cons c rest =>
    have hcolon := h.ne.2.1
    simp only [readSeparated, if_true, Option.bind_some]
    split <;> simp_all

/-! ### With enough fuel -/

theorem eventually_succ {P : ℕ → Prop} (h : ∀ᶠ fuel in atTop, P (fuel + 1)) : ∀ᶠ fuel in atTop, P fuel := by
  obtain ⟨n, hn⟩ := eventually_atTop.mp h
  refine eventually_atTop.mpr ⟨n + 1, fun fuel hfuel => ?_⟩
  obtain ⟨fuel, rfl⟩ : ∃ k, fuel = k + 1 := ⟨fuel - 1, by omega⟩
  exact hn fuel (Nat.le_of_succ_le_succ hfuel)

theorem eventually_forall_mem {α : Type} {l : List α} {P : α → ℕ → Prop} (h : ∀ a ∈ l, ∀ᶠ fuel in atTop, P a fuel) :
    ∀ᶠ fuel in atTop, ∀ a ∈ l, P a fuel :=
  (eventually_all_finite (List.finite_toSet l)).mpr h

/-- The reader reads a type back, in front of what ends it. -/
def ReadBack (bar : Bool) (t : TypeShape) (fuel : ℕ) : Prop :=
  ∀ rest, EndsType bar rest → readType fuel (t.spelled ++ rest) = some (t, rest)

/-- Types with commas between them, up to what closes them. -/
theorem readSeparated_types {close : UInt8} {types : List TypeShape} (hclose : close = 0x29 ∨ close = 0x3E)
    (hformed : ∀ t ∈ types, WellFormed false t) (h : ∀ t ∈ types, ReadBack false t fuel) (hfuel : types.length < fuel) :
    readSeparated (fun s => readType fuel s) 0x2C close fuel
      (commas (types.map TypeShape.spelled) ++ close :: rest) = some (types, rest) := by
  refine readSeparated_written (by rcases hclose with rfl | rfl <;> decide) (fun t ht c rest hc => ?_)
    (fun t ht => ?_) hfuel
  · refine h t ht _ (endsType_cons (Or.inl ?_))
    rcases hclose with rfl | rfl <;> rcases hc with rfl | rfl <;> decide
  · obtain ⟨c, tail, hfirst, hc⟩ := (hformed t ht).first
    refine ⟨c, tail, hfirst, ?_⟩
    rintro rfl
    rcases hclose with rfl | rfl <;> exact hc (by decide)

/-- What has been written is read back. -/
theorem readType_spelled (h : WellFormed bar t) : ∀ᶠ fuel in atTop, ReadBack bar t fuel := by
  induction h with
  | unknown =>
    refine eventually_succ (.of_forall fun fuel rest hrest => ?_)
    rw [spelled_unknown]
    exact readType_unknown hrest
  | @name bar spelling arguments hword hne harguments ih =>
    refine eventually_succ ?_
    filter_upwards [eventually_forall_mem ih, eventually_gt_atTop arguments.length] with fuel hread hfuel rest hrest
    rw [TypeShape.spelled, TypeForm.spelled]
    split
    · rename_i hnil
      obtain rfl := List.map_eq_nil_iff.mp hnil
      exact readType_name hword hne hrest
    · exact readType_application hword (readSeparated_types (Or.inr rfl) harguments hread hfuel)
  | pointer h ih =>
    refine eventually_succ ?_
    filter_upwards [ih] with fuel hread rest hrest
    simpa [TypeShape.spelled, TypeForm.spelled] using readType_nested (fun _ => readType_pointer) (hread rest hrest)
  | optional h ih =>
    refine eventually_succ ?_
    filter_upwards [ih] with fuel hread rest hrest
    simpa [TypeShape.spelled, TypeForm.spelled] using readType_optional h (hread rest hrest)
  | parenthesized h ih =>
    refine eventually_succ ?_
    filter_upwards [ih] with fuel hread rest hrest
    simpa [TypeShape.spelled, TypeForm.spelled] using
      readType_parenthesized (hread (0x29 :: rest) (endsType_cons (Or.inl (by decide))))
  | slice h ih =>
    refine eventually_succ ?_
    filter_upwards [ih] with fuel hread rest hrest
    simpa [TypeShape.spelled, TypeForm.spelled] using readType_nested (fun _ => readType_slice) (hread rest hrest)
  | opaqueRaw =>
    refine eventually_succ (.of_forall fun fuel rest hrest => ?_)
    simpa [TypeShape.spelled, TypeForm.spelled] using readType_opaqueRaw
  | opaqueTagged =>
    refine eventually_succ (.of_forall fun fuel rest hrest => ?_)
    simpa [TypeShape.spelled, TypeForm.spelled] using readType_opaqueTagged hrest
  | @pack bar names members hlength hnames hmembers ih =>
    refine eventually_succ ?_
    filter_upwards [eventually_forall_mem ih, eventually_gt_atTop members.length] with fuel hread hfuel rest hrest
    rw [TypeShape.spelled, TypeForm.spelled]
    refine readType_pack hlength (readSeparated_written (by decide) (fun m hm c rest hc => ?_) (fun m hm => ?_) ?_)
    · refine readMember_spelled (hnames _ (List.of_mem_zip hm).1) (hread _ (List.of_mem_zip hm).2 _ (endsType_cons ?_))
      rcases hc with rfl | rfl
      · exact Or.inl (by decide)
      · exact Or.inr ⟨rfl, rfl⟩
    · obtain ⟨c, tail, hfirst, hc, -⟩ := (hnames _ (List.of_mem_zip hm).1).first
      refine ⟨c, tail ++ text ":" ++ m.2.spelled, by rw [hfirst]; rfl, ?_⟩
      rintro rfl
      exact absurd hc (by decide)
    · rwa [List.length_zip, hlength, min_self]
  | dyn h ih =>
    refine eventually_succ ?_
    filter_upwards [ih] with fuel hread rest hrest
    simpa [TypeShape.spelled, TypeForm.spelled] using readType_nested (fun _ => readType_dyn) (hread rest hrest)
  | array h ih =>
    refine eventually_succ ?_
    filter_upwards [ih] with fuel hread rest hrest
    simpa [TypeShape.spelled, TypeForm.spelled] using readType_nested (fun _ => readType_array) (hread rest hrest)
  | @function bar isState parameters result hparameters hresult ih ihr =>
    refine eventually_succ ?_
    filter_upwards [eventually_forall_mem ih, ihr, eventually_gt_atTop parameters.length]
      with fuel hread hreadResult hfuel rest hrest
    rw [TypeShape.spelled, TypeForm.spelled]
    exact readType_function (readSeparated_types (Or.inl rfl) hparameters hread hfuel) (hreadResult rest hrest)
  | noResult =>
    refine eventually_succ (eventually_succ (.of_forall fun fuel rest hrest => ?_))
    rw [TypeShape.spelled, TypeForm.spelled]
    exact readType_noResult hrest

/-- Two types that look the same, with what follows, are the same. -/
theorem spelled_injective {t' : TypeShape} {rest' : Text} (h : WellFormed bar t) (h' : WellFormed bar t')
    (hrest : EndsType bar rest) (hrest' : EndsType bar rest') (heq : t.spelled ++ rest = t'.spelled ++ rest') :
    t = t' ∧ rest = rest' := by
  obtain ⟨fuel, hread, hread'⟩ := ((readType_spelled h).and (readType_spelled h')).exists
  have hsame := hread rest hrest
  rw [heq, hread' rest' hrest'] at hsame
  obtain ⟨rfl, rfl⟩ := Prod.mk.inj (Option.some.inj hsame)
  exact ⟨rfl, rfl⟩

end

end Zith.Frontend
