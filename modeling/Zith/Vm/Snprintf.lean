import Mathlib.Data.List.Infix
import Zith.Vm.Machine

/-! `snprintf`, which the VM has twice. `externSnprintf`, behind `CallExtern`, searches the format for a conversion
    and puts the converted argument in the place of the whole format; behind `CallExternRange` `formatVariadic`
    goes through the format byte by byte.

        "%u"      42        42          nothing around the conversion: both do the same
        "n=%u"    42        n=42        the literal text is lost
        "100%%"   100%%     100%        the percent sign stays escaped
        ""        trap      ""

    The capacity may cut two texts off before they differ. -/

namespace Zith.Vm
open Zith.Lib

/-! ### The two functions -/

/-- `text.find(pattern) != std::string_view::npos`. -/
def finds (pattern format : List UInt8) : Bool := format.tails.any fun rest => pattern.isPrefixOf rest

/-- The text that `externSnprintf` makes of a format. -/
def formatScalar (f64Text : Int64 → List UInt8) (format : List UInt8) (argument : Int64) : List UInt8 :=
  if finds [37, 117] format then text (toString argument.toUInt64)
  else if finds [37, 100] format then text (toString argument)
  else if finds [37, 103] format then f64Text argument
  else format

def externSnprintf (f64Text : Int64 → List UInt8) (args : ExternCall) (env : Env) : Bool × Int64 × Env :=
  let format := env.memory.cstring (toSize args.arg2)
  if format = [] then (false, 0, env)
  else
    let formatted := formatScalar f64Text format args.arg3
    if args.arg1 ≤ 0 then (false, 0, env)
    else
      let formatted := if formatted.length ≥ toSize args.arg1
        then formatted.take (toSize args.arg1 - 1) else formatted
      match env.memory.writeString (toSize args.arg0) formatted with
      | (false, _) => (false, 0, env)
      | (true, memory) => (true, Int64.ofNat formatted.length, { env with memory })

/-- The text of a capacity, written at the buffer: its length, and the memory. -/
def putText (memory : LinearMemory) (buffer capacity : Int64) (formatted : List UInt8) :
    Option (Int64 × LinearMemory) :=
  if capacity ≤ 0 then none
  else
    let cut := formatted.take (toSize capacity - 1)
    match memory.writeString (toSize buffer) cut with
    | (false, _) => none
    | (true, memory) => some (Int64.ofNat cut.length, memory)

/-- An instruction that fails or leaves a result and a memory. -/
def finish (regs : List Int64) (env : Env) (dst : UInt16) : Option (Int64 × LinearMemory) → Except Stop Effect
  | none => .error (.fail env)
  | some (result, memory) => setNext regs { env with memory } dst result

section
variable {P : Program} {regs : List Int64} {env : Env} {instr : Instr} {buffer capacity format argument : Int64}

theorem cut_eq (capacity : Int64) (formatted : List UInt8) :
    (if formatted.length ≥ toSize capacity then formatted.take (toSize capacity - 1) else formatted) =
      formatted.take (toSize capacity - 1) := by
  split
  · rfl
  · rw [List.take_of_length_le (by omega)]

theorem dispatch_snprintf (hhost : ∀ args env, P.host.dispatchScalarExtern (text "snprintf") args env =
      externSnprintf P.host.f64Text args env) :
    dispatch P regs env instr (text "snprintf") ⟨buffer, capacity, format, argument⟩ =
      finish regs env instr.a (if env.memory.cstring (toSize format) = [] then none
        else putText env.memory buffer capacity
          (formatScalar P.host.f64Text (env.memory.cstring (toSize format)) argument)) := by
  simp only [dispatch, hhost, externSnprintf, putText]
  by_cases hempty : env.memory.cstring (toSize format) = []
  · rw [if_pos hempty, if_pos hempty]
    rfl
  · rw [if_neg hempty, if_neg hempty]
    by_cases hcapacity : capacity ≤ 0
    · rw [if_pos hcapacity, if_pos hcapacity]
      rfl
    · simp only [if_neg hcapacity, cut_eq]
      split <;> rename_i heq <;> split at heq <;> simp_all [finish]

theorem callVariadic_snprintf : callVariadic P regs env instr (text "snprintf") [buffer, capacity, format, argument] =
      finish regs env instr.a ((formatVariadic P.host (env.memory.cstring (toSize format)) [argument]).bind
        fun formatted => putText env.memory buffer capacity formatted) := by
  have hname : text "snprintf" ≠ text "printf" := by decide +kernel
  have hargs : ([buffer, capacity, format, argument].drop 3 : List Int64) = [argument] := rfl
  simp only [callVariadic, if_neg hname, hargs, index, List.getElem?_cons_zero, List.getElem?_cons_succ, bind,
    Except.bind]
  cases formatVariadic P.host (env.memory.cstring (toSize format)) [argument] with
  | none => rfl
  | some formatted =>
    simp only [Option.bind_some, putText, cut_eq]
    by_cases hcapacity : capacity ≤ 0
    · rw [if_pos hcapacity, if_pos hcapacity]
      rfl
    · rw [if_neg hcapacity, if_neg hcapacity]
      split <;> rename_i heq <;> simp only [heq, finish]

end

/-! ### Formats -/

inductive Conversion where
  | u | d | g
  deriving DecidableEq

def Conversion.byte : Conversion → UInt8
  | .u => 117
  | .d => 100
  | .g => 103

/-- `std::to_string` of the argument, read as the conversion says. -/
def Conversion.shown (f64Text : Int64 → List UInt8) (argument : Int64) : Conversion → List UInt8
  | .u => text (toString argument.toUInt64)
  | .d => text (toString argument)
  | .g => f64Text argument

/-- A literal byte, `%%`, or a conversion. -/
inductive FormatPiece where
  | literal (byte : UInt8)
  | percent
  | conversion (c : Conversion)
  deriving DecidableEq

def FormatPiece.converts : FormatPiece → Bool
  | .conversion _ => true
  | _ => false

/-- The format that the pieces spell. -/
@[simp] def spelledPieces : List FormatPiece → List UInt8
  | [] => []
  | .literal byte :: pieces => byte :: spelledPieces pieces
  | .percent :: pieces => 37 :: 37 :: spelledPieces pieces
  | .conversion c :: pieces => 37 :: c.byte :: spelledPieces pieces

/-- What the pieces mean. -/
@[simp] def meantPieces (f64Text : Int64 → List UInt8) (argument : Int64) : List FormatPiece → List UInt8
  | [] => []
  | .literal byte :: pieces => byte :: meantPieces f64Text argument pieces
  | .percent :: pieces => 37 :: meantPieces f64Text argument pieces
  | .conversion c :: pieces => c.shown f64Text argument ++ meantPieces f64Text argument pieces

/-- A format with one conversion at most. -/
structure SnprintfFormat where
  pieces : List FormatPiece
  literal : ∀ byte, .literal byte ∈ pieces → byte ≠ 37
  one : (pieces.filter (·.converts)).length ≤ 1

namespace SnprintfFormat

def spelled (F : SnprintfFormat) : List UInt8 := spelledPieces F.pieces

/-- What the format means. -/
def meant (F : SnprintfFormat) (f64Text : Int64 → List UInt8) (argument : Int64) : List UInt8 :=
  meantPieces f64Text argument F.pieces

/-- No percent sign. -/
def Plain (F : SnprintfFormat) : Prop := ∀ piece ∈ F.pieces, ∃ byte, piece = .literal byte

/-- One conversion and nothing around it. -/
def Lone (F : SnprintfFormat) : Prop := ∃ c, F.pieces = [.conversion c]

end SnprintfFormat

section
variable {host : Host} {argument : Int64}

theorem formatVariadic_literal {byte : UInt8} (h : byte ≠ 37) (format : List UInt8) (args : List Int64) :
    formatVariadic host (byte :: format) args = (byte :: ·) <$> formatVariadic host format args := by
  rw [formatVariadic.eq_def]
  split <;> simp_all

/-- Without a conversion, no argument is read. -/
theorem formatVariadic_pieces_none {pieces : List FormatPiece} (args : List Int64)
    (hliteral : ∀ byte, .literal byte ∈ pieces → byte ≠ 37) (hnone : pieces.filter (·.converts) = []) :
    formatVariadic host (spelledPieces pieces) args = some (meantPieces host.f64Text argument pieces) := by
  induction pieces with
  | nil => rfl
  | cons piece pieces ih =>
    have hrest := ih (fun byte hmem => hliteral byte (List.mem_cons_of_mem _ hmem))
    cases piece with
    | literal byte =>
      rw [List.filter_cons_of_neg (by simp [FormatPiece.converts])] at hnone
      rw [spelledPieces, formatVariadic_literal (hliteral byte List.mem_cons_self), hrest hnone]
      rfl
    | percent =>
      rw [List.filter_cons_of_neg (by simp [FormatPiece.converts])] at hnone
      rw [spelledPieces, formatVariadic, hrest hnone]
      rfl
    | conversion c => simp [FormatPiece.converts] at hnone

/-- One argument is enough for one conversion. -/
theorem formatVariadic_pieces {pieces : List FormatPiece}
    (hliteral : ∀ byte, .literal byte ∈ pieces → byte ≠ 37) (hone : (pieces.filter (·.converts)).length ≤ 1) :
    formatVariadic host (spelledPieces pieces) [argument] = some (meantPieces host.f64Text argument pieces) := by
  induction pieces with
  | nil => rfl
  | cons piece pieces ih =>
    have hliterals : ∀ byte, .literal byte ∈ pieces → byte ≠ 37 := fun byte hmem =>
      hliteral byte (List.mem_cons_of_mem _ hmem)
    cases piece with
    | literal byte =>
      rw [List.filter_cons_of_neg (by simp [FormatPiece.converts])] at hone
      rw [spelledPieces, formatVariadic_literal (hliteral byte List.mem_cons_self), ih hliterals hone]
      rfl
    | percent =>
      rw [List.filter_cons_of_neg (by simp [FormatPiece.converts])] at hone
      rw [spelledPieces, formatVariadic, ih hliterals hone]
      rfl
    | conversion c =>
      rw [List.filter_cons_of_pos (by simp [FormatPiece.converts]), List.length_cons] at hone
      have hrest : formatVariadic host (spelledPieces pieces) [] =
          some (meantPieces host.f64Text argument pieces) :=
        formatVariadic_pieces_none [] hliterals (List.length_eq_zero_iff.mp (by omega))
      cases c with
      | u => rw [spelledPieces, Conversion.byte, formatVariadic, hrest]; rfl
      | d => rw [spelledPieces, Conversion.byte, formatVariadic, hrest]; rfl
      | g => rw [spelledPieces, Conversion.byte, formatVariadic, hrest]; rfl

end

/-! ### Decimal texts -/

theorem loop_toList (bs : ByteArray) : ∀ (n i : ℕ) (r : List UInt8), bs.size ≤ i + n →
    ByteArray.toList.loop bs i r = r.reverse ++ bs.data.toList.drop i
  | 0, i, r, h => by
    rw [ByteArray.toList.loop, if_neg (by omega), List.drop_of_length_le (by simpa using h), List.append_nil]
  | n + 1, i, r, h => by
    rw [ByteArray.toList.loop]
    by_cases hi : i < bs.size
    · have hlen : i < bs.data.toList.length := by simpa using hi
      have hget : bs.get! i = bs.data.toList[i] := by
        obtain ⟨data⟩ := bs
        have hsize : i < data.size := hi
        simp [ByteArray.get!, hsize]
      rw [if_pos hi, loop_toList bs n (i + 1) _ (by omega), List.reverse_cons, List.append_assoc, hget,
        List.singleton_append, ← List.drop_eq_getElem_cons hlen]
    · rw [if_neg hi, List.drop_of_length_le (by simpa using hi), List.append_nil]

theorem text_ofList (l : List Char) : text (String.ofList l) = l.flatMap String.utf8EncodeChar := by
  rw [text, String.toUTF8, String.toByteArray_ofList, ByteArray.toList, loop_toList _ _ 0 [] (Nat.le_add_left _ _),
    List.utf8Encode]
  simp

theorem text_append (s t : String) : text (s ++ t) = text s ++ text t := by
  conv_lhs => rw [← String.ofList_toList (s := s), ← String.ofList_toList (s := t), ← String.ofList_append]
  rw [text_ofList, List.flatMap_append, ← text_ofList, ← text_ofList, String.ofList_toList, String.ofList_toList]

/-- A number is written without a percent sign. -/
theorem not_mem_text_digits (n : ℕ) : (37 : UInt8) ∉ text (toString n) := by
  rw [Nat.toString_eq_ofList_toDigits, text_ofList, List.mem_flatMap]
  rintro ⟨c, hc, hmem⟩
  have hdigit := Nat.isDigit_of_mem_toDigits (by decide) (by decide) hc
  simp only [Char.isDigit, Bool.and_eq_true, decide_eq_true_eq, UInt32.le_iff_toNat_le, ge_iff_le] at hdigit
  have hlow : 48 ≤ c.toNat := hdigit.1
  have hhigh : c.toNat ≤ 57 := hdigit.2
  have hall : ∀ v < 10, (37 : UInt8) ∉ String.utf8EncodeChar (Char.ofNat (48 + v)) := by decide
  apply hall (c.toNat - 48) (by omega)
  rwa [Nat.add_sub_of_le hlow, Char.ofNat_toNat]

theorem not_mem_text_int (n : ℤ) : (37 : UInt8) ∉ text (toString n) := by
  cases n with
  | ofNat n => exact not_mem_text_digits n
  | negSucc n =>
    have heq : toString (Int.negSucc n) = "-" ++ toString (n + 1) := rfl
    have hminus : (37 : UInt8) ∉ text "-" := by decide +kernel
    rw [heq, text_append, List.mem_append, not_or]
    exact ⟨hminus, not_mem_text_digits (n + 1)⟩

/-- Neither does `std::to_string` write one for a double. -/
theorem Conversion.not_mem_shown {f64Text : Int64 → List UInt8} (h : ∀ v, 37 ∉ f64Text v) (argument : Int64) :
    ∀ c : Conversion, (37 : UInt8) ∉ c.shown f64Text argument
  | .u => not_mem_text_digits argument.toUInt64.toNat
  | .d => not_mem_text_int argument.toInt
  | .g => h argument

/-! ### The search -/

theorem finds_iff {pattern format : List UInt8} : finds pattern format = true ↔ pattern <:+: format := by
  simp only [finds, List.any_eq_true, List.mem_tails, List.isPrefixOf_iff_prefix, List.infix_iff_prefix_suffix]
  constructor
  · rintro ⟨rest, hsuffix, hprefix⟩
    exact ⟨rest, hprefix, hsuffix⟩
  · rintro ⟨rest, hprefix, hsuffix⟩
    exact ⟨rest, hsuffix, hprefix⟩

/-- The conversion that is found first, in the order of the search. -/
def searched (format : List UInt8) : Option Conversion :=
  [Conversion.u, .d, .g].find? fun c => finds [37, c.byte] format

theorem formatScalar_eq (f64Text : Int64 → List UInt8) (format : List UInt8) (argument : Int64) :
    formatScalar f64Text format argument =
      match searched format with
      | some c => c.shown f64Text argument
      | none => format := by
  simp only [formatScalar, searched, List.find?_cons, Conversion.byte]
  cases finds [37, 117] format <;> cases finds [37, 100] format <;> cases finds [37, 103] format <;> rfl

/-- A conversion that is spelled is found. -/
theorem finds_conversion {c : Conversion} : ∀ {pieces : List FormatPiece}, .conversion c ∈ pieces →
    finds [37, c.byte] (spelledPieces pieces) = true := by
  intro pieces
  simp only [finds_iff]
  induction pieces with
  | nil => simp
  | cons piece pieces ih =>
    intro hmem
    rcases List.mem_cons.mp hmem with rfl | htail
    · exact ⟨[], spelledPieces pieces, rfl⟩
    · cases piece with
      | literal byte => exact (ih htail).trans (List.suffix_cons _ _).isInfix
      | percent => exact (ih htail).trans ((List.suffix_cons _ _).trans (List.suffix_cons _ _)).isInfix
      | conversion c' => exact (ih htail).trans ((List.suffix_cons _ _).trans (List.suffix_cons _ _)).isInfix

theorem Conversion.byte_ne (c : Conversion) : c.byte ≠ 37 := by cases c <;> decide

theorem Conversion.byte_inj {c c' : Conversion} (h : c.byte = c'.byte) : c = c' := by
  cases c <;> cases c' <;> first | rfl | exact absurd h (by decide)

/-- Without an escaped percent sign nothing else is found. -/
theorem conversion_of_finds {c : Conversion} : ∀ {pieces : List FormatPiece},
    (∀ byte, .literal byte ∈ pieces → byte ≠ 37) → .percent ∉ pieces →
    finds [37, c.byte] (spelledPieces pieces) = true → .conversion c ∈ pieces := by
  intro pieces
  simp only [finds_iff]
  induction pieces with
  | nil => simp [spelledPieces]
  | cons piece pieces ih =>
    intro hliteral hpercent hfound
    have hrest := ih (fun byte hmem => hliteral byte (List.mem_cons_of_mem _ hmem))
      (fun hmem => hpercent (List.mem_cons_of_mem _ hmem))
    cases piece with
    | literal byte =>
      rw [spelledPieces, List.infix_cons_iff] at hfound
      rcases hfound with hprefix | hfound
      · exact absurd (List.cons_prefix_cons.mp hprefix).1.symm (hliteral byte List.mem_cons_self)
      · exact List.mem_cons_of_mem _ (hrest hfound)
    | percent => exact absurd List.mem_cons_self hpercent
    | conversion c' =>
      rw [spelledPieces, List.infix_cons_iff, List.infix_cons_iff] at hfound
      rcases hfound with hprefix | hprefix | hfound
      · obtain ⟨-, hprefix⟩ := List.cons_prefix_cons.mp hprefix
        rw [Conversion.byte_inj (List.cons_prefix_cons.mp hprefix).1]
        exact List.mem_cons_self
      · exact absurd (List.cons_prefix_cons.mp hprefix).1.symm c'.byte_ne
      · exact List.mem_cons_of_mem _ (hrest hfound)

/-! ### The two texts -/

section
variable {f64Text : Int64 → List UInt8} {argument : Int64} {pieces : List FormatPiece}

theorem length_meant_none (hnone : pieces.filter (·.converts) = []) :
    (meantPieces f64Text argument pieces).length + pieces.count .percent = (spelledPieces pieces).length := by
  induction pieces with
  | nil => rfl
  | cons piece pieces ih =>
    cases piece with
    | literal byte =>
      rw [List.filter_cons_of_neg (by simp [FormatPiece.converts])] at hnone
      have := ih hnone
      rw [List.count_cons_of_ne (by simp)]
      simp only [meantPieces, spelledPieces, List.length_cons]
      omega
    | percent =>
      rw [List.filter_cons_of_neg (by simp [FormatPiece.converts])] at hnone
      have := ih hnone
      rw [List.count_cons_self]
      simp only [meantPieces, spelledPieces, List.length_cons]
      omega
    | conversion c => simp [FormatPiece.converts] at hnone

/-- Every other piece of a format with no conversion means one byte. -/
theorem length_meant_literal (hnone : pieces.filter (·.converts) = []) :
    (meantPieces f64Text argument pieces).length = pieces.length := by
  induction pieces with
  | nil => rfl
  | cons piece pieces ih =>
    cases piece with
    | literal byte =>
      rw [List.filter_cons_of_neg (by simp [FormatPiece.converts])] at hnone
      simp [meantPieces, ih hnone]
    | percent =>
      rw [List.filter_cons_of_neg (by simp [FormatPiece.converts])] at hnone
      simp [meantPieces, ih hnone]
    | conversion c => simp [FormatPiece.converts] at hnone

theorem length_meant_one {c : Conversion} (hone : (pieces.filter (·.converts)).length ≤ 1)
    (hmem : .conversion c ∈ pieces) :
    (meantPieces f64Text argument pieces).length + 1 = (c.shown f64Text argument).length + pieces.length := by
  induction pieces with
  | nil => cases hmem
  | cons piece pieces ih =>
    cases piece with
    | literal byte =>
      rw [List.filter_cons_of_neg (by simp [FormatPiece.converts])] at hone
      have := ih hone (by simpa using hmem)
      simp only [meantPieces, List.length_cons]
      omega
    | percent =>
      rw [List.filter_cons_of_neg (by simp [FormatPiece.converts])] at hone
      have := ih hone (by simpa using hmem)
      simp only [meantPieces, List.length_cons]
      omega
    | conversion c' =>
      rw [List.filter_cons_of_pos (by simp [FormatPiece.converts]), List.length_cons] at hone
      have hnone : pieces.filter (·.converts) = [] := List.length_eq_zero_iff.mp (by omega)
      have hsame : c = c' := by
        rcases List.mem_cons.mp hmem with heq | htail
        · exact FormatPiece.conversion.inj heq
        · have : .conversion c ∈ pieces.filter (·.converts) := List.mem_filter.mpr ⟨htail, rfl⟩
          rw [hnone] at this
          cases this
      subst hsame
      simp only [meantPieces, List.length_append, List.length_cons, length_meant_literal hnone]
      omega

/-- An escaped percent sign is meant. -/
theorem mem_meant_percent (hmem : .percent ∈ pieces) : 37 ∈ meantPieces f64Text argument pieces := by
  induction pieces with
  | nil => cases hmem
  | cons piece pieces ih =>
    cases piece with
    | literal byte => exact List.mem_cons_of_mem _ (ih (by simpa using hmem))
    | percent => exact List.mem_cons_self
    | conversion c => exact List.mem_append_right _ (ih (by simpa using hmem))

theorem spelled_eq_meant_of_plain (h : ∀ piece ∈ pieces, ∃ byte, piece = .literal byte) :
    spelledPieces pieces = meantPieces f64Text argument pieces := by
  induction pieces with
  | nil => rfl
  | cons piece pieces ih =>
    obtain ⟨⟨byte, rfl⟩, hrest⟩ := List.forall_mem_cons.mp h
    rw [spelledPieces, meantPieces, ih hrest]

end

namespace SnprintfFormat
variable {F : SnprintfFormat} {f64Text : Int64 → List UInt8} {argument : Int64}

/-- What stands in the place of the format: the conversion that the search finds, or the format. -/
def replaced (F : SnprintfFormat) (f64Text : Int64 → List UInt8) (argument : Int64) : List UInt8 :=
  match searched F.spelled with
  | some c => c.shown f64Text argument
  | none => F.spelled

theorem searched_some {format : List UInt8} {c : Conversion} (h : searched format = some c) :
    finds [37, c.byte] format = true := List.find?_some (p := fun c => finds [37, Conversion.byte c] format) h

theorem not_finds_of_searched {format : List UInt8} (h : searched format = none) (c : Conversion) :
    finds [37, c.byte] format = false := by
  have := List.find?_eq_none.mp h c (by cases c <;> simp)
  simpa using this

theorem replaced_of_some {c : Conversion} (h : searched F.spelled = some c) :
    F.replaced f64Text argument = c.shown f64Text argument := by rw [replaced, h]

theorem replaced_of_none (h : searched F.spelled = none) : F.replaced f64Text argument = F.spelled := by
  rw [replaced, h]

theorem replaced_of_plain (h : F.Plain) : F.replaced f64Text argument = F.meant f64Text argument := by
  have hpercent : FormatPiece.percent ∉ F.pieces := fun hmem => by
    obtain ⟨byte, heq⟩ := h _ hmem
    cases heq
  cases hsearch : searched F.spelled with
  | none => exact (replaced_of_none hsearch).trans (spelled_eq_meant_of_plain h)
  | some c =>
    obtain ⟨byte, heq⟩ := h _ (conversion_of_finds F.literal hpercent (searched_some hsearch))
    cases heq

theorem replaced_of_lone (h : F.Lone) : F.replaced f64Text argument = F.meant f64Text argument := by
  obtain ⟨c, hc⟩ := h
  have hsearch : searched F.spelled = some c := by
    rw [spelled, hc]
    cases c <;> decide
  rw [replaced_of_some hsearch, meant, hc, meantPieces, meantPieces, List.append_nil]

/-- With anything around a conversion, and with an escaped percent sign, the two texts differ. -/
theorem replaced_ne (hf64 : ∀ v, 37 ∉ f64Text v) (hplain : ¬F.Plain) (hlone : ¬F.Lone) :
    F.replaced f64Text argument ≠ F.meant f64Text argument := by
  by_cases hpercent : FormatPiece.percent ∈ F.pieces
  · cases hsearch : searched F.spelled with
    | some c =>
      intro heq
      apply c.not_mem_shown hf64 argument
      rw [← replaced_of_some hsearch, heq]
      exact mem_meant_percent hpercent
    | none =>
      have hnone : F.pieces.filter (·.converts) = [] := by
        rw [List.filter_eq_nil_iff]
        intro piece hmem hconverts
        cases piece with
        | conversion c =>
          have hfound := finds_conversion hmem
          rw [← spelled, not_finds_of_searched hsearch] at hfound
          cases hfound
        | literal byte => cases hconverts
        | percent => cases hconverts
      have hlength := @length_meant_none f64Text argument F.pieces hnone
      have hcount := List.count_pos_iff.mpr hpercent
      intro heq
      have := congrArg List.length heq
      rw [replaced_of_none hsearch, spelled, meant] at this
      omega
  · -- a conversion with literal text around it
    obtain ⟨c, hc⟩ : ∃ c, FormatPiece.conversion c ∈ F.pieces := by
      by_contra hno
      push Not at hno
      refine hplain fun piece hmem => ?_
      cases piece with
      | literal byte => exact ⟨byte, rfl⟩
      | percent => exact absurd hmem hpercent
      | conversion c => exact absurd hmem (hno c)
    have hsearch : searched F.spelled = some c := by
      cases hsearch : searched F.spelled with
      | none =>
        have hfound := finds_conversion hc
        rw [← spelled, not_finds_of_searched hsearch] at hfound
        cases hfound
      | some c' =>
        have hc' := conversion_of_finds F.literal hpercent (searched_some hsearch)
        have hlen := @length_meant_one (fun _ => []) 0 F.pieces c F.one hc
        by_contra hne
        have hsub : [FormatPiece.conversion c, .conversion c'].Subperm (F.pieces.filter (·.converts)) := by
          apply List.subperm_of_subset
          · simpa using fun heq : c = c' => hne (by rw [heq])
          · intro piece hmem
            rcases List.mem_pair.mp hmem with rfl | rfl
            · exact List.mem_filter.mpr ⟨hc, rfl⟩
            · exact List.mem_filter.mpr ⟨hc', rfl⟩
        have := hsub.length_le
        have := F.one
        simp only [List.length_cons, List.length_nil] at *
        omega
    have hlength := @length_meant_one f64Text argument F.pieces c F.one hc
    have htwo : F.pieces.length ≠ 1 := by
      intro hlen
      obtain ⟨piece, heq⟩ := List.length_eq_one_iff.mp hlen
      rw [heq, List.mem_singleton] at hc
      exact hlone ⟨c, by rw [heq, hc]⟩
    have hpos := List.length_pos_of_mem hc
    intro heq
    have := congrArg List.length heq
    rw [replaced_of_some hsearch, meant] at this
    omega

end SnprintfFormat

end Zith.Vm
