import Zith.Frontend.SignatureReading

/-! What the signature of a function says: the list of its parameters, down to the parentheses in their types
    (`functionSignature_eq_iff`). Parentheses mean nothing in a type, so that two declarations with the same parameters
    have two signatures when they are written with different parentheses (`parenthesized_overloads`). -/

namespace Zith.Frontend
open Zith.Lib

/-- What a function is declared to take: types, `...`, and the arguments of a generic owner. -/
structure ParameterList where
  types : List TypeShape
  isVariadic : Bool
  ownerArguments : Option (List Text)

/-- Without the parentheses in types. -/
def ParameterList.bare (parameters : ParameterList) : ParameterList :=
  { parameters with types := parameters.types.map TypeShape.bare }

/-- What comes behind the types in a signature. -/
def signatureEnd (comma : Text) (isVariadic : Bool) (ownerArguments : Option (List Text)) : Text :=
  (if isVariadic then comma ++ text "..." else []) ++
    (ownerArguments.elim [] (fun names => comma ++ text "<" ++ commas names ++ text ">") ++ text ")")

def ParameterList.spelled (parameters : ParameterList) : Text :=
  text "(" ++ commas (parameters.types.map TypeShape.spelled) ++
    signatureEnd (if parameters.types = [] then [] else text ",") parameters.isVariadic parameters.ownerArguments

structure ParameterList.WellFormed (parameters : ParameterList) : Prop where
  types : ∀ t ∈ parameters.types, Frontend.WellFormed false t
  names : ∀ names ∈ parameters.ownerArguments, ∀ name ∈ names, IsWord name

/-- A declaration has a list of parameters. The owner of a `self` without a type is a type, too. -/
structure Declares (snapshot : TypedSnapshot) (decl : Declaration) (parameters : ParameterList) : Prop where
  types : if implicitSelf decl then
      ∃ owner : TypeShape, owner.spelled = decl.ownerName ∧ parameters.types = .node .pointer [owner] ::
        decl.parameters.tail.map fun p => shapeOf snapshot.typeExpressions (snapshot.typeExpressions.length + 1) p.type
    else parameters.types =
      decl.parameters.map fun p => shapeOf snapshot.typeExpressions (snapshot.typeExpressions.length + 1) p.type
  isVariadic : parameters.isVariadic = decl.isVariadic
  ownerArguments : parameters.ownerArguments = ownerArguments snapshot.declarations decl
  wellFormed : parameters.WellFormed

/-! ### A signature is the text of its parameters -/

section
variable {snapshot : TypedSnapshot} {decl decl' : Declaration} {parameters parameters' : ParameterList}

theorem Declares.signature (h : Declares snapshot decl parameters) :
    functionSignature snapshot decl = parameters.spelled := by
  have hstrings : ∀ l : List Parameter, (l.map fun p =>
      shapeOf snapshot.typeExpressions (snapshot.typeExpressions.length + 1) p.type).map TypeShape.spelled =
        l.map fun p => snapshot.typeString p.type := fun l => by
    rw [List.map_map]
    exact List.map_congr_left fun p _ => spelled_shapeOf _ _ _
  have htypes := h.types
  have hspelled : parameters.types.map TypeShape.spelled =
      if implicitSelf decl then
        (text "*" ++ decl.ownerName) :: decl.parameters.tail.map fun p => snapshot.typeString p.type
      else decl.parameters.map fun p => snapshot.typeString p.type := by
    split at htypes
    · rename_i hself
      obtain ⟨owner, howner, htypes⟩ := htypes
      rw [if_pos hself, htypes, List.map_cons, hstrings, ← howner]
      simp [TypeShape.spelled, TypeForm.spelled]
    · rename_i hself
      rw [if_neg hself, htypes, hstrings]
  have hnil : parameters.types = [] ↔ parameters.types.map TypeShape.spelled = [] := by simp
  rw [functionSignature, ParameterList.spelled, signatureEnd, h.isVariadic, h.ownerArguments]
  simp only [hnil, hspelled]
  split <;> simp [List.append_assoc]

end

/-! ### Two lists with one text -/

section
variable {comma rest : Text} {isVariadic isVariadic' : Bool} {owner owner' : Option (List Text)}
  {types types' : List TypeShape}

/-- Names with commas between them, up to `>`. -/
theorem commas_names_injective {names names' : List Text} {rest' : Text} (h : ∀ name ∈ names, IsWord name)
    (h' : ∀ name ∈ names', IsWord name) (heq : commas names ++ 0x3E :: rest = commas names' ++ 0x3E :: rest') :
    names = names' := by
  have hread : ∀ {names : List Text} {rest : Text} {fuel : ℕ}, (∀ name ∈ names, IsWord name) → names.length < fuel →
      readSeparated (fun s => some (readWord s)) 0x2C 0x3E fuel (commas names ++ 0x3E :: rest) =
        some (names, rest) := by
    intro names rest fuel hwords hfuel
    have hwritten : readSeparated (fun s => some (readWord s)) 0x2C 0x3E fuel
        (separated 0x2C (names.map id) ++ 0x3E :: rest) = some (names, rest) :=
      readSeparated_written (by decide) (fun name hname c rest hc => ?_) (fun name hname => ?_) hfuel
    · rwa [List.map_id] at hwritten
    · refine congrArg some (readWord_append (hwords name hname).bytes ?_)
      rcases hc with rfl | rfl <;> decide
    · obtain ⟨c, tail, rfl, hc, -⟩ := (hwords name hname).first
      refine ⟨c, tail, rfl, ?_⟩
      rintro rfl
      exact absurd hc (by decide)
  have hsame := @hread names rest _ h (Nat.lt_succ_of_le (Nat.le_add_right names.length names'.length))
  rw [heq, hread h' (Nat.lt_succ_of_le (Nat.le_add_left names'.length names.length))] at hsame
  exact (Prod.mk.inj (Option.some.inj hsame)).1.symm

theorem signatureEnd_injective (hcomma : comma = [] ∨ comma = text ",")
    (h : ∀ names ∈ owner, ∀ name ∈ names, IsWord name) (h' : ∀ names ∈ owner', ∀ name ∈ names, IsWord name)
    (heq : signatureEnd comma isVariadic owner = signatureEnd comma isVariadic' owner') :
    isVariadic = isVariadic' ∧ owner = owner' := by
  have hbytes : text "," = [0x2C] := by decide +kernel
  cases owner with
  | none =>
    cases owner' with
    | none =>
      refine ⟨?_, rfl⟩
      rcases hcomma with rfl | rfl <;> cases isVariadic <;> cases isVariadic' <;>
        simp [signatureEnd, hbytes, formTexts.dots, formTexts.closeParen] at heq ⊢
    | some names' =>
      rcases hcomma with rfl | rfl <;> cases isVariadic <;> cases isVariadic' <;>
        simp [signatureEnd, hbytes, formTexts.dots, formTexts.closeParen, formTexts.less] at heq
  | some names =>
    cases owner' with
    | none =>
      rcases hcomma with rfl | rfl <;> cases isVariadic <;> cases isVariadic' <;>
        simp [signatureEnd, hbytes, formTexts.dots, formTexts.closeParen, formTexts.less] at heq
    | some names' =>
      have hnames : isVariadic = isVariadic' ∧
          commas names ++ 0x3E :: [0x29] = commas names' ++ 0x3E :: [0x29] := by
        rcases hcomma with rfl | rfl <;> cases isVariadic <;> cases isVariadic' <;>
          simp_all [signatureEnd, formTexts.dots, formTexts.closeParen, formTexts.less, formTexts.greater]
      exact ⟨hnames.1, congrArg some (commas_names_injective (h _ rfl) (h' _ rfl) hnames.2)⟩

/-- Types behind the first one, and what comes behind them. -/
def typesBehind (types : List TypeShape) (isVariadic : Bool) (owner : Option (List Text)) : Text :=
  types.flatMap (fun t => 0x2C :: t.spelled) ++ signatureEnd (text ",") isVariadic owner

/-- What comes behind the types does not look like a type. -/
theorem signatureEnd_ne {t : TypeShape} (ht : WellFormed false t) :
    signatureEnd [] isVariadic owner ≠ t.spelled ++ rest ∧
      signatureEnd (text ",") isVariadic owner ≠ 0x2C :: (t.spelled ++ rest) := by
  have hbytes : text "," = [0x2C] := by decide +kernel
  obtain ⟨c, tail, hfirst, hc⟩ := ht.first
  have hne : ∀ d ∈ [0x2C, 0x29, 0x3E, dot, 0x3C], d ≠ c := fun d hd heq => hc (heq ▸ hd)
  have hclose := hne 0x29 (by decide)
  have hless := hne 0x3C (by decide)
  have hdot := hne 0x2E (by decide)
  rw [hfirst]
  constructor <;> cases isVariadic <;> cases owner <;>
    simp [signatureEnd, hbytes, formTexts.dots, formTexts.closeParen, formTexts.less, hclose, hless, hdot]

theorem endsType_typesBehind : EndsType false (typesBehind types isVariadic owner) := by
  have hbytes : text "," = [0x2C] := by decide +kernel
  cases types with
  | nil =>
    cases isVariadic <;> cases owner <;> simp [typesBehind, signatureEnd, hbytes, formTexts.closeParen, EndsType]
  | cons t types => exact endsType_cons (Or.inl (by decide))

theorem typesBehind_injective (h : ∀ t ∈ types, WellFormed false t) (h' : ∀ t ∈ types', WellFormed false t)
    (hnames : ∀ names ∈ owner, ∀ name ∈ names, IsWord name) (hnames' : ∀ names ∈ owner', ∀ name ∈ names, IsWord name)
    (heq : typesBehind types isVariadic owner = typesBehind types' isVariadic' owner') :
    types = types' ∧ isVariadic = isVariadic' ∧ owner = owner' := by
  induction types generalizing types' with
  | nil =>
    cases types' with
    | nil => exact ⟨rfl, signatureEnd_injective (Or.inr rfl) hnames hnames' heq⟩
    | cons t' types' =>
      have ht' := h' t' List.mem_cons_self
      simp only [typesBehind, List.flatMap_nil, List.nil_append, List.flatMap_cons, List.cons_append,
        List.append_assoc] at heq
      exact absurd heq (signatureEnd_ne ht').2
  | cons t types ih =>
    obtain ⟨ht, hts⟩ := List.forall_mem_cons.mp h
    cases types' with
    | nil =>
      simp only [typesBehind, List.flatMap_nil, List.nil_append, List.flatMap_cons, List.cons_append,
        List.append_assoc] at heq
      exact absurd heq.symm (signatureEnd_ne ht).2
    | cons t' types' =>
      obtain ⟨ht', hts'⟩ := List.forall_mem_cons.mp h'
      simp only [typesBehind, List.flatMap_cons, List.cons_append, List.append_assoc, List.cons.injEq, true_and] at heq
      obtain ⟨rfl, hrest⟩ := spelled_injective ht ht' endsType_typesBehind endsType_typesBehind heq
      obtain ⟨rfl, hsame⟩ := ih hts hts' hrest
      exact ⟨rfl, hsame⟩

/-- Two lists of parameters with one text are one list. -/
theorem ParameterList.spelled_injective {parameters parameters' : ParameterList} (h : parameters.WellFormed)
    (h' : parameters'.WellFormed) (heq : parameters.spelled = parameters'.spelled) : parameters = parameters' := by
  have hspelled : ∀ parameters : ParameterList, parameters.spelled = text "(" ++
      match parameters.types with
      | [] => signatureEnd [] parameters.isVariadic parameters.ownerArguments
      | t :: types => t.spelled ++ typesBehind types parameters.isVariadic parameters.ownerArguments := by
    rintro ⟨types, isVariadic, owner⟩
    cases types with
    | nil => simp [spelled, commas, separated]
    | cons t types => simp [spelled, commas, separated, typesBehind, List.flatMap_map]
  obtain ⟨types, isVariadic, owner⟩ := parameters
  obtain ⟨types', isVariadic', owner'⟩ := parameters'
  rw [hspelled, hspelled, List.append_cancel_left_eq] at heq
  cases types with
  | nil =>
    cases types' with
    | nil =>
      obtain ⟨rfl, rfl⟩ := signatureEnd_injective (Or.inl rfl) h.names h'.names heq
      rfl
    | cons t' types' => exact absurd heq (signatureEnd_ne (h'.types t' List.mem_cons_self)).1
  | cons t types =>
    obtain ⟨ht, hts⟩ := List.forall_mem_cons.mp h.types
    cases types' with
    | nil => exact absurd heq.symm (signatureEnd_ne ht).1
    | cons t' types' =>
      obtain ⟨ht', hts'⟩ := List.forall_mem_cons.mp h'.types
      obtain ⟨rfl, hrest⟩ := Frontend.spelled_injective ht ht' endsType_typesBehind endsType_typesBehind heq
      obtain ⟨rfl, rfl, rfl⟩ := typesBehind_injective hts hts' h.names h'.names hrest
      rfl

end

section
variable {snapshot : TypedSnapshot} {decl decl' : Declaration} {parameters parameters' : ParameterList}

/-- The signature of a function is as good as its parameters as they are written. -/
theorem functionSignature_eq_iff (h : Declares snapshot decl parameters) (h' : Declares snapshot decl' parameters') :
    functionSignature snapshot decl = functionSignature snapshot decl' ↔ parameters = parameters' := by
  rw [h.signature, h'.signature]
  exact ⟨ParameterList.spelled_injective h.wellFormed h'.wellFormed, fun heq => by rw [heq]⟩

/-- Signatures tell the parameters of two functions apart, and only them, where the same parameters are written with
    the same parentheses. -/
theorem signatures_identify_iff (h : Declares snapshot decl parameters) (h' : Declares snapshot decl' parameters') :
    (functionSignature snapshot decl = functionSignature snapshot decl' ↔ parameters.bare = parameters'.bare) ↔
      (parameters.bare = parameters'.bare → parameters = parameters') := by
  rw [functionSignature_eq_iff h h']
  exact ⟨fun hiff => hiff.mpr, fun hwritten => ⟨fun heq => by rw [heq], hwritten⟩⟩

end

/-! ### `i64`, `lend i64` and `(i64)` -/

def i64Snapshot : TypedSnapshot :=
  { source := [], tokens := [], trivia := [], diagnostics := []
    typeExpressions :=
      [{ id := 1, kind := .name, name := text "i64" },
       { id := 2, kind := .name, name := text "i64", ownership := .lend, isMut := true },
       { id := 3, kind := .parenthesized, arguments := [1] }] }

/-- `fn f(a: type)`. -/
def i64Function (type : TypeExprId) : Declaration :=
  { id := 1, kind := .function, name := text "f"
    parameters := [{ id := 0, name := text "a", span := ⟨0, 0⟩, type }] }

def i64Shape : TypeShape := .node (.name (text "i64")) []

theorem wellFormed_i64Shape : WellFormed false i64Shape := by
  refine .name ⟨?_, ?_, ?_⟩ ?_ fun a ha => absurd ha List.not_mem_nil
  all_goals decide +kernel

theorem declares_i64Function {type : TypeExprId} {shape : TypeShape} (hshape : WellFormed false shape)
    (h : shapeOf i64Snapshot.typeExpressions 4 type = shape) :
    Declares i64Snapshot (i64Function type) ⟨[shape], false, none⟩ where
  types := by
    have hself : implicitSelf (i64Function type) = false := by simp [implicitSelf, i64Function]
    rw [hself, if_neg Bool.false_ne_true, ← h]
    rfl
  isVariadic := rfl
  ownerArguments := rfl
  wellFormed := ⟨fun t ht => by rwa [List.mem_singleton.mp ht], fun names hnames => by cases hnames⟩

/-- An ownership qualifier makes no other signature. -/
theorem signatures_identify_lend : functionSignature i64Snapshot (i64Function 1) =
    functionSignature i64Snapshot (i64Function 2) := by
  have hplain := @declares_i64Function 1 _ wellFormed_i64Shape rfl
  have hlend := @declares_i64Function 2 _ wellFormed_i64Shape rfl
  exact ((signatures_identify_iff hplain hlend).mpr fun _ => rfl).mpr rfl

/-- Parentheses make another signature: `fn f(a: i64)` and `fn f(a: (i64))` are taken for two overloads. -/
theorem parenthesized_overloads : ∃ parameters parameters', Declares i64Snapshot (i64Function 1) parameters ∧
    Declares i64Snapshot (i64Function 3) parameters' ∧ parameters.bare = parameters'.bare ∧
    functionSignature i64Snapshot (i64Function 1) ≠ functionSignature i64Snapshot (i64Function 3) := by
  refine ⟨_, _, declares_i64Function wellFormed_i64Shape rfl,
    declares_i64Function (.parenthesized wellFormed_i64Shape) rfl, ?_, by decide +kernel⟩
  simp [ParameterList.bare, TypeShape.bare]

end Zith.Frontend
