import Zith.Sema.ConstantExactness

/-! The discriminants of an enum. An explicit one is a constant expression that is tested against the underlying type,
    an implicit one is the successor of the one in front of it, and is not tested. -/

namespace Zith.Sema
open Zith.Frontend

/-- An integer type of `bits > 0` bits. -/
structure UnderlyingType where
  bits : ℕ
  isSigned : Bool
  bits_pos : 0 < bits

namespace UnderlyingType

def lowest (u : UnderlyingType) : ℤ := if u.isSigned then -2 ^ (u.bits - 1) else 0

def largest (u : UnderlyingType) : ℤ := if u.isSigned then 2 ^ (u.bits - 1) - 1 else 2 ^ u.bits - 1

end UnderlyingType

/-- A value of the type. -/
def InType (u : UnderlyingType) (v : ℤ) : Prop := u.lowest ≤ v ∧ v ≤ u.largest

instance (u : UnderlyingType) (v : ℤ) : Decidable (InType u v) := inferInstanceAs (Decidable (_ ∧ _))

structure EnumVariant where
  name : String
  defaultValue : Option ℕ

/-- The three reports of the loop. -/
inductive EnumError
  | duplicateVariant (name : String)
  | outOfRange
  | notConstant
  deriving DecidableEq

/-- `underlying` is the type behind aliases; `intType` is what is found behind qualifiers alone. -/
structure EnumDecl where
  underlying : UnderlyingType
  intType : Option UnderlyingType
  variants : List EnumVariant
  intType_eq : ∀ u ∈ intType, u = underlying

structure EnumState where
  variants : Variants := []
  nextValue : ℤ := 0
  errors : List EnumError := []

def fitsSigned (intType : Option UnderlyingType) (disc : ℤ) : Bool :=
  match intType with
  | none => true
  | some u =>
    if !u.isSigned ∨ 64 ≤ u.bits then true
    else
      let max : ℤ := 2 ^ (u.bits - 1) - 1
      decide (-max - 1 ≤ disc ∧ disc ≤ max)

def fitsUnsigned (intType : Option UnderlyingType) (disc : ℤ) : Bool :=
  match intType with
  | none => true
  | some u =>
    if u.isSigned then true
    else if disc < 0 then false
    else if 64 ≤ u.bits then true
    else disc ≤ 2 ^ u.bits - 1

/-- `next_value++` wraps around. -/
def EnumState.push (s : EnumState) (name : String) (value : ℤ) (errors : List EnumError) : EnumState where
  variants := s.variants ++ [(name, value)]
  nextValue := (value + 1).bmod (2 ^ 64)
  errors := s.errors ++ errors

namespace ConstantScope

variable (C : ConstantScope)

/-- One turn of the loop over the variants. -/
def addVariant (intType : Option UnderlyingType) (s : EnumState) (variant : EnumVariant) : EnumState :=
  let duplicates := if s.variants.any fun v => v.1 = variant.name then [EnumError.duplicateVariant variant.name] else []
  match variant.defaultValue with
  | none => s.push variant.name s.nextValue duplicates
  | some id =>
    match C.evaluate s.variants 65 id with
    | some disc =>
      s.push variant.name disc
        (duplicates ++ if fitsSigned intType disc && fitsUnsigned intType disc then [] else [.outOfRange])
    | none => s.push variant.name s.nextValue (duplicates ++ [.notConstant])

/-- The discriminants of a declaration, and the reports. -/
def declareEnum (decl : EnumDecl) : EnumState := decl.variants.foldl (C.addVariant decl.intType) {}

/-- What the explicit discriminants are evaluated to. -/
def givenValues (intType : Option UnderlyingType) : EnumState → List EnumVariant → List (Option ℤ)
  | _, [] => []
  | s, variant :: variants =>
    variant.defaultValue.bind (C.evaluate s.variants 65) :: givenValues intType (C.addVariant intType s variant) variants

end ConstantScope

/-! ### Successors -/

/-- The discriminants that are meant: an implicit one is the successor of the one in front of it. -/
def successors : ℤ → List (Option ℤ) → List ℤ
  | _, [] => []
  | next, given :: rest => given.getD next :: successors (given.getD next + 1) rest

/-- Those of them that are implicit. -/
def implicitValues : ℤ → List (Option ℤ) → List ℤ
  | _, [] => []
  | next, none :: rest => next :: implicitValues (next + 1) rest
  | _, some value :: rest => implicitValues (value + 1) rest

/-- The discriminants with a counter that wraps around. -/
def wrapped : ℤ → List (Option ℤ) → List ℤ
  | _, [] => []
  | next, given :: rest => given.getD next :: wrapped ((given.getD next + 1).bmod (2 ^ 64)) rest

theorem bmod_of_inInt64 {v : ℤ} (h : InInt64 v) : v.bmod (2 ^ 64) = v := by
  obtain ⟨hlow, hhigh⟩ := h
  rw [Int.bmod_def]
  omega

theorem bmod_two_pow_63 : (2 ^ 63 : ℤ).bmod (2 ^ 64) ≠ 2 ^ 63 := by decide

section
variable {u : UnderlyingType}

/-- The counter counts on, and its values are in the type, where no implicit value is too large. -/
theorem wrapped_iff : ∀ {given : List (Option ℤ)} {next : ℤ}, (∀ v, some v ∈ given → InInt64 v) →
    -2 ^ 63 ≤ next → next ≤ 2 ^ 63 → u.lowest ≤ next →
    ((wrapped (next.bmod (2 ^ 64)) given = successors next given ∧ ∀ d ∈ successors next given, InType u d) ↔
      (∀ d ∈ implicitValues next given, d ≤ u.largest ∧ d < 2 ^ 63) ∧ ∀ v, some v ∈ given → InType u v)
  | [], _, _, _, _, _ => by simp [wrapped, successors, implicitValues]
  | none :: given, next, hgiven, hlow, hhigh, hlowest => by
    have hrest : ∀ v, some v ∈ given → InInt64 v := fun v hv => hgiven v (List.mem_cons_of_mem _ hv)
    simp only [wrapped, successors, implicitValues, Option.getD_none, List.cons.injEq, List.forall_mem_cons]
    by_cases hmax : next = 2 ^ 63
    · refine iff_of_false (fun h => ?_) fun h => ?_
      · rw [hmax] at h
        exact bmod_two_pow_63 h.1.1
      · exact absurd h.1.1.2 (by omega)
    · have hnext := bmod_of_inInt64 (v := next) ⟨hlow, by omega⟩
      have ih := @wrapped_iff given (next + 1) hrest (by omega) (by omega) (by omega)
      have hmem : (∀ v, some v ∈ none :: given → InType u v) ↔ ∀ v, some v ∈ given → InType u v := by simp
      rw [hnext, hmem]
      constructor
      · rintro ⟨⟨-, hwrapped⟩, hfirst, hall⟩
        obtain ⟨himplicit, hexplicit⟩ := ih.mp ⟨hwrapped, hall⟩
        exact ⟨⟨⟨hfirst.2, by omega⟩, himplicit⟩, hexplicit⟩
      · rintro ⟨⟨⟨hfirst, -⟩, himplicit⟩, hexplicit⟩
        obtain ⟨hwrapped, hall⟩ := ih.mpr ⟨himplicit, hexplicit⟩
        exact ⟨⟨rfl, hwrapped⟩, ⟨hlowest, hfirst⟩, hall⟩
  | some value :: given, next, hgiven, hlow, hhigh, hlowest => by
    have hrest : ∀ v, some v ∈ given → InInt64 v := fun v hv => hgiven v (List.mem_cons_of_mem _ hv)
    obtain ⟨hvlow, hvhigh⟩ := hgiven value List.mem_cons_self
    have hmem : (∀ v, some v ∈ some value :: given → InType u v) ↔ InType u value ∧ ∀ v, some v ∈ given → InType u v := by
      simp
    simp only [wrapped, successors, implicitValues, Option.getD_some, List.cons.injEq, List.forall_mem_cons, true_and]
    rw [hmem]
    by_cases hvalue : InType u value
    · have ih := @wrapped_iff given (value + 1) hrest (by omega) (by omega)
        (by have := hvalue.1; omega)
      constructor
      · rintro ⟨hwrapped, -, hall⟩
        obtain ⟨himplicit, hexplicit⟩ := ih.mp ⟨hwrapped, hall⟩
        exact ⟨himplicit, hvalue, hexplicit⟩
      · rintro ⟨himplicit, -, hexplicit⟩
        obtain ⟨hwrapped, hall⟩ := ih.mpr ⟨himplicit, hexplicit⟩
        exact ⟨hwrapped, hvalue, hall⟩
    · exact iff_of_false (fun h => hvalue h.2.1) fun h => hvalue h.2.1

end

/-! ### The loop -/

section
variable {C : ConstantScope} {intType : Option UnderlyingType} {s : EnumState}

/-- What one turn appends. -/
theorem addVariant_eq (s : EnumState) (variant : EnumVariant) : ∃ errors, C.addVariant intType s variant =
      s.push variant.name ((variant.defaultValue.bind (C.evaluate s.variants 65)).getD s.nextValue) errors ∧
    (errors = [] → ∀ id ∈ variant.defaultValue, ∃ v, C.evaluate s.variants 65 id = some v ∧
      fitsSigned intType v ∧ fitsUnsigned intType v) := by
  rw [ConstantScope.addVariant]
  cases hdefault : variant.defaultValue with
  | none => exact ⟨_, rfl, fun _ id hid => by cases hid⟩
  | some id =>
    cases hvalue : C.evaluate s.variants 65 id with
    | none =>
      simp only [Option.bind_some, hvalue, Option.getD_none]
      exact ⟨_, rfl, fun h => absurd h (by simp)⟩
    | some v =>
      simp only [Option.bind_some, hvalue, Option.getD_some]
      refine ⟨_, rfl, fun h id' hid' => ?_⟩
      obtain rfl := Option.some.inj hid'
      refine ⟨v, hvalue, ?_⟩
      by_contra hnot
      have hfits := (List.append_eq_nil_iff.mp h).2
      rw [if_neg (by simpa using hnot)] at hfits
      cases hfits

/-- All values of the variants are in the range. -/
def EnumState.Valid (s : EnumState) : Prop := (∀ v ∈ s.variants, InInt64 v.2) ∧ InInt64 s.nextValue

theorem mem_of_lookup {text : String} {v : ℤ} : ∀ {variants : Variants}, variants.lookup text = some v →
    (text, v) ∈ variants
  | (name, value) :: variants, h => by
    rw [List.lookup_cons] at h
    split at h
    · next heq =>
      obtain rfl := Option.some.inj h
      obtain rfl : text = name := by simpa using heq
      exact List.mem_cons_self
    · exact List.mem_cons_of_mem _ (mem_of_lookup h)

theorem EnumState.Valid.inRange (h : s.Valid) : ConstantScope.InRange s.variants :=
  fun _ _ hlookup => h.1 _ (mem_of_lookup hlookup)

theorem inInt64_bmod (v : ℤ) : InInt64 (v.bmod (2 ^ 64)) := by
  rw [Int.bmod_def]
  constructor <;> omega

theorem EnumState.Valid.push (h : s.Valid) {name : String} {value : ℤ} {errors : List EnumError}
    (hvalue : InInt64 value) : (s.push name value errors).Valid := by
  refine ⟨fun v hv => ?_, inInt64_bmod _⟩
  rcases List.mem_append.mp hv with hv | hv
  · exact h.1 v hv
  · obtain rfl := List.mem_singleton.mp hv
    exact hvalue

theorem given_inInt64 (h : s.Valid) {variant : EnumVariant} {v : ℤ}
    (hv : variant.defaultValue.bind (C.evaluate s.variants 65) = some v) : InInt64 v := by
  obtain ⟨id, -, hvalue⟩ := Option.bind_eq_some_iff.mp hv
  exact ConstantScope.evaluate_inInt64 h.inRange hvalue

/-- The loop over the variants: its discriminants are the given values and the counter's, and if it reports nothing
    every given value has passed the test. -/
theorem foldl_addVariant : ∀ (variants : List EnumVariant) (s : EnumState), s.Valid →
    (∀ v, some v ∈ C.givenValues intType s variants → InInt64 v) ∧
    (variants.foldl (C.addVariant intType) s).variants.map Prod.snd =
      s.variants.map Prod.snd ++ wrapped s.nextValue (C.givenValues intType s variants) ∧
    ((variants.foldl (C.addVariant intType) s).errors = [] → s.errors = [] ∧
      ∀ v, some v ∈ C.givenValues intType s variants → fitsSigned intType v ∧ fitsUnsigned intType v)
  | [], s, _ => by simp [ConstantScope.givenValues, wrapped]
  | variant :: variants, s, hs => by
    obtain ⟨errors, hstep, hchecked⟩ := @addVariant_eq C intType s variant
    have hvalue : InInt64 ((variant.defaultValue.bind (C.evaluate s.variants 65)).getD s.nextValue) := by
      cases hgiven : variant.defaultValue.bind (C.evaluate s.variants 65) with
      | none => exact hs.2
      | some v => exact given_inInt64 hs hgiven
    obtain ⟨hrange, hvariants, herrors⟩ := foldl_addVariant variants (C.addVariant intType s variant)
      (hstep ▸ hs.push hvalue)
    rw [List.foldl_cons, ConstantScope.givenValues]
    refine ⟨fun v hv => ?_, ?_, fun hnone => ?_⟩
    · rcases List.mem_cons.mp hv with hv | hv
      · exact given_inInt64 hs hv.symm
      · exact hrange v hv
    · rw [hvariants, wrapped]
      conv_lhs => rw [hstep]
      simp [EnumState.push, hstep]
    · obtain ⟨hstepErrors, hrest⟩ := herrors hnone
      rw [hstep] at hstepErrors
      obtain ⟨hbefore, herrors⟩ := List.append_eq_nil_iff.mp hstepErrors
      refine ⟨hbefore, fun v hv => ?_⟩
      rcases List.mem_cons.mp hv with hv | hv
      · obtain ⟨id, hid, hval⟩ := Option.bind_eq_some_iff.mp hv.symm
        obtain ⟨w, hw, hfits⟩ := hchecked herrors id hid
        obtain rfl := Option.some.inj (hval.symm.trans hw)
        exact hfits
      · exact hrest v hv

end

/-! ### What is accepted -/

theorem fits_iff {u : UnderlyingType} {v : ℤ} (hv : InInt64 v) :
    (fitsSigned (some u) v ∧ fitsUnsigned (some u) v) ↔ InType u v := by
  obtain ⟨hlow, hhigh⟩ := hv
  obtain ⟨bits, isSigned, hbits⟩ := u
  rw [InType, UnderlyingType.lowest, UnderlyingType.largest, fitsSigned, fitsUnsigned]
  cases isSigned
  · by_cases hlarge : 64 ≤ bits
    · have hpow : (2 : ℤ) ^ 64 ≤ 2 ^ bits := by
        exact_mod_cast Nat.pow_le_pow_right (by decide : 0 < 2) hlarge
      by_cases hneg : v < 0
      · simp [hlarge, hneg]
      · simp [hlarge, hneg]
        omega
    · by_cases hneg : v < 0
      · simp [hlarge, hneg]
      · simp [hlarge, hneg]
        omega
  · by_cases hlarge : 64 ≤ bits
    · have hpow : (2 : ℤ) ^ 63 ≤ 2 ^ (bits - 1) := by
        exact_mod_cast Nat.pow_le_pow_right (by decide : 0 < 2) (by omega)
      simp [hlarge]
      omega
    · simp [hlarge]

theorem lowest_le_zero (u : UnderlyingType) : u.lowest ≤ 0 := by
  rw [UnderlyingType.lowest]
  split_ifs
  · have hpos : (0 : ℤ) < 2 ^ (u.bits - 1) := Int.pow_pos (by decide)
    omega
  · exact le_rfl

/-- What the evaluators accept is the exact value, where no literal is a bit pattern and, for a discriminant, no left
    shift loses bits; on what both accept they agree. The discriminants of an accepted enum count on and lie in the
    underlying type, where no implicit one is too large for it, and no explicit one that an alias has kept from the
    test. -/
theorem constants_exact (C : ConstantScope) :
    (∀ variants id v, ConstantScope.InRange variants → C.evaluate variants 65 id = some v →
      (C.Exact variants id v ↔ C.SmallLiterals variants id ∧ C.LosslessShifts variants id)) ∧
    (∀ id v, C.alignmentIntegerValue 65 id = some v → (C.Exact [] id v ↔ C.SmallLiterals [] id)) ∧
    (∀ variants id v w, ConstantScope.InRange variants → C.evaluate variants 65 id = some v →
      C.alignmentIntegerValue 65 id = some w → C.NoVariants variants id → v = w) ∧
    ∀ decl : EnumDecl, (C.declareEnum decl).errors = [] →
      (((C.declareEnum decl).variants.map Prod.snd = successors 0 (C.givenValues decl.intType {} decl.variants) ∧
        ∀ d ∈ (C.declareEnum decl).variants.map Prod.snd, InType decl.underlying d) ↔
        (∀ d ∈ implicitValues 0 (C.givenValues decl.intType {} decl.variants), d ≤ decl.underlying.largest ∧ d < 2 ^ 63) ∧
        (decl.intType = none → ∀ v, some v ∈ C.givenValues decl.intType {} decl.variants → InType decl.underlying v)) := by
  refine ⟨fun variants id v hvariants hv => ?_, fun id v hv => ?_, fun variants id v w hvariants hv hw hnames => ?_,
    fun decl hnone => ?_⟩
  · exact ⟨fun h => ⟨h.smallLiterals, h.losslessShifts⟩, fun h => C.evaluate_exact hvariants hv h.1 h.2⟩
  · exact ⟨fun h => h.smallLiterals, fun h => C.alignment_exact hv h⟩
  · exact C.evaluate_alignment hvariants hv hw hnames
  · have hvalid : ({} : EnumState).Valid := ⟨nofun, by decide⟩
    obtain ⟨hrange, hvariants, herrors⟩ := @foldl_addVariant C decl.intType decl.variants {} hvalid
    have hchecked := (herrors hnone).2
    have hiff := wrapped_iff (u := decl.underlying) hrange (show -2 ^ 63 ≤ (0 : ℤ) by decide)
      (show (0 : ℤ) ≤ 2 ^ 63 by decide) (lowest_le_zero _)
    have hzero : (0 : ℤ).bmod (2 ^ 64) = 0 := by decide
    have hdiscs : (C.declareEnum decl).variants.map Prod.snd = wrapped 0 (C.givenValues decl.intType {} decl.variants) := by
      rw [ConstantScope.declareEnum, hvariants]
      rfl
    rw [hzero] at hiff
    -- what a test has passed is in the type
    have hexplicit : decl.intType ≠ none → ∀ v, some v ∈ C.givenValues decl.intType {} decl.variants →
        InType decl.underlying v := by
      intro hsome v hv
      obtain ⟨u, hu⟩ := Option.ne_none_iff_exists'.mp hsome
      have hfits := hchecked v hv
      rw [hu] at hfits
      rw [← decl.intType_eq u hu]
      exact (fits_iff (hrange v hv)).mp hfits
    rw [hdiscs]
    constructor
    · rintro ⟨hcount, hall⟩
      obtain ⟨himplicit, hgiven⟩ := hiff.mp ⟨hcount, hcount ▸ hall⟩
      exact ⟨himplicit, fun _ => hgiven⟩
    · rintro ⟨himplicit, halias⟩
      have hgiven : ∀ v, some v ∈ C.givenValues decl.intType {} decl.variants → InType decl.underlying v := by
        by_cases h : decl.intType = none
        · exact halias h
        · exact hexplicit h
      obtain ⟨hcount, hall⟩ := hiff.mpr ⟨himplicit, hgiven⟩
      exact ⟨hcount, hcount ▸ hall⟩

/-- `4`, `62`, `4 << 62` and `255`. -/
def shiftScope : ConstantScope where
  expression id := [.other, .literal [52], .literal [54, 50], .binary .shl [1, 2], .literal [50, 53, 53]][id]?
  initializer _ := none
  isConstant _ := false
  isOwnEnum _ := false

/-- `u8`. -/
def byteType : UnderlyingType := ⟨8, false, by decide⟩

/-- `enum E: u8 { A = 255, B }`. -/
def fullByte : EnumDecl := ⟨byteType, some byteType, [⟨"A", some 4⟩, ⟨"B", none⟩], by simp⟩

theorem spelled_four : Spelled [52] 4 := ⟨⟨false, 10, [52]⟩, 4, by decide +kernel, by decide +kernel, rfl⟩

theorem spelled_sixtyTwo : Spelled [54, 50] 62 := ⟨⟨false, 10, [54, 50]⟩, 62, by decide +kernel, by decide +kernel, rfl⟩

theorem exact_literal {id : ℕ} {text : Text} {v w : ℤ} (hexpr : shiftScope.expression id = some (.literal text))
    (hspelled : Spelled text w) (h : shiftScope.Exact [] id v) : v = w := by
  cases h with
  | literal hexpr' hspelled' _ =>
    obtain rfl : _ = _ := by simpa [hexpr] using hexpr'
    exact hspelled'.unique hspelled
  | _ hexpr' => simp [hexpr] at hexpr'

theorem constants_exact_literal : shiftScope.Exact [] 1 4 := by
  refine ((constants_exact shiftScope).1 [] 1 4 nofun (by decide +kernel)).mpr ⟨?_, ?_⟩
  · intro sub text v hsub hexpr hspelled
    cases hsub with
    | refl =>
      obtain rfl : [52] = text := by simpa [shiftScope] using hexpr
      rw [hspelled.unique spelled_four]
      decide
    | _ hexpr' => simp [shiftScope] at hexpr'
  · intro sub a b rest x y v hsub hexpr
    cases hsub with
    | refl => simp [shiftScope] at hexpr
    | _ hexpr' => simp [shiftScope] at hexpr'

/-- The shift loses all bits of the discriminant, and the alignment rejects it. The successor of 255 is no byte. -/
theorem constants_shift : shiftScope.evaluate [] 65 3 = some 0 ∧ shiftScope.alignmentIntegerValue 65 3 = none ∧
    ¬(∃ v, shiftScope.Exact [] 3 v) ∧ (shiftScope.declareEnum fullByte).errors = [] ∧
    ("B", 256) ∈ (shiftScope.declareEnum fullByte).variants ∧ ¬InType byteType 256 := by
  refine ⟨by decide +kernel, by decide +kernel, ?_, by decide +kernel, by decide +kernel, by decide +kernel⟩
  rintro ⟨v, hv⟩
  have hexpr : shiftScope.expression 3 = some (.binary .shl [1, 2]) := rfl
  cases hv with
  | binary hexpr' hx hy hvalue hrange =>
    obtain ⟨rfl, rfl, rfl, rfl⟩ : _ ∧ _ ∧ _ ∧ _ := by simpa [hexpr] using hexpr'
    obtain rfl := exact_literal rfl spelled_four hx
    obtain rfl := exact_literal rfl spelled_sixtyTwo hy
    obtain rfl := Option.some.inj hvalue
    exact absurd hrange (by decide)
  | _ hexpr' => simp [hexpr] at hexpr'

end Zith.Sema
