import Mathlib.Data.List.Induction
import Zith.Sema.NumericLiterals

/-! Integer constants and the types that are recorded for them. Nothing compares a literal with its type, so that it is
    in the type exactly where the program has it so: the last type that it is adapted to, or else the type of its suffix
    or `i32`, has to hold the value. A cast compares the bits of the constant, read as a signed number. -/

namespace Zith.Sema
open Zith.Frontend
open Zith.Types (TypeId Entry PerModuleSema orTry)

/-! ### Casts -/

/-- Where the signed reading of the bits tells whether a constant is in the target. -/
def CastKeeps (source target : UnderlyingType) (w : ℤ) : Prop :=
  if target.isSigned then 64 < target.bits ∨ InInt64 w ∨ ¬InType target (w.bmod (2 ^ 64))
  else 0 ≤ w ∨ source.isSigned ∧ -2 ^ 63 ≤ w ∨ target.bits < 64 ∧ 2 ^ target.bits ≤ w + 2 ^ 64

instance (source target : UnderlyingType) (w : ℤ) : Decidable (CastKeeps source target w) := by
  unfold CastKeeps
  infer_instance

/-- The signed reading of 64 bits. -/
theorem bmod_cases (w : ℤ) (hlow : -2 ^ 64 < w) (hhigh : w < 2 ^ 64) :
    InInt64 w ∧ w.bmod (2 ^ 64) = w ∨ 2 ^ 63 ≤ w ∧ w.bmod (2 ^ 64) = w - 2 ^ 64 ∨
      w < -2 ^ 63 ∧ w.bmod (2 ^ 64) = w + 2 ^ 64 := by
  rw [Int.bmod_def, InInt64]
  omega

theorem two_pow_le {m n : ℕ} (h : m ≤ n) : (2 : ℤ) ^ m ≤ 2 ^ n := pow_le_pow_right₀ (by decide) h

theorem inType_signed {target : UnderlyingType} (hsigned : target.isSigned) (w : ℤ) :
    InType target w ↔ -2 ^ (target.bits - 1) ≤ w ∧ w ≤ 2 ^ (target.bits - 1) - 1 := by
  simp [InType, UnderlyingType.lowest, UnderlyingType.largest, hsigned]

theorem inType_unsigned {target : UnderlyingType} (hunsigned : target.isSigned = false) (w : ℤ) :
    InType target w ↔ 0 ≤ w ∧ w ≤ 2 ^ target.bits - 1 := by
  simp [InType, UnderlyingType.lowest, UnderlyingType.largest, hunsigned]

variable {source target : UnderlyingType}

/-- The test of a narrowing cast at a signed type. -/
theorem constantIntegerFits_signed (hsigned : target.isSigned) (hnarrow : target.bits < source.bits) {v : ℤ}
    (hv : InInt64 v) : constantIntegerFits source target v ↔ 64 ≤ target.bits ∨ InType target v := by
  rw [constantIntegerFits, if_neg fun h => by omega, if_pos hsigned, inType_signed hsigned]
  obtain ⟨hlow, hhigh⟩ := hv
  by_cases hbits : 64 ≤ target.bits
  · simp only [hbits, if_true, if_neg (Nat.not_lt.mpr hbits), true_or, iff_true, decide_eq_true_eq, minInt64, maxInt64]
    omega
  · simp only [hbits, if_false, if_pos (Nat.lt_of_not_le hbits), false_or, decide_eq_true_eq]
    constructor
    · rintro ⟨hmin, hmax⟩
      exact ⟨by linarith, hmax⟩
    · rintro ⟨hmin, hmax⟩
      exact ⟨by linarith, hmax⟩

theorem constantIntegerFits_unsigned (hunsigned : target.isSigned = false)
    (hnarrow : target.bits < source.bits) (v : ℤ) : constantIntegerFits source target v ↔
      ¬(source.isSigned ∧ v < 0) ∧ (64 ≤ target.bits ∨ v % 2 ^ 64 ≤ 2 ^ target.bits - 1) := by
  rw [constantIntegerFits, if_neg fun h => by omega, if_neg (by simp [hunsigned])]
  split_ifs with hnegative hbits
  · simp [hnegative]
  · simp [hnegative, hbits]
  · simp only [decide_eq_true_eq, hbits, false_or]
    exact ⟨fun h => ⟨hnegative, h⟩, fun h => h.2⟩

/-- A cast that is accepted keeps its constant, just where the bits tell. -/
theorem constantIntegerFits_iff (hnarrow : target.bits < source.bits) {w : ℤ} (hlow : -2 ^ 64 < w)
    (hhigh : w < 2 ^ 64) :
    (constantIntegerFits source target (w.bmod (2 ^ 64)) → InType target w) ↔ CastKeeps source target w := by
  have hbmod := bmod_cases w hlow hhigh
  rw [CastKeeps]
  cases hsigned : target.isSigned with
  | true =>
    have hv : InInt64 (w.bmod (2 ^ 64)) := by
      rcases hbmod with ⟨h, heq⟩ | ⟨h, heq⟩ | ⟨h, heq⟩
      · rwa [heq]
      · rw [heq, InInt64]
        omega
      · rw [heq, InInt64]
        omega
    rw [constantIntegerFits_signed hsigned hnarrow hv, if_pos rfl]
    rcases lt_trichotomy target.bits 64 with hbits | hbits | hbits
    · have hsmall : (2 : ℤ) ^ (target.bits - 1) ≤ 2 ^ 63 := two_pow_le (by omega)
      by_cases hin : InInt64 w
      · have heq : w.bmod (2 ^ 64) = w := bmod_of_inInt64 hin
        simp only [heq, hin, true_or, or_true, iff_true]
        rintro (h | h)
        · omega
        · exact h
      · have hnot : ¬InType target w := by
          rw [inType_signed hsigned]
          rintro ⟨h, h'⟩
          exact hin ⟨by linarith, by linarith⟩
        simp only [hnot, hin, false_or, imp_false, not_or]
        constructor
        · rintro ⟨-, h⟩
          exact .inr h
        · rintro (h | h)
          · omega
          · exact ⟨by omega, h⟩
    · have hin : ∀ x, InType target x ↔ InInt64 x := fun x => by
        rw [inType_signed hsigned, hbits, InInt64]
        norm_num
        omega
      simp only [hin, hv, hbits, le_refl, true_or, forall_true_left, lt_irrefl, not_true_eq_false, or_false, false_or]
    · have hlarge : (2 : ℤ) ^ 64 ≤ 2 ^ (target.bits - 1) := two_pow_le (by omega)
      refine iff_of_true (fun _ => ?_) (.inl hbits)
      rw [inType_signed hsigned]
      exact ⟨by linarith, by linarith⟩
  | false =>
    rw [constantIntegerFits_unsigned hsigned hnarrow, inType_unsigned hsigned, if_neg (by decide)]
    by_cases hnonneg : 0 ≤ w
    · refine iff_of_true ?_ (.inl hnonneg)
      rintro ⟨-, hbits | hvalue⟩
      · have hlarge : (2 : ℤ) ^ 64 ≤ 2 ^ target.bits := two_pow_le hbits
        exact ⟨hnonneg, by linarith⟩
      · have heq : w.bmod (2 ^ 64) % 2 ^ 64 = w := by omega
        exact ⟨hnonneg, heq ▸ hvalue⟩
    · have heq : w.bmod (2 ^ 64) % 2 ^ 64 = w + 2 ^ 64 := by omega
      have hsign : w.bmod (2 ^ 64) < 0 ↔ -2 ^ 63 ≤ w := by
        rw [InInt64] at hbmod
        omega
      rw [heq, hsign]
      constructor
      · intro h
        by_cases hsource : source.isSigned ∧ -2 ^ 63 ≤ w
        · exact .inr (.inl hsource)
        · refine .inr (.inr ?_)
          by_contra hbits
          refine hnonneg (h ⟨hsource, ?_⟩).1
          by_cases hwide : 64 ≤ target.bits
          · exact .inl hwide
          · refine .inr ?_
            have := not_le.mp fun h => hbits ⟨Nat.lt_of_not_le hwide, h⟩
            omega
      · rintro (h | h | ⟨hbits, h⟩) ⟨hsource, hvalue⟩
        · exact absurd h hnonneg
        · exact absurd h hsource
        · rcases hvalue with hvalue | hvalue
          · omega
          · omega

/-- `18446744073709551615` at `u64` is read as `-1`, and passes for an `i32`. -/
example : ¬CastKeeps ⟨64, false, by decide⟩ ⟨32, true, by decide⟩ (2 ^ 64 - 1) := by decide

/-! ### Constants -/

namespace ConstantScope

/-- A literal or a negated literal: its text and its value. -/
inductive Constant (C : ConstantScope) : ℕ → Text → ℤ → Prop
  | literal {id : ℕ} {literal : Text} {w : ℤ} : C.expression id = some (.literal literal) → Spelled literal w →
      Constant C id literal w
  | minus {id a : ℕ} {rest : List ℕ} {literal : Text} {w : ℤ} : C.expression id = some (.unary .minus (a :: rest)) →
      Constant C a literal w → Constant C id literal (-w)

/-- The value of a constant, or of a name that stands for one. -/
inductive Known (C : ConstantScope) : ℕ → ℤ → Prop
  | constant {id : ℕ} {literal : Text} {w : ℤ} : C.Constant id literal w → Known C id w
  | name {id i : ℕ} {name : String} {w : ℤ} : C.expression id = some (.name name) → C.isConstant id →
      C.initializer id = some i → Known C i w → Known C id w

/-- `a` stands under minus signs in `id`. -/
inductive Under (C : ConstantScope) (id : ℕ) : ℕ → Prop
  | refl : Under C id id
  | operand {p a : ℕ} {rest : List ℕ} : Under C id p → C.expression p = some (.unary .minus (a :: rest)) → Under C id a

variable {C : ConstantScope} {id : ℕ} {literal : Text} {w : ℤ}

theorem Constant.of_minus {a : ℕ} {rest : List ℕ} (h : C.Constant id literal w)
    (hexpr : C.expression id = some (.unary .minus (a :: rest))) : ∃ v, C.Constant a literal v ∧ w = -v := by
  cases h with
  | literal hliteral _ => exact absurd (hliteral.symm.trans hexpr) (by simp)
  | minus hminus ha =>
    have heq := hminus.symm.trans hexpr
    simp only [Option.some.injEq, ConstantExpr.unary.injEq, List.cons.injEq, true_and] at heq
    obtain ⟨rfl, -⟩ := heq
    exact ⟨_, ha, rfl⟩

theorem Constant.of_literal {literal' : Text} (h : C.Constant id literal w)
    (hexpr : C.expression id = some (.literal literal')) : literal = literal' ∧ Spelled literal w := by
  cases h with
  | literal hliteral hspelled =>
    have heq := hliteral.symm.trans hexpr
    simp only [Option.some.injEq, ConstantExpr.literal.injEq] at heq
    exact ⟨heq, hspelled⟩
  | minus hminus _ => exact absurd (hminus.symm.trans hexpr) (by simp)

/-- All of a constant is a constant of the same literal. -/
theorem Constant.under {a : ℕ} (h : C.Constant id literal w) (hunder : C.Under id a) : ∃ v, C.Constant a literal v := by
  induction hunder with
  | refl => exact ⟨w, h⟩
  | operand _ hexpr ih =>
    obtain ⟨v, hv⟩ := ih
    obtain ⟨v', ha, -⟩ := hv.of_minus hexpr
    exact ⟨v', ha⟩

theorem Under.head {x a : ℕ} {rest : List ℕ} (hexpr : C.expression id = some (.unary .minus (x :: rest)))
    (h : C.Under x a) : C.Under id a := by
  induction h with
  | refl => exact .operand .refl hexpr
  | operand _ hp ih => exact .operand ih hp

theorem Under.trans {a b : ℕ} (h : C.Under id a) (h' : C.Under a b) : C.Under id b := by
  induction h' with
  | refl => exact h
  | operand _ hp ih => exact .operand ih hp

/-- Nothing is above a root. -/
theorem Under.root (o : C.Root) (h : C.Under id o.1) : id = o.1 := by
  generalize heq : o.1 = a at h
  cases h with
  | refl => rfl
  | operand _ hexpr => exact absurd (heq ▸ hexpr) (o.2 _ _)

/-- The number that the probe reads, and its bits. -/
theorem literalValue_bmod {v : ℤ} (hv : literalValue literal = some v) (h : Spelled literal w) :
    v = w.bmod (2 ^ 64) ∧ -2 ^ 64 < w ∧ w < 2 ^ 64 := by
  rw [literalValue] at hv
  split at hv
  · next hparse =>
    obtain rfl := Option.some.inj hv
    obtain ⟨⟨hlow, hhigh⟩, w', hspelled, hw', heq⟩ := parseIntegerLiteral_spelled hparse
    obtain rfl := h.unique hspelled
    rw [Int.bmod_def]
    split_ifs at heq with hsmall <;> omega
  · cases hv

theorem constantIntegerValue_bmod : ∀ {depth id : ℕ} {v w : ℤ}, C.constantIntegerValue depth id = some (some v) →
    C.Constant id literal w → v = w.bmod (2 ^ 64) ∧ -2 ^ 64 < w ∧ w < 2 ^ 64
  | depth + 1, id, v, w, hv, h => by
    rw [constantIntegerValue] at hv
    split at hv
    · next hexpr =>
      obtain ⟨u, ha, rfl⟩ := h.of_minus hexpr
      simp only [Option.map_eq_some_iff] at hv
      obtain ⟨_, hoperand, x, rfl, rfl⟩ := hv
      obtain ⟨rfl, hlow, hhigh⟩ := constantIntegerValue_bmod hoperand ha
      refine ⟨?_, by omega, by omega⟩
      rw [Int.bmod_def, Int.bmod_def, Int.bmod_def]
      split_ifs <;> omega
    · next hexpr =>
      obtain ⟨rfl, hspelled⟩ := h.of_literal hexpr
      exact literalValue_bmod (Option.some.inj hv) hspelled
    · cases hv

theorem known_bmod : ∀ {depth id : ℕ} {v w : ℤ}, C.known depth id = some (some v) → C.Known id w →
    v = w.bmod (2 ^ 64) ∧ -2 ^ 64 < w ∧ w < 2 ^ 64
  | depth + 1, id, v, w, hv, h => by
    rw [known] at hv
    cases h with
    | constant h =>
      split at hv
      · next hname => cases h <;> exact absurd (hname.symm.trans ‹_›) (by simp)
      · exact constantIntegerValue_bmod hv h
    | name hname hconstant hinit hi =>
      simp only [hname, hconstant, if_true, hinit] at hv
      exact known_bmod hv hi

end ConstantScope

/-! ### An integer literal by itself -/

theorem dot_notMem_integerSuffix (literal : Text) : 46 ∉ integerSuffix literal := by
  rw [integerSuffix]
  cases hfind : integerSuffixes.find? fun suffix => suffix.isSuffixOf literal with
  | none => exact List.not_mem_nil
  | some suffix =>
    have hall : ∀ suffix ∈ integerSuffixes, 46 ∉ suffix := by decide +kernel
    exact hall suffix (List.mem_of_find?_eq_some hfind)

variable {literal : Text}

theorem mem_splitSign {c : UInt8} (hc : c ∈ literal) (h45 : c ≠ 45) (h43 : c ≠ 43) : c ∈ (splitSign literal).2 := by
  rw [splitSign.eq_def]
  split
  · exact (List.mem_cons.mp hc).resolve_left h45
  · exact (List.mem_cons.mp hc).resolve_left h43
  · exact hc

theorem mem_of_splitSign {c : UInt8} (hc : c ∈ (splitSign literal).2) : c ∈ literal := by
  rw [splitSign.eq_def] at hc
  split at hc
  · exact List.mem_cons_of_mem _ hc
  · exact List.mem_cons_of_mem _ hc
  · exact hc

theorem dot_mem_splitRadix (h : 46 ∈ literal) : 46 ∈ (splitRadix literal).2 := by
  rw [splitRadix.eq_def]
  split
  · next c rest =>
    split_ifs with hten
    · exact h
    · rcases List.mem_cons.mp h with h | h
      · exact absurd h (by decide)
      · rcases List.mem_cons.mp h with rfl | h
        · exact absurd (by decide) hten
        · exact h
  · exact h

/-- There is no dot in an integer literal. -/
theorem dot_notMem (h : looksInteger literal) : 46 ∉ literal := by
  intro hdot
  have hrest := dot_mem_splitRadix (mem_splitSign hdot (by decide) (by decide))
  rw [looksInteger, shapeOf] at h
  dsimp only at h
  split_ifs at h with hempty hdigits
  · cases h
  · rw [← append_integerSuffix (splitRadix (splitSign literal).2).2] at hrest
    rcases List.mem_append.mp hrest with hmem | hmem
    · have hdigit := List.all_eq_true.mp hdigits 46 hmem
      simp [Lib.digitValue] at hdigit
    · exact dot_notMem_integerSuffix _ hmem
  · cases h

theorem dot_mem_of_floatDigits : ∀ {literal : Text}, floatDigits false literal → 46 ∈ literal
  | [], h => by cases h
  | c :: rest, h => by
    rw [floatDigits] at h
    split_ifs at h with hdot hdigit
    · exact hdot ▸ List.mem_cons_self
    · exact List.mem_cons_of_mem _ (dot_mem_of_floatDigits h)

namespace LiteralSema

variable {S : LiteralSema}

/-- An integer literal that is not too wide gets the type of its suffix, or `i32`. -/
theorem inferLiteral_integer {id : ℕ} {literal : Text} (hinteger : looksInteger literal)
    (haccepted : (S.inferLiteral id literal).2 = []) : (S.inferLiteral id literal).1 = S.literalType literal := by
  have hnull : literal ≠ text "null" := by
    rintro rfl
    exact absurd hinteger (by decide +kernel)
  have hbool : ¬looksBool literal := by
    intro h
    rw [looksBool] at h
    simp only [Bool.or_eq_true, decide_eq_true_eq] at h
    rcases h with rfl | rfl <;> exact absurd hinteger (by decide +kernel)
  have hfloat : ¬looksFloat literal := fun h =>
    dot_notMem hinteger (mem_of_splitSign (dot_mem_of_floatDigits h))
  rw [inferLiteral, if_neg hnull, if_neg hbool, if_neg hfloat] at haccepted ⊢
  cases hparse : parseIntegerLiteral literal with
  | ok v => rfl
  | overflow =>
    rw [hparse] at haccepted
    exact absurd haccepted (by simp)
  | notInteger =>
    rw [parseIntegerLiteral] at hparse
    rw [looksInteger] at hinteger
    cases hshape : shapeOf literal with
    | none => simp [hshape] at hinteger
    | some shape =>
      rw [hshape] at hparse
      dsimp only at hparse
      split at hparse
      · cases hparse
      · split_ifs at hparse

theorem ne_zero_of_entry {type : TypeId} {entry : Entry} (h : S.table.findEntry type = some entry) : type ≠ 0 := by
  rintro rfl
  cases h

theorem literalType_ne_zero (literal : Text) : S.literalType literal ≠ 0 := by
  have hi32 := ne_zero_of_entry S.i32_entry
  rw [literalType]
  split_ifs with hsuffix
  · exact hi32
  · cases htype : S.suffixType literal with
    | none => exact hi32
    | some type =>
      rw [suffixType, Option.filter_eq_some_iff] at htype
      simpa using htype.2

theorem inferLiteral_ne_zero (id : ℕ) (literal : Text) : (S.inferLiteral id literal).1 ≠ 0 := by
  have hnull := ne_zero_of_entry S.null_name
  have hbool := ne_zero_of_entry S.bool_name
  have hfloat := ne_zero_of_entry S.f64_entry
  have herror := ne_zero_of_entry S.error_name
  rw [inferLiteral]
  cases parseIntegerLiteral literal with
  | ok v =>
    have hliteral := literalType_ne_zero (S := S) literal
    split_ifs <;> assumption
  | overflow => split_ifs <;> assumption
  | notInteger =>
    have hstring := ne_zero_of_entry (S.pointer_entry id)
    have hchar := ne_zero_of_entry S.char_name
    dsimp only
    split_ifs <;> assumption

theorem integer_zero : S.integer 0 = none := rfl

/-! ### One call -/

/-- What is above an expression, in one root. -/
theorem under_root (o : S.constants.Root) {id a : ℕ} (h : S.constants.Under id a) (ho : S.constants.Under o.1 a) :
    S.constants.Under o.1 id := by
  induction h with
  | refl => exact ho
  | operand hp hexpr ih =>
    generalize heq : o.1 = r at ho ih ⊢
    cases ho with
    | refl => exact absurd (heq ▸ hexpr) (o.2 _ _)
    | operand hp' hexpr' =>
      obtain rfl := S.single_parent _ _ _ _ _ hexpr hexpr'
      exact ih hp'

theorem root_unique (o o' : S.constants.Root) {a : ℕ} (h : S.constants.Under o.1 a) (h' : S.constants.Under o'.1 a) :
    o.1 = o'.1 :=
  (under_root o' h h').root o |>.symm

/-- What `inferExpr` does, whatever it meets. -/
structure Infers (S : LiteralSema) (id : ℕ) (s : LiteralState) (type : TypeId) (s' : LiteralState) : Prop where
  typed : s'.exprTypes id = type
  proper : type ≠ 0
  casts : s'.casts = s.casts
  errors : s.errors <+: s'.errors
  keeps : ∀ a, s.exprTypes a ≠ 0 → s'.exprTypes a = s.exprTypes a
  apart : ∀ a, ¬S.constants.Under id a → s'.exprTypes a = s.exprTypes a

/-- An expression that had no type gets one. -/
theorem Infers.set {id : ℕ} {s : LiteralState} {type : TypeId} (errors : List LiteralError) (hnew : s.exprTypes id = 0)
    (htype : type ≠ 0) : Infers S id s type ((s.report errors).setExprType id type) where
  typed := Function.update_self _ _ _
  proper := htype
  casts := rfl
  errors := List.prefix_append _ _
  keeps a ha := Function.update_of_ne (by rintro rfl; exact ha hnew) _ _
  apart a ha := Function.update_of_ne (by rintro rfl; exact ha .refl) _ _

theorem inferExpr_spec {depth : ℕ} : ∀ {fuel id : ℕ} {s s' : LiteralState} {type : TypeId},
    S.inferExpr depth fuel id s = some (type, s') → Infers S id s type s'
  | fuel + 1, id, s, s', type, h => by
    rw [inferExpr] at h
    split_ifs at h with hnew
    · obtain ⟨rfl, rfl⟩ := Prod.mk.inj (Option.some.inj h)
      exact ⟨rfl, hnew, rfl, List.prefix_refl _, fun _ _ => rfl, fun _ _ => rfl⟩
    · have hzero := not_not.mp hnew
      split at h
      · next literal hexpr =>
        obtain ⟨rfl, rfl⟩ := Prod.mk.inj (Option.some.inj h)
        exact .set _ hzero (inferLiteral_ne_zero id literal)
      · obtain ⟨rfl, rfl⟩ := Prod.mk.inj (Option.some.inj h)
        have hset := Infers.set (S := S) [] hzero (ne_zero_of_entry S.error_name)
        rwa [LiteralState.report_nil] at hset
      · next a rest hexpr =>
        obtain ⟨⟨operand, t⟩, ha, h⟩ := Option.bind_eq_some_iff.mp h
        obtain ⟨accepted, -, h⟩ := Option.bind_eq_some_iff.mp h
        obtain ⟨rfl, rfl⟩ := Prod.mk.inj (Option.some.inj h)
        have ih := inferExpr_spec ha
        refine ⟨Function.update_self _ _ _, ih.proper, ih.casts, ih.errors.trans (List.prefix_append _ _), ?_, ?_⟩
        · intro b hb
          have hne : b ≠ id := by
            rintro rfl
            exact hb hzero
          exact (Function.update_of_ne hne _ _).trans (ih.keeps b hb)
        · intro b hb
          have hne : b ≠ id := by
            rintro rfl
            exact hb .refl
          exact (Function.update_of_ne hne _ _).trans (ih.apart b fun hunder => hb (hunder.head hexpr))
      · cases h

theorem looksInteger_of_spelled {literal : Text} {w : ℤ} (h : Spelled literal w) : looksInteger literal := by
  obtain ⟨shape, -, hshape, -⟩ := h
  rw [looksInteger, hshape]
  rfl

/-- No type, or the type of the literal by itself. -/
def Own (S : LiteralSema) (literal : Text) (id : ℕ) (s : LiteralState) : Prop :=
  ∀ a, S.constants.Under id a → s.exprTypes a = 0 ∨ s.exprTypes a = S.literalType literal

/-- A constant takes the type of its literal, if no other has been recorded. -/
theorem inferExpr_own {depth : ℕ} {literal : Text} : ∀ {fuel id : ℕ} {w : ℤ} {s s' : LiteralState} {type : TypeId},
    S.inferExpr depth fuel id s = some (type, s') → S.constants.Constant id literal w → s'.errors = [] →
    S.Own literal id s → type = S.literalType literal ∧ S.Own literal id s'
  | fuel + 1, id, w, s, s', type, h, hconstant, haccepted, hown => by
    have hspec := inferExpr_spec h
    rw [inferExpr] at h
    split_ifs at h with hnew
    · obtain ⟨rfl, rfl⟩ := Prod.mk.inj (Option.some.inj h)
      exact ⟨(hown id .refl).resolve_left hnew, hown⟩
    · split at h
      · next literal' hexpr =>
        obtain ⟨rfl, rfl⟩ := Prod.mk.inj (Option.some.inj h)
        obtain ⟨rfl, hspelled⟩ := hconstant.of_literal hexpr
        have htype := inferLiteral_integer (looksInteger_of_spelled hspelled) (List.append_eq_nil_iff.mp haccepted).2
        refine ⟨htype, fun a ha => ?_⟩
        by_cases hid : a = id
        · subst hid
          exact .inr ((Function.update_self _ _ _).trans htype)
        · rw [LiteralState.setExprType_exprTypes, Function.update_of_ne hid]
          exact hown a ha
      · next hexpr =>
        cases hconstant with
        | literal hliteral _ => exact absurd (hliteral.symm.trans hexpr) (by simp)
        | minus hminus _ => exact absurd (hminus.symm.trans hexpr) (by simp)
      · next x rest hexpr =>
        obtain ⟨⟨operand, t⟩, hx, h⟩ := Option.bind_eq_some_iff.mp h
        obtain ⟨accepted, -, h⟩ := Option.bind_eq_some_iff.mp h
        obtain ⟨rfl, rfl⟩ := Prod.mk.inj (Option.some.inj h)
        obtain ⟨v, hv, rfl⟩ := hconstant.of_minus hexpr
        obtain ⟨htype, hbelow⟩ := inferExpr_own hx hv (List.append_eq_nil_iff.mp haccepted).1
          fun a ha => hown a (ha.head hexpr)
        refine ⟨htype, fun a ha => ?_⟩
        by_cases hid : a = id
        · subst hid
          exact .inr ((Function.update_self _ _ _).trans htype)
        · rw [LiteralState.setExprType_exprTypes, Function.update_of_ne hid]
          by_cases hunder : S.constants.Under x a
          · exact hbelow a hunder
          · exact (inferExpr_spec hx).apart a hunder ▸ hown a ha
      · cases h

/-- Whether a literal can be adapted does not depend on what has been recorded. -/
theorem adaptNumericLiteral_any {depth : ℕ} {target : TypeId} : ∀ {fuel id : ℕ} {s s' : LiteralState} {adapted : Bool},
    S.adaptNumericLiteral depth fuel id target s = some (adapted, s') →
    ∀ t, ∃ t', S.adaptNumericLiteral depth fuel id target t = some (adapted, t')
  | fuel + 1, id, s, s', adapted, h, t => by
    rw [adaptNumericLiteral] at h ⊢
    split at h
    · obtain ⟨⟨b, u⟩, ha, h⟩ := Option.bind_eq_some_iff.mp h
      obtain ⟨rfl, -⟩ := Prod.mk.inj (Option.some.inj h)
      obtain ⟨t', ht'⟩ := adaptNumericLiteral_any ha t
      exact ⟨_, by rw [ht']; rfl⟩
    · dsimp only at h ⊢
      split_ifs at h ⊢
      all_goals first
        | exact ⟨t, by obtain ⟨rfl, -⟩ := Prod.mk.inj (Option.some.inj h); rfl⟩
        | (obtain ⟨allowed, hallowed, h⟩ := Option.bind_eq_some_iff.mp h
           obtain ⟨rfl, -⟩ := Prod.mk.inj (Option.some.inj h)
           exact ⟨_, by rw [hallowed]; rfl⟩)
    · exact ⟨t, by obtain ⟨rfl, -⟩ := Prod.mk.inj (Option.some.inj h); rfl⟩

/-- What an adaptation does. -/
structure Adapts (S : LiteralSema) (id : ℕ) (target : TypeId) (s s' : LiteralState) : Prop where
  typed : s'.exprTypes id = target
  proper : target ≠ 0
  casts : s'.casts = s.casts
  errors : s'.errors = s.errors
  apart : ∀ a, ¬S.constants.Under id a → s'.exprTypes a = s.exprTypes a

theorem Adapts.set {id : ℕ} {target : TypeId} {s : LiteralState} (htarget : target ≠ 0) :
    Adapts S id target s (s.setExprType id target) where
  typed := Function.update_self _ _ _
  proper := htarget
  casts := rfl
  errors := rfl
  apart a ha := Function.update_of_ne (by rintro rfl; exact ha .refl) _ _

theorem ne_zero_of_numeric {target : TypeId}
    (h : ¬(S.table.kindOf (S.resolve target) ≠ .integer ∧ S.table.kindOf (S.resolve target) ≠ .float)) : target ≠ 0 := by
  rintro rfl
  have hkind : S.table.kindOf (S.resolve 0) = .error := rfl
  rw [hkind] at h
  exact h ⟨nofun, nofun⟩

theorem adaptNumericLiteral_spec {depth : ℕ} {target : TypeId} : ∀ {fuel id : ℕ} {s s' : LiteralState} {adapted : Bool},
    S.adaptNumericLiteral depth fuel id target s = some (adapted, s') →
    if adapted then Adapts S id target s s' else s' = s
  | fuel + 1, id, s, s', adapted, h => by
    rw [adaptNumericLiteral] at h
    split at h
    · next x rest hexpr =>
      obtain ⟨⟨b, t⟩, hx, h⟩ := Option.bind_eq_some_iff.mp h
      obtain ⟨rfl, rfl⟩ := Prod.mk.inj (Option.some.inj h)
      have ih := adaptNumericLiteral_spec hx
      cases b with
      | false => exact ih
      | true =>
        rw [if_pos rfl] at ih
        refine ⟨Function.update_self _ _ _, ih.proper, ih.casts, ih.errors, fun a ha => ?_⟩
        have hne : a ≠ id := by
          rintro rfl
          exact ha .refl
        exact (Function.update_of_ne hne _ _).trans (ih.apart a fun hunder => ha (hunder.head hexpr))
    · dsimp only at h
      split_ifs at h with hnone hinteger hkind hliteral
      · obtain ⟨rfl, rfl⟩ := Prod.mk.inj (Option.some.inj h)
        rfl
      · obtain ⟨rfl, rfl⟩ := Prod.mk.inj (Option.some.inj h)
        rfl
      · obtain ⟨rfl, rfl⟩ := Prod.mk.inj (Option.some.inj h)
        rfl
      · obtain ⟨allowed, -, h⟩ := Option.bind_eq_some_iff.mp h
        obtain ⟨rfl, rfl⟩ := Prod.mk.inj (Option.some.inj h)
        cases allowed with
        | false => rfl
        | true => exact .set (ne_zero_of_numeric hkind)
      · obtain ⟨rfl, rfl⟩ := Prod.mk.inj (Option.some.inj h)
        exact .set (ne_zero_of_numeric hkind)
    · obtain ⟨rfl, rfl⟩ := Prod.mk.inj (Option.some.inj h)
      rfl

/-! ### Runs -/

/-- Whether a constant can be adapted. -/
def adapts (S : LiteralSema) (depth id : ℕ) (target : TypeId) : Bool :=
  (S.adaptNumericLiteral depth depth id target {}).map (·.1) = some true

/-- The type that a call gives to a root, whatever has been recorded. -/
def asks (S : LiteralSema) (depth id : ℕ) : S.TypingCall → Option TypeId
  | .adapt value target => if value.1 = id ∧ S.adapts depth value.1 target then some target else none
  | .retype value type => if value.1 = id then some type else none
  | _ => none

/-- The calls that type an expression where it has no type yet. -/
def infers (S : LiteralSema) (id : ℕ) : S.TypingCall → Bool
  | .infer id' => id' = id
  | .cast operand _ _ => operand = id
  | _ => false

/-- The last type that a program asks for. -/
def lastAsked (S : LiteralSema) (depth : ℕ) (calls : List S.TypingCall) (id : ℕ) : Option TypeId :=
  calls.reverse.findSome? (S.asks depth id)

/-- The type that a constant of a program gets: the last one asked for, or else that of the literal by itself. -/
def typeAsked (S : LiteralSema) (depth : ℕ) (calls : List S.TypingCall) (id : ℕ) (literal : Text) : TypeId :=
  match S.lastAsked depth calls id with
  | some type => type
  | none => if calls.any (S.infers id) then S.literalType literal else 0

/-- Every constant is in its integer type, and every cast keeps its constant. -/
def ConstantsFit (S : LiteralSema) (s : LiteralState) : Prop :=
  (∀ o : S.constants.Root, ∀ literal w, S.constants.Constant o.1 literal w →
    ∀ u, S.integer (s.exprTypes o.1) = some u → InType u w) ∧
  ∀ c ∈ s.casts, ∀ w, S.constants.Known c.operand w → InType c.target w

/-- Every constant is in the integer type that the program asks for, and the bits of every cast tell. -/
def ConstantsAsked (S : LiteralSema) (depth : ℕ) (calls : List S.TypingCall) (casts : List NarrowingCast) : Prop :=
  (∀ o : S.constants.Root, ∀ literal w, S.constants.Constant o.1 literal w →
    ∀ u, S.integer (S.typeAsked depth calls o.1 literal) = some u → InType u w) ∧
  ∀ c ∈ casts, ∀ w, S.constants.Known c.operand w → CastKeeps c.source c.target w

/-- A cast that was tested and passed. -/
def Passed (S : LiteralSema) (c : NarrowingCast) : Prop :=
  c.target.bits < c.source.bits ∧ ∃ depth v, S.constants.known depth c.operand = some (some v) ∧
    constantIntegerFits c.source c.target v

/-- The recorded types are those asked for. -/
structure Typed (S : LiteralSema) (depth : ℕ) (calls : List S.TypingCall) (s : LiteralState) : Prop where
  roots : ∀ o : S.constants.Root, ∀ literal w, S.constants.Constant o.1 literal w →
    s.exprTypes o.1 = S.typeAsked depth calls o.1 literal
  own : ∀ o : S.constants.Root, ∀ literal w, S.constants.Constant o.1 literal w →
    S.lastAsked depth calls o.1 = none → S.Own literal o.1 s
  asked : ∀ id type, S.lastAsked depth calls id = some type → type ≠ 0
  passed : ∀ c ∈ s.casts, S.Passed c

section
variable {depth : ℕ} {calls : List S.TypingCall} {call : S.TypingCall} {s s' : LiteralState}

theorem lastAsked_concat (id : ℕ) : S.lastAsked depth (calls ++ [call]) id =
    (S.asks depth id call).or (S.lastAsked depth calls id) := by
  rw [lastAsked, List.reverse_concat, List.findSome?_cons]
  cases S.asks depth id call with
  | none => rw [Option.none_or, lastAsked]
  | some type => rw [Option.some_or]

variable {type : TypeId} {id : ℕ}

theorem typeAsked_of_asks (literal : Text) (h : S.asks depth id call = some type) :
    S.typeAsked depth (calls ++ [call]) id literal = type := by
  rw [typeAsked, lastAsked_concat, h]
  rfl

theorem typeAsked_of_not_asks (literal : Text) (h : S.asks depth id call = none)
    (hinfers : S.infers id call = false) : S.typeAsked depth (calls ++ [call]) id literal =
      S.typeAsked depth calls id literal := by
  simp [typeAsked, lastAsked_concat, h, hinfers]

/-- A call that types an expression where it has no type yet. -/
theorem Typed.infer (h : S.Typed depth calls s) (hinfer : S.inferExpr depth depth id s = some (type, s'))
    (haccepted : s'.errors = []) (hasks : ∀ id, S.asks depth id call = none)
    (hinfers : ∀ id', S.infers id' call = decide (id = id')) : S.Typed depth (calls ++ [call]) s' := by
  have hspec := inferExpr_spec hinfer
  have hlast : ∀ id, S.lastAsked depth (calls ++ [call]) id = S.lastAsked depth calls id := fun id => by
    rw [lastAsked_concat, hasks, Option.none_or]
  refine ⟨fun o literal w hconstant => ?_, fun o literal w hconstant hnone => ?_, fun id type hlast' => ?_, ?_⟩
  · have hroot := h.roots o literal w hconstant
    by_cases hid : id = o.1
    · subst hid
      rw [typeAsked, hlast]
      rw [typeAsked] at hroot
      cases hasked : S.lastAsked depth calls o.1 with
      | some T =>
        rw [hasked] at hroot
        exact (hspec.keeps _ (hroot ▸ h.asked _ _ hasked)).trans hroot
      | none =>
        obtain ⟨htype, -⟩ := inferExpr_own hinfer hconstant haccepted (h.own o literal w hconstant hasked)
        simp [hinfers, hspec.typed, htype]
    · rw [typeAsked_of_not_asks literal (hasks _) (by simp [hinfers, hid]), ← hroot]
      exact hspec.apart _ fun hunder => hid (hunder.root o)
  · rw [hlast] at hnone
    have hown := h.own o literal w hconstant hnone
    intro a ha
    by_cases hunder : S.constants.Under id a
    · have hid := under_root o hunder ha
      obtain ⟨v, hv⟩ := hconstant.under hid
      exact (inferExpr_own hinfer hv haccepted fun b hb => hown b (hid.trans hb)).2 a hunder
    · exact hspec.apart a hunder ▸ hown a ha
  · exact h.asked id type (hlast id ▸ hlast')
  · exact hspec.casts ▸ h.passed

/-- A call that gives a root another type. -/
theorem Typed.give (value : S.constants.Root) (h : S.Typed depth calls s)
    (htyped : s'.exprTypes value.1 = type) (htype : type ≠ 0) (hcasts : s'.casts = s.casts)
    (hapart : ∀ a, ¬S.constants.Under value.1 a → s'.exprTypes a = s.exprTypes a)
    (hasks : ∀ id, S.asks depth id call = if value.1 = id then some type else none)
    (hinfers : ∀ id, S.infers id call = false) : S.Typed depth (calls ++ [call]) s' := by
  refine ⟨fun o literal w hconstant => ?_, fun o literal w hconstant hnone a ha => ?_, fun id T hlast => ?_, ?_⟩
  · by_cases hid : value.1 = o.1
    · rw [typeAsked_of_asks literal ((hasks _).trans (if_pos hid)), ← hid, htyped]
    · rw [typeAsked_of_not_asks literal ((hasks _).trans (if_neg hid)) (hinfers _), ← h.roots o literal w hconstant]
      exact hapart _ fun hunder => hid (hunder.root o)
  · rw [lastAsked_concat, hasks] at hnone
    split_ifs at hnone with hid
    · cases hnone
    · rw [Option.none_or] at hnone
      have hunder : ¬S.constants.Under value.1 a := fun hunder => hid (root_unique value o hunder ha)
      exact hapart a hunder ▸ h.own o literal w hconstant hnone a ha
  · rw [lastAsked_concat, hasks] at hlast
    split_ifs at hlast with hid
    · obtain rfl := Option.some.inj hlast
      exact htype
    · exact h.asked id T hlast
  · exact hcasts ▸ h.passed

theorem perform_errors (h : S.perform depth s call = some s') : s.errors <+: s'.errors := by
  cases call with
  | infer id =>
    obtain ⟨⟨type, t⟩, hinfer, rfl⟩ := Option.map_eq_some_iff.mp h
    exact (inferExpr_spec hinfer).errors
  | adapt value target =>
    obtain ⟨⟨adapted, t⟩, hadapt, rfl⟩ := Option.map_eq_some_iff.mp h
    have hspec := adaptNumericLiteral_spec hadapt
    cases adapted with
    | false => exact hspec ▸ List.prefix_refl _
    | true => exact hspec.errors ▸ List.prefix_refl _
  | cast operand target isRaw =>
    obtain ⟨⟨source, t⟩, hinfer, h⟩ := Option.bind_eq_some_iff.mp h
    refine (inferExpr_spec hinfer).errors.trans ?_
    dsimp only at h
    split at h
    · split_ifs at h with hnarrow
      · obtain ⟨value, -, h⟩ := Option.bind_eq_some_iff.mp h
        cases value with
        | none => exact Option.some.inj h ▸ List.prefix_refl _
        | some v =>
          obtain rfl := Option.some.inj h
          split_ifs
          · exact List.prefix_refl _
          · exact List.prefix_append _ _
      · exact Option.some.inj h ▸ List.prefix_refl _
    · exact Option.some.inj h ▸ List.prefix_refl _
  | retype value type =>
    rw [perform] at h
    split_ifs at h
    exact Option.some.inj h ▸ List.prefix_refl _
  | record id type =>
    rw [perform] at h
    split at h
    · cases h
    · cases h
    · exact Option.some.inj h ▸ List.prefix_refl _
  | report => exact Option.some.inj h ▸ List.prefix_append _ _

/-- A call that gives no type. -/
theorem Typed.skip (h : S.Typed depth calls s) (hasks : ∀ id, S.asks depth id call = none)
    (hinfers : ∀ id, S.infers id call = false) : S.Typed depth (calls ++ [call]) s := by
  have hlast : ∀ id, S.lastAsked depth (calls ++ [call]) id = S.lastAsked depth calls id := fun id => by
    rw [lastAsked_concat, hasks, Option.none_or]
  refine ⟨fun o literal w hconstant => ?_, fun o literal w hconstant hnone => ?_, fun id T hlast' => ?_, h.passed⟩
  · rw [typeAsked_of_not_asks literal (hasks _) (hinfers _)]
    exact h.roots o literal w hconstant
  · exact h.own o literal w hconstant (hlast o.1 ▸ hnone)
  · exact h.asked id T (hlast id ▸ hlast')

/-- Other expressions are not parts of constants. -/
theorem Typed.record (h : S.Typed depth calls s)
    (hliteral : ∀ literal, S.constants.expression id ≠ some (.literal literal))
    (hminus : ∀ operands, S.constants.expression id ≠ some (.unary .minus operands)) :
    S.Typed depth (calls ++ [.record id type]) (s.setExprType id type) := by
  have hne : ∀ {a literal w}, S.constants.Constant a literal w → a ≠ id := by
    rintro a literal w (⟨hexpr, -⟩ | ⟨hexpr, -⟩) rfl
    · exact hliteral _ hexpr
    · exact hminus _ hexpr
  have hlast : ∀ id', S.lastAsked depth (calls ++ [.record id type]) id' = S.lastAsked depth calls id' := fun id' => by
    rw [lastAsked_concat]
    rfl
  refine ⟨fun o literal w hconstant => ?_, fun o literal w hconstant hnone a ha => ?_, fun id' T hlast' => ?_, h.passed⟩
  · rw [typeAsked_of_not_asks literal rfl rfl, ← h.roots o literal w hconstant]
    exact Function.update_of_ne (hne hconstant) _ _
  · obtain ⟨v, hv⟩ := hconstant.under ha
    rw [LiteralState.setExprType_exprTypes, Function.update_of_ne (hne hv)]
    exact h.own o literal w hconstant (hlast o.1 ▸ hnone) a ha
  · exact h.asked id' T (hlast id' ▸ hlast')

/-- What a cast that is accepted leaves behind its operand's type. -/
theorem cast_passed {operand : ℕ} {source target : TypeId} {isRaw : Bool} {t : LiteralState}
    (h : (match S.integer source, S.integer target with
      | some fromInteger, some toInteger =>
        if !isRaw && toInteger.bits < fromInteger.bits then
          (S.constants.known depth operand).bind fun value =>
            match value with
            | some value =>
              let s := { t with casts := t.casts ++ [⟨operand, fromInteger, toInteger⟩] }
              some (if constantIntegerFits fromInteger toInteger value then s
                else s.report [.castOverflow value target])
            | none => some t
        else some t
      | _, _ => some t) = some s') (haccepted : s'.errors = []) :
    t.errors = [] ∧ s'.exprTypes = t.exprTypes ∧ ∀ c ∈ s'.casts, c ∈ t.casts ∨ S.Passed c := by
  split at h
  · next fromInteger toInteger hfrom hto =>
    split_ifs at h with hnarrow
    · obtain ⟨value, hknown, h⟩ := Option.bind_eq_some_iff.mp h
      cases value with
      | none =>
        obtain rfl := Option.some.inj h
        exact ⟨haccepted, rfl, fun c hc => .inl hc⟩
      | some v =>
        obtain rfl := Option.some.inj h
        split_ifs at haccepted ⊢ with hfits
        · refine ⟨haccepted, rfl, fun c hc => ?_⟩
          rcases List.mem_append.mp hc with hc | hc
          · exact .inl hc
          · obtain rfl := List.mem_singleton.mp hc
            simp only [Bool.and_eq_true, decide_eq_true_eq] at hnarrow
            exact .inr ⟨hnarrow.2, depth, v, hknown, hfits⟩
        · exact absurd haccepted (by simp)
    · obtain rfl := Option.some.inj h
      exact ⟨haccepted, rfl, fun c hc => .inl hc⟩
  · obtain rfl := Option.some.inj h
    exact ⟨haccepted, rfl, fun c hc => .inl hc⟩

/-- One call. -/
theorem Typed.perform (h : S.Typed depth calls s) (hperform : S.perform depth s call = some s')
    (haccepted : s'.errors = []) : S.Typed depth (calls ++ [call]) s' := by
  cases call with
  | infer id =>
    obtain ⟨⟨type, t⟩, hinfer, rfl⟩ := Option.map_eq_some_iff.mp hperform
    exact h.infer hinfer haccepted (fun _ => rfl) fun _ => rfl
  | adapt value target =>
    obtain ⟨⟨adapted, t⟩, hadapt, rfl⟩ := Option.map_eq_some_iff.mp hperform
    have hspec := adaptNumericLiteral_spec hadapt
    obtain ⟨t', ht'⟩ := adaptNumericLiteral_any hadapt {}
    have hadapts : S.adapts depth value.1 target = adapted := by simp [adapts, ht']
    cases adapted with
    | false =>
      obtain rfl : t = s := hspec
      exact h.skip (fun id => by simp [asks, hadapts]) fun _ => rfl
    | true => exact h.give value hspec.typed hspec.proper hspec.casts hspec.apart (fun id => by simp [asks, hadapts]) fun _ => rfl
  | cast operand target isRaw =>
    obtain ⟨⟨source, t⟩, hinfer, hcast⟩ := Option.bind_eq_some_iff.mp hperform
    obtain ⟨hbefore, htypes, hpassed⟩ := cast_passed hcast haccepted
    have hbase : S.Typed depth (calls ++ [.cast operand target isRaw]) t :=
      h.infer hinfer hbefore (fun _ => rfl) fun _ => rfl
    refine ⟨fun o => htypes ▸ hbase.roots o, fun o literal w hconstant hnone a ha => ?_, hbase.asked, fun c hc => ?_⟩
    · exact htypes ▸ hbase.own o literal w hconstant hnone a ha
    · rcases hpassed c hc with hc | hc
      · exact hbase.passed c hc
      · exact hc
  | retype value type =>
    rw [LiteralSema.perform] at hperform
    split_ifs at hperform with htype
    obtain rfl := Option.some.inj hperform
    refine h.give value (Function.update_self _ _ _) htype.1 rfl (fun a ha => ?_) (fun _ => rfl) fun _ => rfl
    exact Function.update_of_ne (by rintro rfl; exact ha .refl) _ _
  | record id type =>
    rw [LiteralSema.perform] at hperform
    split at hperform
    · cases hperform
    · cases hperform
    · next hliteral hminus =>
      obtain rfl := Option.some.inj hperform
      exact h.record hliteral hminus
  | report =>
    obtain rfl := Option.some.inj hperform
    exact absurd haccepted (by simp)

/-- A whole run. -/
theorem performAll_typed (h : S.performAll depth calls = some s) (haccepted : s.errors = []) :
    S.Typed depth calls s := by
  induction calls using List.reverseRecOn generalizing s with
  | nil =>
    obtain rfl := Option.some.inj h
    refine ⟨fun o literal w _ => rfl, fun o literal w _ _ a _ => .inl rfl, fun id type hlast => ?_, fun c hc => ?_⟩
    · cases hlast
    · cases hc
  | append_singleton calls call ih =>
    rw [performAll, List.foldlM_append] at h
    obtain ⟨t, hbefore, hcall⟩ := Option.bind_eq_some_iff.mp h
    simp only [List.foldlM_cons, List.foldlM_nil, bind_pure] at hcall
    have ht : t.errors = [] := List.prefix_nil.mp (haccepted ▸ perform_errors hcall)
    exact (ih hbefore ht).perform hcall haccepted

end

/-- The integer constants of a program that is accepted are in their types, just where the program asks for types that
    hold them. -/
theorem constantsFit_iff (S : LiteralSema) {depth : ℕ} {calls : List S.TypingCall} {s : LiteralState}
    (h : S.performAll depth calls = some s) (haccepted : s.errors = []) :
    S.ConstantsFit s ↔ S.ConstantsAsked depth calls s.casts := by
  have htyped := performAll_typed h haccepted
  refine and_congr (forall_congr' fun o => forall_congr' fun literal => forall_congr' fun w => ?_)
    (forall_congr' fun c => forall_congr' fun hc => forall_congr' fun w => ?_)
  · exact forall_congr' fun hconstant => by rw [htyped.roots o literal w hconstant]
  · refine forall_congr' fun hknown => ?_
    obtain ⟨hnarrow, depth', v, hv, hfits⟩ := htyped.passed c hc
    obtain ⟨rfl, hlow, hhigh⟩ := ConstantScope.known_bmod hv hknown
    rw [← constantIntegerFits_iff hnarrow hlow hhigh]
    exact ⟨fun hin _ => hin, fun hin => hin hfits⟩

/-! ### Programs of one literal -/

/-- A module whose one expression is a literal; `i32`, `u8`, `i64` and `u64` are the types 5, 10, 6 and 11. -/
def oneLiteral (literal : Text) : LiteralSema where
  table := ⟨[.name "error" .error, .name "null" .never, .name "bool" .bool, .name "char" .char, .integer 32 true,
    .integer 64 true, .float 32, .float 64, .pointer 4, .integer 8 false, .integer 64 false],
    [("i32", 5), ("u8", 10), ("i64", 6), ("u64", 11)]⟩
  errorType := 1
  nullType := 2
  error_name := rfl
  null_name := rfl
  settled := by decide +kernel
  declared := by decide +kernel
  constants := {
    expression := fun id => if id = 1 then some (.literal literal) else none
    initializer := fun _ => none
    isConstant := fun id => id = 1
    isOwnEnum := fun _ => false }
  boolType := 3
  charType := 4
  i32Type := 5
  i64Type := 6
  f32Type := 7
  f64Type := 8
  charPointer := fun _ => 9
  bool_name := rfl
  char_name := rfl
  i32_entry := rfl
  f64_entry := rfl
  pointer_entry := fun _ => rfl
  single_parent := fun p p' a rest rest' h => by
    dsimp only at h
    split_ifs at h
    cases h

/-- The literal, which is not under a minus. -/
def wholeLiteral (literal : Text) : (oneLiteral literal).constants.Root :=
  ⟨1, fun p rest h => by
    dsimp only [oneLiteral] at h
    split_ifs at h
    cases h⟩

/-- `200` at `u8`, that is cast to `i64` before. -/
theorem constantsFit_iff_byte : ∃ s, (oneLiteral (text "200")).performAll 5
      [.infer 1, .adapt (wholeLiteral (text "200")) 10, .cast 1 6 false] = some s ∧
    ((oneLiteral (text "200")).ConstantsFit s ↔ (oneLiteral (text "200")).ConstantsAsked 5
      [.infer 1, .adapt (wholeLiteral (text "200")) 10, .cast 1 6 false] s.casts) := by
  have hrun : ((oneLiteral (text "200")).performAll 5
      [.infer 1, .adapt (wholeLiteral (text "200")) 10, .cast 1 6 false]).map LiteralState.errors = some [] := by
    decide +kernel
  obtain ⟨s, hs, haccepted⟩ := Option.map_eq_some_iff.mp hrun
  exact ⟨s, hs, constantsFit_iff (oneLiteral (text "200")) hs haccepted⟩

/-- `5000000000` by itself is an `i32`. -/
theorem constantsFit_large : ¬∀ (S : LiteralSema) (depth : ℕ) (calls : List S.TypingCall) (s : LiteralState),
    S.performAll depth calls = some s → s.errors = [] → S.ConstantsFit s := by
  intro h
  have hrun : ((oneLiteral (text "5000000000")).performAll 5 [.infer 1]).map
      (fun s => (s.errors, s.exprTypes 1)) = some ([], 5) := by decide +kernel
  obtain ⟨s, hs, hresult⟩ := Option.map_eq_some_iff.mp hrun
  obtain ⟨haccepted, htype⟩ := Prod.mk.inj hresult
  have hspelled : Spelled (text "5000000000") 5000000000 :=
    ⟨⟨false, 10, text "5000000000"⟩, 5000000000, by decide +kernel, by decide +kernel, rfl⟩
  have hfits := (h _ _ _ s hs haccepted).1 (wholeLiteral (text "5000000000")) _ _ (.literal rfl hspelled)
    ⟨32, true, by decide⟩ (by
      have hroot : s.exprTypes (wholeLiteral (text "5000000000")).1 = 5 := htype
      rw [hroot]
      rfl)
  exact absurd hfits (by decide)

end LiteralSema

end Zith.Sema
