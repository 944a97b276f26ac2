import Mathlib.Tactic.Linarith
import Zith.Sema.ConstantIntegers

/-! What a constant expression stands for, and where the two evaluators compute it. In an exact evaluation every
    intermediate result is a signed 64-bit number. What the evaluators accept is exact, but for a literal from `2 ^ 63`
    on, which stands for its bit pattern, and for a left shift of a discriminant that shifts bits out on the left. -/

namespace Zith.Sema
open Zith.Frontend

/-! ### The operators -/

def unaryValue (op : ConstantUnary) (operand : ℤ) : Option ℤ :=
  match op with
  | .plus => some operand
  | .minus => some (-operand)
  | .complement => some (-operand - 1)
  | .other => none

/-- Division truncates, and a shift to the right rounds down. -/
def binaryValue (op : ConstantBinary) (left right : ℤ) : Option ℤ :=
  match op with
  | .add => some (left + right)
  | .sub => some (left - right)
  | .mul => some (left * right)
  | .div => if right = 0 then none else some (left.tdiv right)
  | .rem => if right = 0 then none else some (left.tmod right)
  | .shl => if right < 0 then none else some (left * 2 ^ right.toNat)
  | .shr => if right < 0 then none else some (left / 2 ^ right.toNat)
  | .ampDot | .amp => some (onBits (· &&& ·) left right)
  | .barDot | .bar => some (onBits (· ||| ·) left right)
  | .caretDot | .caret => some (onBits (· ^^^ ·) left right)
  | .eq => some (if left = right then 1 else 0)
  | .ne => some (if left ≠ right then 1 else 0)
  | .lt => some (if left < right then 1 else 0)
  | .le => some (if left ≤ right then 1 else 0)
  | .gt => some (if left > right then 1 else 0)
  | .ge => some (if left ≥ right then 1 else 0)
  | .other => none

section
variable {left right v : ℤ}

theorem inInt64_onBits (op : BitVec 64 → BitVec 64 → BitVec 64) : InInt64 (onBits op left right) :=
  ⟨BitVec.le_toInt _, BitVec.toInt_lt⟩

theorem inInt64_tdiv (hleft : InInt64 left) (hover : ¬(left = minInt64 ∧ right = -1)) : InInt64 (left.tdiv right) := by
  obtain ⟨hlow, hhigh⟩ := hleft
  rw [minInt64] at hover
  have habs : (left.tdiv right).natAbs = left.natAbs / right.natAbs := Int.natAbs_tdiv left right
  rcases Nat.lt_or_ge right.natAbs 2 with hsmall | hlarge
  · obtain rfl | rfl | rfl : right = 0 ∨ right = 1 ∨ right = -1 := by omega
    · simp [InInt64]
    · rw [Int.tdiv_one]
      exact ⟨hlow, hhigh⟩
    · rw [Int.tdiv_neg, Int.tdiv_one]
      exact ⟨by omega, by omega⟩
  · have hquot : left.natAbs / right.natAbs ≤ left.natAbs / 2 := Nat.div_le_div_left hlarge (by decide)
    exact ⟨by omega, by omega⟩

theorem inInt64_tmod (hright : InInt64 right) (hne : right ≠ 0) : InInt64 (left.tmod right) := by
  obtain ⟨hlow, hhigh⟩ := hright
  have habs : (left.tmod right).natAbs = left.natAbs % right.natAbs := Int.natAbs_tmod left right
  have hlt : left.natAbs % right.natAbs < right.natAbs := Nat.mod_lt _ (by omega)
  exact ⟨by omega, by omega⟩

theorem inInt64_shr (hleft : InInt64 left) (k : ℕ) : InInt64 (left / 2 ^ k) := by
  obtain ⟨hlow, hhigh⟩ := hleft
  have hpos : (0 : ℤ) < 2 ^ k := Int.pow_pos (by decide)
  have hone : (1 : ℤ) ≤ 2 ^ k := hpos
  constructor
  · rw [Int.le_ediv_iff_mul_le hpos]
    nlinarith
  · rw [Int.ediv_lt_iff_lt_mul hpos]
    nlinarith

theorem magnitude_eq (value : ℤ) : magnitude value = value.natAbs := by
  rw [magnitude]
  split_ifs with h
  · omega
  · omega

theorem enumProduct_eq (h : enumProduct left right = some v) : InInt64 v ∧ v = left * right := by
  rw [enumProduct] at h
  split_ifs at h with hzero
  · obtain rfl := Option.some.inj h
    simp [hzero, InInt64]
  · simp only [magnitude_eq] at h
    have hpos : 0 < right.natAbs := by omega
    have habs : (left * right).natAbs = left.natAbs * right.natAbs := Int.natAbs_mul left right
    by_cases hsign : decide (left < 0) = decide (right < 0)
    · simp only [hsign, if_true] at h
      split_ifs at h with hover
      obtain rfl := Option.some.inj h
      have hle := (Nat.le_div_iff_mul_le hpos).mp (Nat.le_of_not_lt hover)
      have hnonneg : 0 ≤ left * right := by
        by_cases hleft : left < 0
        · have hright : right < 0 := by simpa [hleft] using hsign
          exact Int.mul_nonneg_of_nonpos_of_nonpos hleft.le hright.le
        · have hright : ¬right < 0 := by simpa [hleft] using hsign
          exact Int.mul_nonneg (by omega) (by omega)
      exact ⟨⟨by omega, by omega⟩, by omega⟩
    · simp only [hsign, if_false] at h
      split_ifs at h with hover hmin
      all_goals
        obtain rfl := Option.some.inj h
        have hle := (Nat.le_div_iff_mul_le hpos).mp (Nat.le_of_not_lt hover)
        have hnonpos : left * right ≤ 0 := by
          by_cases hleft : left < 0
          · have hright : ¬right < 0 := by simpa [hleft] using hsign
            exact Int.mul_nonpos_of_nonpos_of_nonneg hleft.le (by omega)
          · have hright : right < 0 := by simpa [hleft] using hsign
            exact Int.mul_nonpos_of_nonneg_of_nonpos (by omega) hright.le
      · rw [minInt64]
        exact ⟨⟨by omega, by omega⟩, by omega⟩
      · exact ⟨⟨by omega, by omega⟩, by omega⟩

/-- A product whose factors pass the tests of the alignments. -/
theorem inInt64_product (hleft : InInt64 left) (hright : InInt64 right)
    (h : ¬(0 < left ∧ 0 < right ∧ left > maxInt64.tdiv right ∨ 0 < left ∧ right < 0 ∧ right < minInt64.tdiv left ∨
      left < 0 ∧ 0 < right ∧ left < minInt64.tdiv right ∨ left < 0 ∧ right < 0 ∧ left < maxInt64.tdiv right)) :
    InInt64 (left * right) := by
  have hbound : ∀ {a b : ℤ} (c : ℕ), 0 < b → a ≤ (c : ℤ) / b → a * b ≤ c := fun _ hb hab =>
    (Int.le_ediv_iff_mul_le hb).mp hab
  have hmax : maxInt64 = ((2 ^ 63 - 1 : ℕ) : ℤ) := by rw [maxInt64]; rfl
  have hmin : minInt64 = -((2 ^ 63 : ℕ) : ℤ) := by rw [minInt64]; rfl
  simp only [not_or, not_and, not_lt, gt_iff_lt] at h
  obtain ⟨hpp, hpn, hnp, hnn⟩ := h
  rcases Int.lt_trichotomy left 0 with hl | rfl | hl
  · rcases Int.lt_trichotomy right 0 with hr | rfl | hr
    · have hle := hnn hl hr
      rw [hmax, ← Int.neg_neg right, Int.tdiv_neg, Int.tdiv_eq_ediv_of_nonneg (by positivity)] at hle
      have hprod := hbound (a := -left) (b := -right) _ (by omega) (show -left ≤ ((2 ^ 63 - 1 : ℕ) : ℤ) / -right by omega)
      have hpos := Int.mul_pos_of_neg_of_neg hl hr
      rw [Int.neg_mul_neg] at hprod
      exact ⟨by omega, by omega⟩
    · simp [InInt64]
    · have hle := hnp hl hr
      rw [hmin, Int.neg_tdiv, Int.tdiv_eq_ediv_of_nonneg (by positivity)] at hle
      have hprod := hbound (a := -left) (b := right) _ hr (show -left ≤ ((2 ^ 63 : ℕ) : ℤ) / right by omega)
      have hneg := Int.mul_neg_of_neg_of_pos hl hr
      rw [Int.neg_mul] at hprod
      exact ⟨by omega, by omega⟩
  · simp [InInt64]
  · rcases Int.lt_trichotomy right 0 with hr | rfl | hr
    · have hle := hpn hl hr
      rw [hmin, Int.neg_tdiv, Int.tdiv_eq_ediv_of_nonneg (by positivity)] at hle
      have hprod := hbound (a := -right) (b := left) _ hl (show -right ≤ ((2 ^ 63 : ℕ) : ℤ) / left by omega)
      have hneg := Int.mul_neg_of_pos_of_neg hl hr
      rw [Int.neg_mul, Int.mul_comm] at hprod
      exact ⟨by omega, by omega⟩
    · simp [InInt64]
    · have hle := hpp hl hr
      rw [hmax, Int.tdiv_eq_ediv_of_nonneg (by positivity)] at hle
      have hprod := hbound _ hr hle
      have hpos := Int.mul_pos hl hr
      exact ⟨by omega, by omega⟩

variable {op : ConstantBinary}

/-- What the operators of the discriminants compute, is the value modulo `2 ^ 64`: only a left shift may lose bits. -/
theorem enumBinary_value (hleft : InInt64 left) (hright : InInt64 right) (h : enumBinary op left right = some v) :
    InInt64 v ∧ ∃ w, binaryValue op left right = some w ∧ (op ≠ .shl → v = w) ∧ (InInt64 w → v = w) := by
  have hsame : ∀ {w}, InInt64 v → v = w → InInt64 v ∧ ∃ w', some w = some w' ∧ (op ≠ .shl → v = w') ∧ (InInt64 w' → v = w') :=
    fun hv hw => ⟨hv, _, rfl, fun _ => hw, fun _ => hw⟩
  have hbit : ∀ {p : Prop} [Decidable p], InInt64 (if p then 1 else 0) := by
    intro p _
    split_ifs <;> simp [InInt64]
  obtain ⟨hlow, hhigh⟩ := hleft
  obtain ⟨hlow', hhigh'⟩ := hright
  have hmax : maxInt64 = 2 ^ 63 - 1 := rfl
  have hmin : minInt64 = -2 ^ 63 := rfl
  cases op <;> simp only [enumBinary, binaryValue] at h ⊢
  case add =>
    split_ifs at h with hover
    obtain rfl := Option.some.inj h
    exact hsame ⟨by omega, by omega⟩ rfl
  case sub =>
    split_ifs at h with hover
    obtain rfl := Option.some.inj h
    exact hsame ⟨by omega, by omega⟩ rfl
  case mul =>
    obtain ⟨hv, hw⟩ := enumProduct_eq h
    exact hsame hv hw
  case div =>
    split_ifs at h with hover
    obtain ⟨hne, hover⟩ := not_or.mp hover
    obtain rfl := Option.some.inj h
    rw [if_neg hne]
    exact hsame (inInt64_tdiv ⟨hlow, hhigh⟩ hover) rfl
  case rem =>
    split_ifs at h with hover
    obtain ⟨hne, -⟩ := not_or.mp hover
    obtain rfl := Option.some.inj h
    rw [if_neg hne]
    exact hsame (inInt64_tmod ⟨hlow', hhigh'⟩ hne) rfl
  case shl =>
    split_ifs at h with hshift hlarge
    obtain rfl := Option.some.inj h
    rw [if_neg (by omega)]
    refine ⟨⟨by omega, by omega⟩, _, rfl, fun h => absurd rfl h, fun ⟨hw, hw'⟩ => ?_⟩
    -- what the unsigned shift keeps is the value modulo `2 ^ 64`
    have hmod : ((left % 2 ^ 64).toNat : ℤ) * 2 ^ right.toNat % 2 ^ 64 = left * 2 ^ right.toNat % 2 ^ 64 := by
      rw [Int.toNat_of_nonneg (Int.emod_nonneg _ (by decide)), Int.mul_emod, Int.emod_emod_of_dvd _ dvd_rfl,
        ← Int.mul_emod]
    omega
  case shr =>
    split_ifs at h with hshift
    obtain rfl := Option.some.inj h
    rw [if_neg (by omega)]
    exact hsame (inInt64_shr ⟨hlow, hhigh⟩ _) rfl
  all_goals first
    | exact hsame (Option.some.inj h ▸ inInt64_onBits _) (Option.some.inj h).symm
    | exact hsame (Option.some.inj h ▸ hbit) (Option.some.inj h).symm
    | cases h

theorem enumUnary_value {op : ConstantUnary} (hleft : InInt64 left) (h : enumUnary op left = some v) :
    InInt64 v ∧ unaryValue op left = some v := by
  obtain ⟨hlow, hhigh⟩ := hleft
  have hmin : minInt64 = -2 ^ 63 := rfl
  cases op <;> simp only [enumUnary, unaryValue] at h ⊢
  case minus =>
    split_ifs at h with hover
    obtain rfl := Option.some.inj h
    exact ⟨⟨by omega, by omega⟩, rfl⟩
  case complement =>
    obtain rfl := Option.some.inj h
    exact ⟨⟨by omega, by omega⟩, rfl⟩
  all_goals cases h

theorem alignmentUnary_value {op : ConstantUnary} (hleft : InInt64 left) (h : alignmentUnary op left = some v) :
    InInt64 v ∧ unaryValue op left = some v := by
  obtain ⟨hlow, hhigh⟩ := hleft
  have hmin : minInt64 = -2 ^ 63 := rfl
  cases op <;> simp only [alignmentUnary, unaryValue] at h ⊢
  case plus =>
    obtain rfl := Option.some.inj h
    exact ⟨⟨hlow, hhigh⟩, rfl⟩
  case minus =>
    split_ifs at h with hover
    obtain rfl := Option.some.inj h
    exact ⟨⟨by omega, by omega⟩, rfl⟩
  case complement =>
    obtain rfl := Option.some.inj h
    exact ⟨⟨by omega, by omega⟩, rfl⟩
  all_goals cases h

theorem alignmentBinary_value (hleft : InInt64 left) (hright : InInt64 right)
    (h : alignmentBinary op left right = some v) : InInt64 v ∧ binaryValue op left right = some v := by
  have hsame : ∀ {w}, InInt64 w → w = v → InInt64 v ∧ some w = some v := fun hw hv => ⟨hv ▸ hw, congrArg some hv⟩
  obtain ⟨hlow, hhigh⟩ := hleft
  obtain ⟨hlow', hhigh'⟩ := hright
  have hmax : maxInt64 = 2 ^ 63 - 1 := rfl
  have hmin : minInt64 = -2 ^ 63 := rfl
  cases op <;> simp only [alignmentBinary, binaryValue] at h ⊢
  case add =>
    split_ifs at h with hover
    exact hsame ⟨by omega, by omega⟩ (Option.some.inj h)
  case sub =>
    split_ifs at h with hover
    exact hsame ⟨by omega, by omega⟩ (Option.some.inj h)
  case mul =>
    split_ifs at h with hzero hover
    · have hprod : left * right = 0 := by rcases hzero with rfl | rfl <;> simp
      exact hsame (by simp [hprod, InInt64]) (hprod.trans (Option.some.inj h))
    · exact hsame (inInt64_product ⟨hlow, hhigh⟩ ⟨hlow', hhigh'⟩ hover) (Option.some.inj h)
  case div =>
    split_ifs at h with hover
    rw [if_neg hover.1]
    exact hsame (inInt64_tdiv ⟨hlow, hhigh⟩ hover.2) (Option.some.inj h)
  case rem =>
    split_ifs at h with hover
    rw [if_neg hover.1]
    exact hsame (inInt64_tmod ⟨hlow', hhigh'⟩ hover.1) (Option.some.inj h)
  case shl =>
    split_ifs at h with hshift hlarge
    rw [if_neg (by omega)]
    have hpos : (0 : ℤ) < 2 ^ right.toNat := Int.pow_pos (by decide)
    have hle : left * 2 ^ right.toNat ≤ maxInt64 := (Int.le_ediv_iff_mul_le hpos).mp hlarge.2
    have hnonneg : 0 ≤ left * 2 ^ right.toNat := Int.mul_nonneg hlarge.1 hpos.le
    exact hsame ⟨by omega, by omega⟩ (Option.some.inj h)
  case shr =>
    split_ifs at h with hshift
    rw [if_neg (by omega)]
    exact hsame (inInt64_shr ⟨hlow, hhigh⟩ _) (Option.some.inj h)
  all_goals first
    | exact hsame (inInt64_onBits _) (Option.some.inj h)
    | cases h

/-- Where both accept the operands, they agree. -/
theorem enumBinary_alignmentBinary {w : ℤ} (hleft : InInt64 left) (hright : InInt64 right)
    (h : enumBinary op left right = some v) (h' : alignmentBinary op left right = some w) : v = w := by
  obtain ⟨-, w', hvalue, -, hexact⟩ := enumBinary_value hleft hright h
  obtain ⟨hw, hvalue'⟩ := alignmentBinary_value hleft hright h'
  obtain rfl := Option.some.inj (hvalue.symm.trans hvalue')
  exact hexact hw

end

/-! ### Exact evaluation -/

namespace ConstantScope

variable (C : ConstantScope) (variants : Variants)

/-- The value of an expression, where no intermediate result leaves the range. -/
inductive Exact : ℕ → ℤ → Prop
  | literal {id : ℕ} {text : Text} {v : ℤ} : C.expression id = some (.literal text) → Spelled text v → InInt64 v →
      Exact id v
  | unary {id a : ℕ} {op : ConstantUnary} {rest : List ℕ} {x v : ℤ} : C.expression id = some (.unary op (a :: rest)) →
      Exact a x → unaryValue op x = some v → InInt64 v → Exact id v
  | binary {id a b : ℕ} {op : ConstantBinary} {rest : List ℕ} {x y v : ℤ} :
      C.expression id = some (.binary op (a :: b :: rest)) → Exact a x → Exact b y → binaryValue op x y = some v →
      InInt64 v → Exact id v
  | variant {id : ℕ} {text : String} {v : ℤ} : C.expression id = some (.name text) → variants.lookup text = some v →
      Exact id v
  | constant {id i : ℕ} {text : String} {v : ℤ} : C.expression id = some (.name text) → variants.lookup text = none →
      C.initializer id = some i → Exact i v → Exact id v
  | field {id a : ℕ} {text : String} {rest : List ℕ} {v : ℤ} : C.expression id = some (.field text (a :: rest)) →
      C.isOwnEnum a → variants.lookup text = some v → Exact id v

/-- The expressions that an evaluation leads to. -/
inductive LeadsTo : ℕ → ℕ → Prop
  | refl (id : ℕ) : LeadsTo id id
  | unary {id a sub : ℕ} {op : ConstantUnary} {rest : List ℕ} : C.expression id = some (.unary op (a :: rest)) →
      LeadsTo a sub → LeadsTo id sub
  | left {id a b sub : ℕ} {op : ConstantBinary} {rest : List ℕ} :
      C.expression id = some (.binary op (a :: b :: rest)) → LeadsTo a sub → LeadsTo id sub
  | right {id a b sub : ℕ} {op : ConstantBinary} {rest : List ℕ} :
      C.expression id = some (.binary op (a :: b :: rest)) → LeadsTo b sub → LeadsTo id sub
  | constant {id i sub : ℕ} {text : String} : C.expression id = some (.name text) → variants.lookup text = none →
      C.initializer id = some i → LeadsTo i sub → LeadsTo id sub

/-- Every literal is smaller than `2 ^ 63`. -/
def SmallLiterals (id : ℕ) : Prop :=
  ∀ sub text v, C.LeadsTo variants id sub → C.expression sub = some (.literal text) → Spelled text v → v < 2 ^ 63

/-- No shift to the left leaves the range. -/
def LosslessShifts (id : ℕ) : Prop :=
  ∀ sub a b rest x y v, C.LeadsTo variants id sub → C.expression sub = some (.binary .shl (a :: b :: rest)) →
    C.Exact variants a x → C.Exact variants b y → binaryValue .shl x y = some v → InInt64 v

/-- No name in the expression is that of a variant. -/
def NoVariants (id : ℕ) : Prop :=
  ∀ sub text, C.LeadsTo variants id sub → C.expression sub = some (.name text) → variants.lookup text = none

variable {C variants} {id : ℕ} {v w : ℤ}

theorem Exact.unique (hv : C.Exact variants id v) : ∀ {w}, C.Exact variants id w → v = w := by
  induction hv with
  | literal hexpr hspelled _ =>
    intro w hw
    cases hw with
    | literal hexpr' hspelled' _ =>
      obtain rfl : _ = _ := by simpa [hexpr] using hexpr'
      exact hspelled.unique hspelled'
    | _ hexpr' => simp [hexpr] at hexpr'
  | unary hexpr _ hvalue _ ih =>
    intro w hw
    cases hw with
    | unary hexpr' hx' hvalue' _ =>
      obtain ⟨rfl, rfl, rfl⟩ : _ ∧ _ ∧ _ := by simpa [hexpr] using hexpr'
      obtain rfl := ih hx'
      exact Option.some.inj (hvalue.symm.trans hvalue')
    | _ hexpr' => simp [hexpr] at hexpr'
  | binary hexpr _ _ hvalue _ iha ihb =>
    intro w hw
    cases hw with
    | binary hexpr' hx' hy' hvalue' _ =>
      obtain ⟨rfl, rfl, rfl, rfl⟩ : _ ∧ _ ∧ _ ∧ _ := by simpa [hexpr] using hexpr'
      obtain rfl := iha hx'
      obtain rfl := ihb hy'
      exact Option.some.inj (hvalue.symm.trans hvalue')
    | _ hexpr' => simp [hexpr] at hexpr'
  | variant hexpr hlookup =>
    intro w hw
    cases hw with
    | variant hexpr' hlookup' =>
      obtain rfl : _ = _ := by simpa [hexpr] using hexpr'
      exact Option.some.inj (hlookup.symm.trans hlookup')
    | constant hexpr' hlookup' _ _ =>
      obtain rfl : _ = _ := by simpa [hexpr] using hexpr'
      rw [hlookup] at hlookup'
      cases hlookup'
    | _ hexpr' => simp [hexpr] at hexpr'
  | constant hexpr hlookup hinit _ ih =>
    intro w hw
    cases hw with
    | variant hexpr' hlookup' =>
      obtain rfl : _ = _ := by simpa [hexpr] using hexpr'
      rw [hlookup] at hlookup'
      cases hlookup'
    | constant hexpr' _ hinit' hi' =>
      obtain rfl := Option.some.inj (hinit.symm.trans hinit')
      exact ih hi'
    | _ hexpr' => simp [hexpr] at hexpr'
  | field hexpr _ hlookup =>
    intro w hw
    cases hw with
    | field hexpr' _ hlookup' =>
      obtain ⟨rfl, rfl, rfl⟩ : _ ∧ _ ∧ _ := by simpa [hexpr] using hexpr'
      exact Option.some.inj (hlookup.symm.trans hlookup')
    | _ hexpr' => simp [hexpr] at hexpr'

variable {sub : ℕ}

/-- An exact evaluation is exact in all its parts. -/
theorem Exact.part (hsub : C.LeadsTo variants id sub) : ∀ {v}, C.Exact variants id v → ∃ w, C.Exact variants sub w := by
  induction hsub with
  | refl id => exact fun hv => ⟨_, hv⟩
  | unary hexpr _ ih =>
    intro v hv
    cases hv with
    | unary hexpr' hx _ _ =>
      obtain ⟨rfl, rfl, rfl⟩ : _ ∧ _ ∧ _ := by simpa [hexpr] using hexpr'
      exact ih hx
    | _ hexpr' => simp [hexpr] at hexpr'
  | left hexpr _ ih =>
    intro v hv
    cases hv with
    | binary hexpr' hx _ _ _ =>
      obtain ⟨rfl, rfl, rfl, rfl⟩ : _ ∧ _ ∧ _ ∧ _ := by simpa [hexpr] using hexpr'
      exact ih hx
    | _ hexpr' => simp [hexpr] at hexpr'
  | right hexpr _ ih =>
    intro v hv
    cases hv with
    | binary hexpr' _ hy _ _ =>
      obtain ⟨rfl, rfl, rfl, rfl⟩ : _ ∧ _ ∧ _ ∧ _ := by simpa [hexpr] using hexpr'
      exact ih hy
    | _ hexpr' => simp [hexpr] at hexpr'
  | constant hexpr hlookup hinit _ ih =>
    intro v hv
    cases hv with
    | variant hexpr' hlookup' =>
      obtain rfl : _ = _ := by simpa [hexpr] using hexpr'
      rw [hlookup] at hlookup'
      cases hlookup'
    | constant _ _ hinit' hi' =>
      obtain rfl := Option.some.inj (hinit.symm.trans hinit')
      exact ih hi'
    | _ hexpr' => simp [hexpr] at hexpr'

theorem Exact.smallLiterals (hv : C.Exact variants id v) : C.SmallLiterals variants id := by
  intro sub text w hsub hexpr hspelled
  obtain ⟨u, hu⟩ := hv.part hsub
  cases hu with
  | literal hexpr' hspelled' hrange =>
    obtain rfl : _ = _ := by simpa [hexpr] using hexpr'
    rw [hspelled.unique hspelled']
    exact hrange.2
  | _ hexpr' => simp [hexpr] at hexpr'

theorem Exact.losslessShifts (hv : C.Exact variants id v) : C.LosslessShifts variants id := by
  intro sub a b rest x y w hsub hexpr hx hy hvalue
  obtain ⟨u, hu⟩ := hv.part hsub
  cases hu with
  | binary hexpr' hx' hy' hvalue' hrange =>
    obtain ⟨rfl, rfl, rfl, rfl⟩ : _ ∧ _ ∧ _ ∧ _ := by simpa [hexpr] using hexpr'
    obtain rfl := hx.unique hx'
    obtain rfl := hy.unique hy'
    obtain rfl := Option.some.inj (hvalue.symm.trans hvalue')
    exact hrange
  | _ hexpr' => simp [hexpr] at hexpr'

/-- The discriminants of variants are signed 64-bit numbers. -/
def InRange (variants : Variants) : Prop := ∀ text v, variants.lookup text = some v → InInt64 v

theorem literalValue_spelled {text : Text} (h : literalValue text = some v) :
    InInt64 v ∧ ∃ w, Spelled text w ∧ w < 2 ^ 64 ∧ v = if w < 2 ^ 63 then w else w - 2 ^ 64 := by
  rw [literalValue] at h
  split at h
  · next value hparse =>
    obtain rfl := Option.some.inj h
    exact parseIntegerLiteral_spelled hparse
  · cases h

theorem literal_exact {text : Text} (hexpr : C.expression id = some (.literal text)) (h : literalValue text = some v)
    (hsmall : C.SmallLiterals variants id) : C.Exact variants id v := by
  obtain ⟨hrange, w, hspelled, -, hv⟩ := literalValue_spelled h
  have hw : w < 2 ^ 63 := hsmall id text w (.refl id) hexpr hspelled
  rw [if_pos hw] at hv
  exact .literal hexpr (hv ▸ hspelled) hrange

theorem evaluate_inInt64 (hvariants : InRange variants) : ∀ {fuel id : ℕ} {v : ℤ},
    C.evaluate variants fuel id = some v → InInt64 v
  | fuel + 1, id, v, h => by
    rw [evaluate] at h
    split at h
    · exact (literalValue_spelled h).1
    · obtain ⟨x, hx, hv⟩ := Option.bind_eq_some_iff.mp h
      exact (enumUnary_value (evaluate_inInt64 hvariants hx) hv).1
    · obtain ⟨x, hx, h⟩ := Option.bind_eq_some_iff.mp h
      obtain ⟨y, hy, hv⟩ := Option.bind_eq_some_iff.mp h
      exact (enumBinary_value (evaluate_inInt64 hvariants hx) (evaluate_inInt64 hvariants hy) hv).1
    · split at h
      · next hlookup =>
        obtain rfl := Option.some.inj h
        exact hvariants _ _ hlookup
      · obtain ⟨i, -, hv⟩ := Option.bind_eq_some_iff.mp h
        exact evaluate_inInt64 hvariants hv
    · split_ifs at h
      exact hvariants _ _ h
    · cases h

theorem SmallLiterals.of (h : C.SmallLiterals variants id)
    (hsub : ∀ {t}, C.LeadsTo variants sub t → C.LeadsTo variants id t) : C.SmallLiterals variants sub :=
  fun t text v ht => h t text v (hsub ht)

theorem LosslessShifts.of (h : C.LosslessShifts variants id)
    (hsub : ∀ {t}, C.LeadsTo variants sub t → C.LeadsTo variants id t) : C.LosslessShifts variants sub :=
  fun t a b rest x y v ht => h t a b rest x y v (hsub ht)

/-- A discriminant is exact, if its literals are small and its shifts lose nothing. -/
theorem evaluate_exact (hvariants : InRange variants) : ∀ {fuel id : ℕ} {v : ℤ},
    C.evaluate variants fuel id = some v → C.SmallLiterals variants id → C.LosslessShifts variants id →
    C.Exact variants id v
  | fuel + 1, id, v, h, hsmall, hshifts => by
    have hrange := evaluate_inInt64 hvariants h
    rw [evaluate] at h
    split at h
    · next hexpr => exact literal_exact hexpr h hsmall
    · next hexpr =>
      obtain ⟨x, hx, hv⟩ := Option.bind_eq_some_iff.mp h
      have hexact := evaluate_exact hvariants hx (hsmall.of (.unary hexpr)) (hshifts.of (.unary hexpr))
      exact .unary hexpr hexact (enumUnary_value (evaluate_inInt64 hvariants hx) hv).2 hrange
    · next op a b rest hexpr =>
      obtain ⟨x, hx, h⟩ := Option.bind_eq_some_iff.mp h
      obtain ⟨y, hy, hv⟩ := Option.bind_eq_some_iff.mp h
      have hleft := evaluate_exact hvariants hx (hsmall.of (.left hexpr)) (hshifts.of (.left hexpr))
      have hright := evaluate_exact hvariants hy (hsmall.of (.right hexpr)) (hshifts.of (.right hexpr))
      obtain ⟨-, w, hvalue, hother, hexact⟩ :=
        enumBinary_value (evaluate_inInt64 hvariants hx) (evaluate_inInt64 hvariants hy) hv
      have hvw : v = w := by
        by_cases hop : op = .shl
        · subst hop
          exact hexact (hshifts id a b rest x y w (.refl id) hexpr hleft hright hvalue)
        · exact hother hop
      exact .binary hexpr hleft hright (hvw ▸ hvalue) hrange
    · next text hexpr =>
      split at h
      · next hlookup =>
        obtain rfl := Option.some.inj h
        exact .variant hexpr hlookup
      · next hlookup =>
        obtain ⟨i, hi, hv⟩ := Option.bind_eq_some_iff.mp h
        exact .constant hexpr hlookup hi
          (evaluate_exact hvariants hv (hsmall.of (.constant hexpr hlookup hi)) (hshifts.of (.constant hexpr hlookup hi)))
    · next hexpr =>
      split_ifs at h with hown
      exact .field hexpr hown h
    · cases h

theorem alignment_inInt64 : ∀ {fuel id : ℕ} {v : ℤ}, C.alignmentIntegerValue fuel id = some v → InInt64 v
  | fuel + 1, id, v, h => by
    rw [alignmentIntegerValue] at h
    split at h
    · exact (literalValue_spelled h).1
    · obtain ⟨x, hx, hv⟩ := Option.bind_eq_some_iff.mp h
      exact (alignmentUnary_value (alignment_inInt64 hx) hv).1
    · obtain ⟨x, hx, h⟩ := Option.bind_eq_some_iff.mp h
      obtain ⟨y, hy, hv⟩ := Option.bind_eq_some_iff.mp h
      exact (alignmentBinary_value (alignment_inInt64 hx) (alignment_inInt64 hy) hv).1
    · split_ifs at h
      obtain ⟨i, -, hv⟩ := Option.bind_eq_some_iff.mp h
      exact alignment_inInt64 hv
    · cases h

/-- An alignment is exact, if its literals are small. -/
theorem alignment_exact : ∀ {fuel id : ℕ} {v : ℤ}, C.alignmentIntegerValue fuel id = some v → C.SmallLiterals [] id →
    C.Exact [] id v
  | fuel + 1, id, v, h, hsmall => by
    have hrange := alignment_inInt64 h
    rw [alignmentIntegerValue] at h
    split at h
    · next hexpr => exact literal_exact hexpr h hsmall
    · next hexpr =>
      obtain ⟨x, hx, hv⟩ := Option.bind_eq_some_iff.mp h
      exact .unary hexpr (alignment_exact hx (hsmall.of (.unary hexpr))) (alignmentUnary_value (alignment_inInt64 hx) hv).2
        hrange
    · next hexpr =>
      obtain ⟨x, hx, h⟩ := Option.bind_eq_some_iff.mp h
      obtain ⟨y, hy, hv⟩ := Option.bind_eq_some_iff.mp h
      exact .binary hexpr (alignment_exact hx (hsmall.of (.left hexpr))) (alignment_exact hy (hsmall.of (.right hexpr)))
        (alignmentBinary_value (alignment_inInt64 hx) (alignment_inInt64 hy) hv).2 hrange
    · next hexpr =>
      split_ifs at h
      obtain ⟨i, hi, hv⟩ := Option.bind_eq_some_iff.mp h
      exact .constant hexpr rfl hi (alignment_exact hv (hsmall.of (.constant hexpr rfl hi)))
    · cases h

theorem NoVariants.of (h : C.NoVariants variants id)
    (hsub : ∀ {t}, C.LeadsTo variants sub t → C.LeadsTo variants id t) : C.NoVariants variants sub :=
  fun t text ht => h t text (hsub ht)

/-- The evaluators agree on what both accept. -/
theorem evaluate_alignment (hvariants : InRange variants) : ∀ {fuel fuel' id : ℕ} {v w : ℤ},
    C.evaluate variants fuel id = some v → C.alignmentIntegerValue fuel' id = some w → C.NoVariants variants id → v = w
  | fuel + 1, fuel' + 1, id, v, w, h, h', hnames => by
    rw [evaluate] at h
    rw [alignmentIntegerValue] at h'
    cases hexpr : C.expression id with
    | none => simp [hexpr] at h
    | some expr =>
      rw [hexpr] at h h'
      cases expr with
      | literal text => exact Option.some.inj (h.symm.trans h')
      | unary op operands =>
        rcases operands with _ | ⟨a, _ | ⟨b, rest⟩⟩
        · cases h
        · obtain ⟨x, hx, hv⟩ := Option.bind_eq_some_iff.mp h
          obtain ⟨y, hy, hw⟩ := Option.bind_eq_some_iff.mp h'
          obtain rfl := evaluate_alignment hvariants hx hy (hnames.of (.unary hexpr))
          exact Option.some.inj ((enumUnary_value (evaluate_inInt64 hvariants hx) hv).2.symm.trans
            (alignmentUnary_value (alignment_inInt64 hy) hw).2)
        · cases h'
      | binary op operands =>
        rcases operands with _ | ⟨a, _ | ⟨b, _ | ⟨c, rest⟩⟩⟩
        · cases h
        · cases h
        · obtain ⟨x, hx, h⟩ := Option.bind_eq_some_iff.mp h
          obtain ⟨y, hy, hv⟩ := Option.bind_eq_some_iff.mp h
          obtain ⟨x', hx', h'⟩ := Option.bind_eq_some_iff.mp h'
          obtain ⟨y', hy', hw⟩ := Option.bind_eq_some_iff.mp h'
          obtain rfl := evaluate_alignment hvariants hx hx' (hnames.of (.left hexpr))
          obtain rfl := evaluate_alignment hvariants hy hy' (hnames.of (.right hexpr))
          exact enumBinary_alignmentBinary (evaluate_inInt64 hvariants hx) (evaluate_inInt64 hvariants hy) hv hw
        · cases h'
      | name text =>
        have hlookup := hnames id text (.refl id) hexpr
        simp only [hlookup] at h
        split_ifs at h'
        obtain ⟨i, hi, hv⟩ := Option.bind_eq_some_iff.mp h
        obtain ⟨j, hj, hw⟩ := Option.bind_eq_some_iff.mp h'
        obtain rfl := Option.some.inj (hi.symm.trans hj)
        exact evaluate_alignment hvariants hv hw (hnames.of (.constant hexpr hlookup hi))
      | field text operands => cases h'
      | other => cases h

end ConstantScope

end Zith.Sema
