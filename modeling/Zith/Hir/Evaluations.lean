import Zith.Hir.Execution
import Zith.Lib.Succeeds

/-! What an evaluation leaves behind, and the values of the expressions that guards are made of. -/

namespace Zith.Hir
open Types (TypeIntern)

section
variable {m : HirModule} {types : TypeIntern} {internedId : Text → UInt32}

/-! ### Later states -/

/-- Only evaluations have happened since `s`, and a slot that none of them stores is as it was. -/
def Later (m : HirModule) (s s' : State) : Prop :=
  ∃ events, s'.log = events ++ s.log ∧ (∀ e ∈ events, ∃ id operands, e = .evaluated id operands) ∧
    ∀ slot, (∀ e ∈ events, ¬Stores m slot e) → s'.slots slot = s.slots slot

theorem Later.refl {s : State} : Later m s s := ⟨[], rfl, fun _ h => absurd h List.not_mem_nil, fun _ _ => rfl⟩

theorem Later.trans {s s' s'' : State} (h : Later m s s') (h' : Later m s' s'') : Later m s s'' := by
  obtain ⟨events, hlog, hevents, hslots⟩ := h
  obtain ⟨events', hlog', hevents', hslots'⟩ := h'
  refine ⟨events' ++ events, by rw [hlog', hlog, List.append_assoc], ?_, ?_⟩
  · intro e he
    exact (List.mem_append.mp he).elim (hevents' e) (hevents e)
  · intro slot hstores
    have hlast := hslots' slot fun e he => hstores e (List.mem_append_left _ he)
    exact hlast.trans (hslots slot fun e he => hstores e (List.mem_append_right _ he))

variable {s s' : State} {id : HirExprId} {value : Content} {values : List Content}

theorem later_after {s : State} {expr : HirExpr} {operands : List Content}
    (hexpr : m.tryExpr id = some expr) : Later m s (s.after id expr operands) := by
  refine ⟨[.evaluated id operands], rfl, ?_, ?_⟩
  · intro e he
    exact ⟨id, operands, List.mem_singleton.mp he⟩
  · intro slot hstores
    change store expr operands s.slots slot = s.slots slot
    unfold store
    split
    · rename_i stored value content
      have hne : slot ≠ stored := by
        rintro rfl
        exact hstores _ (List.mem_singleton_self _) ⟨value, hexpr⟩
      exact Function.update_of_ne hne ..
    · rfl

theorem Evaluates.later {ids : List HirExprId} (h : Evaluates m types internedId ids s values s') : Later m s s' := by
  induction h with
  | nil => exact .refl
  | cons hexpr _ _ _ _ _ hoperands hrest => exact (hoperands.trans (later_after hexpr)).trans hrest

/-! ### Taking an evaluation apart -/

theorem Evaluates.split {rest : List HirExprId} (h : Evaluates m types internedId (id :: rest) s values s') :
    ∃ value more s₁, values = value :: more ∧ Evaluates m types internedId [id] s [value] s₁ ∧
      Evaluates m types internedId rest s₁ more s' := by
  cases h with
  | cons hexpr hids hoperands htakes hgives hrest =>
    exact ⟨_, _, _, rfl, .cons hexpr hids hoperands htakes hgives .nil, hrest⟩

/-- An expression that evaluates all its operands, or has none. -/
theorem Evaluates.node {expr : HirExpr} (h : Evaluates m types internedId [id] s [value] s')
    (hexpr : m.tryExpr id = some expr) (hin : inOrder expr = true ∨ children expr = []) :
    ∃ operands s₁, Evaluates m types internedId (children expr) s operands s₁ ∧ Takes types expr operands ∧
      Gives types internedId expr s₁.slots operands value ∧ s' = s₁.after id expr operands := by
  cases h with
  | @cons _ expr' ids _ _ s₁ _ operands _ _ hexpr' hids hoperands htakes hgives hrest =>
    cases hrest
    obtain rfl : expr' = expr := Option.some.inj (hexpr'.symm.trans hexpr)
    have heq : ids = children expr' := by
      rw [Operands] at hids
      split at hids
      · exact hids
      · rename_i hno
        have hnone := hin.resolve_left hno
        rw [hnone]
        exact List.eq_nil_iff_forall_not_mem.mpr fun id hid => absurd (hnone ▸ hids id hid) List.not_mem_nil
    exact ⟨operands, s₁, heq ▸ hoperands, htakes, hgives, rfl⟩

theorem Evaluates.one (h : Evaluates m types internedId [id] s values s') :
    ∃ value, values = [value] ∧ Evaluates m types internedId [id] s [value] s' := by
  obtain ⟨value, more, s₁, rfl, hid, hrest⟩ := h.split
  cases hrest
  exact ⟨value, rfl, hid⟩

theorem Evaluates.two {id id' : HirExprId} (h : Evaluates m types internedId [id, id'] s values s') :
    ∃ value value' s₁, values = [value, value'] ∧ Evaluates m types internedId [id] s [value] s₁ ∧
      Evaluates m types internedId [id'] s₁ [value'] s' := by
  obtain ⟨value, more, s₁, rfl, hid, hrest⟩ := h.split
  obtain ⟨value', rfl, hid'⟩ := hrest.one
  exact ⟨value, value', s₁, rfl, hid, hid'⟩

/-! ### Slots and literals -/

theorem Evaluates.slot {slot : HirSlotId} (h : Evaluates m types internedId [id] s [value] s')
    (hslot : slotOfValue m id = some slot) : value = s.slots slot ∧ s'.slots = s.slots := by
  rw [slotOfValue] at hslot
  split at hslot
  · rename_i hexpr
    split at hslot
    · cases hslot
    · cases hslot
      obtain ⟨operands, s₁, hoperands, -, hgives, rfl⟩ := h.node hexpr (.inr rfl)
      cases hoperands
      exact ⟨hgives, rfl⟩
  · rename_i hexpr
    split at hslot
    · cases hslot
    · cases hslot
      obtain ⟨operands, s₁, hoperands, -, hgives, rfl⟩ := h.node hexpr (.inr rfl)
      cases hoperands
      exact ⟨hgives, rfl⟩
  · cases hslot

theorem slotOfValue_of_optionalSlot {slot : HirSlotId} (h : optionalSlot m id = some slot) :
    slotOfValue m id = some slot := by
  rw [optionalSlot] at h
  split at h
  · rename_i hexpr
    rw [slotOfValue, hexpr]
    exact h
  · cases h

theorem Evaluates.slotLoad {slot : HirSlotId} (h : Evaluates m types internedId [id] s [value] s')
    (hload : isSlotLoad m id slot = true) : value = s.slots slot ∧ s'.slots = s.slots := by
  rw [isSlotLoad] at hload
  split at hload
  · rename_i hexpr
    obtain rfl := beq_iff_eq.mp hload
    obtain ⟨operands, s₁, hoperands, -, hgives, rfl⟩ := h.node hexpr (.inr rfl)
    cases hoperands
    exact ⟨hgives, rfl⟩
  · cases hload

theorem Evaluates.literal {id : HirExprId} {s s' : State} {value : Content} {literal : HirLiteralValue}
    {type : TypeId} (h : Evaluates m types internedId [id] s [value] s')
    (hexpr : m.tryExpr id = some (.literal literal type)) :
    LiteralGives types internedId literal type value ∧ s'.slots = s.slots := by
  obtain ⟨operands, s₁, hoperands, -, hgives, rfl⟩ := h.node hexpr (.inr rfl)
  cases hoperands
  exact ⟨hgives, rfl⟩

/-- The low byte of a literal that is zero is zero. -/
theorem truth_of_word {literal : HirLiteralValue} (h : literal.word internedId = 0) :
    literal.truth internedId = false := by
  cases literal with
  | b value =>
    cases value with
    | false => rfl
    | true => cases h
  | i | f | strVal => rw [HirLiteralValue.truth, h] <;> first | rfl | (intro value hb; cases hb)

/-- The integer that a literal stands for is its word, or a truth value that is no more than it. -/
theorem LiteralGives.le {literal : HirLiteralValue} {type : TypeId} {i : Int64}
    (h : LiteralGives types internedId literal type (.int i)) (hpos : 0 ≤ literal.word internedId) :
    i ≤ literal.word internedId ∧ (literal.word internedId = 0 → i = 0) := by
  rw [LiteralGives] at h
  split at h
  · cases h
    exact ⟨Int64.le_refl _, id⟩
  · cases h
    exact ⟨Int64.le_refl _, id⟩
  · cases h
    exact ⟨Int64.le_refl _, id⟩
  · obtain rfl : i = if literal.truth internedId then 1 else 0 := Content.int.inj h
    by_cases hword : literal.word internedId = 0
    · rw [truth_of_word hword, hword]
      decide
    · refine ⟨?_, fun h => absurd h hword⟩
      rw [Int64.le_iff_toInt_le, Int64.toInt_zero] at hpos
      have hne : (literal.word internedId).toInt ≠ 0 := by
        intro h
        exact hword (Int64.toInt_inj.mp (h.trans Int64.toInt_zero.symm))
      rw [Int64.le_iff_toInt_le]
      split
      · change (1 : ℤ) ≤ _
        omega
      · change (0 : ℤ) ≤ _
        omega
  · exact absurd rfl (h i)

theorem Evaluates.zero (h : Evaluates m types internedId [id] s [value] s')
    (hzero : isZero m internedId id = true) : s'.slots = s.slots ∧ ∀ i, value = .int i → i = 0 := by
  rw [isZero] at hzero
  split at hzero
  · rename_i literal type hexpr
    have hword : literal.word internedId = 0 := beq_iff_eq.mp hzero
    obtain ⟨hgives, hslots⟩ := h.literal hexpr
    refine ⟨hslots, ?_⟩
    rintro i rfl
    exact (hgives.le (hword ▸ Int64.le_refl _)).2 hword
  · cases hzero

/-! ### Lengths -/

theorem toInt_toInt64_le (length : UInt64) : length.toInt64.toInt ≤ length.toNat := by
  have hle : length.toBitVec.toInt ≤ length.toBitVec.toNat := by
    rw [BitVec.toInt_eq_toNat_cond]
    split <;> omega
  exact hle

/-- A word that is not negative is the same number with and without a sign. -/
theorem toInt_eq_toNat {word : Int64} (h : 0 ≤ word) : word.toInt = word.toUInt64.toNat := by
  rw [Int64.le_iff_toInt_le, Int64.toInt_zero] at h
  have htoInt : word.toInt = word.toBitVec.toInt := rfl
  have htoNat : word.toUInt64.toNat = word.toBitVec.toNat := rfl
  rw [htoInt, BitVec.toInt_eq_toNat_cond] at h ⊢
  rw [htoNat]
  split
  · rfl
  · rename_i hneg
    rw [if_neg hneg] at h
    have hlt := word.toBitVec.isLt
    omega

/-- Behind its casts the length of a slice is an integer, and no more than the slice is long. -/
theorem Evaluates.sliceLength {objectType : TypeId} {slot : HirSlotId} {elem : ℕ}
    (htype : types.lookup objectType.toNat = some (.slice elem)) :
    ∀ {depth : ℕ} {id : HirExprId} {s s' : State} {value : Content},
      Evaluates m types internedId [id] s [value] s' → isSliceLength m objectType slot depth id = true →
        s'.slots = s.slots ∧ ∃ i length, value = .int i ∧ s.slots slot = .slice length ∧ i.toInt ≤ length.toNat := by
  intro depth
  induction depth with
  | zero =>
    intro id s s' value _ hlength
    cases hlength
  | succ depth ih =>
    intro id s s' value h hlength
    rw [isSliceLength] at hlength
    split at hlength
    · rename_i inner source target hexpr
      obtain ⟨operands, s₁, hoperands, -, hgives, rfl⟩ := h.node hexpr (.inl rfl)
      obtain ⟨content, rfl, hinner⟩ := hoperands.one
      obtain ⟨hslots, i, length, rfl, hcontent, hle⟩ := ih hinner hlength
      exact ⟨hslots, i, length, hgives, hcontent, hle⟩
    · rename_i object index type fieldObjectType safety hexpr
      simp only [Bool.and_eq_true, beq_iff_eq] at hlength
      obtain ⟨⟨rfl, rfl⟩, hload⟩ := hlength
      obtain ⟨operands, s₁, hoperands, htakes, hgives, rfl⟩ := h.node hexpr (.inl rfl)
      obtain ⟨content, rfl, hobject⟩ := hoperands.one
      obtain ⟨rfl, hslots⟩ := hobject.slotLoad hload
      obtain ⟨length, hcontent⟩ : ∃ length, s.slots slot = .slice length := by
        simpa only [Takes, Fits, htype] using htakes
      have hvalue : value = .int length.toInt64 := by
        simp only [Gives, hcontent, FieldGives] at hgives
        exact hgives trivial
      exact ⟨hslots, _, length, hvalue, hcontent, toInt_toInt64_le length⟩
    · cases hlength

/-- What the verifier takes for the length of an object is no more than its bound. -/
theorem Evaluates.length {id : HirExprId} {s s' : State} {value : Content} {objectType : TypeId}
    {slot : HirSlotId} (h : Evaluates m types internedId [id] s [value] s')
    (hlength : isLengthOf m types internedId id objectType slot = true) : s'.slots = s.slots ∧ ∀ i, value = .int i →
      ∃ bound, boundOf types objectType (s.slots slot) = some bound ∧ i.toInt ≤ bound := by
  rw [isLengthOf] at hlength
  split at hlength
  · rename_i elem count htype
    split at hlength
    · rename_i literal type hexpr
      simp only [Bool.and_eq_true, decide_eq_true_eq, beq_iff_eq] at hlength
      obtain ⟨hpos, hcount⟩ := hlength
      obtain ⟨hgives, hslots⟩ := h.literal hexpr
      refine ⟨hslots, ?_⟩
      rintro i rfl
      refine ⟨count.toNat, by simp only [boundOf, htype], ?_⟩
      have hle := Int64.le_iff_toInt_le.mp (hgives.le hpos).1
      rw [toInt_eq_toNat hpos, hcount] at hle
      exact hle
    · cases hlength
  · rename_i elem htype
    obtain ⟨hslots, i, length, rfl, hcontent, hle⟩ := h.sliceLength htype hlength
    refine ⟨hslots, ?_⟩
    rintro j hj
    cases hj
    exact ⟨length.toNat, by simp only [boundOf, htype, hcontent], hle⟩
  · cases hlength

/-! ### Comparisons -/

/-- The operation takes integers only, and answers by the test. -/
def Compares (op : UInt8) (test : Int64 → Int64 → Bool) : Prop :=
  ∀ {a : Int64} {rhs value : Content}, BinaryGives op (.int a) rhs value →
    ∃ b, rhs = .int b ∧ value = .ofBool (test a b)

theorem compares_lt : Compares HirBinaryOp.lt fun a b => a < b := by
  intro a rhs value h
  cases rhs with
  | int b => exact ⟨b, rfl, h⟩
  | optional | slice | union | erased | other => exact absurd rfl h.1

theorem compares_le : Compares HirBinaryOp.le fun a b => a ≤ b := by
  intro a rhs value h
  cases rhs with
  | int b => exact ⟨b, rfl, h⟩
  | optional | slice | union | erased | other => exact absurd rfl h.2.1

theorem compares_ge : Compares HirBinaryOp.ge fun a b => b ≤ a := by
  intro a rhs value h
  cases rhs with
  | int b => exact ⟨b, rfl, h⟩
  | optional | slice | union | erased | other => exact absurd rfl h.2.2.1

/-- Both of two truth values. -/
theorem BinaryGives.both {x y : Bool} (h : BinaryGives HirBinaryOp.and (.ofBool x) (.ofBool y) value) :
    value = .ofBool (x && y) := by
  obtain rfl : value = .int ((if x then 1 else 0) &&& (if y then 1 else 0)) := h
  cases x <;> cases y <;> rfl

theorem Evaluates.binaryOperands {id lhs rhs : HirExprId} {op : UInt8}
    (h : Evaluates m types internedId [id] s [value] s') (hbinary : binary m id op = some (lhs, rhs)) :
    ∃ a b s₁ s₂, Evaluates m types internedId [lhs] s [a] s₁ ∧ Evaluates m types internedId [rhs] s₁ [b] s₂ ∧
      BinaryGives op a b value ∧ s'.slots = s₂.slots := by
  rw [binary] at hbinary
  split at hbinary
  · rename_i hexpr
    split at hbinary
    · rename_i hop
      cases hbinary
      subst hop
      obtain ⟨operands, s₂, hoperands, -, hgives, rfl⟩ := h.node hexpr (.inl rfl)
      obtain ⟨a, b, s₁, rfl, hlhs, hrhs⟩ := hoperands.two
      exact ⟨a, b, s₁, s₂, hlhs, hrhs, hgives, rfl⟩
    · cases hbinary
  · cases hbinary

/-- A slot is compared with an expression. -/
theorem Evaluates.compare {id lhs rhs : HirExprId} {op : UInt8} {test : Int64 → Int64 → Bool}
    {slot : HirSlotId} (h : Evaluates m types internedId [id] s [value] s') (htest : Compares op test)
    (hbinary : binary m id op = some (lhs, rhs)) (hload : isSlotLoad m lhs slot = true) :
    ∃ b s₁ s₂, Evaluates m types internedId [rhs] s₁ [b] s₂ ∧ s₁.slots = s.slots ∧ s'.slots = s₂.slots ∧
      ∀ i, s.slots slot = .int i → ∃ j, b = .int j ∧ value = .ofBool (test i j) := by
  obtain ⟨a, b, s₁, s₂, hlhs, hrhs, hgives, hslots⟩ := h.binaryOperands hbinary
  obtain ⟨rfl, hload⟩ := hlhs.slotLoad hload
  refine ⟨b, s₁, s₂, hrhs, hload, hslots, ?_⟩
  intro i hi
  rw [hi] at hgives
  exact htest hgives

end

end Zith.Hir
