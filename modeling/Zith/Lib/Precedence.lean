import Mathlib.Algebra.Order.Group.Int

/-! Operands with infix operators between them, and the brackets that precedence puts around them. An operator has a
    level, and at some levels operators group to the right (`Levels`). Every sequence has exactly one tree that is
    bracketed that way (`existsUnique_bracketed`), the one in which each operator is hung in at the lowest place
    on the right edge where it binds (`extend`). -/

namespace Zith.Lib

/-- How tightly operators bind, and the levels at which they group to the right. -/
structure Levels (Op : Type) where
  level : Op → ℤ
  right : ℤ → Prop
  [decidableRight : DecidablePred right]

attribute [instance] Levels.decidableRight

/-- The least level of an operator on the left of another one. -/
def Levels.onLeft {Op : Type} (P : Levels Op) (op : Op) : ℤ :=
  if P.right (P.level op) then P.level op + 1 else P.level op

/-- The least level of an operator on the right of another one. -/
def Levels.onRight {Op : Type} (P : Levels Op) (op : Op) : ℤ :=
  if P.right (P.level op) then P.level op else P.level op + 1

inductive OpTree (Op A : Type) where
  | leaf (a : A)
  | node (op : Op) (l r : OpTree Op A)
  deriving DecidableEq, Repr

namespace OpTree
section
variable {Op A : Type}

/-! ### The traversal in order -/

def first : OpTree Op A → A
  | leaf a => a
  | node _ l _ => l.first

/-- What comes behind the first operand: operators, each with the operand behind it. -/
def rest : OpTree Op A → List (Op × A)
  | leaf _ => []
  | node op l r => l.rest ++ (op, r.first) :: r.rest

/-! ### Brackets -/

/-- The operator at the root, if there is one, has at least a level. -/
def AtLeast (P : Levels Op) (min : ℤ) : OpTree Op A → Prop
  | leaf _ => True
  | node op _ _ => min ≤ P.level op

def Bracketed (P : Levels Op) : OpTree Op A → Prop
  | leaf _ => True
  | node op l r => l.AtLeast P (P.onLeft op) ∧ r.AtLeast P (P.onRight op) ∧ l.Bracketed P ∧ r.Bracketed P

instance AtLeast.decidable (P : Levels Op) (min : ℤ) : DecidablePred (AtLeast (A := A) P min)
  | leaf _ => .isTrue trivial
  | node op _ _ => inferInstanceAs (Decidable (min ≤ P.level op))

instance Bracketed.decidable (P : Levels Op) : DecidablePred (Bracketed (A := A) P)
  | leaf _ => .isTrue trivial
  | node op l r =>
    have := Bracketed.decidable P l
    have := Bracketed.decidable P r
    inferInstanceAs (Decidable (l.AtLeast P (P.onLeft op) ∧ r.AtLeast P (P.onRight op) ∧ l.Bracketed P ∧ r.Bracketed P))

/-- An operator does not go into the right operand of a root, as it binds less tightly. -/
def Below (P : Levels Op) (op : Op) : OpTree Op A → Prop
  | leaf _ => True
  | node o _ _ => P.level op < P.onRight o

/-- An operator and an operand more, at the lowest place on the right edge where the operator binds. -/
def extend (P : Levels Op) (op : Op) (a : A) : OpTree Op A → OpTree Op A
  | leaf b => node op (leaf b) (leaf a)
  | node o l r => if P.level op < P.onRight o then node op (node o l r) (leaf a) else node o l (r.extend P op a)

def extendAll (P : Levels Op) (t : OpTree Op A) (ops : List (Op × A)) : OpTree Op A :=
  ops.foldl (fun t o => t.extend P o.1 o.2) t

end

section
variable {Op A : Type} {P : Levels Op} {op o : Op} {t l r : OpTree Op A} {min : ℤ} {a : A}

theorem level_le_onRight (P : Levels Op) (op : Op) : P.level op ≤ P.onRight op := by
  rw [Levels.onRight]
  split <;> omega

theorem level_le_onLeft (P : Levels Op) (op : Op) : P.level op ≤ P.onLeft op := by
  rw [Levels.onLeft]
  split <;> omega

/-- What may stand on the left of an operator does not take the operator in. -/
theorem lt_onRight_of_onLeft (h : P.onLeft op ≤ P.level o) : P.level op < P.onRight o := by
  rw [Levels.onLeft] at h
  rw [Levels.onRight]
  -- at one level, the two group to the same side
  by_cases heq : P.level o = P.level op
  · rw [heq]
    split_ifs at h ⊢ <;> omega
  · split_ifs at h ⊢ <;> omega

theorem onLeft_le_of_lt (h : P.level op < P.onRight o) : P.onLeft op ≤ P.level o := by
  rw [Levels.onRight] at h
  rw [Levels.onLeft]
  by_cases heq : P.level o = P.level op
  · rw [heq] at h ⊢
    split_ifs at h ⊢ <;> omega
  · split_ifs at h ⊢ <;> omega

theorem AtLeast.mono {m : ℤ} (h : t.AtLeast P min) (hle : m ≤ min) : t.AtLeast P m := by
  cases t with
  | leaf a => trivial
  | node o l r => exact le_trans hle h

theorem AtLeast.below (h : t.AtLeast P (P.onLeft op)) : t.Below P op := by
  cases t with
  | leaf a => trivial
  | node o l r => exact lt_onRight_of_onLeft h

/-! ### One more operator -/

@[simp] theorem first_extend : (t.extend P op a).first = t.first := by
  induction t with
  | leaf b => rfl
  | node o l r ihl ihr =>
    rw [extend]
    split <;> rfl

@[simp] theorem rest_extend : (t.extend P op a).rest = t.rest ++ [(op, a)] := by
  induction t with
  | leaf b => rfl
  | node o l r ihl ihr =>
    rw [extend]
    split
    · rfl
    · rw [rest, ihr, first_extend]
      simp [rest]

theorem AtLeast.extend (h : t.AtLeast P min) (hop : min ≤ P.level op) : (t.extend P op a).AtLeast P min := by
  cases t with
  | leaf b => exact hop
  | node o l r =>
    rw [OpTree.extend]
    split
    · exact hop
    · exact h

theorem Bracketed.extend (h : t.Bracketed P) : (t.extend P op a).Bracketed P := by
  induction t with
  | leaf b => exact ⟨trivial, trivial, trivial, trivial⟩
  | node o l r ihl ihr =>
    rw [OpTree.extend]
    split
    · rename_i hlt
      exact ⟨onLeft_le_of_lt hlt, trivial, h, trivial⟩
    · rename_i hlt
      obtain ⟨hleft, hright, hl, hr⟩ := h
      exact ⟨hleft, hright.extend (not_lt.mp hlt), hl, ihr hr⟩

theorem extend_of_below (h : t.Below P op) : t.extend P op a = node op t (leaf a) := by
  cases t with
  | leaf b => rfl
  | node o l r => exact if_pos h

/-! ### All operators of a sequence -/

@[simp] theorem extendAll_nil : extendAll P t [] = t := rfl

@[simp] theorem extendAll_cons (ops : List (Op × A)) :
    extendAll P t ((op, a) :: ops) = extendAll P (t.extend P op a) ops := rfl

theorem extendAll_append (ops ops' : List (Op × A)) :
    extendAll P t (ops ++ ops') = extendAll P (extendAll P t ops) ops' := List.foldl_append

theorem extendAll_spec : ∀ (ops : List (Op × A)) {t : OpTree Op A}, t.Bracketed P →
    (extendAll P t ops).Bracketed P ∧ (extendAll P t ops).first = t.first ∧ (extendAll P t ops).rest = t.rest ++ ops
  | [], t, h => ⟨h, rfl, by simp⟩
  | (op, a) :: ops, t, h => by
    obtain ⟨hbracketed, hfirst, hrest⟩ := extendAll_spec ops (h.extend : (t.extend P op a).Bracketed P)
    exact ⟨hbracketed, by rw [extendAll_cons, hfirst, first_extend],
      by rw [extendAll_cons, hrest, rest_extend, List.append_assoc, List.singleton_append]⟩

/-- Operators that bind more tightly than a root all go into its right operand. -/
theorem extendAll_node : ∀ {ops : List (Op × A)} {r : OpTree Op A}, (∀ o ∈ ops, P.onRight op ≤ P.level o.1) →
    extendAll P (node op l r) ops = node op l (extendAll P r ops)
  | [], _, _ => rfl
  | (o, a) :: ops, r, h => by
    obtain ⟨ho, hops⟩ := List.forall_mem_cons.mp h
    rw [extendAll_cons, extendAll_cons, extend, if_neg (not_lt.mpr ho), extendAll_node hops]

/-- No operator of a bracketed tree binds less tightly than its root. -/
theorem Bracketed.le_level (h : t.Bracketed P) (hmin : t.AtLeast P min) : ∀ o ∈ t.rest, min ≤ P.level o.1 := by
  induction t generalizing min with
  | leaf a => simp [rest]
  | node op l r ihl ihr =>
    obtain ⟨hleft, hright, hl, hr⟩ := h
    have hmin : min ≤ P.level op := hmin
    intro o ho
    rcases List.mem_append.mp ho with ho | ho
    · exact ihl hl (hleft.mono (le_trans hmin (level_le_onLeft P op))) o ho
    · rcases List.mem_cons.mp ho with rfl | ho
      · exact hmin
      · exact ihr hr (hright.mono (le_trans hmin (level_le_onRight P op))) o ho

/-- A bracketed tree is what its own traversal gives. -/
theorem Bracketed.eq_extendAll (h : t.Bracketed P) : extendAll P (leaf t.first) t.rest = t := by
  induction t with
  | leaf a => rfl
  | node op l r ihl ihr =>
    obtain ⟨hleft, hright, hl, hr⟩ := h
    rw [first, rest, extendAll_append, ihl hl, extendAll_cons, extend_of_below hleft.below,
      extendAll_node (hr.le_level hright), ihr hr]

theorem existsUnique_bracketed (P : Levels Op) (a : A) (ops : List (Op × A)) :
    ∃! t : OpTree Op A, t.Bracketed P ∧ t.first = a ∧ t.rest = ops := by
  obtain ⟨hbracketed, hfirst, hrest⟩ := extendAll_spec (P := P) ops (t := leaf a) trivial
  refine ⟨extendAll P (leaf a) ops, ⟨hbracketed, hfirst, hrest⟩, fun t ⟨ht, hta, hto⟩ => ?_⟩
  rw [← hta, ← hto, ht.eq_extendAll]

end
end OpTree

end Zith.Lib
