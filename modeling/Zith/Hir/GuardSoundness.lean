import Zith.Hir.Evaluations

/-! A condition that a matcher accepts, with the answer that the matcher asks for, says of the contents at
    that moment what the guarded operation needs. -/

namespace Zith.Hir
open Types (TypeIntern)
open Cache (CompactSafetyMode)

/-! ### What the guard and the use have in common -/

/-- The operands in slots are the contents of the slots, and an operand in no slot is what was last looked
    at. -/
structure Agrees (m : HirModule) (expr : HirExpr) (operands : List Content) (s : State) : Prop where
  slots : List.Forall₂ (fun id content => ∀ slot, slotOfValue m id = some slot → content = s.slots slot)
    (children expr) operands
  values : ∀ id ∈ children expr, slotOfValue m id = none → ∀ seen, lastLook m id s.log = some seen → seen = operands

section
variable {m : HirModule} {types : TypeIntern} {internedId : Text → UInt32}

theorem lastLook_evaluated {value id : HirExprId} {operands : List Content} {log : List Event} :
    lastLook m value (.evaluated id operands :: log) =
      if looksAt m value id then some operands else lastLook m value log := by
  cases h : looksAt m value id with
  | false => simp [lastLook, h]
  | true => simp [lastLook, h]

/-- An evaluation that stores nothing and looks at nothing. -/
theorem Agrees.before {expr checked : HirExpr} {operands seen : List Content} {s : State} {id : HirExprId}
    (h : Agrees m expr operands (s.after id checked seen)) (hstore : store checked seen s.slots = s.slots)
    (hlook : ∀ value, looksAt m value id = false) : Agrees m expr operands s := by
  constructor
  · have hslots := h.slots
    rwa [State.after, hstore] at hslots
  · intro value hvalue hnone content hcontent
    refine h.values value hvalue hnone content ?_
    rw [State.after, lastLook_evaluated, hlook value]
    exact hcontent

/-- The condition is a truth value, and when it is the answer, the operation has what it needs. -/
def Settles (types : TypeIntern) (expr : HirExpr) (operands : List Content) (answer : Bool) (value : Content) :
    Prop :=
  ∃ b, value = .ofBool b ∧ (b = answer → Holds types expr operands)

theorem Settles.negated {expr : HirExpr} {operands : List Content} {answer : Bool} {value : Content}
    {type : TypeId} {operand : HirExprId} {slots : Slots} (h : Settles types expr operands answer value)
    {value' : Content} (hgives : Gives types internedId (.unary HirUnaryOp.not operand type) slots [value] value') :
    Settles types expr operands (!answer) value' := by
  obtain ⟨b, rfl, hholds⟩ := h
  have hvalue : value' = .ofBool (!b) := by
    have hnot := hgives rfl
    cases b <;> exact hnot
  exact ⟨!b, hvalue, fun h => hholds (Bool.not_inj h)⟩

/-! ### Optional payloads -/

theorem presentWhenTrue_settles {slot : HirSlotId} {object : HirExprId} {index : UInt32} {type objectType : TypeId}
    {safety : CompactSafetyMode} : ∀ {fuel : ℕ} {id : HirExprId} {answer : Bool} {s s' : State} {value : Content},
      presentWhenTrue m types slot fuel id = some answer → Evaluates m types internedId [id] s [value] s' →
        s'.slots = s.slots ∧
          Settles types (.field object index type objectType safety) [s.slots slot] answer value := by
  intro fuel
  induction fuel with
  | zero =>
    intro id answer s s' value h
    cases h
  | succ fuel ih =>
    intro id answer s s' value h heval
    rw [presentWhenTrue] at h
    split at h
    · rename_i object' index' type' objectType' safety' hexpr
      split at h
      · rename_i hmatch
        obtain ⟨rfl, hslot, htype⟩ := hmatch
        cases h
        obtain ⟨operands, s₁, hoperands, htakes, hgives, rfl⟩ := heval.node hexpr (.inl rfl)
        obtain ⟨content, rfl, hobject⟩ := hoperands.one
        obtain ⟨rfl, hslots⟩ := hobject.slot (slotOfValue_of_optionalSlot hslot)
        obtain ⟨present, hcontent⟩ : ∃ present, s.slots slot = .optional present := by
          rw [isOptionalType] at htype
          split at htype
          · rename_i inner hlookup
            simpa only [Takes, Fits, hlookup] using htakes
          · cases htype
        refine ⟨hslots, present, ?_, ?_⟩
        · simp only [Gives, hcontent, FieldGives] at hgives
          exact hgives trivial
        · intro htrue
          rw [hcontent]
          exact htrue
      · cases h
    · rename_i op operand type' hexpr
      split at h
      · rename_i hop
        subst hop
        obtain ⟨nested, hnested, rfl⟩ := Option.map_eq_some_iff.mp h
        obtain ⟨operands, s₁, hoperands, -, hgives, rfl⟩ := heval.node hexpr (.inl rfl)
        obtain ⟨content, rfl, hoperand⟩ := hoperands.one
        obtain ⟨hslots, hsettles⟩ := ih hnested hoperand
        exact ⟨hslots, hsettles.negated hgives⟩
      · cases h
    · cases h

theorem optional_settles {object : HirExprId} {index : UInt32} {type objectType : TypeId}
    {safety : CompactSafetyMode} {condition : HirExprId} {answer : Bool} {s s' : State} {value : Content}
    {operands : List Content}
    (hmatch : matchesOptionalFieldGuard m types object index objectType condition = some answer)
    (heval : Evaluates m types internedId [condition] s [value] s')
    (hagrees : Agrees m (.field object index type objectType safety) operands s') :
    Settles types (.field object index type objectType safety) operands answer value := by
  rw [matchesOptionalFieldGuard] at hmatch
  split at hmatch
  · cases hmatch
  · obtain ⟨slot, hslot, hpresent⟩ := Option.bind_eq_some_iff.mp hmatch
    obtain ⟨hslots, hsettles⟩ := presentWhenTrue_settles hpresent heval
    rcases hagrees.slots with _ | ⟨hobject, hnil⟩
    cases hnil
    rw [hobject slot (slotOfValue_of_optionalSlot hslot), hslots]
    exact hsettles

/-! ### Bounds -/

theorem index_settles {object index : HirExprId} {type objType : TypeId} {isArray : Bool}
    {safety : CompactSafetyMode} {condition : HirExprId} {answer : Bool} {s s' : State} {value : Content}
    {operands : List Content}
    (hmatch : matchesIndexGuard m types internedId object index objType condition = some answer)
    (heval : Evaluates m types internedId [condition] s [value] s')
    (htakes : Takes types (.index object index type objType isArray safety) operands)
    (hagrees : Agrees m (.index object index type objType isArray safety) operands s') :
    Settles types (.index object index type objType isArray safety) operands answer value := by
  obtain ⟨objectSlot, hobjectSlot, hmatch⟩ := Option.bind_eq_some_iff.mp hmatch
  obtain ⟨indexSlot, hindexSlot, hmatch⟩ := Option.bind_eq_some_iff.mp hmatch
  obtain ⟨⟨lowerId, upperId⟩, hallOk, hmatch⟩ := Option.bind_eq_some_iff.mp hmatch
  obtain ⟨⟨lowerLhs, lowerRhs⟩, hlower, hmatch⟩ := Option.bind_eq_some_iff.mp hmatch
  obtain ⟨⟨upperLhs, upperRhs⟩, hupper, hmatch⟩ := Option.bind_eq_some_iff.mp hmatch
  split at hmatch
  · rename_i hparts
    cases hmatch
    simp only [Bool.and_eq_true] at hparts
    obtain ⟨⟨⟨hlowerLoad, hzero⟩, hupperLoad⟩, hlength⟩ := hparts
    -- both comparisons see the slots as they are at the end
    obtain ⟨x, y, s₁, s₂, hevalLower, hevalUpper, hboth, hslots⟩ := heval.binaryOperands hallOk
    obtain ⟨zero, t₁, t₂, hevalZero, ht₁, hs₁, hx⟩ := hevalLower.compare compares_ge hlower hlowerLoad
    obtain ⟨bound, u₁, u₂, hevalBound, hu₁, hs₂, hy⟩ := hevalUpper.compare compares_lt hupper hupperLoad
    obtain ⟨ht₂, hzero⟩ := hevalZero.zero hzero
    obtain ⟨hu₂, hbound⟩ := hevalBound.length hlength
    have hfirst : s₁.slots = s.slots := by rw [hs₁, ht₂, ht₁]
    have hlast : u₁.slots = s'.slots := by rw [hslots, hs₂, hu₂]
    rcases hagrees.slots with _ | ⟨hobject, _ | ⟨hindex, hnil⟩⟩
    cases hnil
    obtain ⟨-, i, rfl⟩ := htakes
    have hslot := hindex indexSlot hindexSlot
    obtain ⟨j, rfl, rfl⟩ := hx i (by rw [← hfirst, ← hu₁, hlast, ← hslot])
    obtain ⟨n, rfl, rfl⟩ := hy i (by rw [← hu₁, hlast, ← hslot])
    refine ⟨_, hboth.both, ?_⟩
    intro htrue
    simp only [Bool.and_eq_true, decide_eq_true_eq] at htrue
    obtain ⟨count, hcount, hle⟩ := hbound n rfl
    obtain rfl := hzero j rfl
    rw [hlast, ← hobject objectSlot hobjectSlot] at hcount
    have hnonneg := Int64.le_iff_toInt_le.mp htrue.1
    have hlt := Int64.lt_iff_toInt_lt.mp htrue.2
    exact ⟨count, hcount, hnonneg, lt_of_lt_of_le hlt hle⟩
  · cases hmatch

theorem slice_settles {object lo hi : HirExprId} {type objectType boundType : TypeId} {isArray isPointer : Bool}
    {safety : CompactSafetyMode} {condition : HirExprId} {answer : Bool} {s s' : State} {value : Content}
    {operands : List Content}
    (hmatch : matchesSliceGuard m types internedId object lo hi objectType condition = some answer)
    (heval : Evaluates m types internedId [condition] s [value] s')
    (htakes : Takes types (.makeSlice object lo hi type objectType boundType isArray isPointer safety) operands)
    (hagrees : Agrees m (.makeSlice object lo hi type objectType boundType isArray isPointer safety) operands s') :
    Settles types (.makeSlice object lo hi type objectType boundType isArray isPointer safety) operands answer
      value := by
  obtain ⟨objectSlot, hobjectSlot, hmatch⟩ := Option.bind_eq_some_iff.mp hmatch
  obtain ⟨loSlot, hloSlot, hmatch⟩ := Option.bind_eq_some_iff.mp hmatch
  obtain ⟨hiSlot, hhiSlot, hmatch⟩ := Option.bind_eq_some_iff.mp hmatch
  obtain ⟨⟨firstId, orderedId⟩, hallOk, hmatch⟩ := Option.bind_eq_some_iff.mp hmatch
  obtain ⟨⟨lowerId, upperId⟩, hfirst, hmatch⟩ := Option.bind_eq_some_iff.mp hmatch
  obtain ⟨⟨lowerLhs, lowerRhs⟩, hlower, hmatch⟩ := Option.bind_eq_some_iff.mp hmatch
  obtain ⟨⟨upperLhs, upperRhs⟩, hupper, hmatch⟩ := Option.bind_eq_some_iff.mp hmatch
  obtain ⟨⟨orderedLhs, orderedRhs⟩, hordered, hmatch⟩ := Option.bind_eq_some_iff.mp hmatch
  split at hmatch
  · rename_i hparts
    cases hmatch
    simp only [Bool.and_eq_true] at hparts
    obtain ⟨⟨⟨⟨⟨hlowerLoad, hzero⟩, hupperLoad⟩, hlength⟩, horderedLoad⟩, hhiLoad⟩ := hparts
    obtain ⟨first, z, s₁, s₂, hevalFirst, hevalOrdered, hboth, hslots⟩ := heval.binaryOperands hallOk
    obtain ⟨x, y, s₃, s₄, hevalLower, hevalUpper, hbothFirst, hs₁⟩ := hevalFirst.binaryOperands hfirst
    obtain ⟨zero, t₁, t₂, hevalZero, ht₁, hs₃, hx⟩ := hevalLower.compare compares_ge hlower hlowerLoad
    obtain ⟨bound, u₁, u₂, hevalBound, hu₁, hs₄, hy⟩ := hevalUpper.compare compares_le hupper hupperLoad
    obtain ⟨last, v₁, v₂, hevalHi, hv₁, hs₂, hz⟩ := hevalOrdered.compare compares_le hordered horderedLoad
    obtain ⟨ht₂, hzero⟩ := hevalZero.zero hzero
    obtain ⟨hu₂, hbound⟩ := hevalBound.length hlength
    obtain ⟨hlast, hv₂⟩ := hevalHi.slotLoad hhiLoad
    have hend : v₁.slots = s'.slots := by rw [hslots, hs₂, hv₂]
    have hmiddle : u₁.slots = s'.slots := by rw [← hend, hv₁, hs₁, hs₄, hu₂]
    have hstart : s.slots = s'.slots := by rw [← hmiddle, hu₁, hs₃, ht₂, ht₁]
    rcases hagrees.slots with _ | ⟨hobject, _ | ⟨hlo, _ | ⟨hhi, hnil⟩⟩⟩
    cases hnil
    obtain ⟨-, ⟨i, rfl⟩, k, rfl⟩ := htakes
    obtain ⟨j, rfl, rfl⟩ := hx i (by rw [hstart, ← hlo loSlot hloSlot])
    obtain ⟨n, rfl, rfl⟩ := hy k (by rw [← hu₁, hmiddle, ← hhi hiSlot hhiSlot])
    obtain ⟨l, rfl, rfl⟩ := hz i (by rw [← hv₁, hend, ← hlo loSlot hloSlot])
    obtain rfl := hbothFirst.both
    refine ⟨_, hboth.both, ?_⟩
    intro htrue
    simp only [Bool.and_eq_true, decide_eq_true_eq] at htrue
    obtain ⟨⟨hnonneg, hupper⟩, horder⟩ := htrue
    obtain ⟨count, hcount, hle⟩ := hbound n rfl
    obtain rfl := hzero j rfl
    rw [hmiddle, ← hobject objectSlot hobjectSlot] at hcount
    rw [hend, ← hhi hiSlot hhiSlot] at hlast
    cases hlast
    exact ⟨count, hcount, Int64.le_iff_toInt_le.mp hnonneg, Int64.le_iff_toInt_le.mp horder,
      (Int64.le_iff_toInt_le.mp hupper).trans hle⟩
  · cases hmatch

/-! ### Casts -/

/-- The value that a cast has in common with its guard: the slot that both name, or what was looked at. -/
theorem agrees_operand {expr : HirExpr} {operands : List Content} {seen : Content} {s s₁ s' : State}
    {checked value : HirExprId} (hagrees : Agrees m expr operands s') (hchildren : children expr = [value])
    (hsame : sameValue m checked value = true) (heval : Evaluates m types internedId [checked] s [seen] s₁)
    (hslots : s'.slots = s₁.slots) (hlook : lastLook m checked s'.log = some [seen]) : operands = [seen] := by
  rcases hslot : slotOfValue m value with _ | slot
  · have hchecked : checked = value := by
      rw [sameValue, hslot, Bool.or_eq_true, beq_iff_eq] at hsame
      rcases hsame with h | h
      · exact h
      · cases hchecked : slotOfValue m checked with
        | none => rw [hchecked] at h; cases h
        | some slot => rw [hchecked] at h; cases h
    subst hchecked
    exact (hagrees.values checked (by rw [hchildren]; exact List.mem_singleton_self _) hslot _ hlook).symm
  · have hchecked : slotOfValue m checked = some slot := by
      rw [sameValue, hslot, Bool.or_eq_true, beq_iff_eq] at hsame
      rcases hsame with rfl | h
      · exact hslot
      · exact beq_iff_eq.mp (Bool.and_eq_true_iff.mp h).2
    have hoperands := hagrees.slots
    rw [hchildren] at hoperands
    rcases hoperands with _ | ⟨hcontent, hnil⟩
    cases hnil
    obtain ⟨rfl, hslots₁⟩ := heval.slot hchecked
    rw [hcontent slot hslot, hslots, hslots₁]

theorem opaque_settles {value : HirExprId} {source target opaqueType resultType : TypeId} {typeId : UInt32}
    {canonicalId : Types.TypeCanonicalId} {safety : CompactSafetyMode} {returnsPtr : Bool}
    {condition : HirExprId} {answer : Bool} {s s' : State} {content : Content} {operands : List Content}
    (hmatch : matchesOpaqueGuard m value opaqueType typeId canonicalId condition = some answer)
    (heval : Evaluates m types internedId [condition] s [content] s') (hagrees : Agrees m
      (.opaqueCast value source target opaqueType resultType typeId canonicalId safety returnsPtr) operands s') :
    Settles types (.opaqueCast value source target opaqueType resultType typeId canonicalId safety returnsPtr)
      operands answer content := by
  rw [matchesOpaqueGuard] at hmatch
  split at hmatch
  · rename_i checked checkedOpaqueType checkedTypeId checkedCanonicalId hexpr
    split at hmatch
    · rename_i hfields
      obtain ⟨-, rfl, -, hsame⟩ := hfields
      cases hmatch
      obtain ⟨contents, s₁, hoperands, htakes, hgives, rfl⟩ := heval.node hexpr (.inl rfl)
      obtain ⟨seen, rfl, hchecked⟩ := hoperands.one
      obtain ⟨id, rfl⟩ := htakes
      have hlooks : looksAt m checked condition = true := by
        rw [looksAt, hexpr]
        exact beq_self_eq_true checked
      obtain rfl := agrees_operand hagrees rfl hsame hchecked rfl (by
        rw [State.after, lastLook_evaluated, if_pos hlooks])
      exact ⟨id == checkedTypeId, hgives, fun h => beq_iff_eq.mp h⟩
    · cases hmatch
  · cases hmatch

theorem toInt64_toUInt64_inj {a b : UInt32} (h : a.toUInt64.toInt64 = b.toUInt64.toInt64) : a = b := by
  have hwords : a.toUInt64 = b.toUInt64 := by
    rw [← UInt64.toUInt64_toInt64 a.toUInt64, h, UInt64.toUInt64_toInt64]
  have hnat := congrArg UInt64.toNat hwords
  rw [UInt32.toNat_toUInt64, UInt32.toNat_toUInt64] at hnat
  exact UInt32.toNat_inj.mp hnat

theorem union_settles {value : HirExprId} {source target : TypeId} {memberIndex : UInt32}
    {safety : CompactSafetyMode} {condition : HirExprId} {answer : Bool} {s s' : State} {content : Content}
    {operands : List Content} (hmatch : matchesUnionGuard m types value source memberIndex condition = some answer)
    (heval : Evaluates m types internedId [condition] s [content] s')
    (hagrees : Agrees m (.unionCast value source target memberIndex safety) operands s') :
    Settles types (.unionCast value source target memberIndex safety) operands answer content := by
  obtain ⟨members, hmembers, hcheck⟩ := Option.bind_eq_some_iff.mp hmatch
  split at hcheck
  · rename_i tag unionType checkedIndex hexpr
    split at hcheck
    · cases hcheck
    · rename_i hmember
      obtain ⟨object, htag, hfinal⟩ := Option.bind_eq_some_iff.mp hcheck
      rw [tagOf] at htag
      split at htag
      · rename_i object' index type objectType fieldSafety hfield
        split at htag
        · rename_i hfields
          obtain ⟨rfl, rfl⟩ := hfields
          cases htag
          split at hfinal
          · cases hfinal
          · rename_i hsame
            rw [Bool.not_eq_true', Bool.not_eq_false] at hsame
            obtain ⟨tags, s₁, htags, -, hgives, rfl⟩ := heval.node hexpr (.inl rfl)
            obtain ⟨tagContent, rfl, hevalTag⟩ := htags.one
            obtain ⟨contents, s₂, hoperands, htakes, hgivesTag, rfl⟩ := hevalTag.node hfield (.inl rfl)
            obtain ⟨seen, rfl, hobject⟩ := hoperands.one
            obtain ⟨member, rfl, hlt⟩ : ∃ member, seen = .union member ∧ member.toNat < members.length := by
              rw [unionMembers] at hmembers
              split at hmembers
              · rename_i defId hlookup
                cases hmembers
                simpa only [Takes, Fits, hlookup] using htakes
              · cases hmembers
            obtain rfl : tagContent = .int member.toUInt64.toInt64 := hgivesTag rfl
            have hchecks : looksAt m object condition = false := by rw [looksAt, hexpr]
            have hlooks : looksAt m object tag = true := by
              rw [looksAt, hfield]
              exact beq_self_eq_true object
            obtain rfl := agrees_operand hagrees rfl hsame hobject rfl (by
              rw [State.after, lastLook_evaluated, hchecks, State.after, lastLook_evaluated, if_pos hlooks]
              rfl)
            refine ⟨member.toUInt64.toInt64 == checkedIndex.toUInt64.toInt64, hgives, ?_⟩
            intro hanswer
            split at hfinal
            · rename_i hindex
              cases hfinal
              exact (toInt64_toUInt64_inj (beq_iff_eq.mp hanswer)).trans hindex
            · rename_i hindex
              split at hfinal
              · -- of two members, the one that was not asked for
                rename_i htwo
                cases hfinal
                have hne : member ≠ checkedIndex := by
                  rintro rfl
                  rw [beq_self_eq_true] at hanswer
                  cases hanswer
                have hne' : member.toNat ≠ checkedIndex.toNat := fun h => hne (UInt32.toNat_inj.mp h)
                have hindex' : checkedIndex.toNat ≠ memberIndex.toNat := fun h => hindex (UInt32.toNat_inj.mp h)
                exact UInt32.toNat_inj.mp (by omega)
              · cases hfinal
        · cases htag
      · cases htag
  · cases hcheck

/-! ### Conditions -/

/-- Every matcher accepts only conditions that settle the operation. -/
theorem guarded_settles {expr : HirExpr} {matching : HirExprId → Option Bool} {message : String}
    (huse : guardedUse m types internedId expr = some (matching, message)) {condition : HirExprId}
    {answer : Bool} {s s' : State} {value : Content} {operands : List Content}
    (hmatch : matching condition = some answer)
    (heval : Evaluates m types internedId [condition] s [value] s') (htakes : Takes types expr operands)
    (hagrees : Agrees m expr operands s') : Settles types expr operands answer value := by
  rw [guardedUse.eq_def] at huse
  split at huse
  · cases huse
    exact optional_settles hmatch heval hagrees
  · cases huse
    exact index_settles hmatch heval htakes hagrees
  · cases huse
    exact slice_settles hmatch heval htakes hagrees
  · cases huse
    exact union_settles hmatch heval hagrees
  · cases huse
    exact opaque_settles hmatch heval hagrees
  · cases huse

/-- So do the conditions that match once their negations are undone. -/
theorem polarity_settles {expr : HirExpr} {matching : HirExprId → Option Bool} {message : String}
    (huse : guardedUse m types internedId expr = some (matching, message)) {operands : List Content}
    (htakes : Takes types expr operands) {condition : HirExprId} {answer : Bool}
    (hpolarity : Polarity m matching condition answer) :
    ∀ {s s' : State} {value : Content}, Evaluates m types internedId [condition] s [value] s' →
      Agrees m expr operands s' → Settles types expr operands answer value := by
  induction hpolarity with
  | direct hmatch =>
    intro s s' value heval hagrees
    exact guarded_settles huse hmatch heval htakes hagrees
  | negated hnot _ ih =>
    intro s s' value heval hagrees
    obtain ⟨contents, s₁, hcontents, -, hgives, rfl⟩ := heval.node hnot (.inl rfl)
    obtain ⟨content, rfl, hoperand⟩ := hcontents.one
    have hbefore := hagrees.before rfl fun value => by rw [looksAt, hnot]
    exact (ih hoperand hbefore).negated hgives

end

end Zith.Hir
