import Zith.Wasm.HirCodec
import Zith.Zirl.CodeSection

/-! Which rows survive the blob. A row is `Carried` when it has what `readExpr`, `readFunction` and
    `readTypeData` can return; for expressions and functions nothing else is needed for the round trip.

        every row that is read is carried     (`ensures_*`)
        every carried row is read back        (`inverts_*`)      -/

namespace Zith.Wasm
open Zith.Lib Zith.Lib.Reader
open Zirl (writeU8 writeU32 writeU64 writeI64 writeFlag writeCount writeBlob writeCounted readU8 readU32
  readU64 readI64 readBlob readEnum inverts_u8 inverts_u32 inverts_u64 inverts_i64 inverts_safety inverts_blob
  canonical_u32 read_count toNat_count ensures_blob)
open Cache (CompactSafetyMode)
open Types (TypeCanonicalId)
open Hir (TypeId InternedId StringRow TypeRow ExprRow FunctionRow FlatModule HirExprId HirCall HirBasicBlock
  Span lookup intern lastIdOf)

/-! ### Words -/

theorem inverts_bool (b : Bool) : Inverts writeFlag readBool b := by
  intro rest
  rw [readBool, writeFlag, (inverts_u8 _).bind]
  cases b <;> rfl

theorem inverts_readSafety (m : CompactSafetyMode) : Inverts (fun m => writeU8 m.toU8) readSafety m :=
  inverts_safety m

theorem inverts_canonicalId (id : TypeCanonicalId) : Inverts writeCanonicalId readCanonicalId id := by
  intro rest
  simp only [readCanonicalId, writeCanonicalId, List.append_assoc, (inverts_u64 _).bind, pure_apply]

/-- A count that fits is read back, and nothing longer is ever read. -/
theorem inverts_dynU32 {ids : List UInt32} (h : ids.length ≤ kMaxArrayCount) :
    Inverts writeIds readDynU32 ids := by
  intro rest
  have hcount : (UInt32.ofNat ids.length).toNat = ids.length := toNat_count (lt_of_le_of_lt h (by decide))
  rw [readDynU32, bind_apply, writeIds, writeCounted, List.append_assoc, read_count, Option.bind_some, hcount,
    check_bind (decide_eq_true h)]
  exact Inverts.replicate (fun id _ => inverts_u32 id) rest

theorem ensures_dynU32 : Ensures readDynU32 fun ids => ids.length ≤ kMaxArrayCount := by
  intro bs ids rest h
  obtain ⟨count, mid, _, h⟩ := bind_eq_some h
  obtain ⟨_, mid', hcheck, h⟩ := bind_eq_some h
  obtain ⟨hle, _⟩ := check_eq_some hcheck
  rw [replicate_length h]
  exact of_decide_eq_true hle

/-- The literal is read whole, then its low half again. -/
theorem withLowHalf_lowHalf (bits : UInt64) : withLowHalf bits (lowHalf bits) = bits := by
  have hlow : bits.toNat % 2 ^ 32 < 2 ^ 32 := Nat.mod_lt _ (by norm_num)
  have hlt := bits.toNat_lt
  have hhigh : (bits.toNat >>> 32) <<< 32 < 2 ^ 64 := by
    rw [Nat.shiftLeft_eq, Nat.shiftRight_eq_div_pow]
    omega
  have hsum : (bits.toNat >>> 32) <<< 32 ||| bits.toNat % 2 ^ 32 = bits.toNat := by
    rw [← Nat.shiftLeft_add_eq_or_of_lt hlow, Nat.shiftLeft_eq, Nat.shiftRight_eq_div_pow]
    omega
  apply UInt64.toNat_inj.mp
  simp only [withLowHalf, lowHalf, UInt64.toNat_or, UInt64.toNat_shiftLeft, UInt64.toNat_shiftRight,
    UInt32.toNat_toUInt64, UInt64.toNat_toUInt32]
  change (bits.toNat >>> 32) <<< 32 % 2 ^ 64 ||| bits.toNat % 2 ^ 32 = bits.toNat
  rw [Nat.mod_eq_of_lt hhigh]
  exact hsum

/-! ### Expressions -/

/-- What the blob carries of an expression: lists up to the limit, a slot without an alignment of its own,
    and a tail call without a plan for a variadic slice. -/
def CarriedExpr : ExprRow → Prop
  | .call c => c.args.length ≤ kMaxArrayCount ∧ c.argumentTypes.length ≤ kMaxArrayCount
  | .phi ids | .cleanup ids | .structLiteral ids _ | .arrayLiteral ids _ => ids.length ≤ kMaxArrayCount
  | .slotAlloca _ _ alignmentBytes => alignmentBytes = 0
  | .stateTailCall c =>
    (c.args.length ≤ kMaxArrayCount ∧ c.argumentTypes.length ≤ kMaxArrayCount) ∧
      c.variadicSliceParam = 0xFFFFFFFF ∧ c.isVariadicSlice = false ∧ c.autoCollectTail = false
  | .dynCall _ _ _ _ _ _ args argTypes =>
    args.length ≤ kMaxArrayCount ∧ argTypes.length ≤ kMaxArrayCount
  | _ => True

theorem ensures_refuse {α : Type} {P : α → Prop} : Ensures refuse P := fun _ _ _ h => nomatch h

/-- A list that was read, and a rest that puts it into a row. -/
theorem Ensures.dyn {α : Type} {f : List UInt32 → Reader α} {P : α → Prop}
    (hf : ∀ ids, ids.length ≤ kMaxArrayCount → Ensures (f ids) P) : Ensures (readDynU32 >>= f) P :=
  ensures_dynU32.bind hf

/-- Every expression that is read is one the blob carries. -/
theorem ensures_expr : Ensures readExpr CarriedExpr := by
  refine Ensures.skip fun kind => ?_
  generalize kind.toNat = kind
  unfold readExprOf
  split
  case h_6 => -- a call
    refine Ensures.skip fun _ => Ensures.dyn fun args hargs => Ensures.dyn fun types htypes => ?_
    repeat refine Ensures.skip fun _ => ?_
    exact Ensures.pure ⟨hargs, htypes⟩
  case h_10 => exact Ensures.dyn fun ids hids => Ensures.pure hids
  case h_14 => exact Ensures.dyn fun ids hids => Ensures.skip fun _ => Ensures.pure hids
  case h_15 => exact Ensures.dyn fun ids hids => Ensures.skip fun _ => Ensures.pure hids
  case h_17 => exact Ensures.skip fun _ => Ensures.skip fun _ => Ensures.pure rfl
  case h_24 => -- the two casts
    refine Ensures.skip fun castKind => ?_
    unfold readCast
    split
    case h_3 => exact ensures_refuse
    all_goals
      repeat refine Ensures.skip fun _ => ?_
      exact Ensures.pure trivial
  case h_27 => -- a tail call
    refine Ensures.skip fun _ => Ensures.dyn fun args hargs => Ensures.dyn fun types htypes => ?_
    repeat refine Ensures.skip fun _ => ?_
    exact Ensures.pure ⟨⟨hargs, htypes⟩, rfl, rfl, rfl⟩
  case h_29 => exact Ensures.dyn fun ids hids => Ensures.pure hids
  case h_32 => -- a dynamic call
    iterate 6 refine Ensures.skip fun _ => ?_
    exact Ensures.dyn fun args hargs => Ensures.dyn fun types htypes => Ensures.pure ⟨hargs, htypes⟩
  case h_40 => exact ensures_refuse
  all_goals
    repeat refine Ensures.skip fun _ => ?_
    exact Ensures.pure trivial

theorem readExpr_row (kind : UInt8) (bs : List UInt8) :
    readExpr (writeU8 kind ++ bs) = readExprOf kind.toNat bs := by
  rw [readExpr, (inverts_u8 kind).bind]

/-- An expression the blob carries is read back. -/
theorem inverts_expr {e : ExprRow} (h : CarriedExpr e) : Inverts writeExpr readExpr e := by
  intro rest
  cases e with
  | call c =>
    obtain ⟨hargs, htypes⟩ := h
    simp only [writeExpr, List.append_assoc, readExpr_row, UInt8.reduceToNat, readExprOf,
      (inverts_u32 _).bind, (inverts_dynU32 hargs).bind, (inverts_dynU32 htypes).bind, (inverts_bool _).bind,
      pure_apply]
  | dynCall =>
    obtain ⟨hargs, htypes⟩ := h
    simp only [writeExpr, List.append_assoc, readExpr_row, UInt8.reduceToNat, readExprOf,
      (inverts_u32 _).bind, (inverts_dynU32 hargs).bind, (inverts_dynU32 htypes).bind, (inverts_bool _).bind,
      pure_apply]
  | stateTailCall c =>
    obtain ⟨⟨hargs, htypes⟩, hparam, hslice, hcollect⟩ := h
    simp only [writeExpr, List.append_assoc, readExpr_row, UInt8.reduceToNat, readExprOf,
      (inverts_u32 _).bind, (inverts_dynU32 hargs).bind, (inverts_dynU32 htypes).bind, (inverts_bool _).bind,
      pure_apply]
    cases c
    cases hparam
    cases hslice
    cases hcollect
    rfl
  | phi ids | cleanup ids | structLiteral ids type | arrayLiteral ids type =>
    have hids := (inverts_dynU32 h).bind (β := ExprRow)
    simp only [writeExpr, List.append_assoc, readExpr_row, UInt8.reduceToNat, readExprOf, hids,
      (inverts_u32 _).bind, pure_apply]
  | slotAlloca slot type alignmentBytes =>
    subst h
    simp only [writeExpr, List.append_assoc, readExpr_row, UInt8.reduceToNat, readExprOf,
      (inverts_u32 _).bind, pure_apply]
  | literal bits type =>
    simp only [writeExpr, List.append_assoc, readExpr_row, UInt8.reduceToNat, readExprOf,
      (inverts_u32 _).bind, (inverts_u64 _).bind, withLowHalf_lowHalf, pure_apply]
  | cast | unionCast =>
    simp only [writeExpr, List.append_assoc, readExpr_row, UInt8.reduceToNat, readExprOf, readCast,
      (inverts_u8 _).bind, (inverts_u32 _).bind, (inverts_readSafety _).bind, pure_apply]
  | _ =>
    simp only [writeExpr, List.append_assoc, readExpr_row, UInt8.reduceToNat, readExprOf,
      (inverts_u8 _).bind, (inverts_u32 _).bind, (inverts_u64 _).bind, (inverts_i64 _).bind,
      (inverts_bool _).bind, (inverts_readSafety _).bind, (inverts_canonicalId _).bind, pure_apply]

/-! ### Functions -/

/-- What the blob carries of a function: an index of a variadic parameter of 32 bits, and no adapter. -/
structure CarriedFn (f : FunctionRow) : Prop where
  params : f.params.length ≤ kMaxArrayCount
  paramNames : f.paramNames.length ≤ kMaxArrayCount
  paramSlots : f.paramSlots.length ≤ kMaxArrayCount
  variadicSliceParam : f.variadicSliceParam.toNat < 2 ^ 32
  foreignAdapterName : f.foreignAdapterName = Hir.kInvalidInternedId
  blocks : f.blocks.length ≤ kMaxArrayCount
  insts : ∀ b ∈ f.blocks, b.insts.length ≤ kMaxArrayCount

theorem ensures_block : Ensures readBlock fun b => b.insts.length ≤ kMaxArrayCount :=
  Ensures.dyn fun _ hids => Ensures.skip fun _ => Ensures.pure hids

theorem inverts_block {b : HirBasicBlock} (h : b.insts.length ≤ kMaxArrayCount) :
    Inverts writeBlock readBlock b := by
  intro rest
  simp only [readBlock, writeBlock, List.append_assoc, (inverts_dynU32 h).bind, (inverts_u32 _).bind,
    pure_apply]

theorem inverts_span (s : Span) : Inverts writeSpan readSpan s := by
  intro rest
  simp only [readSpan, writeSpan, List.append_assoc, (inverts_u32 _).bind, pure_apply]

theorem ensures_check {b : Bool} : Ensures (check b) fun _ => b = true :=
  fun _ _ _ h => (check_eq_some h).1

/-- Every function that is read is one the blob carries. -/
theorem ensures_function : Ensures readFunction CarriedFn := by
  refine Ensures.skip fun name => Ensures.dyn fun params hparams => Ensures.dyn fun names hnames =>
    Ensures.dyn fun slots hslots => ?_
  iterate 6 refine Ensures.skip fun _ => ?_
  refine Ensures.skip fun variadicSliceParam => ?_
  iterate 3 refine Ensures.skip fun _ => ?_
  refine Ensures.skip fun count => ensures_check.bind fun _ hcount =>
    (ensures_block.replicate _).bind fun blocks hblocks => Ensures.pure ?_
  exact {
    params := hparams
    paramNames := hnames
    paramSlots := hslots
    variadicSliceParam := by simpa using variadicSliceParam.toNat_lt
    foreignAdapterName := rfl
    blocks := hblocks.1 ▸ of_decide_eq_true hcount
    insts := hblocks.2 }

theorem toUInt64_toUInt32 {n : UInt64} (h : n.toNat < 2 ^ 32) : n.toUInt32.toUInt64 = n := by
  apply UInt64.toNat_inj.mp
  rw [UInt32.toNat_toUInt64, UInt64.toNat_toUInt32, Nat.mod_eq_of_lt h]

/-- A function the blob carries is read back. -/
theorem inverts_function {f : FunctionRow} (h : CarriedFn f) : Inverts writeFunction readFunction f := by
  intro rest
  have hcount : (UInt32.ofNat f.blocks.length).toNat = f.blocks.length :=
    toNat_count (lt_of_le_of_lt h.blocks (by decide))
  have hblocks := Inverts.replicate_bind (fun b hb => inverts_block (h.insts b hb)) rfl (β := FunctionRow)
  simp only [readFunction, writeFunction, writeCounted, List.append_assoc, (inverts_u32 _).bind,
    (inverts_dynU32 h.params).bind, (inverts_dynU32 h.paramNames).bind, (inverts_dynU32 h.paramSlots).bind,
    (inverts_bool _).bind, (inverts_span _).bind, writeCount, hcount, check_bind (decide_eq_true h.blocks),
    hblocks, toUInt64_toUInt32 h.variadicSliceParam, pure_apply]
  rw [← h.foreignAdapterName]

/-! ### Types -/

/-- The limits of a row that interns nothing. -/
def WithinLimits : TypeRow → Prop
  | .fn ids _ | .sum ids | .incomplete _ ids => ids.length ≤ kMaxArrayCount
  | .pack members => members.length ≤ kMaxArrayCount
  | .dyn _ methodCount => methodCount.toNat < 2 ^ 32
  | .genericParam _ _ => False
  | _ => True

theorem ensures_rowOf {count : UInt32} {rd : Reader TypeRow}
    (h : count.toNat ≤ kMaxArrayCount → Ensures rd WithinLimits) :
    Ensures (readRowOf count rd) WithinLimits := by
  unfold readRowOf
  split
  · exact Ensures.pure trivial
  · next hle => exact h (by omega)

theorem ensures_ids (count : UInt32) :
    Ensures (readU32.replicate count.toNat) fun ids => ids.length = count.toNat :=
  fun _ _ _ h => replicate_length h

theorem ensures_plainType (kind : ℕ) : Ensures (readPlainType kind) WithinLimits := by
  unfold readPlainType
  split
  case h_10 => -- a function
    exact Ensures.skip fun count => ensures_rowOf fun hle => (ensures_ids count).bind fun ids hids =>
      Ensures.skip fun _ => Ensures.pure (hids.le.trans hle)
  case h_20 => -- a pack
    refine Ensures.skip fun count => ensures_rowOf fun hle => (ensures_ids count).bind fun ids hids =>
      (ensures_ids count).bind fun names hnames => Ensures.pure ?_
    rw [WithinLimits, List.length_zip, hids, hnames, Nat.min_self]
    exact hle
  case h_21 => -- a sum
    exact Ensures.skip fun count => ensures_rowOf fun hle => (ensures_ids count).bind fun ids hids =>
      Ensures.pure (hids.le.trans hle)
  case h_22 => -- a dyn
    refine Ensures.skip fun _ => Ensures.skip fun methodCount => Ensures.pure ?_
    simpa [WithinLimits] using methodCount.toNat_lt
  case h_23 => -- an incomplete type
    exact Ensures.skip fun count => ensures_rowOf fun hle => (ensures_ids count).bind fun ids hids =>
      Ensures.skip fun _ => Ensures.pure (hids.le.trans hle)
  all_goals
    repeat refine Ensures.skip fun _ => ?_
    exact Ensures.pure trivial

/-- What the blob carries of a type. The base of an incomplete type is read where the count of its arguments
    was written, and the owner of a generic parameter crosses as its text. -/
def CarriedType (pool : List StringRow) : TypeRow → Prop
  | .genericParam ownerName _ => intern pool (lookup pool ownerName) = (ownerName, pool)
  | .incomplete base args => base.toNat ≤ kMaxArrayCount ∧ args = List.replicate base.toNat base
  | t => WithinLimits t

variable {pool : List StringRow} {rest rest' : List UInt8} {t : TypeRow}

/-- A row of a kind that interns nothing. -/
theorem readTypeData_plain {kind : UInt8} (hkind : kind ≠ 24) (pool : List StringRow) {bs rest : List UInt8}
    (h : readPlainType kind.toNat bs = some (t, rest)) :
    readTypeData pool (writeU8 kind ++ bs) = some ((t, pool), rest) := by
  rw [readTypeData, (inverts_u8 kind).bind, if_neg hkind, bind_apply, h]
  rfl

theorem plain_of_readTypeData {kind : UInt8} (hkind : kind ≠ 24) {pool pool' : List StringRow}
    {bs rest : List UInt8} (h : readTypeData pool (writeU8 kind ++ bs) = some ((t, pool'), rest)) :
    readPlainType kind.toNat bs = some (t, rest) ∧ pool' = pool := by
  rw [readTypeData, (inverts_u8 kind).bind, if_neg hkind] at h
  obtain ⟨t', mid, ht, h⟩ := bind_eq_some h
  obtain ⟨hrow, rfl⟩ := pure_eq_some h
  obtain ⟨rfl, rfl⟩ := Prod.mk.inj hrow
  exact ⟨ht, rfl⟩

theorem readTypeData_generic (pool : List StringRow) (bs : List UInt8) :
    readTypeData pool (writeU8 24 ++ bs) = (do
      let ownerName ← readBlob
      let paramIndex ← readU32
      return (TypeRow.genericParam (intern pool ownerName).1 paramIndex, (intern pool ownerName).2)) bs := by
  rw [readTypeData, (inverts_u8 24).bind, if_pos rfl]

theorem lookup_length (hpool : ∀ s ∈ pool, s.length < 2 ^ 32) (id : InternedId) :
    (lookup pool id).length < 2 ^ 32 := by
  rw [lookup, List.getD_eq_getElem?_getD]
  rcases h : pool[id.toNat]? with _ | s
  · simp
  · exact hpool s (List.mem_of_getElem? h)

theorem readRowOf_eq {count : UInt32} (h : count.toNat ≤ kMaxArrayCount) (rd : Reader TypeRow) :
    readRowOf count rd = rd := if_neg (by omega)

theorem zip_fst_snd : ∀ l : List (TypeId × InternedId), (l.map Prod.fst).zip (l.map Prod.snd) = l
  | [] => rfl
  | (a, b) :: l => by rw [List.map_cons, List.map_cons, List.zip_cons_cons, zip_fst_snd l]

/-- A count and as many ids, read with a limit that gives up the row. -/
theorem readRow_counted {ids : List UInt32} (h : ids.length ≤ kMaxArrayCount)
    (f : UInt32 → List UInt32 → Reader TypeRow) (rest : List UInt8) :
    (do let count ← readU32
        readRowOf count (do f count (← readU32.replicate count.toNat))) (writeIds ids ++ rest) =
      f (UInt32.ofNat ids.length) ids rest := by
  have hcount : (UInt32.ofNat ids.length).toNat = ids.length := toNat_count (lt_of_le_of_lt h (by decide))
  rw [writeIds, writeCounted, writeCount, List.append_assoc, (inverts_u32 _).bind,
    readRowOf_eq (hcount.symm ▸ h), Inverts.replicate_bind (fun id _ => inverts_u32 id) hcount.symm]

/-- As many words twice are equal when what they are written to is. -/
theorem words_injective {l l' : List UInt32} (hlen : l.length = l'.length)
    (h : l.flatMap writeU32 ++ rest = l'.flatMap writeU32 ++ rest') : l = l' ∧ rest = rest' := by
  have hl := @Inverts.replicate _ _ readU32 l (fun id _ => inverts_u32 id) rest
  have hl' := @Inverts.replicate _ _ readU32 l' (fun id _ => inverts_u32 id) rest'
  rw [h, hlen, hl'] at hl
  exact ⟨(congrArg Prod.fst (Option.some.inj hl)).symm, (congrArg Prod.snd (Option.some.inj hl)).symm⟩

/-- A row that is its own shift has one value. -/
theorem replicate_of_shift {a b : UInt32} : ∀ {l : List UInt32}, a :: l = l ++ [b] →
    a = b ∧ l = List.replicate l.length b := by
  intro l
  induction l generalizing a with
  | nil =>
    intro h
    exact ⟨(List.cons.inj h).1, rfl⟩
  | cons c l ih =>
    intro h
    obtain ⟨rfl, htail⟩ := List.cons.inj h
    obtain ⟨rfl, hl⟩ := ih htail
    exact ⟨rfl, congrArg (a :: ·) hl⟩

/-- The words of an incomplete type as they are written are those that are read when it is its own shift. -/
theorem incomplete_shift (base : UInt32) :
    base :: List.replicate base.toNat base = List.replicate base.toNat base ++ [base] := by
  rw [← List.replicate_succ, List.replicate_succ']

/-- The base is read for the count, and the count for the first argument. -/
theorem readIncomplete {base base' : UInt32} {args args' : List UInt32} (hcount : base.toNat = args.length)
    (h : base.toNat ≤ kMaxArrayCount) (hshift : base :: args = args' ++ [base']) (rest : List UInt8) :
    readPlainType 25 (writeU32 base ++ (writeIds args ++ rest)) = some (.incomplete base' args', rest) := by
  have hlen : args'.length = base.toNat := by
    have := congrArg List.length hshift
    rw [List.length_cons, List.length_append, List.length_singleton] at this
    omega
  have hwords : writeIds args = args'.flatMap writeU32 ++ writeU32 base' := by
    have h := congrArg (List.flatMap writeU32) hshift
    rw [List.flatMap_append, List.flatMap_cons, List.flatMap_singleton] at h
    rw [← h, writeIds, writeCounted, writeCount, ← hcount, UInt32.ofNat_toNat]
  rw [readPlainType, (inverts_u32 base).bind, readRowOf_eq h, hwords, List.append_assoc,
    Inverts.replicate_bind (fun id _ => inverts_u32 id) hlen, (inverts_u32 base').bind]
  rfl

/-- An incomplete type is read back only when it is its own shift. -/
theorem carried_of_incomplete {base : UInt32} {args : List UInt32}
    (h : readPlainType 25 (writeU32 base ++ (writeIds args ++ rest)) = some (.incomplete base args, rest')) :
    base.toNat ≤ kMaxArrayCount ∧ args = List.replicate base.toNat base := by
  rw [readPlainType, (inverts_u32 base).bind, readRowOf] at h
  split at h
  · obtain ⟨hrow, _⟩ := pure_eq_some h
    cases hrow
  · next hle =>
    obtain ⟨args', mid, hargs, h⟩ := bind_eq_some h
    obtain ⟨base', mid', hbase, h⟩ := bind_eq_some h
    obtain ⟨hrow, rfl⟩ := pure_eq_some h
    obtain ⟨rfl, rfl⟩ := TypeRow.incomplete.inj hrow
    obtain ⟨hbytes, hlen⟩ := canonical_u32.replicate hargs
    rw [canonical_u32 _ _ _ hbase] at hbytes
    have hwords : (UInt32.ofNat args'.length :: args').flatMap writeU32 ++ rest =
        (args' ++ [base']).flatMap writeU32 ++ mid' := by
      rw [List.flatMap_cons, List.flatMap_append, List.flatMap_singleton, List.append_assoc, List.append_assoc]
      rwa [writeIds, writeCounted, writeCount, List.append_assoc] at hbytes
    obtain ⟨hshift, _⟩ := words_injective (by simp) hwords
    exact ⟨by omega, hlen ▸ (replicate_of_shift hshift).2⟩

/-- A type the blob carries is read back, and adds nothing to the pool. -/
theorem inverts_type (hpool : ∀ s ∈ pool, s.length < 2 ^ 32) (h : CarriedType pool t) (rest : List UInt8) :
    readTypeData pool (writeTypeData pool t ++ rest) = some ((t, pool), rest) := by
  cases t with
  | genericParam ownerName paramIndex =>
    have hblob := inverts_blob (lookup_length hpool ownerName)
    rw [writeTypeData, List.append_assoc, List.append_assoc, readTypeData_generic, hblob.bind,
      (inverts_u32 paramIndex).bind, pure_apply, h]
  | incomplete base args =>
    obtain ⟨hle, rfl⟩ := h
    rw [writeTypeData, List.append_assoc, List.append_assoc]
    exact readTypeData_plain (by decide) pool
      (readIncomplete List.length_replicate.symm hle (incomplete_shift base) rest)
  | fn params ret =>
    rw [writeTypeData, List.append_assoc, List.append_assoc]
    refine readTypeData_plain (by decide) pool ?_
    refine (readRow_counted h (fun _ ids => do return .fn ids (← readU32)) _).trans ?_
    rw [(inverts_u32 ret).bind, pure_apply]
  | sum members =>
    rw [writeTypeData, List.append_assoc]
    exact readTypeData_plain (by decide) pool (readRow_counted h (fun _ ids => do return .sum ids) rest)
  | pack members =>
    have hcount : (members.map Prod.snd).length = (UInt32.ofNat members.length).toNat := by
      rw [List.length_map, toNat_count (lt_of_le_of_lt h (by decide))]
    rw [writeTypeData, List.append_assoc, List.append_assoc]
    refine readTypeData_plain (by decide) pool ?_
    refine (readRow_counted (by rwa [List.length_map]) (fun count ids => do
      let names ← readU32.replicate count.toNat
      return .pack (ids.zip names)) _).trans ?_
    rw [List.length_map, Inverts.replicate_bind (fun id _ => inverts_u32 id) hcount, zip_fst_snd, pure_apply]
  | dyn target methodCount =>
    simp only [writeTypeData, List.append_assoc]
    refine readTypeData_plain (by decide) pool ?_
    simp only [UInt8.reduceToNat, readPlainType, (inverts_u32 _).bind, toUInt64_toUInt32 h, pure_apply]
  | _ =>
    simp only [writeTypeData, List.append_assoc]
    refine readTypeData_plain (by decide) pool ?_
    simp only [UInt8.reduceToNat, readPlainType, (inverts_u8 _).bind, (inverts_u32 _).bind,
      (inverts_bool _).bind, pure_apply]

/-- A type that is read back at the same pool is one the blob carries. -/
theorem carried_of_read (hpool : ∀ s ∈ pool, s.length < 2 ^ 32)
    (h : readTypeData pool (writeTypeData pool t ++ rest) = some ((t, pool), rest')) :
    CarriedType pool t := by
  cases t with
  | genericParam ownerName paramIndex =>
    have hblob := inverts_blob (lookup_length hpool ownerName)
    rw [writeTypeData, List.append_assoc, List.append_assoc, readTypeData_generic, hblob.bind,
      (inverts_u32 paramIndex).bind] at h
    obtain ⟨hrow, _⟩ := pure_eq_some h
    obtain ⟨hid, hpool'⟩ := Prod.mk.inj hrow
    exact Prod.ext (TypeRow.genericParam.inj hid).1 hpool'
  | incomplete base args =>
    rw [writeTypeData, List.append_assoc, List.append_assoc] at h
    exact carried_of_incomplete (plain_of_readTypeData (by decide) h).1
  | _ =>
    simp only [writeTypeData, List.append_assoc] at h
    exact ensures_plainType _ _ _ _ (plain_of_readTypeData (by decide) h).1

theorem exact_type (hpool : ∀ s ∈ pool, s.length < 2 ^ 32) (t : TypeRow) (rest rest' : List UInt8)
    (h : readTypeData pool (writeTypeData pool t ++ rest) = some ((t, pool), rest')) :
    CarriedType pool t ∧ rest' = rest := by
  have hcarried := carried_of_read hpool h
  rw [inverts_type hpool hcarried rest] at h
  exact ⟨hcarried, (congrArg Prod.snd (Option.some.inj h)).symm⟩

/-! ### The pool -/

theorem prefix_intern (pool : List StringRow) (text : StringRow) : pool <+: (intern pool text).2 := by
  rw [intern]
  split
  · exact List.prefix_rfl
  · exact List.prefix_append ..

/-- Reading a type only ever adds to the pool. -/
theorem prefix_readTypeData (pool : List StringRow) (bs : List UInt8) (t : TypeRow) (pool' : List StringRow)
    (rest : List UInt8) (h : readTypeData pool bs = some ((t, pool'), rest)) : pool <+: pool' := by
  obtain ⟨kind, mid, _, h⟩ := bind_eq_some h
  dsimp only at h
  split at h
  · obtain ⟨ownerName, mid, _, h⟩ := bind_eq_some h
    obtain ⟨paramIndex, mid, _, h⟩ := bind_eq_some h
    obtain ⟨hrow, _⟩ := pure_eq_some h
    rw [← (Prod.mk.inj hrow).2]
    exact prefix_intern pool ownerName
  · obtain ⟨t', mid, _, h⟩ := bind_eq_some h
    obtain ⟨hrow, _⟩ := pure_eq_some h
    rw [← (Prod.mk.inj hrow).2]

end Zith.Wasm
