import Mathlib.Algebra.BigOperators.Group.List.Basic
import Zith.Zirl.Buffer

/-! The metadata section of an artifact: `encodeTypes` and `decodeTypes`. Both walk the same tables in
    the same order, except that the encoder writes the name of an enum (a union) before that
    definition's own body, while the decoder reads all names of the table first and the bodies after.

        written : N₁ B₁ N₂ B₂ … Nₙ Bₙ        read : N₁ N₂ … Nₙ B₁ B₂ … Bₙ

    So the round trip holds exactly when both layouts are the same bytes (`LayoutsAgree`), which they
    are when each of the two tables has at most one definition. -/

namespace Zith.Zirl
open Zith.Lib Zith.Lib.Reader

/-- `enum class CompactTypeKind : uint8_t`; the codec carries any byte of it. -/
structure CompactTypeKind where
  val : UInt8
  deriving DecidableEq, Repr

structure CompactType where
  kind : CompactTypeKind
  intWidth : UInt8
  flags : UInt8
  ref0 : UInt32
  ref1 : UInt32
  args : List UInt32
  argNames : List UInt32
  deriving DecidableEq, Repr

structure CompactStructDef where
  name : List UInt8
  nameId : UInt32
  fieldNameIds : List UInt32
  fieldTypeIds : List UInt32
  foreignFieldOffsets : List UInt64
  typeArgIds : List UInt32
  hasForeignLayout : Bool
  foreignAbiIsSingleI64 : Bool
  foreignSizeBytes : UInt64
  foreignAlignBytes : UInt64
  explicitAlignmentBytes : UInt32
  deriving DecidableEq, Repr

structure CompactEnumVariant where
  name : List UInt8
  nameId : UInt32
  discriminant : Int64
  deriving DecidableEq

structure CompactEnumDef where
  name : List UInt8
  nameId : UInt32
  underlyingId : UInt32
  variants : List CompactEnumVariant
  deriving DecidableEq

structure CompactUnionDef where
  name : List UInt8
  nameId : UInt32
  memberTypeIds : List UInt32
  isRaw : Bool
  deriving DecidableEq, Repr

/-- The part of `cache::Artifact` this section carries. -/
structure Artifact where
  moduleName : List UInt8 := []
  strings : List (List UInt8) := []
  paths : List (List UInt8) := []
  types : List CompactType := []
  structDefs : List CompactStructDef := []
  enumDefs : List CompactEnumDef := []
  unionDefs : List CompactUnionDef := []
  deriving DecidableEq

/-! ### The encoder -/

def writeCompactType (t : CompactType) : List UInt8 :=
  writeU8 t.kind.val ++ (writeU8 t.intWidth ++ (writeU8 t.flags ++ (writeU8 0 ++
    (writeU32 t.ref0 ++ (writeU32 t.ref1 ++ (writeIds t.args ++ writeIds t.argNames))))))

def writeStructDef (s : CompactStructDef) : List UInt8 :=
  writeBlob s.name ++ (writeU32 s.nameId ++ (writeFlag s.hasForeignLayout ++
    (writeFlag s.foreignAbiIsSingleI64 ++ (writeU64 s.foreignSizeBytes ++
    (writeU64 s.foreignAlignBytes ++ (writeU32 s.explicitAlignmentBytes ++
    (writeIds s.fieldNameIds ++ (writeIds s.fieldTypeIds ++
    (writeCounted writeU64 s.foreignFieldOffsets ++ writeIds s.typeArgIds)))))))))

def writeVariant (v : CompactEnumVariant) : List UInt8 :=
  writeBlob v.name ++ (writeU32 v.nameId ++ writeI64 v.discriminant)

/-- What follows the name of an enum definition. -/
def writeEnumBody (e : CompactEnumDef) : List UInt8 :=
  writeU32 e.nameId ++ (writeU32 e.underlyingId ++ writeCounted writeVariant e.variants)

def writeEnumDef (e : CompactEnumDef) : List UInt8 := writeBlob e.name ++ writeEnumBody e

/-- What follows the name of a union definition, with the byte written for `is_raw`. -/
def writeUnionBodyWith (flag : UInt8) (u : CompactUnionDef) : List UInt8 :=
  writeU32 u.nameId ++ (writeU8 flag ++ writeIds u.memberTypeIds)

def writeUnionBody (u : CompactUnionDef) : List UInt8 := writeUnionBodyWith (if u.isRaw then 1 else 0) u

def writeUnionDef (u : CompactUnionDef) : List UInt8 := writeBlob u.name ++ writeUnionBody u

def encodeTypes (a : Artifact) : List UInt8 :=
  writeBlob a.moduleName ++ (writeCounted writeBlob a.strings ++ (writeCounted writeBlob a.paths ++
    (writeCounted writeCompactType a.types ++ (writeCounted writeStructDef a.structDefs ++
    (writeCounted writeEnumDef a.enumDefs ++ writeCounted writeUnionDef a.unionDefs)))))

/-! ### The decoder -/

def readCompactType : Reader CompactType := do
  let kind ← readU8
  let intWidth ← readU8
  let flags ← readU8
  let _reserved ← readU8
  let ref0 ← readU32
  let ref1 ← readU32
  let args ← readIds
  let argNames ← readIds
  return ⟨⟨kind⟩, intWidth, flags, ref0, ref1, args, argNames⟩

def readStructDef : Reader CompactStructDef := do
  let name ← readBlob
  let nameId ← readU32
  let foreign ← readU8
  let single ← readU8
  let foreignSizeBytes ← readU64
  let foreignAlignBytes ← readU64
  let explicitAlignmentBytes ← readU32
  let fieldNameIds ← readIds
  let fieldTypeIds ← readIds
  let foreignFieldOffsets ← readCounted 4 readU64
  let typeArgIds ← readIds
  return ⟨name, nameId, fieldNameIds, fieldTypeIds, foreignFieldOffsets, typeArgIds, foreign != 0,
    single != 0, foreignSizeBytes, foreignAlignBytes, explicitAlignmentBytes⟩

def readVariant : Reader CompactEnumVariant := do
  let name ← readBlob
  let nameId ← readU32
  let discriminant ← readI64
  return ⟨name, nameId, discriminant⟩

def readEnumBody (name : List UInt8) : Reader CompactEnumDef := do
  let nameId ← readU32
  let underlyingId ← readU32
  let variants ← readCounted 4 readVariant
  return ⟨name, nameId, underlyingId, variants⟩

def readUnionBody (name : List UInt8) : Reader CompactUnionDef := do
  let nameId ← readU32
  let flags ← readU8
  let memberTypeIds ← readIds
  return ⟨name, nameId, memberTypeIds, flags != 0⟩

/-- The two loops over an enum or union table: all names, then all bodies. -/
def readNamedDefs {α : Type} (readBody : List UInt8 → Reader α) : Reader (List α) := do
  let n ← readU32
  canReadU32Count n 4
  let names ← readBlob.replicate n.toNat
  Reader.forEach readBody names

def decodeTypes (out : Artifact) : Reader Artifact := do
  let moduleName ← readBlob
  let strings ← readCounted 4 readBlob
  let paths ← readCounted 4 readBlob
  let types ← readCounted 4 readCompactType
  let structDefs ← readCounted 4 readStructDef
  let enumDefs ← readNamedDefs readEnumBody
  let unionDefs ← readNamedDefs readUnionBody
  return { out with
    moduleName := moduleName, strings := strings, paths := paths, types := types,
    structDefs := structDefs, enumDefs := enumDefs, unionDefs := unionDefs }

/-! ### The claim and its condition -/

/-- A string or a table whose length its 32-bit count can hold. -/
def FitsU32 {α : Type} (l : List α) : Prop := l.length < 2 ^ 32

/-- All counts and lengths of the section are below `2 ^ 32`. -/
structure Artifact.Fits (a : Artifact) : Prop where
  moduleName : FitsU32 a.moduleName
  strings : FitsU32 a.strings ∧ ∀ s ∈ a.strings, FitsU32 s
  paths : FitsU32 a.paths ∧ ∀ s ∈ a.paths, FitsU32 s
  types : FitsU32 a.types ∧ ∀ t ∈ a.types, FitsU32 t.args ∧ FitsU32 t.argNames
  structDefs : FitsU32 a.structDefs ∧ ∀ s ∈ a.structDefs, FitsU32 s.name ∧
    FitsU32 s.fieldNameIds ∧ FitsU32 s.fieldTypeIds ∧ FitsU32 s.foreignFieldOffsets ∧
    FitsU32 s.typeArgIds
  enumDefs : FitsU32 a.enumDefs ∧ ∀ e ∈ a.enumDefs, FitsU32 e.name ∧ FitsU32 e.variants ∧
    ∀ v ∈ e.variants, FitsU32 v.name
  unionDefs : FitsU32 a.unionDefs ∧ ∀ u ∈ a.unionDefs, FitsU32 u.name ∧ FitsU32 u.memberTypeIds

/-- `decodeTypes` undoes `encodeTypes`: it succeeds, consumes every byte and yields the same tables. -/
def TypesRoundTrip (a : Artifact) : Prop := decodeTypes {} (encodeTypes a) = some (a, [])

/-- Interleaved and grouped layout of a table of named definitions are the same bytes. -/
def SameLayout {α : Type} (name body : α → List UInt8) (l : List α) : Prop :=
  l.flatMap (fun d => name d ++ body d) = l.flatMap name ++ l.flatMap body

/-- The condition: for the enum and the union table the two layouts agree. -/
def LayoutsAgree (a : Artifact) : Prop :=
  SameLayout (fun e => writeBlob e.name) writeEnumBody a.enumDefs ∧
  SameLayout (fun u => writeBlob u.name) writeUnionBody a.unionDefs

/-- At most one definition has only one layout. -/
theorem sameLayout_of_length_le_one {α : Type} {name body : α → List UInt8} :
    ∀ {l : List α}, l.length ≤ 1 → SameLayout name body l
  | [], _ => rfl
  | [d], _ => by simp [SameLayout]

/-! ### The tables without names -/

theorem inverts_compactType {t : CompactType} (h : FitsU32 t.args ∧ FitsU32 t.argNames) :
    Inverts writeCompactType readCompactType t := by
  intro rest
  simp only [readCompactType, writeCompactType, List.append_assoc, (inverts_u8 _).bind,
    (inverts_u32 _).bind, (inverts_ids h.1).bind, (inverts_ids h.2).bind, pure_apply]

theorem flag_ne_zero (b : Bool) : ((if b then 1 else 0 : UInt8) != 0) = b := by cases b <;> rfl

theorem inverts_structDef {s : CompactStructDef} (h : FitsU32 s.name ∧ FitsU32 s.fieldNameIds ∧
    FitsU32 s.fieldTypeIds ∧ FitsU32 s.foreignFieldOffsets ∧ FitsU32 s.typeArgIds) :
    Inverts writeStructDef readStructDef s := by
  obtain ⟨hname, hnames, htypes, hoffsets, hargs⟩ := h
  have hoff : Inverts (writeCounted writeU64) (readCounted 4 readU64) s.foreignFieldOffsets :=
    inverts_counted (by norm_num) hoffsets (fun a _ => by simp) fun a _ => inverts_u64 a
  intro rest
  simp only [readStructDef, writeStructDef, writeFlag, List.append_assoc,
    (inverts_blob hname).bind, (inverts_u8 _).bind, (inverts_u32 _).bind, (inverts_u64 _).bind,
    (inverts_ids hnames).bind, (inverts_ids htypes).bind, hoff.bind, (inverts_ids hargs).bind,
    pure_apply, flag_ne_zero]

theorem inverts_variant {v : CompactEnumVariant} (h : FitsU32 v.name) : Inverts writeVariant readVariant v := by
  intro rest
  simp only [readVariant, writeVariant, List.append_assoc, (inverts_blob h).bind,
    (inverts_u32 _).bind, (inverts_i64 _).bind, pure_apply]

theorem canonical_variant : Canonical writeVariant readVariant := by
  intro bs v rest h
  obtain ⟨name, m₁, h₁, h⟩ := bind_eq_some h
  obtain ⟨nameId, m₂, h₂, h⟩ := bind_eq_some h
  obtain ⟨disc, m₃, h₃, h⟩ := bind_eq_some h
  obtain ⟨rfl, rfl⟩ := pure_eq_some h
  rw [canonical_blob _ _ _ h₁, canonical_u32 _ _ _ h₂, canonical_i64 _ _ _ h₃, writeVariant,
    List.append_assoc, List.append_assoc]

/-! ### Enum and union bodies -/

theorem inverts_enumBody {e : CompactEnumDef} (h : FitsU32 e.variants)
    (hv : ∀ v ∈ e.variants, FitsU32 v.name) : Inverts writeEnumBody (readEnumBody e.name) e := by
  have hvars : Inverts (writeCounted writeVariant) (readCounted 4 readVariant) e.variants :=
    inverts_counted (by norm_num) h (fun v _ => by simp [writeVariant, writeBlob])
      fun v hmem => inverts_variant (hv v hmem)
  intro rest
  simp only [readEnumBody, writeEnumBody, List.append_assoc, (inverts_u32 _).bind, hvars.bind, pure_apply]

theorem enumBody_canonical {name bs rest : List UInt8} {e : CompactEnumDef}
    (h : readEnumBody name bs = some (e, rest)) : bs = writeEnumBody e ++ rest ∧ e.name = name := by
  obtain ⟨nameId, m₁, h₁, h⟩ := bind_eq_some h
  obtain ⟨underlyingId, m₂, h₂, h⟩ := bind_eq_some h
  obtain ⟨variants, m₃, h₃, h⟩ := bind_eq_some h
  obtain ⟨rfl, rfl⟩ := pure_eq_some h
  refine ⟨?_, rfl⟩
  rw [canonical_u32 _ _ _ h₁, canonical_u32 _ _ _ h₂, canonical_counted canonical_variant _ _ _ h₃,
    writeEnumBody, List.append_assoc, List.append_assoc]

theorem inverts_unionBody {u : CompactUnionDef} (h : FitsU32 u.memberTypeIds) :
    Inverts writeUnionBody (readUnionBody u.name) u := by
  intro rest
  simp only [readUnionBody, writeUnionBody, writeUnionBodyWith, List.append_assoc,
    (inverts_u32 _).bind, (inverts_u8 _).bind, (inverts_ids h).bind, pure_apply, flag_ne_zero]

/-- An accepted union body is the written one up to the byte of `is_raw`. -/
theorem unionBody_canonical {name bs rest : List UInt8} {u : CompactUnionDef}
    (h : readUnionBody name bs = some (u, rest)) :
    ∃ flag, bs = writeUnionBodyWith flag u ++ rest ∧ u.isRaw = (flag != 0) ∧ u.name = name := by
  obtain ⟨nameId, m₁, h₁, h⟩ := bind_eq_some h
  obtain ⟨flag, m₂, h₂, h⟩ := bind_eq_some h
  obtain ⟨ids, m₃, h₃, h⟩ := bind_eq_some h
  obtain ⟨rfl, rfl⟩ := pure_eq_some h
  refine ⟨flag, ?_, rfl, rfl⟩
  rw [canonical_u32 _ _ _ h₁, canonical_u8 _ _ _ h₂, canonical_ids _ _ _ h₃, writeUnionBodyWith,
    List.append_assoc, List.append_assoc]

end Zith.Zirl

/-! When `decodeTypes` undoes `encodeTypes`. A table of named definitions is read in the grouped
    layout (all names, then all bodies), so it survives when its interleaved bytes are its grouped
    bytes. Conversely an accepted table has the grouped layout up to the byte of `is_raw`, which the
    decoder only compares with zero. Comparing sums of bytes removes that freedom: both layouts hold
    the same bytes, and the flag written is the least one the decoder maps to the same value. -/

namespace Zith.Zirl
open Zith.Lib Zith.Lib.Reader

/-! ### The grouped layout is what the decoder reads -/

/-- The bytes of a table in the order the decoder reads them. -/
def grouped {α : Type} (name : α → List UInt8) (body : α → List UInt8) (l : List α) : List UInt8 :=
  writeCount l.length ++ (l.flatMap name ++ l.flatMap body)

variable {a : Artifact} {α : Type}

theorem readNamedDefs_grouped {name : α → List UInt8} {body : α → List UInt8} {l : List α}
    (readBody : List UInt8 → Reader α) (hlen : FitsU32 l) (hname : ∀ d ∈ l, FitsU32 (name d))
    (hbody : ∀ d ∈ l, Inverts body (readBody (name d)) d) (rest : List UInt8) :
    readNamedDefs readBody (grouped (fun d => writeBlob (name d)) body l ++ rest) = some (l, rest) := by
  have hroom : l.length ≤
      (l.flatMap (fun d => writeBlob (name d)) ++ (l.flatMap body ++ rest)).length / 4 := by
    rw [Nat.le_div_iff_mul_le (by norm_num), Nat.mul_comm, List.length_append]
    exact le_trans (mul_length_le_flatMap fun d _ => le_writeBlob_length (name d)) (Nat.le_add_right _ _)
  have hblobs : ∀ s ∈ l.map name, Inverts writeBlob readBlob s := by
    intro s hs
    obtain ⟨d, hd, rfl⟩ := List.mem_map.mp hs
    exact inverts_blob (hname d hd)
  have hnames := Inverts.replicate hblobs (l.flatMap body ++ rest)
  rw [List.flatMap_map, List.length_map] at hnames
  rw [readNamedDefs, bind_apply, grouped, List.append_assoc, List.append_assoc, read_count,
    Option.bind_some, bind_apply, canReadU32Count, guardLeft, toNat_count hlen,
    if_pos (decide_eq_true ⟨by norm_num, hroom⟩), Option.bind_some, bind_apply, hnames,
    Option.bind_some]
  exact Inverts.forEach hbody rest

theorem grouped_of_sameLayout {name body : α → List UInt8} {l : List α} (h : SameLayout name body l) :
    writeCounted (fun d => name d ++ body d) l = grouped name body l := by
  rw [writeCounted, grouped, h]

/-! ### What an accepted table looks like -/

/-- The sum of a byte string. -/
def byteSum (bs : List UInt8) : ℕ := (bs.map UInt8.toNat).sum

@[simp] theorem byteSum_append (a b : List UInt8) : byteSum (a ++ b) = byteSum a + byteSum b := by
  simp [byteSum]

theorem byteSum_interleaved {α : Type} (name body : α → List UInt8) : ∀ l : List α,
    byteSum (l.flatMap fun d => name d ++ body d) = byteSum (l.flatMap name) + byteSum (l.flatMap body)
  | [] => rfl
  | d :: l => by
    simp only [List.flatMap_cons, byteSum_append, byteSum_interleaved name body l]
    omega

theorem length_interleaved {α : Type} (name body : α → List UInt8) : ∀ l : List α,
    (l.flatMap fun d => name d ++ body d).length = (l.flatMap name).length + (l.flatMap body).length
  | [] => rfl
  | d :: l => by
    simp only [List.flatMap_cons, List.length_append, length_interleaved name body l]
    omega

/-- `piece` can be read as `d`: it is as long as what is written for `d`, its bytes sum to no less,
    and to the same only if it is what is written. -/
structure PieceOf {α : Type} (body : α → List UInt8) (d : α) (piece : List UInt8) : Prop where
  length_eq : piece.length = (body d).length
  sum_le : byteSum (body d) ≤ byteSum piece
  eq_of_sum : byteSum piece = byteSum (body d) → piece = body d

theorem PieceOf.refl (body : α → List UInt8) (d : α) : PieceOf body d (body d) := ⟨rfl, le_rfl, fun _ => rfl⟩

/-- A reader of bodies accepts pieces only. -/
def ReadsPieces {α : Type} (name : α → List UInt8) (body : α → List UInt8)
    (readBody : List UInt8 → Reader α) : Prop :=
  ∀ nm bs d rest, readBody nm bs = some (d, rest) → ∃ piece, bs = piece ++ rest ∧ PieceOf body d piece ∧ name d = nm

theorem readsPieces_enumBody : ReadsPieces CompactEnumDef.name writeEnumBody readEnumBody := by
  intro nm bs e rest h
  obtain ⟨hbytes, hname⟩ := enumBody_canonical h
  exact ⟨writeEnumBody e, hbytes, .refl .., hname⟩

theorem pieceOf_unionBodyWith {u : CompactUnionDef} {flag : UInt8} (h : u.isRaw = (flag != 0)) :
    PieceOf writeUnionBody u (writeUnionBodyWith flag u) := by
  have hle : (if u.isRaw then 1 else 0 : UInt8).toNat ≤ flag.toNat := by
    cases hraw : u.isRaw with
    | false => simp
    | true =>
      have hne : flag ≠ 0 := by simpa [hraw] using h.symm
      have hpos : flag.toNat ≠ 0 := fun h0 => hne (UInt8.toNat_inj.mp h0)
      exact Nat.one_le_iff_ne_zero.mpr hpos
  refine ⟨by simp [writeUnionBody, writeUnionBodyWith, writeU8], ?_, fun hsum => ?_⟩
  · simp only [writeUnionBody, writeUnionBodyWith, writeU8, byteSum_append]
    simpa [byteSum] using hle
  · have heq : flag.toNat = (if u.isRaw then 1 else 0 : UInt8).toNat := by
      simpa [writeUnionBody, writeUnionBodyWith, writeU8, byteSum] using hsum
    rw [writeUnionBody, UInt8.toNat_inj.mp heq]

theorem readsPieces_unionBody : ReadsPieces CompactUnionDef.name writeUnionBody readUnionBody := by
  intro nm bs u rest h
  obtain ⟨flag, hbytes, hraw, hname⟩ := unionBody_canonical h
  exact ⟨_, hbytes, pieceOf_unionBodyWith hraw, hname⟩

/-- The loop over the bodies accepts one piece for each definition. -/
theorem forEach_pieces {α : Type} {name body : α → List UInt8} {readBody : List UInt8 → Reader α}
    (h : ReadsPieces name body readBody) : ∀ {names : List (List UInt8)} {bs : List UInt8}
      {l : List α} {rest : List UInt8}, Reader.forEach readBody names bs = some (l, rest) →
      ∃ pieces, bs = pieces ++ rest ∧ l.map name = names ∧ pieces.length = (l.flatMap body).length ∧
        byteSum (l.flatMap body) ≤ byteSum pieces ∧
        (byteSum pieces = byteSum (l.flatMap body) → pieces = l.flatMap body)
  | [], bs, l, rest, hrun => by
    obtain ⟨rfl, rfl⟩ := pure_eq_some hrun
    exact ⟨[], rfl, rfl, rfl, le_rfl, fun _ => rfl⟩
  | nm :: names, bs, l, rest, hrun => by
    obtain ⟨d, mid, hd, hrun⟩ := bind_eq_some hrun
    obtain ⟨l', mid', hl, hrun⟩ := bind_eq_some hrun
    obtain ⟨rfl, rfl⟩ := pure_eq_some hrun
    obtain ⟨piece, rfl, hpiece, rfl⟩ := h _ _ _ _ hd
    obtain ⟨pieces, rfl, rfl, hlen, hle, heq⟩ := forEach_pieces h hl
    refine ⟨piece ++ pieces, by rw [List.append_assoc], rfl, ?_, ?_, fun hsum => ?_⟩
    · rw [List.flatMap_cons, List.length_append, List.length_append, hpiece.length_eq, hlen]
    · rw [List.flatMap_cons, byteSum_append, byteSum_append]
      exact Nat.add_le_add hpiece.sum_le hle
    · have hfirst := hpiece.sum_le
      rw [List.flatMap_cons, byteSum_append, byteSum_append] at hsum
      rw [List.flatMap_cons, hpiece.eq_of_sum (by omega), heq (by omega)]

/-- A table that survives, followed by anything, has the same bytes in both layouts. -/
theorem sameLayout_of_readNamedDefs {name body : α → List UInt8}
    {readBody : List UInt8 → Reader α} (h : ReadsPieces name body readBody) {l : List α} {after rest : List UInt8}
    (hrun : readNamedDefs readBody (writeCounted (fun d => writeBlob (name d) ++ body d) l ++ after) = some (l, rest)) :
    SameLayout (fun d => writeBlob (name d)) body l ∧ rest = after := by
  obtain ⟨n, mid₁, hn, hrun₁⟩ := bind_eq_some hrun
  obtain ⟨_, mid₂, hroom, hrun₂⟩ := bind_eq_some hrun₁
  obtain ⟨names, mid₃, hnames, hrun₃⟩ := bind_eq_some hrun₂
  rw [writeCounted, List.append_assoc, read_count] at hn
  obtain ⟨rfl, rfl⟩ : UInt32.ofNat l.length = n ∧ _ = mid₁ := by simpa using hn
  obtain ⟨_, rfl⟩ := guardLeft_eq_some hroom
  obtain ⟨hbytes, _⟩ := canonical_blob.replicate hnames
  obtain ⟨pieces, rfl, rfl, hlen, hle, heq⟩ := forEach_pieces h hrun₃
  rw [List.flatMap_map, ← List.append_assoc] at hbytes
  obtain ⟨hlayout, rfl⟩ := List.append_inj hbytes (by
    rw [length_interleaved, List.length_append, hlen])
  have hsum := congrArg byteSum hlayout
  rw [byteSum_interleaved, byteSum_append] at hsum
  rw [heq (by omega)] at hlayout
  exact ⟨hlayout, rfl⟩

/-! ### The round trip -/

/-- The tables before the enums are read back whatever follows them. -/
theorem decodeTypes_prefix (h : a.Fits) (tail : List UInt8) :
    decodeTypes {} (writeBlob a.moduleName ++ (writeCounted writeBlob a.strings ++
        (writeCounted writeBlob a.paths ++ (writeCounted writeCompactType a.types ++
        (writeCounted writeStructDef a.structDefs ++ tail))))) = (readNamedDefs readEnumBody tail).bind fun enums =>
        (readNamedDefs readUnionBody enums.2).bind fun unions =>
          some ({ a with enumDefs := enums.1, unionDefs := unions.1 }, unions.2) := by
  have hstrings : Inverts (writeCounted writeBlob) (readCounted 4 readBlob) a.strings :=
    inverts_counted (by norm_num) h.strings.1 (fun s _ => le_writeBlob_length s)
      fun s hs => inverts_blob (h.strings.2 s hs)
  have hpaths : Inverts (writeCounted writeBlob) (readCounted 4 readBlob) a.paths :=
    inverts_counted (by norm_num) h.paths.1 (fun s _ => le_writeBlob_length s) fun s hs => inverts_blob (h.paths.2 s hs)
  have htypes : Inverts (writeCounted writeCompactType) (readCounted 4 readCompactType) a.types :=
    inverts_counted (by norm_num) h.types.1
      (fun t _ => by simp [writeCompactType, writeU8, writeIds, writeCounted])
      fun t ht => inverts_compactType (h.types.2 t ht)
  have hstructs : Inverts (writeCounted writeStructDef) (readCounted 4 readStructDef) a.structDefs :=
    inverts_counted (by norm_num) h.structDefs.1
      (fun s _ => by simp [writeStructDef, writeBlob])
      fun s hs => inverts_structDef (h.structDefs.2 s hs)
  simp only [decodeTypes, bind_apply, inverts_blob h.moduleName _, hstrings _, hpaths _, htypes _,
    hstructs _, Option.bind_some, pure_apply]

theorem decode_encode_of_layoutsAgree (h : a.Fits) (hl : LayoutsAgree a) : TypesRoundTrip a := by
  have henums : writeCounted writeEnumDef a.enumDefs =
      grouped (fun e => writeBlob e.name) writeEnumBody a.enumDefs := grouped_of_sameLayout hl.1
  have hunions : writeCounted writeUnionDef a.unionDefs =
      grouped (fun u => writeBlob u.name) writeUnionBody a.unionDefs := grouped_of_sameLayout hl.2
  have hreadEnums := readNamedDefs_grouped readEnumBody h.enumDefs.1
    (fun e he => (h.enumDefs.2 e he).1)
    (fun e he => inverts_enumBody (h.enumDefs.2 e he).2.1 (h.enumDefs.2 e he).2.2)
  have hreadUnions := readNamedDefs_grouped readUnionBody h.unionDefs.1
    (fun u hu => (h.unionDefs.2 u hu).1) (fun u hu => inverts_unionBody (h.unionDefs.2 u hu).2) []
  rw [List.append_nil] at hreadUnions
  rw [TypesRoundTrip, encodeTypes, decodeTypes_prefix h, henums, hunions, hreadEnums,
    Option.bind_some, hreadUnions, Option.bind_some]

theorem layoutsAgree_of_decode_encode (h : a.Fits) (hrt : TypesRoundTrip a) : LayoutsAgree a := by
  rw [TypesRoundTrip, encodeTypes, decodeTypes_prefix h] at hrt
  obtain ⟨⟨enums, mid⟩, henums, hrt⟩ := Option.bind_eq_some_iff.mp hrt
  obtain ⟨⟨unions, rest⟩, hunions, hrt⟩ := Option.bind_eq_some_iff.mp hrt
  simp only [Option.some.injEq, Prod.mk.injEq] at hrt
  obtain ⟨hart, rfl⟩ := hrt
  obtain rfl : enums = a.enumDefs := congrArg Artifact.enumDefs hart
  obtain rfl : unions = a.unionDefs := congrArg Artifact.unionDefs hart
  obtain ⟨hsameEnums, hmid⟩ := sameLayout_of_readNamedDefs readsPieces_enumBody henums
  rw [hmid, ← List.append_nil (writeCounted _ _)] at hunions
  exact ⟨hsameEnums, (sameLayout_of_readNamedDefs readsPieces_unionBody hunions).1⟩

/-- `decodeTypes` undoes `encodeTypes` exactly on the artifacts whose enum and union tables have the
    same bytes in the written and in the read layout. -/
theorem decodeTypes_undoes_encodeTypes_iff (a : Artifact) (h : a.Fits) : TypesRoundTrip a ↔ LayoutsAgree a :=
  ⟨layoutsAgree_of_decode_encode h, decode_encode_of_layoutsAgree h⟩

/-- One enum with two variants and one union with two members survive. -/
theorem decodeTypes_undoes_encodeTypes_shapes :
    TypesRoundTrip { moduleName := [109], enumDefs := [⟨[69], 1, 7, [⟨[65], 2, 0⟩, ⟨[66], 3, -1⟩]⟩],
                     unionDefs := [⟨[85], 4, [7, 8], true⟩] } :=
  (decodeTypes_undoes_encodeTypes_iff _ (by
    constructor <;> simp [FitsU32])).mpr
    ⟨sameLayout_of_length_le_one (by decide), sameLayout_of_length_le_one (by decide)⟩

/-- Two enums `A` and `B` without variants do not: the decoder takes the id of `A` for the length of
    the second name. -/
theorem decodeTypes_encodeTypes_fails : ∃ a : Artifact, a.Fits ∧ ¬ TypesRoundTrip a := by
  have hfits : Artifact.Fits { enumDefs := [⟨[65], 1, 7, []⟩, ⟨[66], 2, 7, []⟩] } := by
    constructor <;> simp [FitsU32]
  refine ⟨_, hfits, fun hrt => ?_⟩
  have hlayout := (layoutsAgree_of_decode_encode hfits hrt).1
  revert hlayout
  unfold SameLayout
  decide +kernel

end Zith.Zirl
