import Mathlib.Data.List.Nodup
import Zith.Wasm.RowRoundTrip
import Zith.Zirl.AttrsSection

/-! When `decodeHir` gives back what `encodeHir` was given. Section by section, what is decoded is what
    was written only when every row is carried: the strings come back first, so the pool is the one the
    types were written with, and a type is then read exactly or not at all.

        strings ──▶ types, the pool unchanged ──▶ expressions ──▶ functions ──▶ proofs -/

namespace Zith.Wasm
open Zith.Lib Zith.Lib.Reader
open Zirl (writeU8 writeU32 writeCount writeBlob writeCounted readU8 readU32 readBlob inverts_u8 inverts_u32
  inverts_blob read_count toNat_count ensures_blob)
open Cache (CompactSafetyProofKind)
open Hir (StringRow TypeRow ExprRow FunctionRow FlatModule HirExprId HirAttrs HirSafetyProof builtinTypes
  kFirstCustom provenAt recordAt resize)

/-! ### Steps of the decoder -/

variable {bs rest : List UInt8} {h : FlatModule} {α β : Type} {f : α → Decoder β}

theorem orFail_bind {message : String} {rd : Reader α} {a : α} (h : rd bs = some (a, rest))
    (f : α → Decoder β) : (orFail message rd >>= f) bs = f a rest := by
  change (orFail message rd bs >>= fun r => f r.1 r.2) = _
  rw [orFail, h]
  rfl

theorem bind_eq_ok {rd : Decoder α} {b : β} (h : (rd >>= f) bs = .ok (b, rest)) :
    ∃ a mid, rd bs = .ok (a, mid) ∧ f a mid = .ok (b, rest) := by
  change (rd bs >>= fun r => f r.1 r.2) = _ at h
  rcases hrd : rd bs with message | ⟨a, mid⟩
  · rw [hrd] at h
    cases h
  · rw [hrd] at h
    exact ⟨a, mid, rfl, h⟩

theorem bind_of_ok {rd : Decoder α} {a : α} (h : rd bs = .ok (a, rest)) : (rd >>= f) bs = f a rest := by
  change (rd bs >>= fun r => f r.1 r.2) = _
  rw [h]
  rfl

theorem orFail_eq_ok {α : Type} {message : String} {rd : Reader α} {a : α} :
    orFail message rd bs = .ok (a, rest) ↔ rd bs = some (a, rest) := by
  unfold orFail
  rcases rd bs with _ | r
  · simp
  · simp

theorem readHeader_written (bs : List UInt8) :
    readHeader (writeU32 kBlobMagic ++ (writeU32 kBlobVersion ++ bs)) = some ((), bs) := by
  simp only [readHeader, (inverts_u32 _).bind]
  rfl

/-- A table below the limit is read row by row. -/
theorem readSection_written {marker : UInt8} {overflow message : String} {rows : ℕ → Reader α}
    {enc : β → List UInt8} {l : List β} (hlen : l.length ≤ kMaxArrayCount) (rest : List UInt8) :
    readSection marker overflow message rows (writeU8 marker ++ (writeCounted enc l ++ rest)) =
      orFail message (rows l.length) (l.flatMap enc ++ rest) := by
  have hcount : (UInt32.ofNat l.length).toNat = l.length := toNat_count (lt_of_le_of_lt hlen (by decide))
  have hmarker : readMarker marker (writeU8 marker ++ (writeCounted enc l ++ rest)) =
      some (UInt32.ofNat l.length, l.flatMap enc ++ rest) := by
    rw [readMarker, (inverts_u8 marker).bind, check_bind (beq_self_eq_true marker), writeCounted,
      List.append_assoc, read_count]
  have hcheck : check (decide ((UInt32.ofNat l.length).toNat ≤ kMaxArrayCount)) (l.flatMap enc ++ rest) =
      some ((), l.flatMap enc ++ rest) := by
    rw [check, if_pos (decide_eq_true (by omega))]
  rw [readSection, orFail_bind hmarker, orFail_bind hcheck, hcount]

/-! ### The safety proofs -/

/-- The proof that is present in a record of the table. -/
def presentAt (proofs : List HirSafetyProof) (i : ℕ) : Option HirSafetyProof := proofs[i]?.filter (·.present)

/-- The records a table grows by have no proof. -/
theorem presentAt_resize (proofs : List HirSafetyProof) {count : ℕ} (hcount : proofs.length ≤ count) (i : ℕ) :
    presentAt (resize proofs count {}) i = presentAt proofs i := by
  unfold presentAt resize
  split
  · by_cases hi : i < proofs.length
    · rw [List.getElem?_append_left hi]
    · rw [List.getElem?_append_right (by omega), List.getElem?_replicate, List.getElem?_eq_none (by omega)]
      split <;> rfl
  · rw [List.take_of_length_le (by omega)]

theorem provenAt_recordProof {attrs : HirAttrs} {id : HirExprId} {proof : HirSafetyProof}
    (hid : id.toNat < kMaxArrayCount) (hpresent : proof.present = true) (other : HirExprId) :
    provenAt (recordProof attrs id proof) other = if other = id then some proof else provenAt attrs other := by
  have hlimit : kMaxArrayCount = 2 ^ 20 := rfl
  have hnext : (id + 1).toNat = id.toNat + 1 := by
    rw [UInt32.toNat_add, UInt32.toNat_one, Nat.mod_eq_of_lt (by omega)]
  obtain ⟨grown, hgrown, hlen, hrecord⟩ : ∃ grown : List HirSafetyProof,
      (∀ i, presentAt grown i = presentAt attrs.safetyProofs i) ∧ id.toNat < grown.length ∧
      attrs.safetyProof id (fun _ => proof) =
        some { attrs with safetyProofs := grown.modify id.toNat fun _ => proof } := by
    by_cases hle : attrs.safetyProofs.length ≤ id.toNat
    · have hlen := Hir.lt_length_resize attrs.safetyProofs {} (Nat.lt_succ_self id.toNat) hle
      refine ⟨resize attrs.safetyProofs (id.toNat + 1) {}, presentAt_resize _ (by omega), hlen, ?_⟩
      rw [HirAttrs.safetyProof, hnext, recordAt, if_pos hle]
      simp only [if_pos hlen]
      rfl
    · refine ⟨attrs.safetyProofs, fun _ => rfl, by omega, ?_⟩
      rw [HirAttrs.safetyProof, hnext, recordAt, if_neg hle]
      simp only [if_pos (show id.toNat < attrs.safetyProofs.length by omega)]
      rfl
  rw [recordProof, hrecord]
  change presentAt (grown.modify id.toNat fun _ => proof) other.toNat = _
  rw [presentAt, List.getElem?_modify]
  by_cases h : other = id
  · subst h
    rw [if_pos rfl, List.getElem?_eq_getElem hlen]
    simp [hpresent]
  · have hne : id.toNat ≠ other.toNat := fun hn => h (UInt32.toNat_inj.mp hn.symm)
    simp only [hne, if_false, h]
    exact (congrArg (Option.filter _) (by simp)).trans (hgrown other.toNat)

/-- The proof that is written for an expression that has one. -/
def proofOf (h : FlatModule) (id : HirExprId) : HirSafetyProof := (provenAt h.attrs id).getD {}

/-- The attributes a decoder rebuilds from the proofs at some ids. -/
def rebuilt (h : FlatModule) (ids : List HirExprId) (attrs : HirAttrs) : HirAttrs :=
  ids.foldl (fun attrs id => recordProof attrs id (proofOf h id)) attrs

theorem present_proofOf {id : HirExprId} (hid : (provenAt h.attrs id).isSome = true) :
    (proofOf h id).present = true ∧ provenAt h.attrs id = some (proofOf h id) := by
  obtain ⟨proof, hproof⟩ := Option.isSome_iff_exists.mp hid
  have hpresent := (Option.filter_eq_some_iff.mp hproof).2
  rw [proofOf, hproof]
  exact ⟨hpresent, rfl⟩

theorem provenAt_rebuilt : ∀ {ids : List HirExprId} {attrs : HirAttrs},
    (∀ id ∈ ids, id.toNat < kMaxArrayCount ∧ (provenAt h.attrs id).isSome = true) → ∀ other,
      provenAt (rebuilt h ids attrs) other = if other ∈ ids then provenAt h.attrs other else provenAt attrs other := by
  intro ids
  induction ids with
  | nil =>
    intro attrs _ other
    simp [rebuilt]
  | cons id ids ih =>
    intro attrs hids other
    obtain ⟨⟨hlt, hsome⟩, hrest⟩ := List.forall_mem_cons.mp hids
    obtain ⟨hpresent, hproof⟩ := present_proofOf hsome
    change provenAt (rebuilt h ids (recordProof attrs id (proofOf h id))) other = _
    rw [ih hrest other, provenAt_recordProof hlt hpresent]
    by_cases hmem : other ∈ ids
    · rw [if_pos hmem, if_pos (List.mem_cons_of_mem _ hmem)]
    · by_cases heq : other = id
      · subst heq
        rw [if_neg hmem, if_pos rfl, if_pos (List.mem_cons_self ..), hproof]
      · rw [if_neg hmem, if_neg heq, if_neg (by simp [heq, hmem])]

theorem orZero_written {α : Type} {enc : α → List UInt8} {rd : Reader α} {a zero : α} (h : Inverts enc rd a)
    (rest : List UInt8) : orZero rd zero (some (enc a ++ rest)) = (a, some rest) := by
  rw [orZero, Option.bind_some, h rest]

/-- The loop over the proofs records each of them. -/
theorem readProofs_written {h : FlatModule} : ∀ {ids seen : List HirExprId} {attrs : HirAttrs}
    {rest : List UInt8}, ids.Nodup →
      (∀ id ∈ ids, (id.toNat < h.exprs.length ∧ id ∉ seen) ∧ (provenAt h.attrs id).isSome = true) →
      readProofs h.exprs.length ids.length seen attrs (some (ids.flatMap (writeProof h) ++ rest)) =
        .ok (rebuilt h ids attrs, some rest) := by
  intro ids
  induction ids with
  | nil =>
    intro seen attrs rest _ _
    rfl
  | cons id ids ih =>
    intro seen attrs rest hnodup hids
    obtain ⟨hnotin, hnodup⟩ := List.nodup_cons.mp hnodup
    obtain ⟨⟨hnew, hsome⟩, hrest⟩ := List.forall_mem_cons.mp hids
    obtain ⟨hpresent, _⟩ := present_proofOf hsome
    have hkind : CompactSafetyProofKind.ofU8 (proofOf h id).kind.toU8 = some (proofOf h id).kind := by
      cases (proofOf h id).kind <;> rfl
    have hproof : { proofOf h id with present := true } = proofOf h id := by rw [← hpresent]
    have hseen : ∀ other ∈ ids, (other.toNat < h.exprs.length ∧ other ∉ id :: seen) ∧
        (provenAt h.attrs other).isSome = true := by
      intro other hother
      obtain ⟨⟨hlt, hfresh⟩, hsome⟩ := hrest other hother
      refine ⟨⟨hlt, ?_⟩, hsome⟩
      rintro (_ | ⟨_, hmem⟩)
      · exact hnotin hother
      · exact hfresh hmem
    rw [List.length_cons, List.flatMap_cons, writeProof, readProofs]
    simp only [List.append_assoc, orZero_written (inverts_u32 _), orZero_written (inverts_u8 _)]
    rw [show CompactSafetyProofKind.ofU8 ((provenAt h.attrs id).getD {}).kind.toU8 = _ from hkind]
    simp only [if_pos hnew]
    exact (congrArg (fun proof => readProofs h.exprs.length ids.length (id :: seen)
      (recordProof attrs id proof) _) hproof).trans (ih hnodup hseen)

theorem toNat_ofNat_of_mem_range {n i : ℕ} (hn : n ≤ kMaxArrayCount) (hi : i ∈ List.range n) :
    (UInt32.ofNat i).toNat = i :=
  toNat_count (lt_of_lt_of_le (List.mem_range.mp hi) (le_trans hn (by decide)))

theorem mem_provenIds (hexprs : h.exprs.length ≤ kMaxArrayCount) {id : HirExprId} :
    id ∈ provenIds h ↔ id.toNat < h.exprs.length ∧ (provenAt h.attrs id).isSome = true := by
  rw [provenIds, List.mem_filter, List.mem_map]
  refine and_congr_left fun _ => ⟨?_, ?_⟩
  · rintro ⟨i, hi, rfl⟩
    rw [toNat_ofNat_of_mem_range hexprs hi]
    exact List.mem_range.mp hi
  · intro hid
    exact ⟨id.toNat, List.mem_range.mpr hid, UInt32.ofNat_toNat⟩

theorem nodup_provenIds (hexprs : h.exprs.length ≤ kMaxArrayCount) : (provenIds h).Nodup := by
  refine List.filter_sublist.nodup (List.Nodup.map_on ?_ List.nodup_range)
  intro i hi j hj heq
  rw [← toNat_ofNat_of_mem_range hexprs hi, ← toNat_ofNat_of_mem_range hexprs hj, heq]

theorem length_provenIds_le (h : FlatModule) : (provenIds h).length ≤ h.exprs.length := by
  have hle := List.length_filter_le (fun id => (provenAt h.attrs id).isSome)
    ((List.range h.exprs.length).map UInt32.ofNat)
  rwa [List.length_map, List.length_range] at hle

/-- The proof section gives back the proofs of the expressions there are. -/
theorem readProofSection_written (hexprs : h.exprs.length ≤ kMaxArrayCount) (rest : List UInt8) :
    readProofSection h.exprs.length (writeCounted (writeProof h) (provenIds h) ++ rest) =
      .ok (rebuilt h (provenIds h) {}, rest) := by
  have hle := length_provenIds_le h
  have hcount : (UInt32.ofNat (provenIds h).length).toNat = (provenIds h).length :=
    toNat_count (lt_of_le_of_lt (le_trans hle hexprs) (by decide))
  have hids : ∀ id ∈ provenIds h, (id.toNat < h.exprs.length ∧ id ∉ ([] : List HirExprId)) ∧
      (provenAt h.attrs id).isSome = true := by
    intro id hid
    obtain ⟨hlt, hsome⟩ := (mem_provenIds hexprs).mp hid
    exact ⟨⟨hlt, List.not_mem_nil⟩, hsome⟩
  have hrun := @readProofs_written h (provenIds h) [] {} rest (nodup_provenIds hexprs) hids
  rw [readProofSection, writeCounted, writeCount, List.append_assoc, orZero_written (inverts_u32 _)]
  simp only [hcount]
  rw [if_neg (by omega), hrun]
  rfl

theorem provenAt_rebuilt_all (hexprs : h.exprs.length ≤ kMaxArrayCount) (id : HirExprId) :
    provenAt (rebuilt h (provenIds h) {}) id = if id.toNat < h.exprs.length then provenAt h.attrs id else none := by
  have hids : ∀ id ∈ provenIds h, id.toNat < kMaxArrayCount ∧ (provenAt h.attrs id).isSome = true := by
    intro id hid
    obtain ⟨hlt, hsome⟩ := (mem_provenIds hexprs).mp hid
    exact ⟨lt_of_lt_of_le hlt hexprs, hsome⟩
  have hempty : provenAt {} id = none := rfl
  rw [provenAt_rebuilt hids, hempty]
  by_cases hlt : id.toNat < h.exprs.length
  · rw [if_pos hlt]
    split
    · rfl
    · next hmem =>
      rcases hproof : provenAt h.attrs id with _ | proof
      · rfl
      · exact absurd ((mem_provenIds hexprs).mpr ⟨hlt, by rw [hproof]; rfl⟩) hmem
  · rw [if_neg hlt, if_neg fun hmem => hlt ((mem_provenIds hexprs).mp hmem).1]

/-! ### The blob -/

/-- Fewer than `2 ^ 20` rows in each table. -/
structure Fits (h : FlatModule) : Prop where
  pool : h.pool.length < kMaxArrayCount
  types : h.types.length < kMaxArrayCount
  exprs : h.exprs.length < kMaxArrayCount
  fns : h.fns.length < kMaxArrayCount

/-- Counts the decoder takes. -/
structure Counted (h : FlatModule) : Prop where
  pool : h.pool.length ≤ kMaxArrayCount
  types : (h.types.drop kFirstCustom).length ≤ kMaxArrayCount
  exprs : h.exprs.length ≤ kMaxArrayCount
  fns : h.fns.length ≤ kMaxArrayCount

theorem Fits.counted (hfits : Fits h) : Counted h where
  pool := hfits.pool.le
  types := by
    rw [List.length_drop]
    exact le_trans (Nat.sub_le ..) hfits.types.le
  exprs := hfits.exprs.le
  fns := hfits.fns.le

/-- The same strings, custom types at the same ids, expressions, functions and safety proofs. -/
structure SameTables (d h : FlatModule) : Prop where
  pool : d.pool = h.pool
  types : d.types.drop kFirstCustom = h.types.drop kFirstCustom
  exprs : d.exprs = h.exprs
  fns : d.fns = h.fns
  proofs : ∀ id, provenAt d.attrs id = provenAt h.attrs id

def RoundTrips (h : FlatModule) : Prop := ∃ d, decodeHir (encodeHir h) = .ok d ∧ SameTables d h

/-- Every row is one the blob carries, and every proof is at an expression. -/
structure Carried (h : FlatModule) : Prop where
  strings : ∀ s ∈ h.pool, s.length < 2 ^ 32
  types : ∀ t ∈ h.types.drop kFirstCustom, CarriedType h.pool t
  exprs : ∀ e ∈ h.exprs, CarriedExpr e
  fns : ∀ f ∈ h.fns, CarriedFn f
  proofs : ∀ id, h.exprs.length ≤ id.toNat → provenAt h.attrs id = none

variable {h d : FlatModule}

/-- The rows a decoder reads from the blob of a module, the pool unchanged. -/
structure ReadAs (h : FlatModule) (types : List TypeRow) (exprs : List ExprRow) (fns : List FunctionRow) :
    Prop where
  strings : ∀ s ∈ h.pool, s.length < 2 ^ 32
  types : ∀ rest, readTypes (h.types.drop kFirstCustom).length h.pool
    ((h.types.drop kFirstCustom).flatMap (writeTypeData h.pool) ++ rest) = some ((types, h.pool), rest)
  exprs : ∀ rest, readExpr.replicate h.exprs.length (h.exprs.flatMap writeExpr ++ rest) = some (exprs, rest)
  fns : ∀ rest, readFunction.replicate h.fns.length (h.fns.flatMap writeFunction ++ rest) = some (fns, rest)

/-- What a decoder returns that reads these rows. -/
def decodedAs (h : FlatModule) (types : List TypeRow) (exprs : List ExprRow) (fns : List FunctionRow) :
    FlatModule :=
  { pool := h.pool, types := builtinTypes ++ types, exprs, fns, attrs := rebuilt h (provenIds h) {} }

theorem readMarker5_written (rest : List UInt8) :
    (do check ((← readU8) == 5) : Reader Unit) (writeU8 5 ++ rest) = some ((), rest) := by
  rw [(inverts_u8 5).bind]
  rfl

/-- Tables whose rows are read make a blob that is decoded. -/
theorem decodes_of_readAs (hcounts : Counted h) {types : List TypeRow} {exprs : List ExprRow}
    {fns : List FunctionRow} (hread : ReadAs h types exprs fns) :
    decodeHir (encodeHir h) = .ok (decodedAs h types exprs fns) := by
  have hpool := fun rest =>
    @Inverts.replicate _ _ readBlob _ (fun s hs => inverts_blob (hread.strings s hs)) rest
  have hexprs : exprs.length = h.exprs.length := replicate_length (hread.exprs [])
  have hrun : decodeTables (encodeHir h) = .ok (decodedAs h types exprs fns, []) := by
    rw [← List.append_nil (encodeHir h)]
    unfold decodeTables encodeHir
    simp only [List.append_assoc]
    rw [orFail_bind (readHeader_written _),
      bind_of_ok ((readSection_written hcounts.pool _).trans (orFail_eq_ok.mpr (hpool _))),
      bind_of_ok ((readSection_written hcounts.types _).trans (orFail_eq_ok.mpr (hread.types _)))]
    dsimp only
    rw [bind_of_ok ((readSection_written hcounts.exprs _).trans (orFail_eq_ok.mpr (hread.exprs _))),
      bind_of_ok ((readSection_written hcounts.fns _).trans (orFail_eq_ok.mpr (hread.fns _))),
      orFail_bind (readMarker5_written _), hexprs, bind_of_ok (readProofSection_written hcounts.exprs _)]
    rfl
  rw [decodeHir, hrun]
  rfl

/-- Carried rows are all read back. -/
theorem readAs_of_carried (hstrings : ∀ s ∈ h.pool, s.length < 2 ^ 32)
    (htypes : ∀ t ∈ h.types.drop kFirstCustom, CarriedType h.pool t) (hexprs : ∀ e ∈ h.exprs, CarriedExpr e)
    (hfns : ∀ f ∈ h.fns, CarriedFn f) : ReadAs h (h.types.drop kFirstCustom) h.exprs h.fns where
  strings := hstrings
  types := thread_inverts (fun _ rest ht => inverts_type hstrings ht rest) htypes
  exprs := Inverts.replicate fun e he => inverts_expr (hexprs e he)
  fns := Inverts.replicate fun f hf => inverts_function (hfns f hf)

theorem rows_of_readSection {α : Type} {marker : UInt8} {overflow message : String} {rows : ℕ → Reader α}
    {a : α} (hrun : readSection marker overflow message rows bs = .ok (a, rest)) :
    ∃ n bs', rows n bs' = some (a, rest) := by
  obtain ⟨count, mid, _, hrun⟩ := bind_eq_ok hrun
  obtain ⟨_, mid', _, hrun⟩ := bind_eq_ok hrun
  exact ⟨_, _, orFail_eq_ok.mp hrun⟩

theorem pure_eq_ok {α : Type} {a b : α} (h : (pure a : Decoder α) bs = .ok (b, rest)) :
    a = b := (Prod.mk.inj (Except.ok.inj h)).1

theorem orFail_bind_eq_ok {message : String} {rd : Reader α} {b : β}
    (h : (orFail message rd >>= f) bs = .ok (b, rest)) : ∃ a mid, rd bs = some (a, mid) ∧ f a mid = .ok (b, rest) := by
  obtain ⟨a, mid, hrd, h⟩ := bind_eq_ok h
  exact ⟨a, mid, orFail_eq_ok.mp hrd, h⟩

/-- Tables that come back are of carried rows. -/
theorem carried_of_decodes (hcounts : Counted h) (hdec : decodeHir (encodeHir h) = .ok d) (hsame : SameTables d h) :
    (∀ s ∈ h.pool, s.length < 2 ^ 32) ∧ (∀ t ∈ h.types.drop kFirstCustom, CarriedType h.pool t) ∧
      (∀ e ∈ h.exprs, CarriedExpr e) ∧ ∀ f ∈ h.fns, CarriedFn f := by
  obtain ⟨left, hrun⟩ : ∃ left, decodeTables (encodeHir h) = .ok (d, left) := by
    rcases htables : decodeTables (encodeHir h) with message | ⟨d', left⟩
    · rw [decodeHir, htables] at hdec
      cases hdec
    · rw [decodeHir, htables] at hdec
      cases hdec
      exact ⟨left, rfl⟩
  -- every step of the run, from the front
  unfold decodeTables encodeHir at hrun
  rw [orFail_bind (readHeader_written _)] at hrun
  obtain ⟨pool, midStrings, hstrings, hrun⟩ := bind_eq_ok hrun
  obtain ⟨⟨rows, pool'⟩, midTypes, htypes, hrun⟩ := bind_eq_ok hrun
  obtain ⟨exprs, midExprs, hexprs, hrun⟩ := bind_eq_ok hrun
  obtain ⟨fns, midFns, hfns, hrun⟩ := bind_eq_ok hrun
  obtain ⟨_, _, _, hrun⟩ := orFail_bind_eq_ok hrun
  obtain ⟨attrs, _, _, hrun⟩ := bind_eq_ok hrun
  cases pure_eq_ok hrun
  -- the tables that were decoded are those that were written
  have hrows : rows = h.types.drop kFirstCustom := hsame.types
  obtain rfl : pool' = h.pool := hsame.pool
  obtain rfl : exprs = h.exprs := hsame.exprs
  obtain rfl : fns = h.fns := hsame.fns
  -- the strings: the types only add to the pool, so it was whole before them
  rw [readSection_written hcounts.pool, orFail_eq_ok] at hstrings
  obtain ⟨n, bs, hthread⟩ := rows_of_readSection htypes
  obtain ⟨hlen, hshort⟩ := (ensures_blob.replicate _) _ _ _ hstrings
  have hprefix : pool <+: h.pool := thread_grows (R := (· <+: ·)) prefix_readTypeData hthread
  obtain rfl : pool = h.pool := hprefix.eq_of_length hlen
  have hpool := @Inverts.replicate _ _ readBlob _ (fun s hs => inverts_blob (hshort s hs))
  rw [hpool] at hstrings
  obtain rfl := (Prod.mk.inj (Option.some.inj hstrings)).2
  -- the types, the pool unchanged
  rw [readSection_written hcounts.types, orFail_eq_ok, hrows] at htypes
  obtain ⟨hcarried, rfl⟩ := good_of_thread (R := (· <+: ·)) prefix_readTypeData (exact_type hshort) htypes
  -- the expressions and the functions
  rw [readSection_written hcounts.exprs, orFail_eq_ok] at hexprs
  have hexprsCarried := ((ensures_expr.replicate _) _ _ _ hexprs).2
  rw [Inverts.replicate fun e he => inverts_expr (hexprsCarried e he)] at hexprs
  obtain rfl := (Prod.mk.inj (Option.some.inj hexprs)).2
  rw [readSection_written hcounts.fns, orFail_eq_ok] at hfns
  exact ⟨hshort, hcarried, hexprsCarried, ((ensures_function.replicate _) _ _ _ hfns).2⟩

/-- The tables come back exactly when every row is one the blob carries. -/
theorem roundTrips_iff (hfits : Fits h) : RoundTrips h ↔ Carried h := by
  constructor
  · rintro ⟨d, hdec, hsame⟩
    obtain ⟨hstrings, htypes, hexprs, hfns⟩ := carried_of_decodes hfits.counted hdec hsame
    refine ⟨hstrings, htypes, hexprs, hfns, fun id hid => ?_⟩
    rw [decodes_of_readAs hfits.counted (readAs_of_carried hstrings htypes hexprs hfns)] at hdec
    cases hdec
    rw [← hsame.proofs id, decodedAs, provenAt_rebuilt_all hfits.counted.exprs, if_neg (by omega)]
  · intro hcarried
    have hread := readAs_of_carried hcarried.strings hcarried.types hcarried.exprs hcarried.fns
    refine ⟨_, decodes_of_readAs hfits.counted hread, ⟨rfl, rfl, rfl, rfl, fun id => ?_⟩⟩
    rw [decodedAs, provenAt_rebuilt_all hfits.counted.exprs]
    split
    · rfl
    · next hlt => exact (hcarried.proofs id (by omega)).symm

/-! ### A module that comes back, and one that does not -/

/-- A pack, a sum, a generic parameter and an incomplete type that is its own shift; a call, a literal with
    a proof, and a function with one block. -/
def carriedModule : FlatModule where
  pool := [[109], [84]]
  types := builtinTypes ++ [.pack [(4, 0), (3, 1)], .sum [5, 3], .genericParam 1 0, .fn [5, 6] 2, .incomplete 2 [2, 2]]
  exprs := [.literal 7 4, .call { callee := 0, args := [0], argumentTypes := [4] }, .ret 1]
  fns := [{ name := 0, params := [4], variadicSliceParam := 0, hasBody := true,
            blocks := [{ insts := [0, 1], terminator := 2 }] }]
  attrs := { safetyProofs := [{ operandA := 0, present := true }] }

theorem carriedModule_roundTrips_iff : RoundTrips carriedModule ↔ Carried carriedModule :=
  roundTrips_iff ⟨by decide, by decide, by decide, by decide⟩

/-- A struct, and the incomplete type that applies it to one argument. -/
def incompleteModule : FlatModule where
  types := builtinTypes ++ [.struct 0, .incomplete 5 [2]]

/-- The decoder takes the base, 5, for the count of the arguments and runs past the end of the blob. -/
theorem incompleteModule_refused : decodeHir (encodeHir incompleteModule) = .error "" := by
  rfl

theorem incomplete_not_decoded : ¬ ∀ h : FlatModule, Fits h → RoundTrips h := by
  intro h
  obtain ⟨d, hdec, _⟩ := h incompleteModule ⟨by decide, by decide, by decide, by decide⟩
  rw [incompleteModule_refused] at hdec
  cases hdec

end Zith.Wasm
