import Zith.Interp.Locality
import Zith.Wasm.BlobRoundTrip

/-! What a program does once it went through the blob. Its rows come back up to what no evaluation reads;
    the targets of dyn calls and the definitions of structs do not cross.

        rows that are read ──▶ the runs of the program without these tables
                           ──▶ the runs of the program, where `main` asks for neither -/

namespace Zith.Wasm
open Zith.Lib Zith.Lib.Reader
open Zirl (writeU32 inverts_u32 inverts_blob)
open Interp (bare Closed Reads asksForTables memberCount findMain runMain runMain_eq utf8)
open Hir (TypeId InternedId StringRow TypeRow ExprRow FunctionRow FlatModule HirExprId HirAttrs StructRow
  VTableRow Program lookup lastIdOf intern builtinTypes kFirstCustom kindOf kErrorType kInvalidType
  kInvalidInternedId)

/-! ### Rows -/

/-- The function that is read where one was written: a variadic parameter of 32 bits, and no adapter. -/
def wireFn (f : FunctionRow) : FunctionRow :=
  { f with
    variadicSliceParam := f.variadicSliceParam.toUInt32.toUInt64, foreignAdapterName := kInvalidInternedId }

theorem writeExpr_bare (e : ExprRow) : writeExpr (bare e) = writeExpr e := by cases e <;> rfl

theorem writeFunction_wireFn (f : FunctionRow) : writeFunction (wireFn f) = writeFunction f := by
  have hparam : f.variadicSliceParam.toUInt32.toUInt64.toUInt32 = f.variadicSliceParam.toUInt32 :=
    UInt32.toUInt32_toUInt64 _
  rw [writeFunction, writeFunction, wireFn]
  dsimp only
  rw [hparam]

/-- Rows that are written alike are read as those the blob carries. -/
theorem replicate_reads {α : Type} {enc : α → List UInt8} {rd : Reader α} {Good : α → Prop} {image : α → α}
    (hinverts : ∀ a, Good a → Inverts enc rd a) (himage : ∀ a, enc (image a) = enc a) {l : List α}
    (h : ∀ a ∈ l, Good (image a)) (rest : List UInt8) :
    rd.replicate l.length (l.flatMap enc ++ rest) = some (l.map image, rest) := by
  have hbytes : (l.map image).flatMap enc = l.flatMap enc := by
    rw [List.flatMap_map]
    exact congrArg (List.flatMap · l) (funext himage)
  have hgood : ∀ b ∈ l.map image, Inverts enc rd b := by
    intro b hb
    obtain ⟨a, ha, rfl⟩ := List.mem_map.mp hb
    exact hinverts _ (h a ha)
  have hrun := Inverts.replicate hgood rest
  rwa [List.length_map, hbytes] at hrun

/-! ### Types -/

/-- A type of whose kind one is read, at the same pool and up to the end of its own bytes. -/
def ReadableType (pool : List StringRow) : TypeRow → Prop
  | .genericParam ownerName _ => lookup pool ownerName ∈ pool
  | .incomplete base args => base.toNat = args.length ∧ args.length ≤ kMaxArrayCount
  | .dyn _ _ => True
  | t => WithinLimits t

/-- A type in the place of another: of its kind, and with the members of a pack. -/
def SameShape (t t' : TypeRow) : Prop := t' = t ∨ t'.kind = t.kind ∧ t.kind ≠ .struct ∧ t.kind ≠ .pack

variable {pool : List StringRow}

theorem intern_of_mem {text : StringRow} (h : text ∈ pool) : ∃ id, intern pool text = (id, pool) := by
  obtain ⟨i, hi⟩ := List.mem_iff_getElem?.mp h
  have hlt : i < pool.length := (List.getElem?_eq_some_iff.mp hi).1
  rw [intern]
  rcases hlast : lastIdOf pool text with _ | id
  · have hnone := List.find?_eq_none.mp hlast i (List.mem_reverse.mpr (List.mem_range.mpr hlt))
    exact absurd (beq_iff_eq.mpr hi) hnone
  · exact ⟨UInt32.ofNat id, rfl⟩

theorem reads_carried (hpool : ∀ s ∈ pool, s.length < 2 ^ 32) {t : TypeRow} (h : CarriedType pool t) :
    ∃ t', SameShape t t' ∧ ∀ rest, readTypeData pool (writeTypeData pool t ++ rest) = some ((t', pool), rest) :=
  ⟨t, Or.inl rfl, inverts_type hpool h⟩

/-- A type of the same shape is read. -/
theorem reads_type (hpool : ∀ s ∈ pool, s.length < 2 ^ 32) (t : TypeRow) (h : ReadableType pool t) :
    ∃ t', SameShape t t' ∧ ∀ rest, readTypeData pool (writeTypeData pool t ++ rest) = some ((t', pool), rest) := by
  cases t with
  | genericParam ownerName paramIndex =>
    obtain ⟨ownerId, hintern⟩ := intern_of_mem h
    refine ⟨.genericParam ownerId paramIndex, Or.inr ⟨rfl, by rintro ⟨⟩, by rintro ⟨⟩⟩, fun rest => ?_⟩
    have hblob := inverts_blob (lookup_length hpool ownerName)
    rw [writeTypeData, List.append_assoc, List.append_assoc, readTypeData_generic, hblob.bind,
      (inverts_u32 paramIndex).bind, pure_apply, hintern]
  | incomplete base args =>
    obtain ⟨hcount, hle⟩ := h
    obtain ⟨args', base', hshift⟩ : ∃ args' base', base :: args = args' ++ [base'] :=
      ⟨_, _, (List.dropLast_append_getLast (List.cons_ne_nil base args)).symm⟩
    refine ⟨.incomplete base' args', Or.inr ⟨rfl, by rintro ⟨⟩, by rintro ⟨⟩⟩, fun rest => ?_⟩
    rw [writeTypeData, List.append_assoc, List.append_assoc]
    exact readTypeData_plain (by decide) pool (readIncomplete hcount (hcount ▸ hle) hshift rest)
  | dyn target methodCount =>
    refine ⟨.dyn target methodCount.toUInt32.toUInt64, Or.inr ⟨rfl, by rintro ⟨⟩, by rintro ⟨⟩⟩, fun rest => ?_⟩
    simp only [writeTypeData, List.append_assoc]
    refine readTypeData_plain (by decide) pool ?_
    simp only [UInt8.reduceToNat, readPlainType, (inverts_u32 _).bind, pure_apply]
  | _ => exact reads_carried hpool h

/-- Rows of the same shapes, at the same ids. -/
theorem getElem?_shapes : ∀ {types types' : List TypeRow}, List.Forall₂ SameShape types types' → ∀ i : ℕ,
    (types[i]? = none ∧ types'[i]? = none) ∨ ∃ t t', types[i]? = some t ∧ types'[i]? = some t' ∧ SameShape t t' := by
  intro types types' h
  induction h with
  | nil => simp
  | cons hrow _ ih =>
    rintro (_ | i)
    · exact Or.inr ⟨_, _, rfl, rfl, hrow⟩
    · exact ih i

theorem SameShape.kind_eq {t t' : TypeRow} : SameShape t t' → t'.kind = t.kind := by
  rintro (rfl | ⟨hkind, _⟩)
  · rfl
  · exact hkind

theorem kindOf_shapes {types types' : List TypeRow} (h : List.Forall₂ SameShape types types') :
    kindOf types' = kindOf types := by
  funext id
  rw [kindOf, kindOf]
  rcases getElem?_shapes h id.toNat with ⟨hnone, hnone'⟩ | ⟨t, t', ht, ht', hshape⟩
  · rw [hnone, hnone']
  · rw [ht, ht', Option.map_some, Option.map_some, hshape.kind_eq]

/-- Without definitions a struct has no count of members; any other type has the same. -/
theorem memberCount_shapes {p q : Program} (h : List.Forall₂ SameShape p.types q.types)
    (hstructs : q.structDefs = []) (type : TypeId) :
    memberCount q type = if kindOf p.types type = .struct then none else memberCount p type := by
  have herror : kindOf p.types kErrorType = .error := by
    obtain ⟨rows, hrows⟩ := p.builtin_prefix
    rw [← hrows]
    rfl
  by_cases hbuiltin : type = kErrorType ∨ type = kInvalidType
  · have hkind : kindOf p.types type ≠ .struct := by
      rcases hbuiltin with rfl | rfl
      · rw [herror]
        nofun
      · nofun
    rw [memberCount, memberCount, if_pos hbuiltin, if_pos hbuiltin, if_neg hkind]
  · have hvalid : type ≠ kInvalidType := fun heq => hbuiltin (Or.inr heq)
    rw [memberCount, memberCount, if_neg hbuiltin, if_neg hbuiltin, kindOf, if_neg hvalid, hstructs]
    rcases getElem?_shapes h type.toNat with ⟨hnone, hnone'⟩ | ⟨t, t', ht, ht', hshape⟩
    · rw [hnone, hnone']
      rfl
    · rw [ht, ht']
      rcases hshape with rfl | ⟨hkind, hstruct, hpack⟩
      · cases t' <;> rfl
      · cases t
        case struct => exact absurd rfl hstruct
        case pack => exact absurd rfl hpack
        all_goals cases t' <;> first | rfl | cases hkind

/-! ### The program of a blob -/

/-- The program whose flat tables are those of a blob: a blob has no definitions and no targets. -/
structure FromBlob (bytes : List UInt8) (q : Program) : Prop where
  decoded : decodeHir bytes = .ok q.toFlatModule
  structDefs : q.structDefs = []
  vtables : q.vtables = []

theorem FromBlob.unique {bytes : List UInt8} {q q' : Program} (h : FromBlob bytes q) (h' : FromBlob bytes q') :
    q = q' := by
  obtain ⟨flat, structDefs, vtables⟩ := q
  obtain ⟨flat', structDefs', vtables'⟩ := q'
  obtain ⟨hdec, rfl, rfl⟩ := h
  obtain ⟨hdec', rfl, rfl⟩ := h'
  obtain rfl : flat = flat' := Except.ok.inj (hdec.symm.trans hdec')
  rfl

/-- The blob of a program is decoded, and what is decoded has the runs of the program. -/
def RunsFromBlob (p : Program) : Prop :=
  ∃ q, FromBlob (encodeHir p.toFlatModule) q ∧ ∀ depth, runMain q depth = runMain p depth

/-- Rows that are all read, in counts the decoder takes. -/
structure Readable (h : FlatModule) : Prop where
  counts : Counted h
  strings : ∀ s ∈ h.pool, s.length < 2 ^ 32
  types : ∀ t ∈ h.types.drop kFirstCustom, ReadableType h.pool t
  exprs : ∀ e ∈ h.exprs, CarriedExpr (bare e)
  fns : ∀ f ∈ h.fns, CarriedFn (wireFn f)

/-- No table is asked for where `main` runs: neither by `main` nor by what it evaluates and calls. -/
def AsksForNoTable (p : Program) : Prop := ∃ exprs fns, Closed p exprs fns ∧ ∀ f, findMain p = some f → fns f

theorem slots_rebuilt {h : FlatModule} : ∀ {ids : List HirExprId} {attrs : HirAttrs},
    (rebuilt h ids attrs).slots = attrs.slots := by
  intro ids
  induction ids with
  | nil =>
    intro attrs
    rfl
  | cons id ids ih =>
    intro attrs
    have hslots : (recordProof attrs id (proofOf h id)).slots = attrs.slots := by
      rw [recordProof, HirAttrs.safetyProof]
      rcases Hir.recordAt attrs.safetyProofs id.toNat (id + 1).toNat {} fun _ => proofOf h id with _ | proofs
      · rfl
      · rfl
    exact ih.trans hslots

/-- Readable rows make a blob that is decoded, to rows that read as they do. -/
theorem reads_fromBlob {p : Program} (h : Readable p.toFlatModule) :
    ∃ q, FromBlob (encodeHir p.toFlatModule) q ∧ Reads p q wireFn := by
  obtain ⟨rows, hshapes, htypes⟩ := exists_thread (reads_type h.strings) h.types
  have hread : ReadAs p.toFlatModule rows (p.exprs.map bare) (p.fns.map wireFn) := {
    strings := h.strings
    types := htypes
    exprs := replicate_reads (fun _ => inverts_expr) writeExpr_bare h.exprs
    fns := replicate_reads (fun _ => inverts_function) writeFunction_wireFn h.fns }
  let q : Program := {
    decodedAs p.toFlatModule rows (p.exprs.map bare) (p.fns.map wireFn) with
    builtin_prefix := List.prefix_append ..
    slots_lt := by
      change (rebuilt p.toFlatModule _ {}).slots.length < 2 ^ 32
      rw [slots_rebuilt]
      decide }
  have htable : List.Forall₂ SameShape p.types q.types := by
    obtain ⟨custom, hcustom⟩ := p.builtin_prefix
    have hdrop : p.types.drop kFirstCustom = custom := by rw [← hcustom]; rfl
    rw [hdrop] at hshapes
    rw [← hcustom]
    have hbuiltin : List.Forall₂ SameShape builtinTypes builtinTypes := List.forall₂_same.mpr fun _ _ => Or.inl rfl
    exact List.rel_append hbuiltin hshapes
  refine ⟨q, ⟨decodes_of_readAs h.counts hread, rfl, rfl⟩, ?_⟩
  exact {
    pool := rfl
    kinds := kindOf_shapes htable
    vtables := rfl
    members := memberCount_shapes htable rfl
    exprs := rfl
    fns := rfl
    image := fun _ => ⟨⟨rfl, rfl⟩, rfl, rfl, rfl⟩ }

/-! ### Runs -/

/-- The program without its definitions and its targets. -/
def withoutTables (p : Program) : Program := { p with structDefs := [], vtables := [] }

theorem closed_withoutTables (p : Program) : Closed (withoutTables p) (fun _ => True) fun _ => True where
  operands _ _ _ _ _ _ := trivial
  callees _ _ _ _ _ _ := trivial
  tables id e _ _ := by
    cases e with
    | structLiteral values type =>
      have hshapes : List.Forall₂ SameShape (withoutTables p).types (withoutTables p).types :=
        List.forall₂_same.mpr fun _ _ => Or.inl rfl
      rw [asksForTables, memberCount_shapes hshapes rfl]
      split
      · simp
      · simp [*]
    | _ => rfl
  blocks _ _ _ _ := ⟨fun _ _ => trivial, trivial⟩

/-- What is decoded runs as the program does without its tables. -/
theorem runMain_fromBlob {p q : Program} (h : Readable p.toFlatModule)
    (hq : FromBlob (encodeHir p.toFlatModule) q) (depth : ℕ) : runMain q depth = runMain (withoutTables p) depth := by
  obtain ⟨q', hq', hreads⟩ := @reads_fromBlob (withoutTables p) h
  obtain rfl := hq.unique hq'
  exact runMain_eq (closed_withoutTables p) hreads (fun _ _ => trivial) depth

/-- Exactly the programs that run alike without their tables run alike from their blobs. -/
theorem runsFromBlob_iff_withoutTables {p : Program} (h : Readable p.toFlatModule) :
    RunsFromBlob p ↔ ∀ depth, runMain (withoutTables p) depth = runMain p depth := by
  constructor
  · rintro ⟨q, hq, hruns⟩ depth
    rw [← runMain_fromBlob h hq, hruns]
  · intro hruns
    obtain ⟨q, hq, _⟩ := reads_fromBlob h
    refine ⟨q, hq, fun depth => ?_⟩
    rw [runMain_fromBlob h hq, hruns]

/-- A program whose rows are read, and that asks for no table, runs from its blob as it does. -/
theorem runsFromBlob {p : Program} (h : Readable p.toFlatModule) (htables : AsksForNoTable p) : RunsFromBlob p := by
  obtain ⟨exprs, fns, hclosed, hmain⟩ := htables
  obtain ⟨q, hq, hreads⟩ := reads_fromBlob h
  exact ⟨q, hq, runMain_eq hclosed hreads hmain⟩

/-! ### A program that runs from its blob, and one that does not -/

/-- `main` calls a function that returns `7`; there is a struct with one field, and no literal of it. -/
def callProgram : Program where
  pool := [[109, 97, 105, 110], [115]]
  types := builtinTypes ++ [.int 4, .struct 0]
  exprs := [.literal 7 5, .ret 0, .var 1 0, .call { callee := 2, args := [], resolvedFn := 1 }, .ret 3]
  fns := [{ name := 0, hasBody := true, blocks := [{ insts := [3], terminator := 4 }] },
    { name := 1, hasBody := true, blocks := [{ insts := [], terminator := 1 }] }]
  structDefs := [{ fields := [(1, 5)] }]

theorem callProgram_runsFromBlob : RunsFromBlob callProgram := by
  refine runsFromBlob ?_ ⟨fun _ => True, fun _ => True, ?_, fun _ _ => trivial⟩
  · exact {
      counts := ⟨by decide, by decide, by decide, by decide⟩
      strings := by decide
      types := by
        intro t ht
        obtain rfl | rfl := List.mem_pair.mp ht
        · trivial
        · trivial
      exprs := by simp [callProgram, bare, CarriedExpr]
      fns := by
        intro f hf
        obtain rfl | rfl := List.mem_pair.mp hf
        · exact ⟨by decide, by decide, by decide, by decide, by decide, by decide, by decide⟩
        · exact ⟨by decide, by decide, by decide, by decide, by decide, by decide, by decide⟩ }
  · have htables : ∀ e ∈ callProgram.exprs, asksForTables callProgram e = false := by
      simp [callProgram, asksForTables]
    exact {
      operands := fun _ _ _ _ _ _ => trivial
      callees := fun _ _ _ _ _ _ => trivial
      tables := fun _ e _ he => htables e (List.mem_of_getElem? he)
      blocks := fun _ _ _ _ => ⟨fun _ _ => trivial, trivial⟩ }

/-- `main` puts a number behind a table with one target, and calls the target: it returns `7`. -/
def dynProgram : Program where
  pool := [[109, 97, 105, 110], [116], [115]]
  types := builtinTypes ++ [.int 4, .dyn 5 1]
  exprs := [.literal 7 5, .makeDyn 0 5 6 1 false, .dynCall 1 1 0 false 5 5 [] [], .ret 2, .ret 0]
  fns := [{ name := 0, hasBody := true, blocks := [{ insts := [], terminator := 3 }] },
    { name := 2, hasBody := true, blocks := [{ insts := [], terminator := 4 }] }]
  vtables := [{ name := 1, slots := [1] }]

theorem dynProgram_readable : Readable dynProgram.toFlatModule where
  counts := ⟨by decide, by decide, by decide, by decide⟩
  strings := by decide
  types := by
    intro t ht
    obtain rfl | rfl := List.mem_pair.mp ht
    · trivial
    · trivial
  exprs := by simp [dynProgram, bare, CarriedExpr]
  fns := by
    intro f hf
    obtain rfl | rfl := List.mem_pair.mp hf
    · exact ⟨by decide, by decide, by decide, by decide, by decide, by decide, by decide⟩
    · exact ⟨by decide, by decide, by decide, by decide, by decide, by decide, by decide⟩

/-- The target is not found once the program went through its blob. -/
theorem dynProgram_fails_from_blob : ¬ ∀ p : Program, RunsFromBlob p := by
  intro h
  have hruns := (runsFromBlob_iff_withoutTables dynProgram_readable).mp (h dynProgram) 10
  have hexit := congrArg (Option.map fun r => r.exitCode) hruns
  have hlost : (runMain (withoutTables dynProgram) 10).map (fun r => r.exitCode) = some 1 := by decide +kernel
  have hkept : (runMain dynProgram 10).map (fun r => r.exitCode) = some 7 := by decide +kernel
  rw [hlost, hkept] at hexit
  exact absurd hexit (by decide)

end Zith.Wasm
