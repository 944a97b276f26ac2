import Zith.Vm.TypedIr
import Zith.Zirl.Buffer

/-! `encodeCachedModule` and `decodeCachedModule`: the payload of the VIR section of a cached artifact. The
    strings of a decoded module are interned copies, that is, the same bytes. Every table is a count and
    its elements, every enumeration and flag a byte the decoder checks, and nothing may follow, so the
    decoder accepts exactly what the encoder writes. -/

namespace Zith.Vm
open Zith.Lib Zith.Lib.Reader Zith.Zirl

def kCachedVirMagic : UInt32 := 0x32524956
def kVirSchemaVersion : UInt16 := 2
def kVmSemanticVersion : UInt32 := 3

/-! ### Enumerations -/

def ValueType.all : List ValueType := [.i32, .i64, .f32, .f64, .ptr, .slice, .fnRef, .externRef, .void]

def ValueType.toU8 (t : ValueType) : UInt8 := UInt8.ofNat t.ctorIdx

/-- The cast of the decoder with its range check. -/
def ValueType.ofU8 (b : UInt8) : Option ValueType := ValueType.all[b.toNat]?

def Op.all : List Op :=
  [.loadConstI32, .loadConstI64, .loadConstI64FromPool, .loadConstF32, .loadConstF64, .loadString,
    .loadFnRef, .loadExternRef, .move, .allocBytes, .mallocBytes, .storeBytes, .storeI8, .storeI64,
    .loadBytes, .loadI8, .loadI64, .indexLoad, .fieldPtr, .makeSlice, .slicePtr, .sliceLen, .memCopy,
    .add, .sub, .mul, .div, .rem, .bitAnd, .bitOr, .bitXor, .shl, .shr, .neg, .not, .bitNot,
    .eq, .ne, .lt, .le, .gt, .ge, .callFn, .callRange, .tailCallRange, .callFnRef, .callRangeFnRef,
    .callExtern, .callExternRange, .callExternRef, .ret, .branch, .branch2, .jump, .nullDeref, .trap,
    .panic]

def Op.toU8 (op : Op) : UInt8 := UInt8.ofNat op.ctorIdx

/-- The cast of the decoder with its range check. -/
def Op.ofU8 (b : UInt8) : Option Op := Op.all[b.toNat]?

/-! ### The encoder -/

/-- `support::fitsInU32`. -/
def fitsU32 (size : Nat) : Bool := size ≤ 0xFFFFFFFF

def writeF64 (bits : Int64) : List UInt8 := writeI64 bits

def writeInstr (i : Instr) : List UInt8 :=
  writeU8 i.op.toU8 ++ (writeU16 i.a ++ (writeU16 i.b ++ (writeU16 i.c ++ (writeU16 i.imm ++
    (writeU16 i.d ++ writeU16 i.e)))))

def writeFunction (f : Function) : List UInt8 :=
  writeBlob f.name ++ (writeU8 f.returnType.toU8 ++ (writeU16 f.paramCount ++ (writeU16 f.regCount ++
    (writeFlag f.returnsAggregate ++ (writeFlag f.returnsSlice ++
    (writeCounted (fun t => writeU8 t.toU8) f.regTypes ++ writeCounted writeInstr f.body))))))

def Function.fits (f : Function) : Bool := fitsU32 f.name.length && fitsU32 f.regTypes.length && fitsU32 f.body.length

/-- The size checks of the encoder. -/
def Module.fits (m : Module) : Bool :=
  fitsU32 m.strings.length && fitsU32 m.i64Constants.length && fitsU32 m.f64Constants.length &&
    fitsU32 m.externs.length && fitsU32 m.functions.length &&
    (m.strings.all fun s => fitsU32 s.length) && (m.externs.all fun s => fitsU32 s.length) &&
    m.functions.all Function.fits

def writeModule (m : Module) : List UInt8 :=
  writeU32 kCachedVirMagic ++ (writeU32 kVmSemanticVersion ++ (writeCounted writeBlob m.strings ++
    (writeCounted writeI64 m.i64Constants ++ (writeCounted writeF64 m.f64Constants ++
    (writeCounted writeBlob m.externs ++ writeCounted writeFunction m.functions)))))

def encodeCachedModule (m : Module) : Option (List UInt8) :=
  if m.fits then some (writeModule m) else none

/-! ### The decoder -/

def readF64 : Reader Int64 := readI64

def readInstr : Reader Instr := do
  let op ← readU8
  let op ← Reader.lift (Op.ofU8 op)
  let a ← readU16
  let b ← readU16
  let c ← readU16
  let imm ← readU16
  let d ← readU16
  let e ← readU16
  return { op, a, b, c, imm, d, e }

def readValueType : Reader ValueType := do Reader.lift (ValueType.ofU8 (← readU8))

def readFlag : Reader Bool := do Reader.lift (flagOfU8 (← readU8))

def readFunction : Reader Function := do
  let name ← readBlob
  let returnType ← readValueType
  let paramCount ← readU16
  let regCount ← readU16
  let returnsAggregate ← readFlag
  let returnsSlice ← readFlag
  let regTypes ← readCounted 1 readValueType
  let body ← readCounted 13 readInstr
  return { name, returnType, paramCount, regCount, returnsAggregate, returnsSlice, regTypes, body }

def readModule : Reader Module := do
  let magic ← readU32
  let version ← readU32
  guardLeft fun _ => magic == kCachedVirMagic && version == kVmSemanticVersion
  let strings ← readCounted 4 readBlob
  let i64Constants ← readCounted 8 readI64
  let f64Constants ← readCounted 8 readF64
  let externs ← readCounted 4 readBlob
  let functions ← readCounted 19 readFunction
  guardLeft List.isEmpty
  return { functions, strings, i64Constants, f64Constants, externs }

def decodeCachedModule (payload : List UInt8) (sectionSchemaVersion : UInt16) : Option Module :=
  if sectionSchemaVersion != kVirSchemaVersion then none else (readModule payload).map Prod.fst

/-! ### Enumeration bytes -/

@[simp] theorem ofU8_toU8_valueType (t : ValueType) : ValueType.ofU8 t.toU8 = some t := by
  cases t <;> rfl

@[simp] theorem ofU8_toU8_op (op : Op) : Op.ofU8 op.toU8 = some op := by
  cases op <;> rfl

/-- A byte that is the index of an element of a list of distinct constructors is its tag. -/
theorem toU8_of_getElem? {α : Type} {all : List α} {ctorIdx : α → Nat} {b : UInt8} {a : α}
    (hall : all.map ctorIdx = List.range all.length) (h : all[b.toNat]? = some a) :
    UInt8.ofNat (ctorIdx a) = b := by
  obtain ⟨hlt, rfl⟩ := List.getElem?_eq_some_iff.mp h
  have hidx := congrArg (·[b.toNat]?) hall
  simp only [List.getElem?_map, List.getElem?_eq_getElem hlt, Option.map_some,
    List.getElem?_range hlt, Option.some.injEq] at hidx
  rw [hidx, UInt8.ofNat_toNat]

theorem toU8_ofU8_valueType {b : UInt8} {t : ValueType} (h : ValueType.ofU8 b = some t) : t.toU8 = b :=
  toU8_of_getElem? (by decide) h

theorem toU8_ofU8_op {b : UInt8} {op : Op} (h : Op.ofU8 b = some op) : op.toU8 = b := toU8_of_getElem? (by decide) h

theorem lift_eq_some {α : Type} {o : Option α} {bs rest : List UInt8} {a : α}
    (h : Reader.lift o bs = some (a, rest)) : o = some a ∧ bs = rest := by
  unfold Reader.lift at h
  cases o with
  | none => cases h
  | some a' =>
    cases h
    exact ⟨rfl, rfl⟩

theorem fitsU32_iff {n : Nat} : fitsU32 n = true ↔ n < 2 ^ 32 := by
  simp only [fitsU32, decide_eq_true_eq]
  omega

/-! ### What is written is read back -/

theorem inverts_valueType (t : ValueType) : Inverts (fun t => writeU8 t.toU8) readValueType t := by
  intro rest
  simp only [readValueType, (inverts_u8 _).bind, ofU8_toU8_valueType]
  rfl

theorem inverts_flag (b : Bool) : Inverts writeFlag readFlag b := by
  intro rest
  simp only [readFlag, writeFlag, (inverts_u8 _).bind, flagOfU8_flag]
  rfl

theorem inverts_instr (i : Instr) : Inverts writeInstr readInstr i := by
  intro rest
  simp only [readInstr, writeInstr, List.append_assoc, (inverts_u8 _).bind, (inverts_u16 _).bind,
    ofU8_toU8_op, lift_some_bind, pure_apply]

theorem writeInstr_length (i : Instr) : (writeInstr i).length = 13 := by simp [writeInstr]

theorem inverts_function {f : Function} (h : f.fits = true) : Inverts writeFunction readFunction f := by
  simp only [Function.fits, Bool.and_eq_true, fitsU32_iff] at h
  obtain ⟨⟨hname, hregs⟩, hbody⟩ := h
  have hregTypes : Inverts (writeCounted fun t => writeU8 t.toU8) (readCounted 1 readValueType)
      f.regTypes :=
    inverts_counted (by decide) hregs (fun _ _ => Nat.le_refl 1) fun t _ => inverts_valueType t
  have hinstrs : Inverts (writeCounted writeInstr) (readCounted 13 readInstr) f.body :=
    inverts_counted (by decide) hbody (fun i _ => (writeInstr_length i).ge) fun i _ => inverts_instr i
  intro rest
  simp only [readFunction, writeFunction, List.append_assoc, (inverts_blob hname).bind,
    (inverts_valueType _).bind, (inverts_u16 _).bind, (inverts_flag _).bind, hregTypes.bind,
    hinstrs.bind, pure_apply]

theorem le_writeFunction_length (f : Function) : 19 ≤ (writeFunction f).length := by
  have hname := le_writeBlob_length f.name
  simp only [writeFunction, writeFlag, writeCounted, List.length_append, writeU8_length,
    writeU16_length, writeCount_length]
  omega

theorem readModule_writeModule {m : Module} (h : m.fits = true) :
    readModule (writeModule m) = some (m, []) := by
  simp only [Module.fits, Bool.and_eq_true, fitsU32_iff, List.all_eq_true] at h
  obtain ⟨⟨⟨⟨⟨⟨⟨hs, hi⟩, hf⟩, he⟩, hfn⟩, hstrings⟩, hexterns⟩, hfunctions⟩ := h
  have hblobs : ∀ l : List (List UInt8), l.length < 2 ^ 32 → (∀ s ∈ l, s.length < 2 ^ 32) →
      Inverts (writeCounted writeBlob) (readCounted 4 readBlob) l := fun l hlen hall =>
    inverts_counted (by decide) hlen (fun s _ => le_writeBlob_length s) fun s hs =>
      inverts_blob (hall s hs)
  have hwords : ∀ l : List Int64, l.length < 2 ^ 32 →
      Inverts (writeCounted writeI64) (readCounted 8 readI64) l := fun l hlen =>
    inverts_counted (by decide) hlen (fun v _ => (writeU64_length _).ge) fun v _ => inverts_i64 v
  have hfns : Inverts (writeCounted writeFunction) (readCounted 19 readFunction) m.functions :=
    inverts_counted (by decide) hfn (fun f _ => le_writeFunction_length f) fun f hmem =>
      inverts_function (hfunctions f hmem)
  have hstrings' := hblobs m.strings hs hstrings
  have hexterns' := hblobs m.externs he hexterns
  have hi64 := hwords m.i64Constants hi
  have hf64 : Inverts (writeCounted writeF64) (readCounted 8 readF64) m.f64Constants := hwords m.f64Constants hf
  have hlast := hfns []
  rw [List.append_nil] at hlast
  simp only [Inverts] at hstrings' hexterns' hi64 hf64
  simp only [readModule, writeModule, bind_apply, inverts_u32 _ _, guardLeft, beq_self_eq_true,
    Bool.and_self, hstrings', hi64, hf64, hexterns', hlast, if_true, Option.bind_some,
    List.isEmpty_nil, pure_apply]

/-! ### What is read is what was written -/

theorem canonical_valueType : Canonical (fun t : ValueType => writeU8 t.toU8) readValueType := by
  intro bs t rest h
  obtain ⟨b, mid, hb, h⟩ := bind_eq_some h
  obtain ⟨ht, rfl⟩ := lift_eq_some h
  show bs = writeU8 t.toU8 ++ _
  rw [toU8_ofU8_valueType ht]
  exact canonical_u8 _ _ _ hb

theorem canonical_flag : Canonical writeFlag readFlag := by
  intro bs b rest h
  obtain ⟨v, mid, hv, h⟩ := bind_eq_some h
  obtain ⟨hb, rfl⟩ := lift_eq_some h
  rw [writeFlag, flag_of_flagOfU8 hb]
  exact canonical_u8 _ _ _ hv

theorem canonical_instr : Canonical writeInstr readInstr := by
  intro bs i rest h
  obtain ⟨b, m₁, hb, h⟩ := bind_eq_some h
  obtain ⟨op, m₂, hop, h⟩ := bind_eq_some h
  obtain ⟨htag, rfl⟩ := lift_eq_some hop
  obtain ⟨a₁, m₃, h₁, h⟩ := bind_eq_some h
  obtain ⟨a₂, m₄, h₂, h⟩ := bind_eq_some h
  obtain ⟨a₃, m₅, h₃, h⟩ := bind_eq_some h
  obtain ⟨a₄, m₆, h₄, h⟩ := bind_eq_some h
  obtain ⟨a₅, m₇, h₅, h⟩ := bind_eq_some h
  obtain ⟨a₆, m₈, h₆, h⟩ := bind_eq_some h
  obtain ⟨rfl, rfl⟩ := pure_eq_some h
  rw [canonical_u8 _ _ _ hb, canonical_u16 _ _ _ h₁, canonical_u16 _ _ _ h₂, canonical_u16 _ _ _ h₃,
    canonical_u16 _ _ _ h₄, canonical_u16 _ _ _ h₅, canonical_u16 _ _ _ h₆, ← toU8_ofU8_op htag]
  simp only [writeInstr, List.append_assoc]

theorem canonical_function : Canonical writeFunction readFunction := by
  intro bs f rest h
  obtain ⟨name, m₁, h₁, h⟩ := bind_eq_some h
  obtain ⟨returnType, m₂, h₂, h⟩ := bind_eq_some h
  obtain ⟨paramCount, m₃, h₃, h⟩ := bind_eq_some h
  obtain ⟨regCount, m₄, h₄, h⟩ := bind_eq_some h
  obtain ⟨returnsAggregate, m₅, h₅, h⟩ := bind_eq_some h
  obtain ⟨returnsSlice, m₆, h₆, h⟩ := bind_eq_some h
  obtain ⟨regTypes, m₇, h₇, h⟩ := bind_eq_some h
  obtain ⟨body, m₈, h₈, h⟩ := bind_eq_some h
  obtain ⟨rfl, rfl⟩ := pure_eq_some h
  rw [canonical_blob _ _ _ h₁, canonical_valueType _ _ _ h₂, canonical_u16 _ _ _ h₃,
    canonical_u16 _ _ _ h₄, canonical_flag _ _ _ h₅, canonical_flag _ _ _ h₆,
    canonical_counted canonical_valueType _ _ _ h₇, canonical_counted canonical_instr _ _ _ h₈]
  simp only [writeFunction, List.append_assoc]

theorem readBlob_fits {bs s rest : List UInt8} (h : readBlob bs = some (s, rest)) :
    fitsU32 s.length = true := by
  obtain ⟨n, mid, _, h⟩ := bind_eq_some h
  obtain ⟨_, hlen⟩ := take_eq_some h
  rw [fitsU32_iff, hlen]
  exact n.toNat_lt

theorem readFunction_fits {bs rest : List UInt8} {f : Function}
    (h : readFunction bs = some (f, rest)) : f.fits = true := by
  obtain ⟨name, m₁, h₁, h⟩ := bind_eq_some h
  obtain ⟨_, m₂, _, h⟩ := bind_eq_some h
  obtain ⟨_, m₃, _, h⟩ := bind_eq_some h
  obtain ⟨_, m₄, _, h⟩ := bind_eq_some h
  obtain ⟨_, m₅, _, h⟩ := bind_eq_some h
  obtain ⟨_, m₆, _, h⟩ := bind_eq_some h
  obtain ⟨_, m₇, h₇, h⟩ := bind_eq_some h
  obtain ⟨_, m₈, h₈, h⟩ := bind_eq_some h
  obtain ⟨rfl, rfl⟩ := pure_eq_some h
  simp only [Function.fits, Bool.and_eq_true, fitsU32_iff]
  exact ⟨⟨fitsU32_iff.mp (readBlob_fits h₁), readCounted_length h₇⟩, readCounted_length h₈⟩

theorem writeModule_readModule {payload rest : List UInt8} {m : Module}
    (h : readModule payload = some (m, rest)) : m.fits = true ∧ writeModule m = payload := by
  obtain ⟨magic, m₁, h₁, h⟩ := bind_eq_some h
  obtain ⟨version, m₂, h₂, h⟩ := bind_eq_some h
  obtain ⟨_, m₃, h₃, h⟩ := bind_eq_some h
  obtain ⟨hheader, rfl⟩ := guardLeft_eq_some h₃
  obtain ⟨strings, m₄, h₄, h⟩ := bind_eq_some h
  obtain ⟨i64Constants, m₅, h₅, h⟩ := bind_eq_some h
  obtain ⟨f64Constants, m₆, h₆, h⟩ := bind_eq_some h
  obtain ⟨externs, m₇, h₇, h⟩ := bind_eq_some h
  obtain ⟨functions, m₈, h₈, h⟩ := bind_eq_some h
  obtain ⟨_, m₉, h₉, h⟩ := bind_eq_some h
  obtain ⟨hend, rfl⟩ := guardLeft_eq_some h₉
  obtain ⟨rfl, rfl⟩ := pure_eq_some h
  obtain rfl : m₈ = [] := by simpa using hend
  simp only [Bool.and_eq_true, beq_iff_eq] at hheader
  constructor
  · simp only [Module.fits, Bool.and_eq_true, fitsU32_iff, List.all_eq_true]
    exact ⟨⟨⟨⟨⟨⟨⟨readCounted_length h₄, readCounted_length h₅⟩, readCounted_length h₆⟩,
      readCounted_length h₇⟩, readCounted_length h₈⟩,
      fun s hs => fitsU32_iff.mp (forall_of_readCounted (fun _ _ _ => readBlob_fits) h₄ s hs)⟩,
      fun s hs => fitsU32_iff.mp (forall_of_readCounted (fun _ _ _ => readBlob_fits) h₇ s hs)⟩,
      forall_of_readCounted (fun _ _ _ => readFunction_fits) h₈⟩
  · rw [canonical_u32 _ _ _ h₁, canonical_u32 _ _ _ h₂, hheader.1, hheader.2,
      canonical_counted canonical_blob _ _ _ h₄, canonical_counted canonical_i64 _ _ _ h₅,
      @canonical_counted _ writeF64 _ _ canonical_i64 _ _ _ h₆,
      canonical_counted canonical_blob _ _ _ h₇, canonical_counted canonical_function _ _ _ h₈]
    simp only [writeModule, List.append_nil]

/-- Every module of which the sizes fit is encoded, and the decoder accepts a payload for a module exactly
    when the encoder produces it. -/
theorem decodeCachedModule_bijective :
    (∀ m : Module, (encodeCachedModule m).isSome = m.fits) ∧
      ∀ (m : Module) (payload : List UInt8),
        decodeCachedModule payload kVirSchemaVersion = some m ↔ encodeCachedModule m = some payload := by
  refine ⟨fun m => ?_, fun m payload => ⟨fun h => ?_, fun h => ?_⟩⟩
  · unfold encodeCachedModule
    cases m.fits <;> rfl
  · simp only [decodeCachedModule, bne_self_eq_false, Bool.false_eq_true, if_false,
      Option.map_eq_some_iff, Prod.exists, exists_and_right, exists_eq_right] at h
    obtain ⟨rest, h⟩ := h
    obtain ⟨hfits, hwrite⟩ := writeModule_readModule h
    rw [encodeCachedModule, if_pos hfits, hwrite]
  · unfold encodeCachedModule at h
    split at h
    · next hfits =>
      cases h
      simp only [decodeCachedModule, bne_self_eq_false, Bool.false_eq_true, if_false,
        readModule_writeModule hfits, Option.map_some]
    · cases h

end Zith.Vm
