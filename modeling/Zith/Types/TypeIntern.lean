import Zith.Lib.ByteCodec
import Zith.Types.CanonicalTags

/-! `types::TypeIntern` as `canonicalTypeId` reads it, the calls that build it, the byte sizes and alignments
    of types, and the canonical id. A recursion of the source takes a depth here; `none` is a call that
    has not returned at that depth, or reads where there is nothing.

        appendType ──▶ appendType of every component
             └──▶ canonicalFieldOrder ──▶ typeByteCount, typeAlignBytes (two fields or more) -/

namespace Zith.Types

/-- The text of an interned string. -/
abbrev Text := List UInt8

inductive IntWidth
  | i8 | i16 | i32 | i64 | i128 | u8 | u16 | u32 | u64 | u128 | literal
deriving DecidableEq, Repr

inductive FloatWidth
  | f32 | f64 | f128
deriving DecidableEq, Repr

inductive OwnershipKind
  | default | unique | share | lend | view | belong
deriving DecidableEq, Repr

def IntWidth.word (w : IntWidth) : UInt64 := UInt64.ofNat w.ctorIdx
def FloatWidth.word (w : FloatWidth) : UInt64 := UInt64.ofNat w.ctorIdx
def OwnershipKind.word (o : OwnershipKind) : UInt64 := UInt64.ofNat o.ctorIdx

def intWidthBits : IntWidth → UInt32
  | .i8 | .u8 => 8
  | .i16 | .u16 => 16
  | .i32 | .u32 => 32
  | .i64 | .u64 => 64
  | .i128 | .u128 => 128
  | .literal => 0

def floatWidthBytes : FloatWidth → UInt32
  | .f32 => 4
  | .f64 => 8
  | .f128 => 16

/-- `TypeData`. Types are referred to by their row, definitions by theirs. -/
inductive TypeData
  | error
  | never
  | void
  | bool
  | char
  | int (width : IntWidth)
  | float (width : FloatWidth)
  | ptr (pointee : ℕ) (isMut : Bool) (ownership : OwnershipKind)
  | array (elem : ℕ) (count : UInt32)
  | struct (defId : ℕ)
  | fn (params : List ℕ) (ret : ℕ)
  | typeVar (id : UInt32)
  | optional (inner : ℕ)
  | failable (inner : ℕ)
  | alias (target : ℕ)
  | nominal (name : Text) (target : ℕ)
  | trait (name : Text)
  | dyn (target : ℕ) (methodCount : UInt64)
  | opaqueUntagged
  | opaqueTagged
  | unknown
  | qualified (inner : ℕ) (ownership : OwnershipKind) (isMut : Bool)
  | slice (elem : ℕ)
  | enum (defId : ℕ)
  | union (defId : ℕ)
  | pack (members : List ℕ) (names : List Text)
  | sum (members : List ℕ)
  | genericParam (ownerName : Text) (paramIndex : UInt32)
  | incomplete (base : ℕ) (args : List ℕ)
deriving DecidableEq

/-- The number of the `TypeKind`. -/
def TypeData.kind : TypeData → UInt64
  | .error => 0
  | .never => 2
  | .void => 3
  | .bool => 4
  | .char => 5
  | .int _ => 6
  | .float _ => 7
  | .ptr _ _ _ => 8
  | .array _ _ => 9
  | .struct _ => 10
  | .fn _ _ => 11
  | .typeVar _ => 12
  | .optional _ => 13
  | .failable _ => 14
  | .opaqueUntagged => 15
  | .opaqueTagged => 16
  | .unknown => 17
  | .slice _ => 18
  | .enum _ => 19
  | .union _ => 20
  | .pack _ _ => 21
  | .sum _ => 22
  | .dyn _ _ => 23
  | .genericParam _ _ => 24
  | .incomplete _ _ => 25
  | .alias _ => 27
  | .nominal _ _ => 28
  | .trait _ => 29
  | .qualified _ _ _ => 30

structure StructField where
  name : Text
  type : ℕ
deriving DecidableEq

structure StructDef where
  name : Text
  fields : List StructField := []
  definingModule : Text := []
  hasForeignLayout : Bool := false
  foreignSizeBytes : UInt64 := 0
  foreignAlignBytes : UInt64 := 0
  explicitAlignmentBytes : UInt32 := 0

structure EnumVariantDef where
  name : Text
  discriminant : Int64
deriving DecidableEq

structure EnumDef where
  name : Text
  underlying : ℕ
  variants : List EnumVariantDef := []
  definingModule : Text := []

structure UnionDef where
  name : Text
  isTagged : Bool
  members : List ℕ := []
  definingModule : Text := []

/-- `firstText` is the interned string 0, the name of `emptyUnionDef`. -/
structure TypeIntern where
  types : List TypeData := [.error, .never, .void, .bool, .char]
  structDefs : List StructDef := []
  enumDefs : List EnumDef := []
  unionDefs : List UnionDef := []
  namedTypes : List (Text × ℕ) := []
  firstText : Text := []

namespace TypeIntern

def lookup (T : TypeIntern) (id : ℕ) : Option TypeData := T.types[id]?

/-- `kindOf`: an error type where there is no row. -/
def kindOf (T : TypeIntern) (id : ℕ) : UInt64 :=
  match T.lookup id with
  | some data => data.kind
  | none => 0

/-- `getEnumDef`, of what should be the row of an enum type. -/
def getEnumDef (T : TypeIntern) (enumType : ℕ) : Option EnumDef :=
  match T.lookup enumType with
  | some (.enum defId) => T.enumDefs[defId]?
  | _ => none

/-- `getUnionDef` of a union type, which falls back on `emptyUnionDef`. -/
def getUnionDef (T : TypeIntern) (defId : ℕ) : UnionDef :=
  T.unionDefs[defId]?.getD { name := T.firstText, isTagged := false }

/-! ### Building -/

/-- What `typeDataEqual` compares: the names of a pack are left out. -/
def compared : TypeData → TypeData
  | .pack members _ => .pack members []
  | data => data

/-- `intern`: the row of an equal type behind the first five, or a new one. -/
def intern (T : TypeIntern) (data : TypeData) : TypeIntern × ℕ :=
  let existing := (T.types.drop 5).findIdx? fun old => compared old = compared data
  match data, existing with
  | .typeVar _, _ | _, none => ({ T with types := T.types ++ [data] }, T.types.length)
  | _, some row => (T, row + 5)

/-- The calls that build a table. A definition call on a name that has a type returns that type. -/
inductive Op
  | intern (data : TypeData)
  | defineStruct (name : Text)
  | addField (structType : ℕ) (fieldName : Text) (fieldType : ℕ)
  | setExplicitAlignment (structType : ℕ) (bytes : UInt32)
  | setForeignLayout (structType : ℕ) (sizeBytes alignBytes : UInt64)
  | defineEnum (name : Text) (underlying : ℕ)
  | addEnumVariant (enumType : ℕ) (name : Text) (discriminant : Int64)
  | setEnumUnderlying (enumType underlying : ℕ)
  | defineUnion (name : Text) (isTagged : Bool)
  | addUnionMember (unionType member : ℕ)
  | setDefiningModule (type : ℕ) (module : Text)

/-- The type of the definition row that was just pushed, registered under its name. -/
def nameLast (T : TypeIntern) (name : Text) (data : TypeData) : TypeIntern :=
  let (T, type) := T.intern data
  { T with namedTypes := T.namedTypes ++ [(name, type)] }

def onStruct (T : TypeIntern) (type : ℕ) (change : StructDef → StructDef) : TypeIntern :=
  match T.lookup type with
  | some (.struct defId) => { T with structDefs := T.structDefs.modify defId change }
  | _ => T

def onEnum (T : TypeIntern) (type : ℕ) (change : EnumDef → EnumDef) : TypeIntern :=
  match T.lookup type with
  | some (.enum defId) => { T with enumDefs := T.enumDefs.modify defId change }
  | _ => T

def onUnion (T : TypeIntern) (type : ℕ) (change : UnionDef → UnionDef) : TypeIntern :=
  match T.lookup type with
  | some (.union defId) => { T with unionDefs := T.unionDefs.modify defId change }
  | _ => T

/-- The first module that is not empty stays. -/
def firstModule (old module : Text) : Text := if old.isEmpty then module else old

def apply (T : TypeIntern) : Op → TypeIntern
  | .intern data => (T.intern data).1
  | .defineStruct name =>
    match T.namedTypes.lookup name with
    | some _ => T
    | none => nameLast { T with structDefs := T.structDefs ++ [{ name }] } name
        (.struct T.structDefs.length)
  | .addField structType fieldName fieldType =>
    T.onStruct structType fun d => { d with fields := d.fields ++ [⟨fieldName, fieldType⟩] }
  | .setExplicitAlignment structType bytes =>
    T.onStruct structType fun d => { d with explicitAlignmentBytes := bytes }
  | .setForeignLayout structType sizeBytes alignBytes =>
    T.onStruct structType fun d =>
      { d with hasForeignLayout := true, foreignSizeBytes := sizeBytes, foreignAlignBytes := alignBytes }
  | .defineEnum name underlying =>
    match T.namedTypes.lookup name with
    | some _ => T
    | none => nameLast { T with enumDefs := T.enumDefs ++ [{ name, underlying }] } name
        (.enum T.enumDefs.length)
  | .addEnumVariant enumType name discriminant =>
    T.onEnum enumType fun d => { d with variants := d.variants ++ [⟨name, discriminant⟩] }
  | .setEnumUnderlying enumType underlying => T.onEnum enumType fun d => { d with underlying }
  | .defineUnion name isTagged =>
    match T.namedTypes.lookup name with
    | some type => if isTagged then T else T.onUnion type fun d => { d with isTagged := false }
    | none => nameLast { T with unionDefs := T.unionDefs ++ [{ name, isTagged }] } name
        (.union T.unionDefs.length)
  | .addUnionMember unionType member =>
    T.onUnion unionType fun d => { d with members := d.members ++ [member] }
  | .setDefiningModule type module =>
    ((T.onStruct type fun d => { d with definingModule := firstModule d.definingModule module }).onEnum
      type fun d => { d with definingModule := firstModule d.definingModule module }).onUnion
      type fun d => { d with definingModule := firstModule d.definingModule module }

def build (ops : List Op) : TypeIntern := ops.foldl apply {}

end TypeIntern

/-! ### Sizes -/

def alignUp (value align : UInt32) : UInt32 :=
  if align = 0 then value
  else
    let remainder := value % align
    let aligned := if remainder = 0 then value.toNat else value.toNat + (align - remainder).toNat
    if aligned ≤ 0xFFFFFFFF then UInt32.ofNat aligned else 0

def tagByteCount (memberCount : UInt32) : UInt32 :=
  if memberCount ≤ 0xFF then 1 else if memberCount ≤ 0xFFFF then 2 else 4

/-- A 64-bit size as a 32-bit one, or zero. -/
def narrowed (bytes : UInt64) : UInt32 := if bytes ≤ 0xFFFFFFFF then bytes.toUInt32 else 0

namespace TypeIntern
variable (T : TypeIntern)

/-- The greatest of the values of some types, from `start` on. -/
def greatest (value : ℕ → Option UInt32) (start : UInt32) (types : List ℕ) : Option UInt32 :=
  types.foldlM (fun m type => do return max m (← value type)) start

/-- An enum hands `getEnumDef` its definition row where that expects its type. -/
def typeAlignBytes : ℕ → ℕ → Option UInt32
  | 0, _ => none
  | depth + 1, type =>
    match T.lookup type with
    | some .bool | some .char => some 1
    | some (.int width) => some ((intWidthBits width + 7) / 8)
    | some (.float width) => some (floatWidthBytes width)
    | some (.ptr _ _ _) | some (.failable _) => some 8
    | some (.optional inner) =>
      if T.kindOf inner = 8 then some 8 else typeAlignBytes depth inner
    | some (.array elem _) => typeAlignBytes depth elem
    | some (.slice _) => some 8
    | some (.enum defId) => do typeAlignBytes depth (← T.getEnumDef defId).underlying
    | some (.union defId) =>
      match T.unionDefs[defId]? with
      | none => some 0
      | some d => greatest (typeAlignBytes depth) 1 d.members
    | some (.struct defId) => do
        let d ← T.structDefs[defId]?
        if d.hasForeignLayout then return narrowed d.foreignAlignBytes
        greatest (typeAlignBytes depth) (max d.explicitAlignmentBytes 1) (d.fields.map (·.type))
    | some (.qualified inner _ _) => typeAlignBytes depth inner
    | some (.alias target) => typeAlignBytes depth target
    | some (.nominal _ target) => typeAlignBytes depth target
    | _ => some 0

/-- The loop over the fields of a struct: the offset behind them, or nothing where `typeByteCount` is zero
    right away. -/
def fieldsEnd (align size : ℕ → Option UInt32) : List StructField → UInt32 → Option (Option UInt32)
  | [], offset => some (some offset)
  | field :: fields, offset => do
      let alignment ← align field.type
      if alignment = 0 then fieldsEnd align size fields offset
      else
        let offset := alignUp offset alignment
        let fieldSize ← size field.type
        let next := offset.toNat + fieldSize.toNat
        if offset = 0 ∧ fieldSize = 0 then return none
        else if 0xFFFFFFFF < next then return none
        else fieldsEnd align size fields (UInt32.ofNat next)

def typeByteCount : ℕ → ℕ → Option UInt32
  | 0, _ => none
  | depth + 1, type =>
    match T.lookup type with
    | some .bool | some .char => some 1
    | some (.int width) => some ((intWidthBits width + 7) / 8)
    | some (.float width) => some (floatWidthBytes width)
    | some (.ptr _ _ _) | some (.failable _) => some 8
    | some (.optional inner) =>
      if T.kindOf inner = 8 then some 8
      else do
        let innerSize ← typeByteCount depth inner
        let innerAlign ← T.typeAlignBytes depth inner
        return if innerSize = 0 then 0 else alignUp (alignUp innerSize 1 + 1) innerAlign
    | some (.array elem count) => do
        let elementSize ← typeByteCount depth elem
        let elementAlign ← T.typeAlignBytes depth elem
        let stride := alignUp elementSize elementAlign
        let total := stride.toNat * count.toNat
        return if stride ≠ 0 ∧ total ≤ 0xFFFFFFFF then UInt32.ofNat total else 0
    | some (.slice _) => some 16
    | some (.enum defId) => do typeByteCount depth (← T.getEnumDef defId).underlying
    | some (.union defId) =>
      match T.unionDefs[defId]? with
      | none => some 0
      | some d => do
          let maxAlign ← greatest (T.typeAlignBytes depth) 1 d.members
          let maxBytes ← greatest (typeByteCount depth) 1 d.members
          let payload := alignUp maxBytes maxAlign
          return if d.isTagged then
              alignUp (payload + tagByteCount (UInt32.ofNat d.members.length)) maxAlign
            else payload
    | some (.struct defId) => do
        let d ← T.structDefs[defId]?
        if d.hasForeignLayout then return narrowed d.foreignSizeBytes
        match ← fieldsEnd (T.typeAlignBytes depth) (typeByteCount depth) d.fields 0 with
        | none => return 0
        | some offset => return alignUp offset (← T.typeAlignBytes (depth + 1) type)
    | some (.qualified inner _ _) => typeByteCount depth inner
    | some (.alias target) => typeByteCount depth target
    | some (.nominal _ target) => typeByteCount depth target
    | _ => some 0

/-- The comparison of two fields with their sizes: by size, then by name. -/
def fieldLess (a b : StructField × UInt32) : Bool :=
  if a.2 ≠ b.2 then decide (a.2 < b.2) else decide (a.1.name < b.1.name)

/-- The fields in the order of `canonicalFieldOrder`. Sizes are only asked for when there is something
    to compare. -/
def canonicalFieldOrder (depth : ℕ) (fields : List StructField) : Option (List StructField) :=
  if fields.length < 2 then some fields
  else do
    let sizes ← fields.mapM fun field => T.typeByteCount depth field.type
    return ((fields.zip sizes).mergeSort fun a b => !fieldLess b a).map Prod.fst

/-! ### The canonical id -/

/-- `appendU64`. -/
def u64 (value : UInt64) : List UInt8 := Lib.leBytes 8 value.toNat

def ofBool (b : Bool) : UInt64 := if b then 1 else 0

/-- The bytes of some types, one after the other. -/
def appendAll (append : ℕ → Option (List UInt8)) (types : List ℕ) : Option (List UInt8) := do
  return (← types.mapM append).flatten

def count (types : List ℕ) : UInt64 := UInt64.ofNat types.length

/-- What `appendType` appends. -/
def appendType (resolveNamespace : Text → Text) : ℕ → ℕ → Option (List UInt8)
  | 0, _ => none
  | depth + 1, current => do
      let self := appendType resolveNamespace depth
      match ← T.lookup current with
      | .error => return u64 1
      | .never => return u64 2
      | .void => return u64 3
      | .bool => return u64 4
      | .char => return u64 5
      | .int width => return u64 6 ++ u64 width.word
      | .float width => return u64 7 ++ u64 width.word
      | .ptr pointee isMut ownership =>
        return u64 8 ++ u64 (ofBool isMut) ++ u64 ownership.word ++ (← self pointee)
      | .array elem count => return u64 9 ++ u64 count.toUInt64 ++ (← self elem)
      | .struct defId =>
        let d ← T.structDefs[defId]?
        let fields ← T.canonicalFieldOrder depth d.fields
        let appended ← fields.mapM fun field => do return field.name ++ (← self field.type)
        return u64 10 ++ resolveNamespace d.definingModule ++ d.name ++
          u64 d.explicitAlignmentBytes.toUInt64 ++ appended.flatten
      | .fn params ret => return u64 11 ++ u64 (count params) ++ (← self ret) ++ (← appendAll self params)
      | .typeVar id => return u64 12 ++ u64 id.toUInt64
      | .optional inner => return u64 13 ++ (← self inner)
      | .failable inner => return u64 14 ++ (← self inner)
      | .alias target => return u64 15 ++ (← self target)
      | .nominal name target => return u64 16 ++ name ++ (← self target)
      | .trait name => return u64 17 ++ name
      | .dyn target methodCount => return u64 18 ++ u64 methodCount ++ (← self target)
      | .opaqueUntagged => return u64 19
      | .opaqueTagged => return u64 20
      | .unknown => return u64 21
      | .qualified inner ownership isMut =>
        return u64 22 ++ u64 ownership.word ++ u64 (ofBool isMut) ++ (← self inner)
      | .slice elem => return u64 23 ++ (← self elem)
      | .enum defId =>
        let d ← T.enumDefs[defId]?
        return u64 24 ++ resolveNamespace d.definingModule ++ d.name ++ (← self d.underlying) ++
          d.variants.flatMap fun variant => variant.name ++ u64 variant.discriminant.toUInt64
      | .union defId =>
        let d := T.getUnionDef defId
        return u64 25 ++ resolveNamespace d.definingModule ++ u64 (ofBool d.isTagged) ++ d.name ++
          (← appendAll self d.members)
      | .pack members _ => return u64 26 ++ u64 (count members) ++ (← appendAll self members)
      | .sum members => return u64 27 ++ u64 (count members) ++ (← appendAll self members)
      | .genericParam ownerName paramIndex => return u64 28 ++ ownerName ++ u64 paramIndex.toUInt64
      | .incomplete base args =>
        return u64 29 ++ u64 (count args) ++ (← self base) ++ (← appendAll self args)

/-- All that `canonicalTypeId` feeds to its two hashes. -/
def canonicalBytes (resolveNamespace : Text → Text) (depth type : ℕ) : Option (List UInt8) := do
  return u64 (T.kindOf type) ++ (← T.appendType resolveNamespace depth type)

def canonicalTypeId (resolveNamespace : Text → Text) (depth type : ℕ) : Option TypeCanonicalId := do
  let bytes ← T.canonicalBytes resolveNamespace depth type
  return { hi := bytes.foldl (fun hash b => (hash ^^^ b.toUInt64) * 1099511628211) 14695981039346656037
           lo := bytes.foldl (fun hash b => (hash ^^^ (b ^^^ 0x5c).toUInt64) * 1099511628211) 14695981039346656037 }

end TypeIntern

end Zith.Types
