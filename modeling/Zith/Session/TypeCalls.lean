import Zith.Cache.ArtifactBuilder
import Zith.Session.Hydrate
import Zith.Types.Interning

/-! The type table of a session: what each call of `hydrateFromArtifact` does to a `TypeIntern`, and what a
    call that interns or defines answers. A call that answers nothing answers 0 here. -/

namespace Zith.Session
open Zith.Lib Zith.Hir
open Types (TypeIntern TypeData IntWidth FloatWidth packData)
open Zith.Cache (StructRest)

/-- `mTypes`. -/
structure SessionTypes where
  types : TypeIntern := {}
  structRests : List StructRest := []
  tags : Types.CanonicalTags := ∅
  currentModule : Text := []

/-- The cast of a byte; a builder writes no other bytes. -/
def intWidthOf (b : UInt8) : IntWidth :=
  ([.i8, .i16, .i32, .i64, .i128, .u8, .u16, .u32, .u64, .u128] : List IntWidth)[b.toNat]?.getD .literal

def floatWidthOf (b : UInt8) : FloatWidth := ([.f32, .f64] : List FloatWidth)[b.toNat]?.getD .f128

namespace SessionTypes

def intern (s : SessionTypes) (data : TypeData) : TypeId × SessionTypes :=
  (UInt32.ofNat (s.types.intern data).2, { s with types := (s.types.intern data).1 })

/-- A definition call answers with the type of the name. -/
def define (s : SessionTypes) (name : Text) (op : TypeIntern.Op) : TypeId × SessionTypes :=
  let types := s.types.apply op
  (UInt32.ofNat ((types.namedTypes.lookup name).getD 0),
    { s with types
             structRests := s.structRests ++ List.replicate (types.structDefs.length - s.types.structDefs.length) {} })

/-- What `canonicalTypeId` does not read of the definition of a struct type. -/
def onRest (s : SessionTypes) (type : TypeId) (change : StructRest → StructRest) : SessionTypes :=
  match s.types.lookup type.toNat with
  | some (.struct defId) => { s with structRests := s.structRests.modify defId change }
  | _ => s

def apply (s : SessionTypes) (op : TypeIntern.Op) : SessionTypes := { s with types := s.types.apply op }

def call (s : SessionTypes) : TypeCall → TypeId × SessionTypes
  | .setCurrentModule path => (0, { s with currentModule := path })
  | .setCanonicalTag id tag => (0, { s with tags := Types.setCanonicalTag s.tags id tag })
  | .defineStruct name => s.define name (.defineStruct name)
  | .defineEnum name underlying => s.define name (.defineEnum name underlying.toNat)
  | .defineUnion name isTagged => s.define name (.defineUnion name isTagged)
  | .internInt width => s.intern (.int (intWidthOf width))
  | .internFloat width => s.intern (.float (floatWidthOf width))
  | .internPtr pointee isMut => s.intern (.ptr pointee.toNat isMut .default)
  | .internArray elem count => s.intern (.array elem.toNat count)
  | .internFn params ret => s.intern (.fn (params.map UInt32.toNat) ret.toNat)
  | .internOptional inner => s.intern (.optional inner.toNat)
  | .internFailable inner => s.intern (.failable inner.toNat)
  | .internPack members names => s.intern (packData (members.map UInt32.toNat) names)
  | .internDyn target methodCount => s.intern (.dyn target.toNat methodCount.toUInt64)
  | .internSlice elem => s.intern (.slice elem.toNat)
  | .internTypeVar => s.intern (.typeVar (UInt32.ofNat s.types.types.length))
  | .internGenericParam ownerName paramIndex => s.intern (.genericParam ownerName paramIndex)
  | .internIncomplete base args => s.intern (.incomplete base.toNat (args.map UInt32.toNat))
  | .internUnknown => s.intern .unknown
  | .internTrait name => s.intern (.trait name)
  | .internOpaqueTagged => s.intern .opaqueTagged
  | .setExplicitAlignment type bytes => (0, s.apply (.setExplicitAlignment type.toNat bytes))
  | .setForeignLayout type sizeBytes alignBytes singleI64Abi =>
    (0, (s.apply (.setForeignLayout type.toNat sizeBytes alignBytes)).onRest type fun r =>
      { r with foreignAbiIsSingleI64 := singleI64Abi })
  | .setTypeArgs type args =>
    (0, if args.isEmpty then s else s.onRest type fun r => { r with args := args.map UInt32.toNat })
  | .addField type name fieldType foreignOffset =>
    (0, (s.apply (.addField type.toNat name fieldType.toNat)).onRest type fun r =>
      { r with foreignOffsets := r.foreignOffsets ++ [foreignOffset] })
  | .setEnumUnderlying type underlying => (0, s.apply (.setEnumUnderlying type.toNat underlying.toNat))
  | .addEnumVariant type name discriminant => (0, s.apply (.addEnumVariant type.toNat name discriminant))
  | .addUnionMember type member => (0, s.apply (.addUnionMember type.toNat member.toNat))

end SessionTypes

/-- The table of a session. -/
def typeTable : TypeTable SessionTypes where
  call c s := s.call c
  isUnion s id := s.types.kindOf id.toNat == (TypeData.union 0).kind

end Zith.Session
