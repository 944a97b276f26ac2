import Zith.Types.TypeIntern
import Zith.Vm.TypedIr

/-! How the values of a type lie in registers and in linear memory. Aggregates live by address, a slice is a
    pair of registers, every other value is one word. No row of the type table has the kind of a string.

    Sizes are those of `std::size_t`; a recursion over types takes a depth. -/

namespace Zith.Vm.Layout
open Types (TypeIntern TypeData)

def sizeT (n : ℕ) : ℕ := n % 2 ^ 64

section
variable (T : TypeIntern)

/-! ### Kinds -/

def isChar (type : ℕ) : Bool := T.lookup type == some .char

def isPtr (type : ℕ) : Bool :=
  match T.lookup type with
  | some (.ptr _ _ _) => true
  | _ => false

def isArray (type : ℕ) : Bool :=
  match T.lookup type with
  | some (.array _ _) => true
  | _ => false

def isSlice (type : ℕ) : Bool :=
  match T.lookup type with
  | some (.slice _) => true
  | _ => false

def isUnion (type : ℕ) : Bool :=
  match T.lookup type with
  | some (.union _) => true
  | _ => false

def isOptional (type : ℕ) : Bool :=
  match T.lookup type with
  | some (.optional _) => true
  | _ => false

def isDyn (type : ℕ) : Bool :=
  match T.lookup type with
  | some (.dyn _ _) => true
  | _ => false

def isOpaqueTagged (type : ℕ) : Bool := T.lookup type == some .opaqueTagged

def isAggregateKind : TypeData → Bool
  | .struct _ | .pack _ _ | .union _ | .optional _ | .dyn _ _ | .opaqueTagged => true
  | _ => false

/-- Optional pointers use a sentinel and carry no flag. -/
def isNicheOptional (type : ℕ) : Bool :=
  match T.lookup type with
  | some (.optional inner) => isPtr T inner
  | _ => false

def isAggregateType (type : ℕ) : Bool := !isNicheOptional T type && (T.lookup type).any isAggregateKind

def isScalarSlotType (type : ℕ) : Bool :=
  match T.lookup type with
  | some (.int _) | some .bool | some .char | some (.float _) | some (.ptr _ _ _) | some (.enum _) => true
  | _ => isNicheOptional T type

def isMemorySlotType (type : ℕ) : Bool := isScalarSlotType T type || isAggregateType T type

def isPointerValued (type : ℕ) : Bool := isAggregateType T type || isArray T type

def valueTypeOf (type : ℕ) : ValueType :=
  match T.lookup type with
  | some (.int _) | some .bool | some .char => .i64
  | some (.float _) => .f64
  | some (.ptr _ _ _) | some (.array _ _) => .ptr
  | some (.slice _) => .slice
  | some (.struct _) | some (.pack _ _) | some (.union _) | some (.optional _) | some (.dyn _ _)
  | some .opaqueTagged => .ptr
  | _ => .void

def valueRegisterWidth (type : ℕ) : ℕ := if isSlice T type then 2 else 1

/-! ### Sizes -/

def alignUp (value alignment : ℕ) : ℕ :=
  if alignment ≤ 1 then value else sizeT (sizeT (value + alignment - 1) / alignment * alignment)

/-- The types of the fields of a struct or of the members of a pack. -/
def memberTypes (type : ℕ) : List ℕ :=
  match T.lookup type with
  | some (.struct defId) => (T.structDefs[defId]?.elim [] fun d => d.fields).map (·.type)
  | some (.pack members _) => members
  | _ => []

/-- `lookupUnionDef` of a union type. -/
def unionDef (type : ℕ) : Option Types.UnionDef :=
  match T.lookup type with
  | some (.union defId) => T.unionDefs[defId]?
  | _ => none

def tagWidth (members : List ℕ) : ℕ := if members.length > 0xFFFF then 4 else if members.length > 0xFF then 2 else 1

/-- The loop over the fields of a struct: the size so far and the greatest alignment, or nothing where a
    field has no size. -/
def layoutFields (layout : ℕ → Option (ℕ × ℕ)) : List ℕ → ℕ → ℕ → Option (Option (ℕ × ℕ))
  | [], size, align => some (some (size, align))
  | field :: fields, size, align => do
    let (fieldSize, fieldAlign) ← layout field
    if fieldSize = 0 then return none
    layoutFields layout fields (sizeT (alignUp size fieldAlign + fieldSize)) (max fieldAlign align)

/-- The same loop over the members of a union, which all start at the same place. -/
def layoutMembers (layout : ℕ → Option (ℕ × ℕ)) : List ℕ → ℕ → ℕ → Option (Option (ℕ × ℕ))
  | [], size, align => some (some (size, align))
  | member :: members, size, align => do
    let (memberSize, memberAlign) ← layout member
    if memberSize = 0 then return none
    layoutMembers layout members (max memberSize size) (max memberAlign align)

/-- Size and alignment. What has no size has no alignment that is read. -/
def layoutSize : ℕ → ℕ → Option (ℕ × ℕ)
  | 0, _ => none
  | depth + 1, type =>
    match T.lookup type with
    | some (.int _) | some .bool | some .char | some (.float _) | some (.ptr _ _ _) | some (.enum _) => some (8, 8)
    | some (.array elem count) => do
      let (elementSize, elementAlign) ← if isChar T elem then some (1, 1) else layoutSize depth elem
      if elementSize = 0 then return (0, 1)
      return (sizeT (count.toNat * elementSize), max elementAlign 1)
    | some (.slice _) => some (16, 8)
    | some (.struct _) | some (.pack _ _) => do
      match ← layoutFields (layoutSize depth) (memberTypes T type) 0 8 with
      | none => return (0, 1)
      | some (size, align) =>
        let align := max align (← T.typeAlignBytes depth type).toNat
        return (if size = 0 then 1 else alignUp size align, align)
    | some (.optional inner) => do
      if isPtr T inner then return (8, 8)
      let (innerSize, innerAlign) ← layoutSize depth inner
      if innerSize = 0 then return (0, 1)
      return (sizeT (innerSize + 1), max innerAlign 1)
    | some (.dyn _ _) | some .opaqueTagged => some (16, 8)
    | some (.union _) =>
      match unionDef T type with
      | none => some (0, 1)
      | some d => do
        match ← layoutMembers (layoutSize depth) d.members 0 8 with
        | none => return (0, 1)
        | some (size, align) =>
          let size := alignUp size align
          let width := tagWidth d.members
          return (if d.isTagged then sizeT (alignUp size width + width) else size, align)
    | _ => some (0, 1)

def typeSize (depth type : ℕ) : Option ℕ := (layoutSize T depth type).map Prod.fst

/-- The loop of `fieldByteOffset`. -/
def offsetOf (layout : ℕ → Option (ℕ × ℕ)) : List ℕ → ℕ → ℕ → Option ℕ
  | [], _, _ => some 0
  | field :: fields, index, offset => do
    let (fieldSize, fieldAlign) ← layout field
    if fieldSize = 0 then return 0
    match index with
    | 0 => return alignUp offset fieldAlign
    | index + 1 => offsetOf layout fields index (sizeT (alignUp offset fieldAlign + fieldSize))

def fieldByteOffset (depth structType index : ℕ) : Option ℕ :=
  match T.lookup structType with
  | some (.optional inner) => if index = 1 then typeSize T depth inner else some 0
  | _ => offsetOf (layoutSize T depth) (memberTypes T structType) index 0

def taggedUnionTagWidth (type : ℕ) : ℕ :=
  match unionDef T type with
  | some d => if d.isTagged && !d.members.isEmpty then tagWidth d.members else 0
  | none => 0

def taggedUnionTagOffset (depth type : ℕ) : Option ℕ :=
  match unionDef T type with
  | none => some 0
  | some d => do
    if taggedUnionTagWidth T type = 0 then return 0
    match ← layoutMembers (layoutSize T depth) d.members 0 8 with
    | none => return 0
    | some (size, align) => return alignUp size align

def scalarElementSize (type : ℕ) : ℕ :=
  match T.lookup type with
  | some .char => 1
  | some (.int _) | some .bool | some (.ptr _ _ _) | some (.enum _) => 8
  | _ => if isNicheOptional T type then 8 else 0

def arrayElementSize (depth type : ℕ) : Option ℕ :=
  match T.lookup type with
  | some (.array elem _) => if isPointerValued T elem then typeSize T depth elem else some (scalarElementSize T elem)
  | _ => some 0

end

end Zith.Vm.Layout
