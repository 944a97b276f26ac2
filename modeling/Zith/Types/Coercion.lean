import Zith.Types.SameType

/-! `coercesTo`: whether a value of one type may be used as another one. The comparison of two types need not return on
    a type that is a part of itself, and so does this. Which types conform to a trait is a parameter.

        same type ──▶ yes
        target enum, dyn, optional, opaque, pointer ──▶ its own rule
        void pointer, slice of an array, pointer to the characters of a slice, pack ──▶ where that rule said no -/

namespace Zith.Types

/-- What the coercions of a module read beside the comparison of types. -/
structure Coercions extends PerModuleSema where
  voidType : TypeId
  charType : TypeId
  void_name : table.findEntry voidType = some (.name "void" .void)
  satisfiesConformance : TypeId → TypeId → Bool

/-- The next test, where this one has failed. -/
def orTry (result next : Option Bool) : Option Bool := result.bind fun b => if b then some true else next

@[simp] theorem orTry_true (next : Option Bool) : orTry (some true) next = some true := rfl

@[simp] theorem orTry_false (next : Option Bool) : orTry (some false) next = next := rfl

namespace TypeTable

/-- The loop of `stripQualifiers`. -/
def stripFrom (T : TypeTable) : ℕ → TypeId → TypeId
  | 0, id => id
  | guard + 1, id =>
    match T.findEntry (T.canonical id) with
    | some (.qualified inner) => stripFrom T guard inner
    | _ => id

def stripQualifiers (T : TypeTable) (id : TypeId) : TypeId := T.canonical (T.stripFrom 8 id)

end TypeTable

namespace Coercions

variable (S : Coercions)

def pointerBase (type : TypeId) : TypeId :=
  let resolved := S.resolve type
  if S.table.kindOf resolved = .pointer then resolved
  else if S.table.kindOf resolved = .optional then
    match S.table.findEntry resolved with
    | some (.optional inner) => if S.table.kindOf (S.resolve inner) = .pointer then S.resolve inner else 0
    | _ => 0
  else 0

def isNullablePointer (type : TypeId) : Bool :=
  S.table.kindOf (S.resolve type) = .optional && S.pointerBase (S.resolve type) ≠ 0

def isVoidPointer (type : TypeId) : Bool :=
  match S.table.findEntry (S.pointerBase type) with
  | some (.pointer pointee) => pointee ≠ 0 && S.table.canonical pointee = S.table.canonical S.voidType
  | _ => false

def allowsUncheckedNullablePointer (same : TypeId → TypeId → Option Bool) (target source : TypeId) : Option Bool :=
  if S.isNullablePointer (S.resolve source) ∧ S.table.kindOf (S.resolve target) = .pointer then
    same target (S.pointerBase (S.resolve source))
  else some false

/-- Types that may stand behind a `dyn`. -/
def erasable (source : TypeId) : Bool :=
  match S.table.kindOf source with
  | .struct | .slice | .enum | .union | .integer | .float | .bool | .char | .pointer => true
  | _ => false

/-- What the kind of the target decides; `coerces` is `coercesTo` itself, for the inner type of an optional. -/
def coercesByTarget (same coerces : TypeId → TypeId → Option Bool) (target source : TypeId) : Option Bool :=
  let resolvedTarget := S.resolve target
  let resolvedSource := S.resolve source
  match S.table.kindOf resolvedTarget, S.table.kindOf resolvedSource with
  | .enum, .enum =>
    match S.table.findEntry resolvedTarget, S.table.findEntry resolvedSource with
    | some (.enum name _ _), some (.enum name' _ _) => some (base name = base name')
    | _, _ => some false
  | .dyn, kind =>
    match S.table.findEntry resolvedTarget with
    | some (.dyn trait _) =>
      if kind = .dyn then same resolvedTarget resolvedSource
      else some (S.satisfiesConformance resolvedSource (S.resolve trait) && S.erasable resolvedSource)
    | _ => some false
  | .optional, _ =>
    if resolvedSource = S.nullType then some true
    else
      match S.table.findEntry resolvedTarget with
      | some (.optional inner) => orTry (same inner source) (coerces inner source)
      | _ => some false
  | .opaqueTagged, kind =>
    some (kind ≠ .opaqueTagged && resolvedSource ≠ S.nullType && resolvedSource ≠ S.voidType)
  | _, _ => S.allowsUncheckedNullablePointer same target source

/-- What is tried where the target's own rule has said no. -/
def coercesByShape (same : TypeId → TypeId → Option Bool) (target source : TypeId) : Option Bool :=
  let resolvedTarget := S.resolve target
  let resolvedSource := S.resolve source
  if S.isVoidPointer resolvedTarget ∧ S.pointerBase source ≠ 0 then some true
  else
    match S.table.findEntry resolvedTarget, S.table.findEntry resolvedSource with
    | some (.slice element), some (.array element' _) => same element element'
    | some (.pointer pointee), some (.slice element) =>
      (same (S.table.stripQualifiers pointee) S.charType).bind fun isChar =>
        if isChar then same (S.table.stripQualifiers element) S.charType else some false
    | some (.pack members), some (.pack members') =>
      if members.length = members'.length then PerModuleSema.allSame same members members' else some false
    | _, _ => some false

/-- `depth` bounds the calls inside each other; the source has no bound. -/
def coercesTo : ℕ → TypeId → TypeId → Option Bool
  | 0, _, _ => none
  | depth + 1, target, source =>
    let same := S.sameType (depth + 1)
    orTry (same target source)
      (orTry (S.coercesByTarget same (coercesTo depth) target source) (S.coercesByShape same target source))

end Coercions

end Zith.Types
