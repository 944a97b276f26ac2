import Zith.Interp.Memory

/-! The functions without a body that the `HirInterpreter` knows: `runExtern`. -/

namespace Zith.Interp
open Hir (StringRow InternedId FunctionRow)

/-- The name a linkage name stands for: without its parameters, from its last dot on. -/
def sourceName (linkage : StringRow) : StringRow :=
  let linkage := linkage.takeWhile (· ≠ 40)
  (linkage.reverse.takeWhile (· ≠ 46)).reverse

/-- The bytes from an offset on, when the offset is not past the end. -/
def suffixAt (text : Text) (offset : UInt64) : Option Text :=
  if offset.toNat ≤ text.length then some (text.drop offset.toNat) else none

def textOf (value : Value) : Text :=
  let text := value.text.getD []
  match value.kind with
  | .string => text
  | .slice =>
    match suffixAt text value.offset with
    | some rest =>
      if value.object = kInvalidObject ∧ value.length.toNat ≤ rest.length then rest.take value.length.toNat
      else []
    | none => []
  | .ptr => if value.text.isSome then (suffixAt text value.offset).getD [] else []
  | _ => []

/-- The bytes before the first zero byte, one read after another. -/
def bytesUntilNul (st : State) (depth : ℕ) (pointer : Value) : ℕ → ℕ → Option ℕ
  | 0, _ => none
  | fuel + 1, length =>
    match readByte st depth pointer (UInt64.ofNat length) with
    | none => none
    | some none => some length
    | some (some 0) => some length
    | some (some _) => bytesUntilNul st depth pointer fuel (length + 1)

def cStringLength (depth : ℕ) (pointer : Value) : Run ℕ := do
  let st ← get
  let isText := pointer.kind = .string ∨ (pointer.kind = .ptr ∧ pointer.text.isSome)
  match suffixAt (pointer.text.getD []) pointer.offset with
  | some rest => if isText then return (rest.takeWhile (· ≠ 0)).length
                 else orUndefined (bytesUntilNul st depth pointer depth 0)
  | none => orUndefined (bytesUntilNul st depth pointer depth 0)

def appendOutput (text : Text) : Run Unit := modify fun st => { st with output := st.output.append text }

def writeText (depth : ℕ) (destination : Value) : ℕ → Text → Run Bool
  | _, [] => return true
  | index, b :: text => do
    if ← writeByte depth destination (UInt64.ofNat index) b then writeText depth destination (index + 1) text
    else return false

/-- The bytes at the indices below `count`; `none` when one cannot be read. -/
def readBytes (depth : ℕ) (pointer : Value) : ℕ → ℕ → Run (Option Text)
  | _, 0 => return some []
  | index, count + 1 => do
    match ← readByteAt depth pointer (UInt64.ofNat index) with
    | none => return none
    | some b =>
      match ← readBytes depth pointer (index + 1) count with
      | none => return none
      | some text => return some (b :: text)

/-- The bytes that can be read below `count`, printed one by one. -/
def printBytes (depth : ℕ) (pointer : Value) : ℕ → ℕ → Run Unit
  | _, 0 => return ()
  | index, count + 1 => do
    if let some b ← readByteAt depth pointer (UInt64.ofNat index) then appendOutput [b]
    printBytes depth pointer (index + 1) count

/-- `std::to_chars` of the argument a conversion asks for. -/
def convert (conversion : UInt8) (i : Int64) : Option Text :=
  if conversion = 117 then some (utf8 (toString i.toUInt64.toUInt32.toNat))
  else if conversion = 100 then some (utf8 (toString i.toInt32.toInt))
  else none

/-- `snprintf` with one conversion: the text that is written. -/
def render (format : Text) (argument : Value) : Option Text :=
  let head := format.takeWhile (· ≠ 37)
  match format.drop head.length with
  | _ :: conversion :: tail => (convert conversion argument.i).map fun digits => head ++ digits ++ tail
  | _ => none

/-- The call of a function without a body; `none` is its `false`. -/
def runExtern (depth : ℕ) (name : StringRow) (args : List Value) : Run (Option Value) := do
  let name := sourceName name
  if name = utf8 "puts" then
    match args with
    | pointer :: _ =>
      let text := textOf pointer
      if !text.isEmpty then appendOutput text
      else printBytes depth pointer 0 (← cStringLength depth pointer)
      appendOutput [10]
      let length ← if text.isEmpty then cStringLength depth pointer else pure text.length
      return some (intValue (Int64.ofNat length))
    | [] => return none
  else if name = utf8 "putchar" then
    match args with
    | value :: _ =>
      appendOutput [charOf value.i]
      return some (intValue value.i)
    | [] => return none
  else if name = utf8 "aligned_alloc" then
    match args with
    | _ :: size :: _ =>
      if size.i < 0 then return none
      let object ← addObject Hir.kInvalidType
      if object = kInvalidObject then return none
      modifyObject object fun o => { o with bytes := List.replicate size.i.toNatClampNeg 0 }
      return some (pointerToObject object)
    | _ => return none
  else if name = utf8 "free" then
    if let pointer :: _ := args then
      if ((← get).object pointer.object).isSome then
        modifyObject pointer.object fun o => { o with alive := false }
    return some (intValue 0)
  else if name = utf8 "memcpy" then
    match args with
    | destination :: source :: count :: _ =>
      if count.i < 0 then return none
      match ← readBytes depth source 0 count.i.toNatClampNeg with
      | none => return none
      | some text => if ← writeText depth destination 0 text then return some destination else return none
    | _ => return none
  else if name = utf8 "strlen" then
    match args with
    | pointer :: _ => return some (intValue (Int64.ofNat (← cStringLength depth pointer)))
    | [] => return none
  else if name = utf8 "snprintf" then
    match args with
    | destination :: capacity :: format :: argument :: _ =>
      if capacity.i < 0 then return none
      match render (textOf format) argument with
      | none => return none
      | some rendered =>
        if capacity.i ≠ 0 then
          let written := min rendered.length (capacity.i.toNatClampNeg - 1)
          unless ← writeText depth destination 0 (rendered.take written) do return none
          unless ← writeByte depth destination (UInt64.ofNat written) 0 do return none
        return some (intValue (Int64.ofNat rendered.length))
    | _ => return none
  else return none

end Zith.Interp
