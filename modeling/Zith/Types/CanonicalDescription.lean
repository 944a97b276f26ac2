import Zith.Lib.FirstDifference
import Zith.Types.CanonicalTermination

/-! What the canonical id of a type is a hash of. A finite type is a `Structure`, and its description a
    sequence of tokens: words of eight bytes, texts of any length, and the ends of lists. Tokens tell
    all structures apart; their bytes do not, since nothing says where a text or a list ends. -/

namespace Zith.Types
open Lib (Apart firstDifference)

inductive LeafKind
  | error | never | void | bool | char
  | int (width : IntWidth)
  | float (width : FloatWidth)
  | typeVar (id : UInt32)
  | opaqueUntagged | opaqueTagged | unknown
deriving DecidableEq

/-- A constructor with one component. -/
inductive WrapKind
  | ptr (isMut : Bool) (ownership : OwnershipKind)
  | array (count : UInt32)
  | optional | failable | alias
  | dyn (methodCount : UInt64)
  | qualified (ownership : OwnershipKind) (isMut : Bool)
  | slice
deriving DecidableEq

/-- A constructor with a counted list of components, and one with a component before the list. -/
inductive SeqKind
  | pack | sum
deriving DecidableEq

inductive CallKind
  | fn | incomplete
deriving DecidableEq

/-- A finite type: names, namespaces and components all the way down, the fields in canonical order. -/
inductive Structure
  | leaf (kind : LeafKind)
  | wrap (kind : WrapKind) (inner : Structure)
  | seq (kind : SeqKind) (items : List Structure)
  | call (kind : CallKind) (first : Structure) (items : List Structure)
  | nominal (name : Text) (target : Structure)
  | trait (name : Text)
  | genericParam (ownerName : Text) (paramIndex : UInt32)
  | struct (module name : Text) (alignment : UInt32) (fields : List (Text × Structure))
  | enum (module name : Text) (underlying : Structure) (variants : List (Text × Int64))
  | union (module : Text) (isTagged : Bool) (name : Text) (members : List Structure)

inductive Token
  | word (value : UInt64)
  | text (bytes : Text)
  | stop
deriving DecidableEq

/-- The end of a list leaves no bytes. -/
def Token.bytes : Token → List UInt8
  | .word value => TypeIntern.u64 value
  | .text bytes => bytes
  | .stop => []

def LeafKind.words : LeafKind → List UInt64
  | .error => [1]
  | .never => [2]
  | .void => [3]
  | .bool => [4]
  | .char => [5]
  | .int width => [6, width.word]
  | .float width => [7, width.word]
  | .typeVar id => [12, id.toUInt64]
  | .opaqueUntagged => [19]
  | .opaqueTagged => [20]
  | .unknown => [21]

def WrapKind.words : WrapKind → List UInt64
  | .ptr isMut ownership => [8, TypeIntern.ofBool isMut, ownership.word]
  | .array count => [9, count.toUInt64]
  | .optional => [13]
  | .failable => [14]
  | .alias => [15]
  | .dyn methodCount => [18, methodCount]
  | .qualified ownership isMut => [22, ownership.word, TypeIntern.ofBool isMut]
  | .slice => [23]

def SeqKind.word : SeqKind → UInt64
  | .pack => 26
  | .sum => 27

def CallKind.word : CallKind → UInt64
  | .fn => 11
  | .incomplete => 29

/-- The tokens of the variants of an enum. -/
def variantTokens : List (Text × Int64) → List Token
  | [] => [.stop]
  | (name, discriminant) :: variants =>
    .text name :: .word discriminant.toUInt64 :: variantTokens variants

mutual
/-- The description of a structure. -/
def Structure.tokens : Structure → List Token
  | .leaf kind => kind.words.map .word
  | .wrap kind inner => kind.words.map .word ++ inner.tokens
  | .seq kind items => .word kind.word :: .word (UInt64.ofNat items.length) :: listTokens items
  | .call kind first items =>
    .word kind.word :: .word (UInt64.ofNat items.length) :: (first.tokens ++ listTokens items)
  | .nominal name target => .word 16 :: .text name :: target.tokens
  | .trait name => [.word 17, .text name]
  | .genericParam ownerName paramIndex => [.word 28, .text ownerName, .word paramIndex.toUInt64]
  | .struct module name alignment fields =>
    .word 10 :: .text module :: .text name :: .word alignment.toUInt64 :: fieldTokens fields
  | .enum module name underlying variants =>
    .word 24 :: .text module :: .text name :: (underlying.tokens ++ variantTokens variants)
  | .union module isTagged name members =>
    .word 25 :: .text module :: .word (TypeIntern.ofBool isTagged) :: .text name :: listTokens members
termination_by structural s => s

def listTokens : List Structure → List Token
  | [] => [.stop]
  | item :: items => item.tokens ++ listTokens items
termination_by structural items => items

def fieldTokens : List (Text × Structure) → List Token
  | [] => [.stop]
  | field :: fields => .text field.1 :: (pairTokens field ++ fieldTokens fields)
termination_by structural fields => fields

def pairTokens : Text × Structure → List Token
  | (_, type) => type.tokens
termination_by structural field => field
end

/-! ### Tokens tell structures apart -/

/-- What two tokens at the same place of two descriptions can differ in. -/
inductive Differ : Token → Token → Prop
  | words {v w} (h : v ≠ w) : Differ (.word v) (.word w)
  | texts {s t} (h : s ≠ t) : Differ (.text s) (.text t)
  | stopped {t} (h : t ≠ .stop) : Differ .stop t
  | goesOn {t} (h : t ≠ .stop) : Differ t .stop

theorem Differ.ne : ∀ {u v : Token}, Differ u v → u ≠ v
  | _, _, .words h => fun heq => h (Token.word.inj heq)
  | _, _, .texts h => fun heq => h (Token.text.inj heq)
  | _, _, .stopped h => h.symm
  | _, _, .goesOn h => h

/-- One is read as the other for all that is known, or sooner or later they differ. -/
def SameOr {α : Type} (tokens : α → List Token) (a b : α) : Prop :=
  a = b ∨ ∀ x y, Apart Differ (tokens a ++ x) (tokens b ++ y)

/-- The first word of a description. -/
def Structure.tag : Structure → UInt64
  | .leaf kind => kind.words.headD 0
  | .wrap kind _ => kind.words.headD 0
  | .seq kind _ => kind.word
  | .call kind _ _ => kind.word
  | .nominal _ _ => 16
  | .trait _ => 17
  | .genericParam _ _ => 28
  | .struct _ _ _ _ => 10
  | .enum _ _ _ _ => 24
  | .union _ _ _ _ => 25

theorem Structure.tokens_head (a : Structure) : ∃ rest, a.tokens = .word a.tag :: rest := by
  cases a with
  | leaf kind => cases kind <;> exact ⟨_, rfl⟩
  | wrap kind inner => cases kind <;> exact ⟨_, rfl⟩
  | _ => exact ⟨_, rfl⟩

/-- The constructor a first word belongs to. -/
def shapeOfTag (tag : UInt64) : ℕ :=
  if tag ∈ [8, 9, 13, 14, 15, 18, 22, 23] then 1
  else if tag ∈ [26, 27] then 2
  else if tag ∈ [11, 29] then 3
  else if tag = 16 then 4
  else if tag = 17 then 5
  else if tag = 28 then 6
  else if tag = 10 then 7
  else if tag = 24 then 8
  else if tag = 25 then 9
  else 0

theorem Structure.shapeOfTag_tag (a : Structure) : shapeOfTag a.tag = a.ctorIdx := by
  cases a with
  | leaf kind => cases kind <;> rfl
  | wrap kind inner => cases kind <;> rfl
  | seq kind items => cases kind <;> rfl
  | call kind first items => cases kind <;> rfl
  | _ => rfl

theorem apart_of_shape {a b : Structure} (h : a.ctorIdx ≠ b.ctorIdx) : SameOr Structure.tokens a b := by
  obtain ⟨rest, ha⟩ := a.tokens_head
  obtain ⟨rest', hb⟩ := b.tokens_head
  refine .inr fun x y => ?_
  rw [ha, hb]
  refine Apart.head (.words fun htag => h ?_) _ _
  rw [← a.shapeOfTag_tag, ← b.shapeOfTag_tag, htag]

theorem words_apart : ∀ {w w' : List UInt64}, w.length = w'.length → w ≠ w' → ∀ x y,
    Apart Differ (w.map .word ++ x) (w'.map .word ++ y)
  | [], [], _, hne, _, _ => absurd rfl hne
  | v :: w, v' :: w', hlength, hne, x, y => by
    by_cases hv : v = v'
    · subst hv
      exact (words_apart (Nat.succ.inj hlength) (fun heq => hne (by rw [heq])) x y).cons _
    · exact Apart.head (.words hv) _ _

/-- Words of kinds part unless the kinds are the same, when the first one says how many follow. -/
theorem kinds_apart {κ : Type} {words : κ → List UInt64} (arity : UInt64 → ℕ)
    (harity : ∀ k, ∃ head rest, words k = head :: rest ∧ rest.length = arity head)
    (hinj : ∀ k k', words k = words k' → k = k') (k k' : κ) : SameOr (fun k => (words k).map Token.word) k k' := by
  by_cases hk : k = k'
  · exact .inl hk
  · refine .inr fun x y => ?_
    obtain ⟨head, rest, hwords, hlength⟩ := harity k
    obtain ⟨head', rest', hwords', hlength'⟩ := harity k'
    by_cases hhead : head = head'
    · refine words_apart ?_ (fun heq => hk (hinj k k' heq)) x y
      rw [hwords, hwords', List.length_cons, List.length_cons, hlength, hlength', hhead]
    · simp only [hwords, hwords']
      exact Apart.head (.words hhead) _ _

theorem IntWidth.word_inj {w w' : IntWidth} (h : w.word = w'.word) : w = w' := by
  cases w <;> cases w' <;> first | rfl | exact absurd h (by decide)

theorem FloatWidth.word_inj {w w' : FloatWidth} (h : w.word = w'.word) : w = w' := by
  cases w <;> cases w' <;> first | rfl | exact absurd h (by decide)

theorem OwnershipKind.word_inj {o o' : OwnershipKind} (h : o.word = o'.word) : o = o' := by
  cases o <;> cases o' <;> first | rfl | exact absurd h (by decide)

theorem SeqKind.word_inj {k k' : SeqKind} (h : k.word = k'.word) : k = k' := by
  cases k <;> cases k' <;> first | rfl | exact absurd h (by decide)

theorem CallKind.word_inj {k k' : CallKind} (h : k.word = k'.word) : k = k' := by
  cases k <;> cases k' <;> first | rfl | exact absurd h (by decide)

theorem ofBool_inj {b b' : Bool} (h : TypeIntern.ofBool b = TypeIntern.ofBool b') : b = b' := by
  cases b <;> cases b' <;> first | rfl | exact absurd h (by decide)

theorem toUInt64_inj {v v' : UInt32} (h : v.toUInt64 = v'.toUInt64) : v = v' := by
  have hnat := congrArg UInt64.toNat h
  rw [UInt32.toNat_toUInt64, UInt32.toNat_toUInt64] at hnat
  exact UInt32.toNat_inj.mp hnat

theorem LeafKind.apart : ∀ k k' : LeafKind, SameOr (fun k => k.words.map Token.word) k k' :=
  kinds_apart (fun head => if head ∈ [6, 7, 12] then 1 else 0)
    (fun k => by cases k <;> exact ⟨_, _, rfl, rfl⟩)
    (fun k k' h => by
      cases k <;> cases k' <;> first | rfl | (simp [words] at h; done) | skip
      · exact congrArg _ (IntWidth.word_inj (by simpa [words] using h))
      · exact congrArg _ (FloatWidth.word_inj (by simpa [words] using h))
      · exact congrArg _ (toUInt64_inj (by simpa [words] using h)))

theorem WrapKind.apart : ∀ k k' : WrapKind, SameOr (fun k => k.words.map Token.word) k k' :=
  kinds_apart (fun head => if head ∈ [8, 22] then 2 else if head ∈ [9, 18] then 1 else 0)
    (fun k => by cases k <;> exact ⟨_, _, rfl, rfl⟩)
    (fun k k' h => by
      cases k <;> cases k' <;> first | rfl | (simp [words] at h; done) | skip
      · obtain ⟨hmut, hown⟩ : _ ∧ _ := by simpa only [words, List.cons.injEq, and_true, true_and] using h
        rw [ofBool_inj hmut, OwnershipKind.word_inj hown]
      · exact congrArg _ (toUInt64_inj (by simpa [words] using h))
      · exact congrArg _ (by simpa [words] using h)
      · obtain ⟨hown, hmut⟩ : _ ∧ _ := by simpa only [words, List.cons.injEq, and_true, true_and] using h
        rw [ofBool_inj hmut, OwnershipKind.word_inj hown])

section
variable {α β : Type} {tokens : α → List Token} {tokens' : β → List Token}

theorem SameOr.of_ne {a b : α} (h : a ≠ b → ∀ x y, Apart Differ (tokens a ++ x) (tokens b ++ y)) :
    SameOr tokens a b := by
  by_cases hab : a = b
  · exact .inl hab
  · exact .inr (h hab)

/-- One part of a description after the other. -/
theorem SameOr.both {a b : α} {c d : β} : SameOr tokens a b → SameOr tokens' c d →
      SameOr (fun p : α × β => tokens p.1 ++ tokens' p.2) (a, c) (b, d)
  | .inl hab, .inl hcd => .inl (by rw [hab, hcd])
  | .inl hab, .inr hcd => .inr fun x y => by
    simp only [hab, List.append_assoc]
    exact (hcd x y).append _
  | .inr hab, _ => .inr fun x y => by
    simp only [List.append_assoc]
    exact hab _ _

/-- A description is the one of the parts it is made of. -/
theorem SameOr.made {parts : β → List Token} {p q : β} {a b : α} (h : SameOr parts p q)
    (hsame : p = q → a = b := by rintro ⟨⟩; rfl) (ha : tokens a = parts p := by rfl)
    (hb : tokens b = parts q := by rfl) : SameOr tokens a b := by
  rcases h with h | h
  · exact .inl (hsame h)
  · exact .inr fun x y => by rw [ha, hb]; exact h x y

end

theorem text_apart (s t : Text) : SameOr (fun s => [Token.text s]) s t :=
  .of_ne fun h _ _ => Apart.head (.texts h) _ _

/-- A value that can be read back from its word. -/
theorem word_apart {α : Type} {toWord : α → UInt64} (hinj : ∀ {v w}, toWord v = toWord w → v = w)
    (v w : α) : SameOr (fun v => [Token.word (toWord v)]) v w :=
  .of_ne fun h _ _ => Apart.head (.words fun hword => h (hinj hword)) _ _

/-- A word computed from what follows does no harm. -/
theorem counted_apart {α : Type} {tokens : α → List Token} (count : α → UInt64) {a b : α}
    (h : SameOr tokens a b) : SameOr (fun a => Token.word (count a) :: tokens a) a b := by
  rcases h with rfl | h
  · exact .inl rfl
  · refine .inr fun x y => ?_
    by_cases hcount : count a = count b
    · simp only [hcount]
      exact (h x y).cons _
    · exact Apart.head (.words hcount) _ _

theorem discriminant_inj {v v' : Int64} (h : v.toUInt64 = v'.toUInt64) : v = v' := by
  rw [← Int64.toInt64_toUInt64 v, h, Int64.toInt64_toUInt64]

theorem variants_apart : ∀ l l' : List (Text × Int64), SameOr variantTokens l l'
  | [], [] => .inl rfl
  | [], _ :: _ => .inr fun _ _ => Apart.head (.stopped nofun) _ _
  | _ :: _, [] => .inr fun _ _ => Apart.head (.goesOn nofun) _ _
  | (name, discriminant) :: l, (name', discriminant') :: l' =>
    ((text_apart name name').both
      ((word_apart discriminant_inj discriminant discriminant').both (variants_apart l l'))).made

mutual
/-- Two structures are the same, or their descriptions differ whatever comes after. -/
theorem Structure.apart : ∀ a b : Structure, SameOr Structure.tokens a b
  | .leaf kind, b => by
    cases b with
    | leaf kind' => exact (LeafKind.apart kind kind').made
    | _ => exact apart_of_shape nofun
  | .wrap kind inner, b => by
    cases b with
    | wrap kind' inner' =>
      exact ((WrapKind.apart kind kind').both (Structure.apart inner inner')).made
    | _ => exact apart_of_shape nofun
  | .seq kind items, b => by
    cases b with
    | seq kind' items' =>
      exact ((word_apart SeqKind.word_inj kind kind').both (counted_apart (UInt64.ofNat ·.length) (list_apart items items'))).made
    | _ => exact apart_of_shape nofun
  | .call kind first items, b => by
    cases b with
    | call kind' first' items' =>
      exact ((word_apart CallKind.word_inj kind kind').both
        (counted_apart (fun p => UInt64.ofNat p.2.length)
          ((Structure.apart first first').both (list_apart items items')))).made
    | _ => exact apart_of_shape nofun
  | .nominal name target, b => by
    cases b with
    | nominal name' target' =>
      exact ((word_apart id 16 16).both ((text_apart name name').both (Structure.apart target target'))).made
    | _ => exact apart_of_shape nofun
  | .trait name, b => by
    cases b with
    | trait name' => exact ((word_apart id 17 17).both (text_apart name name')).made
    | _ => exact apart_of_shape nofun
  | .genericParam ownerName paramIndex, b => by
    cases b with
    | genericParam ownerName' paramIndex' =>
      exact ((word_apart id 28 28).both
        ((text_apart ownerName ownerName').both (word_apart toUInt64_inj paramIndex paramIndex'))).made
    | _ => exact apart_of_shape nofun
  | .struct module name alignment fields, b => by
    cases b with
    | struct module' name' alignment' fields' =>
      exact ((word_apart id 10 10).both ((text_apart module module').both
        ((text_apart name name').both ((word_apart toUInt64_inj alignment alignment').both
          (fields_apart fields fields'))))).made
    | _ => exact apart_of_shape nofun
  | .enum module name underlying variants, b => by
    cases b with
    | enum module' name' underlying' variants' =>
      exact ((word_apart id 24 24).both ((text_apart module module').both
        ((text_apart name name').both ((Structure.apart underlying underlying').both
          (variants_apart variants variants'))))).made
    | _ => exact apart_of_shape nofun
  | .union module isTagged name members, b => by
    cases b with
    | union module' isTagged' name' members' =>
      exact ((word_apart id 25 25).both ((text_apart module module').both
        ((word_apart ofBool_inj isTagged isTagged').both ((text_apart name name').both
          (list_apart members members'))))).made
    | _ => exact apart_of_shape nofun
termination_by structural a => a

theorem list_apart : ∀ l l' : List Structure, SameOr listTokens l l'
  | [], [] => .inl rfl
  | [], b :: l => .inr fun _ _ => by
    obtain ⟨rest, hb⟩ := b.tokens_head
    simp only [listTokens, hb]
    exact Apart.head (.stopped nofun) _ _
  | a :: l, [] => .inr fun _ _ => by
    obtain ⟨rest, ha⟩ := a.tokens_head
    simp only [listTokens, ha]
    exact Apart.head (.goesOn nofun) _ _
  | a :: l, b :: l' => ((Structure.apart a b).both (list_apart l l')).made
termination_by structural l => l

theorem fields_apart : ∀ l l' : List (Text × Structure), SameOr fieldTokens l l'
  | [], [] => .inl rfl
  | [], _ :: _ => .inr fun _ _ => Apart.head (.stopped nofun) _ _
  | _ :: _, [] => .inr fun _ _ => Apart.head (.goesOn nofun) _ _
  | a :: l, b :: l' => ((field_apart a b).both (fields_apart l l')).made
termination_by structural l => l

theorem field_apart : ∀ a b : Text × Structure, SameOr (fun field => .text field.1 :: pairTokens field) a b
  | (name, type), (name', type') => ((text_apart name name').both (Structure.apart type type')).made
termination_by structural a => a
end

/-! ### The description is what is hashed -/

/-- The bytes of a description. -/
def written (tokens : List Token) : List UInt8 := tokens.flatMap Token.bytes

namespace TypeIntern
variable (T : TypeIntern)

/-- The structure of a type, where it is finite and refers to nothing that is missing. -/
def expand (resolveNamespace : Text → Text) : ℕ → ℕ → Option Structure
  | 0, _ => none
  | depth + 1, current => do
      let self := expand resolveNamespace depth
      match ← T.lookup current with
      | .error => return .leaf .error
      | .never => return .leaf .never
      | .void => return .leaf .void
      | .bool => return .leaf .bool
      | .char => return .leaf .char
      | .int width => return .leaf (.int width)
      | .float width => return .leaf (.float width)
      | .ptr pointee isMut ownership => return .wrap (.ptr isMut ownership) (← self pointee)
      | .array elem count => return .wrap (.array count) (← self elem)
      | .struct defId =>
        let d ← T.structDefs[defId]?
        let fields ← T.canonicalFieldOrder depth d.fields
        let fields ← fields.mapM fun field => do return (field.name, ← self field.type)
        return .struct (resolveNamespace d.definingModule) d.name d.explicitAlignmentBytes fields
      | .fn params ret => return .call .fn (← self ret) (← params.mapM self)
      | .typeVar id => return .leaf (.typeVar id)
      | .optional inner => return .wrap .optional (← self inner)
      | .failable inner => return .wrap .failable (← self inner)
      | .alias target => return .wrap .alias (← self target)
      | .nominal name target => return .nominal name (← self target)
      | .trait name => return .trait name
      | .dyn target methodCount => return .wrap (.dyn methodCount) (← self target)
      | .opaqueUntagged => return .leaf .opaqueUntagged
      | .opaqueTagged => return .leaf .opaqueTagged
      | .unknown => return .leaf .unknown
      | .qualified inner ownership isMut => return .wrap (.qualified ownership isMut) (← self inner)
      | .slice elem => return .wrap .slice (← self elem)
      | .enum defId =>
        let d ← T.enumDefs[defId]?
        return .enum (resolveNamespace d.definingModule) d.name (← self d.underlying)
          (d.variants.map fun variant => (variant.name, variant.discriminant))
      | .union defId =>
        let d := T.getUnionDef defId
        return .union (resolveNamespace d.definingModule) d.isTagged d.name (← d.members.mapM self)
      | .pack members _ => return .seq .pack (← members.mapM self)
      | .sum members => return .seq .sum (← members.mapM self)
      | .genericParam ownerName paramIndex => return .genericParam ownerName paramIndex
      | .incomplete base args => return .call .incomplete (← self base) (← args.mapM self)

end TypeIntern

@[simp] theorem written_append (l l' : List Token) : written (l ++ l') = written l ++ written l' :=
  List.flatMap_append

@[simp] theorem written_cons (t : Token) (l : List Token) : written (t :: l) = t.bytes ++ written l := rfl

@[simp] theorem written_nil : written [] = [] := rfl

theorem mapM_map {α β γ : Type} (f : α → Option β) (g : β → γ) : ∀ l : List α,
    l.mapM (fun a => (f a).map g) = (l.mapM f).map (List.map g)
  | [] => rfl
  | a :: l => by
    rw [List.mapM_cons, List.mapM_cons, mapM_map f g l]
    cases f a with
    | none => rfl
    | some b => cases l.mapM f <;> rfl

theorem written_listTokens : ∀ l : List Structure, written (listTokens l) = (l.map fun s => written s.tokens).flatten
  | [] => by rw [listTokens]; rfl
  | s :: l => by
    rw [listTokens, written_append, written_listTokens l, List.map_cons, List.flatten_cons]

theorem written_fieldTokens : ∀ l : List (Text × Structure),
    written (fieldTokens l) = (l.map fun field => field.1 ++ written field.2.tokens).flatten
  | [] => by rw [fieldTokens]; rfl
  | (name, type) :: l => by
    rw [fieldTokens, pairTokens, written_cons, written_append, written_fieldTokens l, List.map_cons,
      List.flatten_cons, List.append_assoc]
    rfl

theorem written_variantTokens : ∀ l : List EnumVariantDef,
    written (variantTokens (l.map fun variant => (variant.name, variant.discriminant))) =
      l.flatMap fun variant => variant.name ++ TypeIntern.u64 variant.discriminant.toUInt64
  | [] => rfl
  | variant :: l => by
    rw [List.map_cons, variantTokens, written_cons, written_cons, written_variantTokens l,
      List.flatMap_cons, List.append_assoc]
    rfl

namespace TypeIntern
variable {T : TypeIntern} {resolveNamespace : Text → Text}

/-- What is appended for a structure. -/
abbrev spelled (s : Structure) : List UInt8 := written s.tokens

theorem appendAll_map (f : ℕ → Option Structure) (types : List ℕ) : appendAll (fun type => (f type).map spelled) types =
      (types.mapM f).map fun l => written (listTokens l) := by
  rw [appendAll, mapM_map]
  cases types.mapM f with
  | none => rfl
  | some l => exact congrArg some (written_listTokens l).symm

theorem mapM_count {f : ℕ → Option Structure} {types : List ℕ} {l : List Structure}
    (h : types.mapM f = some l) : UInt64.ofNat l.length = count types :=
  congrArg UInt64.ofNat (mapM_eq_some_iff.mp h).length_eq.symm

/-- A struct field and its type, expanded. -/
def expandField (f : ℕ → Option Structure) (field : StructField) : Option (Text × Structure) := do
  return (field.name, ← f field.type)

theorem appendFields_bind (f : ℕ → Option Structure) (fields : List StructField) :
    (fields.mapM fun field : StructField => ((f field.type).map spelled).bind fun bytes => some (field.name ++ bytes)) =
      (fields.mapM (expandField f)).map (List.map fun field => field.1 ++ spelled field.2) := by
  rw [← mapM_map]
  refine congrArg (fun g => fields.mapM g) (funext fun field => ?_)
  rw [expandField]
  cases f field.type <;> rfl

/-- What `appendType` appends is the description of the structure. -/
theorem appendType_eq : ∀ depth type : ℕ,
    T.appendType resolveNamespace depth type = (T.expand resolveNamespace depth type).map spelled
  | 0, _ => rfl
  | depth + 1, type => by
    have ih : T.appendType resolveNamespace depth =
        fun type => (T.expand resolveNamespace depth type).map spelled :=
      funext (appendType_eq depth)
    rw [appendType, expand, ih]
    generalize T.expand resolveNamespace depth = f
    cases hrow : T.lookup type with
    | none => rfl
    | some data =>
      simp only [bind, Option.bind_some, pure]
      cases data <;> simp [spelled, Structure.tokens, LeafKind.words, WrapKind.words, SeqKind.word,
        CallKind.word, Token.bytes, appendAll_map]
      case ptr inner _ _ | array inner _ | optional inner | failable inner | «alias» inner
          | dyn inner _ | qualified inner _ _ | slice inner =>
        cases f inner <;> rfl
      case nominal name target =>
        cases f target <;> simp [spelled, Structure.tokens, Token.bytes]
      case struct defId =>
        cases T.structDefs[defId]? with
        | none => rfl
        | some d =>
          simp only [Option.bind_some]
          cases T.canonicalFieldOrder depth d.fields with
          | none => rfl
          | some fields =>
            rw [Option.bind_some, appendFields_bind f fields]
            change _ = (fields.mapM (expandField f)).bind _
            cases fields.mapM (expandField f) with
            | none => rfl
            | some l => simp [spelled, Structure.tokens, Token.bytes, written_fieldTokens]
      case enum defId =>
        cases T.enumDefs[defId]? with
        | none => rfl
        | some d =>
          cases hunder : f d.underlying with
          | none => simp [hunder]
          | some s => simp [hunder, spelled, written_variantTokens]
      case union defId =>
        cases (T.getUnionDef defId).members.mapM f <;> simp [spelled, Structure.tokens, Token.bytes]
      case pack members _ | sum members =>
        cases hmembers : members.mapM f with
        | none => rfl
        | some l => simp [spelled, Structure.tokens, SeqKind.word, Token.bytes, mapM_count hmembers]
      case fn items first | incomplete first items =>
        cases f first with
        | none => rfl
        | some s =>
          cases hitems : items.mapM f with
          | none => rfl
          | some l => simp [mapM_count hitems]

/-- All that is hashed: the kind, and the description of the structure. -/
theorem canonicalBytes_eq (depth type : ℕ) : T.canonicalBytes resolveNamespace depth type =
    (T.expand resolveNamespace depth type).map fun s => u64 (T.kindOf type) ++ spelled s := by
  rw [canonicalBytes, appendType_eq]
  cases T.expand resolveNamespace depth type <;> rfl

end TypeIntern

/-! ### What the bytes leave open -/

/-- Two tokens at one place whose bytes do not settle which of them was written: a text that continues
    the other one, or the end of a list and something else. -/
def openEnded : Token → Token → Bool
  | .text s, .text t => s.isPrefixOf t || t.isPrefixOf s
  | .stop, _ => true
  | _, .stop => true
  | _, _ => false

/-- The first difference of two structures is one that the bytes leave open. -/
def Ambiguous (a b : Structure) : Prop := firstDifference openEnded a.tokens b.tokens

instance (a b : Structure) : Decidable (Ambiguous a b) :=
  inferInstanceAs (Decidable (firstDifference openEnded a.tokens b.tokens = true))

theorem u64_append_ne {v w : UInt64} (h : v ≠ w) (r r' : List UInt8) :
    TypeIntern.u64 v ++ r ≠ TypeIntern.u64 w ++ r' := by
  intro heq
  obtain ⟨hbytes, -⟩ := List.append_inj heq (by simp [TypeIntern.u64])
  have hnat := congrArg Lib.leNat hbytes
  rw [TypeIntern.u64, TypeIntern.u64, Lib.leNat_leBytes v.toNat_lt, Lib.leNat_leBytes w.toNat_lt] at hnat
  exact h (UInt64.toNat_inj.mp hnat)

theorem bytes_append_ne : ∀ {u v : Token}, Differ u v → openEnded u v = false → ∀ r r' : List UInt8,
    u.bytes ++ r ≠ v.bytes ++ r'
  | _, _, .words h, _, r, r' => u64_append_ne h r r'
  | .text s, .text t, .texts _, hclear, r, r' => fun heq => by
    rw [openEnded, Bool.or_eq_false_iff] at hclear
    have hs : s <+: t ++ r' := heq ▸ List.prefix_append s r
    rcases List.prefix_or_prefix_of_prefix hs (List.prefix_append t r') with h | h
    · exact absurd (List.isPrefixOf_iff_prefix.mpr h) (Bool.eq_false_iff.mp hclear.1)
    · exact absurd (List.isPrefixOf_iff_prefix.mpr h) (Bool.eq_false_iff.mp hclear.2)
  | _, _, .stopped _, hclear, _, _ => by simp [openEnded] at hclear
  | t, _, .goesOn _, hclear, _, _ => by cases t <;> simp [openEnded] at hclear

theorem spelled_ne {s s' : Structure} (hne : s ≠ s') (hclear : ¬Ambiguous s s') :
    TypeIntern.spelled s ≠ TypeIntern.spelled s' := by
  have hapart : Apart Differ s.tokens s'.tokens := by
    simpa using (s.apart s').resolve_left hne [] []
  exact hapart.flatMap_ne openEnded (fun _ _ => bytes_append_ne) (fun _ _ => Differ.ne) (Bool.eq_false_iff.mpr hclear)

/-- Types of different structures have different descriptions, unless the first difference is one that
    the bytes leave open. -/
theorem canonicalBytes_ne {T T' : TypeIntern} {resolveNamespace resolveNamespace' : Text → Text}
    {depth depth' type type' : ℕ} {s s' : Structure} (hs : T.expand resolveNamespace depth type = some s)
    (hs' : T'.expand resolveNamespace' depth' type' = some s') (hne : s ≠ s') (hclear : ¬Ambiguous s s') :
    ∃ bytes bytes', T.canonicalBytes resolveNamespace depth type = some bytes ∧
      T'.canonicalBytes resolveNamespace' depth' type' = some bytes' ∧ bytes ≠ bytes' := by
  refine ⟨_, _, by rw [TypeIntern.canonicalBytes_eq, hs]; rfl,
    by rw [TypeIntern.canonicalBytes_eq, hs']; rfl, ?_⟩
  by_cases hkind : T.kindOf type = T'.kindOf type'
  · rw [hkind]
    exact fun heq => spelled_ne hne hclear (List.append_cancel_left heq)
  · exact u64_append_ne hkind _ _

/-- `struct A {}` and `struct B {}`. -/
def twoStructs : TypeIntern := .build [.defineStruct [0x41], .defineStruct [0x42]]

theorem expand_twoStructs : twoStructs.expand (fun key => key) 1 5 = some (.struct [] [0x41] 0 []) ∧
      twoStructs.expand (fun key => key) 1 6 = some (.struct [] [0x42] 0 []) := ⟨rfl, rfl⟩

theorem canonicalBytes_ne_twoStructs : ∃ bytes bytes', twoStructs.canonicalBytes (fun key => key) 1 5 = some bytes ∧
      twoStructs.canonicalBytes (fun key => key) 1 6 = some bytes' ∧ bytes ≠ bytes' :=
  canonicalBytes_ne expand_twoStructs.1 expand_twoStructs.2 nofun (by decide +kernel)

/-- `struct bS {}` of a module `a`, and `struct S {}` of a module `ab`. -/
def modulesRunOn : TypeIntern :=
  .build [.defineStruct [0x62, 0x53], .setDefiningModule 5 [0x61],
    .defineStruct [0x53], .setDefiningModule 6 [0x61, 0x62]]

theorem canonicalBytes_modulesRunOn :
    modulesRunOn.expand (fun key => key) 1 5 = some (.struct [0x61] [0x62, 0x53] 0 []) ∧
      modulesRunOn.expand (fun key => key) 1 6 = some (.struct [0x61, 0x62] [0x53] 0 []) ∧
      (modulesRunOn.canonicalBytes (fun key => key) 1 5).isSome ∧ modulesRunOn.canonicalBytes (fun key => key) 1 5 =
        modulesRunOn.canonicalBytes (fun key => key) 1 6 := by
  refine ⟨rfl, rfl, rfl, by decide +kernel⟩

end Zith.Types
