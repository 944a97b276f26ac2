import Zith.Zirl.Reader
import Zith.Zirl.Writer

/-! Corruption of one byte. A round of FNV-1a is an exclusive or and a multiplication by an odd number, so
    it loses neither the hash nor the byte; the checksum of the parts sees a change of one byte of one of
    them. The reader compares it before it decodes a payload. -/

namespace Zith.Zirl
open Zith.Lib

/-! ### The checksum -/

theorem mul_prime_injective : Function.Injective fun v : UInt32 => v * 0x01000193 := by
  intro v w h
  have hinverse : (0x01000193 : UInt32) * 0x359c449b = 1 := by decide
  have hmul := congrArg (· * (0x359c449b : UInt32)) h
  simpa only [UInt32.mul_assoc, hinverse, UInt32.mul_one] using hmul

theorem xor_left_injective (v : UInt32) : Function.Injective (v ^^^ ·) := fun w w' h => by
  have hxor := congrArg (v ^^^ ·) h
  simpa only [← UInt32.xor_assoc, UInt32.xor_self, UInt32.zero_xor] using hxor

theorem xor_right_injective (v : UInt32) : Function.Injective (· ^^^ v) := fun w w' h =>
  xor_left_injective v (by simpa only [UInt32.xor_comm] using h)

theorem fnv1aStep_state (byte : UInt8) : Function.Injective (fnv1aStep · byte) :=
  mul_prime_injective.comp (xor_right_injective byte.toUInt32)

theorem fnv1aStep_byte (hash : UInt32) : Function.Injective (fnv1aStep hash) := fun a b h => by
  have hword : a.toUInt32 = b.toUInt32 := xor_left_injective hash (mul_prime_injective h)
  have hnat := congrArg UInt32.toNat hword
  rw [UInt8.toNat_toUInt32, UInt8.toNat_toUInt32] at hnat
  exact UInt8.toNat_inj.mp hnat

/-- Two byte strings that differ in one byte. -/
def OneByte (l l' : List UInt8) : Prop := ∃ p a b q, l = p ++ a :: q ∧ l' = p ++ b :: q ∧ a ≠ b

/-- Two lists of parts that differ in one byte of one part. -/
def OnePart (l l' : List (List UInt8)) : Prop := ∃ p s s' q, l = p ++ s :: q ∧ l' = p ++ s' :: q ∧ OneByte s s'

theorem fnv1a32_ne {l l' : List UInt8} : OneByte l l' → fnv1a32 l ≠ fnv1a32 l'
  | ⟨p, a, b, q, hl, hl', h⟩ => by
    rw [hl, hl']
    exact foldl_element_ne fnv1aStep_state fnv1aStep_byte h _ p q

variable {l l' : List (List UInt8)} {pos : ℕ}

theorem checksumOf_ne : OnePart l l' → checksumOf l ≠ checksumOf l'
  | ⟨p, s, s', q, hl, hl', h⟩ => by
    rw [checksumOf, checksumOf, hl, hl', List.map_append, List.map_append, List.map_cons, List.map_cons]
    exact combineAll_ne 0 xor_left_injective xor_right_injective (fnv1a32_ne h) _ _

theorem checksumOf_perm (h : l.Perm l') : checksumOf l = checksumOf l' := by
  have : LeftCommutative (fun v w : UInt32 => v ^^^ w) :=
    ⟨fun a b c => by rw [← UInt32.xor_assoc, UInt32.xor_comm a b, UInt32.xor_assoc]⟩
  exact combineAll_perm 0 (h.map fnv1a32)

theorem OnePart.cons {l l' : List (List UInt8)} (s : List UInt8) : OnePart l l' → OnePart (s :: l) (s :: l')
  | ⟨p, t, t', q, hl, hl', h⟩ => ⟨s :: p, t, t', q, by rw [hl]; rfl, by rw [hl']; rfl, h⟩

theorem OnePart.append_left {l l' : List (List UInt8)} (h : OnePart l l') : ∀ p : List (List UInt8),
    OnePart (p ++ l) (p ++ l')
  | [] => h
  | s :: p => (h.append_left p).cons s

theorem OnePart.append_right (q : List (List UInt8)) : OnePart l l' → OnePart (l ++ q) (l' ++ q)
  | ⟨p, s, s', r, hl, hl', h⟩ => ⟨p, s, s', r ++ q, by rw [hl, List.append_assoc]; rfl,
      by rw [hl', List.append_assoc]; rfl, h⟩

theorem OnePart.head {s s' : List UInt8} (h : OneByte s s') (q : List (List UInt8)) :
    OnePart (s :: q) (s' :: q) := ⟨[], s, s', q, rfl, rfl, h⟩

/-! ### The bytes -/

theorem oneByte_set {l : List UInt8} {i : ℕ} {b : UInt8} (hi : i < l.length) (hb : l[i]? ≠ some b) :
    OneByte l (l.set i b) := by
  refine ⟨l.take i, l[i], b, l.drop (i + 1), ?_, ?_, fun heq => hb ?_⟩
  · rw [← List.drop_eq_getElem_cons hi, List.take_append_drop]
  · exact List.set_eq_take_append_cons_drop .. |>.trans (if_pos hi)
  · rw [List.getElem?_eq_getElem hi, heq]

/-- A byte of the middle of three pieces. -/
theorem set_middle {x m y : List UInt8} (b : UInt8) (hlow : x.length ≤ pos) (hhigh : pos < x.length + m.length) :
    (x ++ (m ++ y)).set pos b = x ++ (m.set (pos - x.length) b ++ y) := by
  rw [List.set_append_right _ _ hlow, List.set_append_left _ _ (by omega)]

theorem getElem?_middle {x m y : List UInt8} (hlow : x.length ≤ pos) (hhigh : pos < x.length + m.length) :
    (x ++ (m ++ y))[pos]? = m[pos - x.length]? := by
  rw [List.getElem?_append_right hlow, List.getElem?_append_left (by omega)]

/-! ### Where content lies -/

/-- A range of positions: where it starts, and its length. -/
def InRange (pos : ℕ) (range : ℕ × ℕ) : Prop := range.1 ≤ pos ∧ pos < range.1 + range.2

instance (pos : ℕ) (range : ℕ × ℕ) : Decidable (InRange pos range) :=
  inferInstanceAs (Decidable (range.1 ≤ pos ∧ pos < range.1 + range.2))

/-- The paths and keys of dependency records that start at `start`. -/
def dependencyRanges : ℕ → List DependencyRecord → List (ℕ × ℕ)
  | _, [] => []
  | start, d :: deps =>
    (start + 4, d.canonicalPath.length) ::
      (start + 4 + d.canonicalPath.length + 4, d.importKey.length) ::
      dependencyRanges (start + (writeDependency d).length) deps

def stringRanges (f : Front) : List (ℕ × ℕ) :=
  [(96, f.canonicalPath.length), (96 + f.canonicalPath.length, f.moduleName.length),
    (96 + f.canonicalPath.length + f.moduleName.length, f.profileName.length)]

def stringsEnd (f : Front) : ℕ := 96 + f.canonicalPath.length + f.moduleName.length + f.profileName.length

def payloadRanges (f : Front) : List (ℕ × ℕ) := f.entries.map fun e => (e.offset.toNat, e.size.toNat)

/-- A position inside the canonical path, the module name, the profile name, a dependency path or key,
    or a section payload. -/
def ContentPosition (bytes : List UInt8) (pos : ℕ) : Prop :=
  ∃ f rest, readFront bytes.length bytes = some (f, rest) ∧
    ∃ range ∈ stringRanges f ++ (dependencyRanges (stringsEnd f) f.deps ++ payloadRanges f), InRange pos range

/-! ### A byte of a dependency record -/

/-- Dependency records of the same lengths. -/
def SameShape (d d' : DependencyRecord) : Prop :=
  d'.canonicalPath.length = d.canonicalPath.length ∧ d'.importKey.length = d.importKey.length

theorem SameShape.length_eq {d d' : DependencyRecord} (h : SameShape d d') :
    (writeDependency d').length = (writeDependency d).length := by
  simp only [writeDependency, writeBlob, List.length_append, writeCount_length, writeU32_length, h.1, h.2]

theorem corrupted_dependency {d : DependencyRecord} {x y : List UInt8} {b : UInt8}
    (hpos : InRange pos (x.length + 4, d.canonicalPath.length) ∨
      InRange pos (x.length + 4 + d.canonicalPath.length + 4, d.importKey.length))
    (hb : (x ++ (writeDependency d ++ y))[pos]? ≠ some b) :
    ∃ d', (x ++ (writeDependency d ++ y)).set pos b = x ++ (writeDependency d' ++ y) ∧ SameShape d d' ∧
      OnePart (dependencyParts d) (dependencyParts d') := by
  rcases hpos with ⟨hlow, hhigh⟩ | ⟨hlow, hhigh⟩
  · have hsplit : ∀ path : List UInt8, path.length = d.canonicalPath.length →
        x ++ (writeDependency { d with canonicalPath := path } ++ y) =
          (x ++ writeCount d.canonicalPath.length) ++ (path ++ (writeBlob d.importKey ++
            (writeU32 d.publicAbiHi ++ (writeU32 d.publicAbiLo ++ y)))) := by
      intro path hpath
      simp only [writeDependency, writeBlob, hpath, List.append_assoc]
    have hsame := hsplit d.canonicalPath rfl
    have hx : (x ++ writeCount d.canonicalPath.length).length = x.length + 4 := by simp
    rw [hsame, getElem?_middle (by omega) (by omega)] at hb
    refine ⟨{ d with canonicalPath := d.canonicalPath.set (pos - (x.length + 4)) b }, ?_, ⟨?_, rfl⟩, ?_⟩
    · rw [hsame, set_middle b (by omega) (by omega), hx, hsplit _ (List.length_set ..)]
    · exact List.length_set ..
    · rw [hx] at hb
      exact OnePart.head (oneByte_set (by omega) hb) _
  · have hsplit : ∀ key : List UInt8, key.length = d.importKey.length →
        x ++ (writeDependency { d with importKey := key } ++ y) =
          (x ++ (writeBlob d.canonicalPath ++ writeCount d.importKey.length)) ++ (key ++
            (writeU32 d.publicAbiHi ++ (writeU32 d.publicAbiLo ++ y))) := by
      intro key hkey
      simp only [writeDependency, writeBlob, hkey, List.append_assoc]
    have hsame := hsplit d.importKey rfl
    have hx : (x ++ (writeBlob d.canonicalPath ++ writeCount d.importKey.length)).length =
        x.length + 4 + d.canonicalPath.length + 4 := by
      simp only [writeBlob, List.length_append, writeCount_length]
      omega
    rw [hsame, getElem?_middle (by omega) (by omega)] at hb
    refine ⟨{ d with importKey := d.importKey.set (pos - (x.length + 4 + d.canonicalPath.length + 4)) b },
      ?_, ⟨rfl, ?_⟩, ?_⟩
    · rw [hsame, set_middle b (by omega) (by omega), hx, hsplit _ (List.length_set ..)]
    · exact List.length_set ..
    · rw [hx] at hb
      exact (OnePart.head (oneByte_set (by omega) hb) _).cons _

theorem corrupted_dependencies {pos : ℕ} {b : UInt8} : ∀ {deps : List DependencyRecord}
    {x y : List UInt8}, (∃ range ∈ dependencyRanges x.length deps, InRange pos range) →
    (x ++ (deps.flatMap writeDependency ++ y))[pos]? ≠ some b →
    ∃ deps', (x ++ (deps.flatMap writeDependency ++ y)).set pos b = x ++ (deps'.flatMap writeDependency ++ y) ∧
      List.Forall₂ SameShape deps deps' ∧ OnePart (deps.flatMap dependencyParts) (deps'.flatMap dependencyParts)
  | [], _, _, ⟨_, hmem, _⟩, _ => absurd hmem (List.not_mem_nil)
  | d :: deps, x, y, ⟨range, hmem, hpos⟩, hb => by
    have hrefl : List.Forall₂ SameShape deps deps := List.forall₂_same.mpr fun _ _ => ⟨rfl, rfl⟩
    rw [List.flatMap_cons, List.append_assoc] at hb ⊢
    rcases List.mem_cons.mp hmem with rfl | hmem
    · obtain ⟨d', hset, hshape, hpart⟩ := corrupted_dependency (.inl hpos) hb
      exact ⟨d' :: deps, by rw [hset, List.flatMap_cons, List.append_assoc], .cons hshape hrefl, hpart.append_right _⟩
    rcases List.mem_cons.mp hmem with rfl | hmem
    · obtain ⟨d', hset, hshape, hpart⟩ := corrupted_dependency (.inr hpos) hb
      exact ⟨d' :: deps, by rw [hset, List.flatMap_cons, List.append_assoc], .cons hshape hrefl, hpart.append_right _⟩
    · rw [← List.length_append] at hmem
      rw [← List.append_assoc x] at hb ⊢
      obtain ⟨deps', hset, hshape, hpart⟩ := corrupted_dependencies ⟨range, hmem, hpos⟩ hb
      refine ⟨d :: deps', ?_, .cons ⟨rfl, rfl⟩ hshape, hpart.append_left _⟩
      rw [hset, List.flatMap_cons]
      simp only [List.append_assoc]

/-! ### A byte of the front -/

/-- The parts of the checksum that lie in the front. -/
def frontParts (f : Front) : List (List UInt8) :=
  [f.canonicalPath, f.moduleName, f.profileName] ++ f.deps.flatMap dependencyParts

/-- Fronts of one header and one table, whose strings and dependencies have the same lengths. -/
structure SameFrame (f f' : Front) : Prop where
  header : f'.header = f.header
  entries : f'.entries = f.entries
  path : f'.canonicalPath.length = f.canonicalPath.length
  module : f'.moduleName.length = f.moduleName.length
  profile : f'.profileName.length = f.profileName.length
  deps : List.Forall₂ SameShape f.deps f'.deps

theorem SameFrame.of_deps {f : Front} {deps : List DependencyRecord} (h : List.Forall₂ SameShape f.deps deps) :
    SameFrame f { f with deps := deps } := ⟨rfl, rfl, rfl, rfl, rfl, h⟩

theorem SameShape.dependencies_length_eq : ∀ {deps deps' : List DependencyRecord}, List.Forall₂ SameShape deps deps' →
      (deps'.flatMap writeDependency).length = (deps.flatMap writeDependency).length
  | _, _, .nil => rfl
  | _, _, .cons h hs => by
    rw [List.flatMap_cons, List.flatMap_cons, List.length_append, List.length_append, h.length_eq,
      dependencies_length_eq hs]

theorem SameShape.fits {deps deps' : List DependencyRecord} (hshape : List.Forall₂ SameShape deps deps')
    (hfits : ∀ d ∈ deps, FitsU32 d.canonicalPath ∧ FitsU32 d.importKey) :
    ∀ d ∈ deps', FitsU32 d.canonicalPath ∧ FitsU32 d.importKey := by
  induction hshape with
  | nil => exact fun _ hd => absurd hd List.not_mem_nil
  | cons h _ ih =>
    obtain ⟨hd, hds⟩ := List.forall_mem_cons.mp hfits
    refine List.forall_mem_cons.mpr ⟨?_, ih hds⟩
    rwa [FitsU32, FitsU32, h.1, h.2]

theorem isEmpty_congr {l l' : List UInt8} (h : l'.length = l.length) : l'.isEmpty = l.isEmpty := by
  rw [Bool.eq_iff_iff, List.isEmpty_iff_length_eq_zero, List.isEmpty_iff_length_eq_zero, h]

theorem SameFrame.frontTail_length {f f' : Front} (h : SameFrame f f') :
    (frontTail f').length = (frontTail f).length := by
  simp only [frontTail, List.length_append, h.path, h.module, h.profile, h.entries,
    SameShape.dependencies_length_eq h.deps]

theorem SameFrame.frontOk {f f' : Front} {size : ℕ} (h : SameFrame f f') (hok : FrontOk f size) : FrontOk f' size where
  accepted := h.header ▸ hok.accepted
  pathLength := by rw [h.path, h.header, hok.pathLength]
  moduleLength := by rw [h.module, h.header, hok.moduleLength]
  profileLength := by rw [h.profile, h.header, hok.profileLength]
  named := by rw [isEmpty_congr h.path, isEmpty_congr h.profile, hok.named]
  depCount := by rw [← h.deps.length_eq, h.header, hok.depCount]
  depsFit := SameShape.fits h.deps hok.depsFit
  sectionCount := by rw [h.entries, h.header, hok.sectionCount]
  headerSize := by rw [h.header, h.frontTail_length, hok.headerSize]
  entries := by rw [h.header, h.entries, hok.entries]

theorem corrupted_frontTail {f : Front} {x rest : List UInt8} {b : UInt8} (hx : x.length = 96)
    (hpos : ∃ range ∈ stringRanges f ++ dependencyRanges (stringsEnd f) f.deps, InRange pos range)
    (hb : (x ++ (frontTail f ++ rest))[pos]? ≠ some b) :
    ∃ f', (x ++ (frontTail f ++ rest)).set pos b = x ++ (frontTail f' ++ rest) ∧ SameFrame f f' ∧
      OnePart (frontParts f) (frontParts f') := by
  have hrefl : List.Forall₂ SameShape f.deps f.deps := List.forall₂_same.mpr fun _ _ => ⟨rfl, rfl⟩
  obtain ⟨range, hmem, hpos⟩ := hpos
  rcases List.mem_append.mp hmem with hmem | hmem
  · simp only [stringRanges, List.mem_cons, List.not_mem_nil, or_false] at hmem
    rcases hmem with rfl | rfl | rfl <;> obtain ⟨hlow, hhigh⟩ := hpos
    · have hsplit : ∀ path, x ++ (frontTail { f with canonicalPath := path } ++ rest) =
          x ++ (path ++ (f.moduleName ++ (f.profileName ++ (f.deps.flatMap writeDependency ++
            (f.entries.flatMap writeEntry ++ rest))))) := by
        intro path
        simp only [frontTail, List.append_assoc]
      have hsame := hsplit f.canonicalPath
      rw [hsame, getElem?_middle (by omega) (by omega)] at hb
      refine ⟨{ f with canonicalPath := f.canonicalPath.set (pos - x.length) b }, ?_,
        ⟨rfl, rfl, List.length_set .., rfl, rfl, hrefl⟩, OnePart.head (oneByte_set (by omega) hb) _⟩
      rw [hsame, set_middle b (by omega) (by omega), hsplit]
    · have hsplit : ∀ module, x ++ (frontTail { f with moduleName := module } ++ rest) =
          (x ++ f.canonicalPath) ++ (module ++ (f.profileName ++ (f.deps.flatMap writeDependency ++
            (f.entries.flatMap writeEntry ++ rest)))) := by
        intro module
        simp only [frontTail, List.append_assoc]
      have hsame := hsplit f.moduleName
      have hlen : (x ++ f.canonicalPath).length = 96 + f.canonicalPath.length := by simp [hx]
      rw [hsame, getElem?_middle (by omega) (by omega)] at hb
      refine ⟨{ f with moduleName := f.moduleName.set (pos - (x ++ f.canonicalPath).length) b }, ?_,
        ⟨rfl, rfl, rfl, List.length_set .., rfl, hrefl⟩,
        (OnePart.head (oneByte_set (by omega) hb) _).cons _⟩
      rw [hsame, set_middle b (by omega) (by omega), hsplit]
    · have hsplit : ∀ profile, x ++ (frontTail { f with profileName := profile } ++ rest) =
          (x ++ (f.canonicalPath ++ f.moduleName)) ++ (profile ++ (f.deps.flatMap writeDependency ++
            (f.entries.flatMap writeEntry ++ rest))) := by
        intro profile
        simp only [frontTail, List.append_assoc]
      have hsame := hsplit f.profileName
      have hlen : (x ++ (f.canonicalPath ++ f.moduleName)).length =
          96 + f.canonicalPath.length + f.moduleName.length := by
        simp only [List.length_append, hx]
        omega
      rw [hsame, getElem?_middle (by omega) (by omega)] at hb
      refine ⟨{ f with profileName :=
          f.profileName.set (pos - (x ++ (f.canonicalPath ++ f.moduleName)).length) b }, ?_,
        ⟨rfl, rfl, rfl, rfl, List.length_set .., hrefl⟩,
        ((OnePart.head (oneByte_set (by omega) hb) _).cons _).cons _⟩
      rw [hsame, set_middle b (by omega) (by omega), hsplit]
  · have hsplit : ∀ deps, x ++ (frontTail { f with deps := deps } ++ rest) =
        (x ++ (f.canonicalPath ++ (f.moduleName ++ f.profileName))) ++ (deps.flatMap writeDependency ++
          (f.entries.flatMap writeEntry ++ rest)) := by
      intro deps
      simp only [frontTail, List.append_assoc]
    have hsame := hsplit f.deps
    have hlen : (x ++ (f.canonicalPath ++ (f.moduleName ++ f.profileName))).length = stringsEnd f := by
      simp only [List.length_append, hx, stringsEnd]
      omega
    rw [hsame] at hb ⊢
    rw [← hlen] at hmem
    obtain ⟨deps', hset, hshape, hpart⟩ := corrupted_dependencies ⟨range, hmem, hpos⟩ hb
    exact ⟨{ f with deps := deps' }, by rw [hset, hsplit], .of_deps hshape, hpart.append_left _⟩

end Zith.Zirl

/-! A container with one byte of content changed is not read. The front is still decoded, with the same
    header and the same table; so the sections lie where they did, one part of the checksum differs in one
    byte, and the checksum is not the one in the header. -/

namespace Zith.Zirl
open Zith.Lib Zith.Lib.Reader

/-! ### The ranges of the front -/

theorem dependencyRanges_le : ∀ {deps : List DependencyRecord} {start : ℕ} {range : ℕ × ℕ},
    range ∈ dependencyRanges start deps → range.1 + range.2 ≤ start + (deps.flatMap writeDependency).length
  | [], _, _, h => absurd h List.not_mem_nil
  | d :: deps, start, range, h => by
    have hlen : (writeDependency d).length = 4 + d.canonicalPath.length + (4 + d.importKey.length) + 8 := by
      simp only [writeDependency, writeBlob, List.length_append, writeCount_length, writeU32_length]
      omega
    rw [List.flatMap_cons, List.length_append]
    rcases List.mem_cons.mp h with rfl | h
    · omega
    rcases List.mem_cons.mp h with rfl | h
    · omega
    · have := dependencyRanges_le h
      omega

variable {bytes : List UInt8} {f : Front}

theorem frontRanges_le {range : ℕ × ℕ} (h : range ∈ stringRanges f ++ dependencyRanges (stringsEnd f) f.deps) :
    range.1 + range.2 ≤ 96 + (frontTail f).length := by
  have hlen : (frontTail f).length = f.canonicalPath.length + f.moduleName.length + f.profileName.length +
      (f.deps.flatMap writeDependency).length + (f.entries.flatMap writeEntry).length := by
    simp only [frontTail, List.length_append]
    omega
  rcases List.mem_append.mp h with h | h
  · simp only [stringRanges, List.mem_cons, List.not_mem_nil, or_false] at h
    rcases h with rfl | rfl | rfl <;> omega
  · have := dependencyRanges_le h
    rw [stringsEnd] at this
    omega

/-! ### A byte of a payload -/

/-- Two entries one of which ends before the other starts. -/
def Apart (e e' : SectionEntry) : Prop :=
  e.offset.toNat + e.size.toNat ≤ e'.offset.toNat ∨ e'.offset.toNat + e'.size.toNat ≤ e.offset.toNat

theorem placedEnd_ordered : ∀ {views : List SectionView} {start stop : ℕ}, placedEnd start views = some stop →
      (∀ v ∈ views, start ≤ offsetOf v ∧ offsetOf v + v.entry.size.toNat ≤ stop) ∧ start ≤ stop ∧
      views.Pairwise fun v w => v.entry.offset.toNat + v.entry.size.toNat ≤ w.entry.offset.toNat
  | [], _, _, h => ⟨by simp, (Option.some.inj h).le, .nil⟩
  | v :: views, start, stop, h => by
    rw [placedEnd] at h
    split at h
    · cases h
    next hstart =>
      obtain ⟨hbounds, hstop, hordered⟩ := placedEnd_ordered h
      refine ⟨List.forall_mem_cons.mpr ⟨⟨Nat.le_of_not_lt hstart, hstop⟩, fun w hw => ?_⟩, by omega,
        List.pairwise_cons.mpr ⟨fun w hw => (hbounds w hw).1, hordered⟩⟩
      have hw := hbounds w hw
      exact ⟨by omega, hw.2⟩

/-- The sections of an accepted container lie apart, behind the header and before the end. -/
theorem framed_apart {sort : KeySort offsetOf} {views : List SectionView}
    (h : framedSections sort bytes f = some views) :
    f.entries.Pairwise Apart ∧ ∀ e ∈ f.entries, f.header.headerSize.toNat ≤ e.offset.toNat ∧
      e.offset.toNat + e.size.toNat ≤ bytes.length := by
  obtain ⟨hviews, -, hplaced, -⟩ := framedSections_eq_some h
  obtain ⟨hbounds, -, hordered⟩ := placedEnd_ordered hplaced
  have hperm : views.Perm (f.entries.map (viewOf bytes)) := hviews ▸ sort.perm _
  constructor
  · have hapart : views.Pairwise fun v w => Apart v.entry w.entry := hordered.imp fun hle => .inl hle
    have hentries := hapart.perm hperm fun h => Or.symm h
    rw [List.pairwise_map] at hentries
    exact hentries
  · intro e he
    exact hbounds _ (hperm.symm.subset (List.mem_map_of_mem he))

theorem payload_set_outside {e : SectionEntry} {pos : ℕ} (b : UInt8)
    (h : ¬ InRange pos (e.offset.toNat, e.size.toNat)) :
    (viewOf (bytes.set pos b) e).payload = (viewOf bytes e).payload := by
  by_cases hlow : pos < e.offset.toNat
  · rw [viewOf, viewOf, List.drop_set_of_lt hlow]
  · have hhigh : e.size.toNat ≤ pos - e.offset.toNat := by
      simp only [InRange] at h
      omega
    rw [viewOf, viewOf, List.drop_set, if_neg hlow, List.take_set_of_le hhigh]

theorem payload_set_inside {e : SectionEntry} {pos : ℕ} {b : UInt8} (hpos : InRange pos (e.offset.toNat, e.size.toNat))
    (hfits : e.offset.toNat + e.size.toNat ≤ bytes.length) (hb : bytes[pos]? ≠ some b) :
    OneByte (viewOf bytes e).payload (viewOf (bytes.set pos b) e).payload := by
  obtain ⟨hlow, hhigh⟩ := hpos
  have hset : (viewOf (bytes.set pos b) e).payload =
      (viewOf bytes e).payload.set (pos - e.offset.toNat) b := by
    rw [viewOf, viewOf, List.drop_set, if_neg (by omega), List.take_set]
  rw [hset]
  refine oneByte_set ?_ ?_
  · rw [viewOf, List.length_take, List.length_drop]
    omega
  · rw [viewOf, List.getElem?_take_of_lt (by omega), List.getElem?_drop, Nat.add_sub_of_le hlow]
    exact hb

theorem corrupted_payloads {bytes : List UInt8} {pos : ℕ} {b : UInt8} (hb : bytes[pos]? ≠ some b) :
    ∀ {entries : List SectionEntry}, entries.Pairwise Apart →
      (∀ e ∈ entries, e.offset.toNat + e.size.toNat ≤ bytes.length) →
      (∃ e ∈ entries, InRange pos (e.offset.toNat, e.size.toNat)) →
      OnePart (entries.map fun e => (viewOf bytes e).payload)
        (entries.map fun e => (viewOf (bytes.set pos b) e).payload)
  | [], _, _, ⟨_, hmem, _⟩ => absurd hmem List.not_mem_nil
  | e :: entries, hapart, hfits, ⟨e', hmem, hpos⟩ => by
    obtain ⟨hhead, hapart⟩ := List.pairwise_cons.mp hapart
    obtain ⟨hfit, hfits⟩ := List.forall_mem_cons.mp hfits
    rw [List.map_cons, List.map_cons]
    by_cases hin : InRange pos (e.offset.toNat, e.size.toNat)
    · have hrest : (entries.map fun e => (viewOf (bytes.set pos b) e).payload) =
          entries.map fun e => (viewOf bytes e).payload := by
        refine List.map_congr_left fun w hw => payload_set_outside b fun hw' => ?_
        have := hhead w hw
        simp only [Apart, InRange] at this hin hw'
        omega
      rw [hrest]
      exact OnePart.head (payload_set_inside hin hfit hb) _
    · have hmem' : e' ∈ entries := (List.mem_cons.mp hmem).resolve_left fun heq => hin (heq ▸ hpos)
      rw [payload_set_outside b hin]
      exact (corrupted_payloads hb hapart hfits ⟨e', hmem', hpos⟩).cons _

/-! ### The container -/

/-- All the checksum covers, in the order of the section table. -/
def contentParts (f : Front) (bytes : List UInt8) : List (List UInt8) :=
  frontParts f ++ f.entries.map fun e => (viewOf bytes e).payload

/-- The order of the sections does not matter to the checksum. -/
theorem framed_checksum (sort : KeySort offsetOf) (f : Front) (bytes : List UInt8) :
    checksumDependenciesAndSections f (sort.run (f.entries.map (viewOf bytes))) =
      checksumOf (contentParts f bytes) := by
  have hperm := ((sort.perm (f.entries.map (viewOf bytes))).map fun v => v.payload).append_left (frontParts f)
  rw [List.map_map] at hperm
  rw [checksumDependenciesAndSections, checksumParts, ← List.append_assoc]
  exact checksumOf_perm hperm

theorem read_eq_none {bytes rest : List UInt8} (hfront : readFront bytes.length bytes = some (f, rest))
    (hsum : checksumOf (contentParts f bytes) ≠ f.header.checksum) (sort : KeySort offsetOf) :
    Reader.read sort bytes = none := by
  refine Option.eq_none_iff_forall_ne_some.mpr fun a ha => ?_
  obtain ⟨f', rest', views, declared, hfront', hviews, -⟩ := Reader.read_eq_some ha
  obtain ⟨rfl, rfl⟩ := Prod.mk.inj (Option.some.inj (hfront.symm.trans hfront'))
  obtain ⟨rfl, -, -, hchecked⟩ := framedSections_eq_some hviews
  exact hsum ((framed_checksum sort f bytes).symm.trans hchecked)

/-- A changed byte of content leaves the header and the table, and changes one part of the checksum. -/
theorem corrupted_content {sort : KeySort offsetOf} {rest : List UInt8} {views : List SectionView}
    (hfront : readFront bytes.length bytes = some (f, rest))
    (hviews : framedSections sort bytes f = some views) {pos : ℕ} {b : UInt8} {range : ℕ × ℕ}
    (hmem : range ∈ stringRanges f ++ (dependencyRanges (stringsEnd f) f.deps ++ payloadRanges f))
    (hpos : InRange pos range) (hb : bytes[pos]? ≠ some b) :
    ∃ f' rest', readFront (bytes.set pos b).length (bytes.set pos b) = some (f', rest') ∧
      f'.header = f.header ∧ OnePart (contentParts f bytes) (contentParts f' (bytes.set pos b)) := by
  obtain ⟨hapart, hfits⟩ := framed_apart hviews
  obtain ⟨hok, x, hx, hbytes, hread⟩ := readFront_eq_some hfront
  have hsize := hok.headerSize
  rw [← List.append_assoc] at hmem
  rcases List.mem_append.mp hmem with hmem | hmem
  · -- in the front: every payload starts behind it
    rw [hbytes] at hb
    obtain ⟨f', hset, hsame, hpart⟩ := corrupted_frontTail hx ⟨range, hmem, hpos⟩ hb
    rw [← hbytes] at hset
    have hlow : pos < f.header.headerSize.toNat := by
      have := frontRanges_le hmem
      simp only [InRange] at hpos
      omega
    have hpayloads : (f'.entries.map fun e => (viewOf (bytes.set pos b) e).payload) =
        f.entries.map fun e => (viewOf bytes e).payload := by
      rw [hsame.entries]
      refine List.map_congr_left fun e he => payload_set_outside b fun hin => ?_
      have := (hfits e he).1
      simp only [InRange] at hin
      omega
    refine ⟨f', rest, ?_, hsame.header, ?_⟩
    · rw [List.length_set, hset]
      refine readFront_of_frontOk (hsame.frontOk hok) hx ?_ (hsame.header ▸ hread)
      rw [← hset, List.length_set]
    · rw [contentParts, contentParts, hpayloads]
      exact hpart.append_right _
  · -- in a payload: the front is what it was
    obtain ⟨e, he, rfl⟩ := List.mem_map.mp hmem
    have hhigh : (x ++ frontTail f).length ≤ pos := by
      have := (hfits e he).1
      simp only [InRange] at hpos
      rw [List.length_append, hx]
      omega
    have hset : bytes.set pos b = x ++ (frontTail f ++ rest.set (pos - (x ++ frontTail f).length) b) := by
      rw [hbytes, ← List.append_assoc, List.set_append_right _ _ hhigh, List.append_assoc]
    refine ⟨f, rest.set (pos - (x ++ frontTail f).length) b, ?_, rfl, ?_⟩
    · rw [List.length_set, hset]
      refine readFront_of_frontOk hok hx ?_ hread
      rw [← hset, List.length_set]
    · refine OnePart.append_left ?_ _
      exact corrupted_payloads hb hapart (fun e he => (hfits e he).2) ⟨e, he, hpos⟩

/-- A change of one byte of content is rejected. -/
theorem read_corrupted {sort : KeySort offsetOf} {bytes : List UInt8} {a : Cache.Artifact}
    (h : Reader.read sort bytes = some a) {pos : ℕ} (hpos : ContentPosition bytes pos) {b : UInt8}
    (hb : bytes[pos]? ≠ some b) (sort' : KeySort offsetOf) : Reader.read sort' (bytes.set pos b) = none := by
  obtain ⟨f, rest, views, declared, hfront, hviews, -⟩ := Reader.read_eq_some h
  obtain ⟨f₀, rest₀, hfront₀, range, hmem, hrange⟩ := hpos
  obtain ⟨rfl, rfl⟩ := Prod.mk.inj (Option.some.inj (hfront.symm.trans hfront₀))
  obtain ⟨f', rest', hfront', hheader, hpart⟩ := corrupted_content hfront hviews hmem hrange hb
  refine read_eq_none hfront' (fun hsum => checksumOf_ne hpart ?_) sort'
  obtain ⟨rfl, -, -, hchecked⟩ := framedSections_eq_some hviews
  rw [hsum, hheader, ← hchecked, framed_checksum]

theorem read_corrupted_path : Reader.read (stableSort offsetOf) (smallContainer.set 96 0) = none := by
  have hread : (Reader.read (stableSort offsetOf) smallContainer).isSome = true := by decide +kernel
  have hfront : (readFront smallContainer.length smallContainer).any (fun r =>
      decide (InRange 96 (96, r.1.canonicalPath.length))) = true := by decide +kernel
  obtain ⟨a, ha⟩ := Option.isSome_iff_exists.mp hread
  obtain ⟨⟨f, rest⟩, hf, hpos⟩ := (Option.any_eq_true _ _).mp hfront
  have hcontent : ContentPosition smallContainer 96 :=
    ⟨f, rest, hf, (96, f.canonicalPath.length), by simp [stringRanges], of_decide_eq_true hpos⟩
  exact read_corrupted ha hcontent (by decide +kernel) (stableSort offsetOf)

end Zith.Zirl
