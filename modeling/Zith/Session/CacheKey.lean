import Mathlib.Data.List.Sort
import Zith.Frontend.Lexer
import Zith.Lib.Lines
import Zith.Lib.Numeral
import Zith.Session.ModuleCache

/-! The keys of `ModuleCache`. A `CacheKey` is written line by line, the six texts in front of the entries of its lists,
    each with the letter of the list:

        frontend-artifact-v3
        workspaceRoot … sysroot
        I:includeRoot …  S:stdlibRoot …  Y:systemIncludeRoot …  D:cDefine …

    behind it stand, with a separator each, the path of a source and its fingerprint. Nothing in the texts is escaped:
    they can be read back as long as none of them runs over a line. -/

namespace Zith.Session
open Zith.Lib Zith.Frontend

/-! ### The key of a configuration -/

structure CacheKey where
  workspaceRoot : Text
  compilerVersion : Text
  targetTriple : Text
  parseFlags : Text
  visibilityFlags : Text
  sysroot : Text
  includeRoots : List Text
  stdlibRoots : List Text
  systemIncludeRoots : List Text
  cDefines : List Text
  deriving DecidableEq

/-- The configuration, as far as it goes into the key. -/
abbrev FrontendConfig := CacheKey

def stableRoot (canonicalPath : Text → Text) (path : Text) : Text := if path = [] then [] else canonicalPath path

local instance lawfulText : LawfulBEq Text := List.instLawfulBEq

def normalizeRoots (canonicalPath : Text → Text) (roots : List Text) : List Text :=
  roots.foldl (fun normalized root =>
    let canonical := stableRoot canonicalPath root
    if canonical = [] ∨ canonical ∈ normalized then normalized else normalized ++ [canonical]) []

/-- `std::unique`. -/
def unique : List Text → List Text
  | a :: b :: l => if a = b then unique (b :: l) else a :: unique (b :: l)
  | l => l

def FrontendConfig.cacheKey (canonicalPath : Text → Text) (config : FrontendConfig) : CacheKey :=
  { config with
    includeRoots := normalizeRoots canonicalPath config.includeRoots
    stdlibRoots := normalizeRoots canonicalPath config.stdlibRoots
    systemIncludeRoots := normalizeRoots canonicalPath config.systemIncludeRoots
    cDefines := unique (config.cDefines.insertionSort (· ≤ ·)) }

/-! ### The keys of the cache -/

namespace CacheKey

/-- The entries of the lists, each with its letter. -/
def entries (key : CacheKey) : List Text :=
  key.includeRoots.map (text "I:" ++ ·) ++ key.stdlibRoots.map (text "S:" ++ ·) ++
    key.systemIncludeRoots.map (text "Y:" ++ ·) ++ key.cDefines.map (text "D:" ++ ·)

def texts (key : CacheKey) : List Text :=
  [key.workspaceRoot, key.compilerVersion, key.targetTriple, key.parseFlags, key.visibilityFlags, key.sysroot]

def identity (key : CacheKey) : Text :=
  unlines 10 (text "frontend-artifact-v3" :: key.texts) ++ unlines 10 key.entries

end CacheKey

def ContentFingerprint.toString (fingerprint : ContentFingerprint) : Text :=
  digits 16 16 fingerprint.primary.toNat ++ digits 16 16 fingerprint.secondary.toNat

def bucketKey (key : CacheKey) (path : Text) : Text := key.identity ++ 0x1f :: path

def inFlightKey (key : CacheKey) (path : Text) (fingerprint : ContentFingerprint) : Text :=
  bucketKey key path ++ 0x1e :: fingerprint.toString

/-! ### Normalised keys -/

/-- Every root is canonical and occurs once. -/
def NormalRoots (canonicalPath : Text → Text) (roots : List Text) : Prop :=
  roots.Nodup ∧ ∀ root ∈ roots, root ≠ [] ∧ canonicalPath root = root

/-- The roots are normal, and the defines are in order without repetition. -/
structure CacheKey.Normalized (canonicalPath : Text → Text) (key : CacheKey) : Prop where
  includeRoots : NormalRoots canonicalPath key.includeRoots
  stdlibRoots : NormalRoots canonicalPath key.stdlibRoots
  systemIncludeRoots : NormalRoots canonicalPath key.systemIncludeRoots
  defines : key.cDefines.Pairwise fun a b => a ≤ b ∧ a ≠ b

theorem NormalRoots.tail {canonicalPath : Text → Text} {root : Text} {roots : List Text}
    (h : NormalRoots canonicalPath (root :: roots)) : NormalRoots canonicalPath roots :=
  ⟨(List.nodup_cons.mp h.1).2, fun r hr => h.2 r (List.mem_cons_of_mem root hr)⟩

variable {canonicalPath : Text → Text}

theorem NormalRoots.concat {root : Text} {roots : List Text} (h : NormalRoots canonicalPath roots)
    (hnew : root ∉ roots) (hne : root ≠ []) (hroot : canonicalPath root = root) :
    NormalRoots canonicalPath (roots ++ [root]) := by
  refine ⟨List.nodup_append.mpr ⟨h.1, List.nodup_singleton root, fun a ha b hb hab => ?_⟩, fun r hr => ?_⟩
  · obtain rfl := List.mem_singleton.mp hb
    exact hnew (hab ▸ ha)
  · rcases List.mem_append.mp hr with hr | hr
    · exact h.2 r hr
    · obtain rfl := List.mem_singleton.mp hr
      exact ⟨hne, hroot⟩

theorem normalizeRoots_normal (hidem : ∀ p, canonicalPath (canonicalPath p) = canonicalPath p)
    (roots : List Text) : NormalRoots canonicalPath (normalizeRoots canonicalPath roots) := by
  rw [normalizeRoots]
  refine List.foldlRecOn roots _ (motive := NormalRoots canonicalPath) ⟨List.nodup_nil, nofun⟩ ?_
  intro normalized hnormal root _
  dsimp only
  split_ifs with hskip
  · exact hnormal
  · obtain ⟨hne, hnew⟩ := not_or.mp hskip
    have hpath : root ≠ [] := fun h => hne (by rw [stableRoot, if_pos h])
    exact hnormal.concat hnew hne (by rw [stableRoot, if_neg hpath, hidem])

theorem mem_of_mem_unique {a : Text} : ∀ {l : List Text}, a ∈ unique l → a ∈ l
  | [], h | [_], h => h
  | b :: c :: l, h => by
    rw [unique] at h
    split_ifs at h with hbc
    · exact List.mem_cons_of_mem b (mem_of_mem_unique h)
    · rcases List.mem_cons.mp h with rfl | h
      · exact List.mem_cons_self
      · exact List.mem_cons_of_mem b (mem_of_mem_unique h)

theorem unique_increasing : ∀ {l : List Text}, l.Pairwise (· ≤ ·) → (unique l).Pairwise fun a b => a ≤ b ∧ a ≠ b
  | [], _ => List.Pairwise.nil
  | [a], _ => List.pairwise_singleton _ a
  | a :: b :: l, h => by
    obtain ⟨hle, h⟩ := List.pairwise_cons.mp h
    rw [unique]
    split_ifs with hab
    · exact unique_increasing h
    · refine List.pairwise_cons.mpr ⟨fun c hc => ?_, unique_increasing h⟩
      have hc := mem_of_mem_unique hc
      refine ⟨hle c hc, ?_⟩
      rintro rfl
      rcases List.mem_cons.mp hc with hac | hc
      · exact hab hac
      · exact hab (List.le_antisymm (hle b List.mem_cons_self) ((List.pairwise_cons.mp h).1 a hc))

/-- `cacheKey` normalises, if the canonical path of a canonical path is the path itself. -/
theorem FrontendConfig.normalized_cacheKey (hidem : ∀ p, canonicalPath (canonicalPath p) = canonicalPath p)
    (config : FrontendConfig) : (config.cacheKey canonicalPath).Normalized canonicalPath where
  includeRoots := normalizeRoots_normal hidem _
  stdlibRoots := normalizeRoots_normal hidem _
  systemIncludeRoots := normalizeRoots_normal hidem _
  defines := unique_increasing (List.pairwise_insertionSort _ _)

theorem normalized_cacheKey_repeated : (FrontendConfig.cacheKey id ⟨[], [], [], [], [], [], [[47], [47]], [], [],
    [[66], [65], [66]]⟩).Normalized id := FrontendConfig.normalized_cacheKey (fun _ => rfl) _

/-! ### Reading a key back -/

/-- No text of the key runs over a line. -/
def CacheKey.OneLine (key : CacheKey) : Prop :=
  ∀ t ∈ key.texts ++ key.includeRoots ++ key.stdlibRoots ++ key.systemIncludeRoots ++ key.cDefines, (10 : UInt8) ∉ t

theorem letters : text "I:" = [73, 58] ∧ text "S:" = [83, 58] ∧ text "Y:" = [89, 58] ∧ text "D:" = [68, 58] := by
  decide +kernel

/-- The entries of the list with a letter. -/
def tagged (letter : UInt8) (entries : List Text) : List Text :=
  entries.filterMap fun entry => if entry.head? = some letter then some (entry.drop 2) else none

theorem tagged_append (letter : UInt8) (entries entries' : List Text) :
    tagged letter (entries ++ entries') = tagged letter entries ++ tagged letter entries' :=
  List.filterMap_append

theorem tagged_map (letter other : UInt8) (list : List Text) :
    tagged letter (list.map ([other, 58] ++ ·)) = if other = letter then list else [] := by
  rw [tagged, List.filterMap_map]
  split_ifs with h
  · subst h
    induction list with
    | nil => rfl
    | cons t list ih => simp
  · exact List.filterMap_eq_nil_iff.mpr fun t _ => by simp [h]

namespace CacheKey

theorem tagged_entries (key : CacheKey) :
    tagged 73 key.entries = key.includeRoots ∧ tagged 83 key.entries = key.stdlibRoots ∧
    tagged 89 key.entries = key.systemIncludeRoots ∧ tagged 68 key.entries = key.cDefines := by
  obtain ⟨hi, hs, hy, hd⟩ := letters
  simp only [entries, hi, hs, hy, hd, tagged_append, tagged_map]
  simp

theorem entries_inj {key key' : CacheKey} (h : key.entries = key'.entries) :
    key.includeRoots = key'.includeRoots ∧ key.stdlibRoots = key'.stdlibRoots ∧
    key.systemIncludeRoots = key'.systemIncludeRoots ∧ key.cDefines = key'.cDefines := by
  obtain ⟨hi, hs, hy, hd⟩ := key.tagged_entries
  obtain ⟨hi', hs', hy', hd'⟩ := key'.tagged_entries
  rw [← hi, ← hs, ← hy, ← hd, h]
  exact ⟨hi', hs', hy', hd'⟩

theorem OneLine.texts {key : CacheKey} (h : key.OneLine) : ∀ t ∈ key.texts, (10 : UInt8) ∉ t :=
  fun t ht => h t (by simp [ht])

/-- Each entry is a line that begins with its letter. -/
theorem OneLine.entries {key : CacheKey} (h : key.OneLine) :
    ∀ entry ∈ key.entries, (10 : UInt8) ∉ entry ∧ entry.head? ≠ some 0x1f := by
  obtain ⟨hi, hs, hy, hd⟩ := letters
  intro entry hentry
  simp only [CacheKey.entries, hi, hs, hy, hd, List.mem_append, List.mem_map] at hentry
  rcases hentry with ((⟨t, ht, rfl⟩ | ⟨t, ht, rfl⟩) | ⟨t, ht, rfl⟩) | ⟨t, ht, rfl⟩
  all_goals
    have hline : (10 : UInt8) ∉ t := h t (by simp [ht])
    simp [hline]

theorem OneLine.bucketKey_inj {key key' : CacheKey} (h : key.OneLine) (h' : key'.OneLine) {path path' : Text}
    (heq : bucketKey key path = bucketKey key' path') : key = key' ∧ path = path' := by
  have hheader : (10 : UInt8) ∉ text "frontend-artifact-v3" := by decide +kernel
  rw [bucketKey, bucketKey, identity, identity, List.append_assoc, List.append_assoc] at heq
  have hlen : (text "frontend-artifact-v3" :: key.texts).length = (text "frontend-artifact-v3" :: key'.texts).length := rfl
  obtain ⟨htexts, heq⟩ := unlines_inj hlen (List.forall_mem_cons.mpr ⟨hheader, h.texts⟩)
    (List.forall_mem_cons.mpr ⟨hheader, h'.texts⟩) heq
  obtain ⟨hentries, hpath⟩ := unlines_stop_inj (by decide) h.entries h'.entries heq
  obtain ⟨hi, hs, hy, hd⟩ := entries_inj hentries
  refine ⟨?_, hpath⟩
  cases key
  cases key'
  simp_all [CacheKey.texts]

end CacheKey

theorem ContentFingerprint.toString_inj {f f' : ContentFingerprint} (h : f.toString = f'.toString) : f = f' := by
  have hlen : ∀ w n, (digits 16 w n).length = w := by
    intro w
    induction w with
    | zero => exact fun _ => rfl
    | succ w ih => simp [digits, ih]
  have hnumber : ∀ v w : UInt64, digits 16 16 v.toNat = digits 16 16 w.toNat → v = w := by
    intro v w hvw
    have hv : number 16 0 (digits 16 16 v.toNat) = some v.toNat := number_digits (by decide) le_rfl 16 v.toNat v.toNat_lt
    rw [hvw, number_digits (by decide) le_rfl 16 w.toNat w.toNat_lt] at hv
    exact UInt64.toNat_inj.mp (Option.some.inj hv).symm
  obtain ⟨hprimary, hsecondary⟩ := List.append_inj h (by rw [hlen, hlen])
  cases f
  cases f'
  exact congrArg₂ _ (hnumber _ _ hprimary) (hnumber _ _ hsecondary)

/-- A fingerprint is written without the separator in front of it. -/
theorem ContentFingerprint.not_mem_toString (f : ContentFingerprint) : (0x1e : UInt8) ∉ f.toString := by
  have hdigits : ∀ w n, (0x1e : UInt8) ∉ digits 16 w n := by
    intro w n hmem
    obtain ⟨v, hv, heq⟩ := mem_digits (by decide) hmem
    have hall : ∀ v < 16, (0x1e : UInt8) ≠ digitByte v := by decide
    exact hall v hv heq
  rw [toString, List.mem_append]
  rintro (h | h)
  · exact hdigits _ _ h
  · exact hdigits _ _ h

theorem inFlightKey_inj {key key' : CacheKey} {path path' : Text} {f f' : ContentFingerprint}
    (h : inFlightKey key path f = inFlightKey key' path' f') : bucketKey key path = bucketKey key' path' ∧ f = f' := by
  have hreverse := congrArg List.reverse h
  simp only [inFlightKey, List.reverse_append, List.reverse_cons, List.append_assoc, List.singleton_append] at hreverse
  obtain ⟨hf, hbucket⟩ := line_inj (fun hmem => f.not_mem_toString (List.mem_reverse.mp hmem))
    (fun hmem => f'.not_mem_toString (List.mem_reverse.mp hmem)) hreverse
  exact ⟨List.reverse_injective hbucket, ContentFingerprint.toString_inj (List.reverse_injective hf)⟩

/-! ### Texts that run over a line -/

namespace CacheKey
variable {canonicalPath : Text → Text}

theorem unlines_entry (t entry : Text) (entries : List Text) :
    unlines 10 [t ++ 10 :: entry] ++ unlines 10 entries = unlines 10 [t] ++ unlines 10 (entry :: entries) := by
  simp

/-- The first entry of a list may as well be the end of the sysroot. -/
theorem identity_entry {key key' : CacheKey} {entry : Text} (hentries : key.entries = entry :: key'.entries)
    (htexts : key.texts = key'.texts.dropLast ++ [key.sysroot])
    (hsysroot : key'.texts = key'.texts.dropLast ++ [key.sysroot ++ 10 :: entry]) : key'.identity = key.identity := by
  rw [identity, identity, hentries, htexts, hsysroot, List.dropLast_concat, ← List.cons_append, ← List.cons_append,
    unlines_append, unlines_append, List.append_assoc, List.append_assoc, unlines_entry]

theorem ne_append (t rest : Text) : t ++ 10 :: rest ≠ t := by
  intro h
  have hlen := congrArg List.length h
  simp at hlen

/-- A key with an entry has the identity of a key that has the entry in its sysroot. -/
theorem exists_collision_of_entry {key : CacheKey} (key' : CacheKey) {entry : Text} (hkey' : key'.Normalized canonicalPath)
    (hentries : key.entries = entry :: key'.entries) (htexts : key.texts = key'.texts.dropLast ++ [key.sysroot])
    (hsysroot : key'.texts = key'.texts.dropLast ++ [key.sysroot ++ 10 :: entry]) :
    ∃ key' : CacheKey, key'.Normalized canonicalPath ∧ key' ≠ key ∧ key'.identity = key.identity := by
  refine ⟨key', hkey', ?_, identity_entry hentries htexts hsysroot⟩
  rintro rfl
  rw [htexts] at hsysroot
  have hlast := List.append_cancel_left hsysroot
  simp at hlast

/-- A key whose text runs over a line has the identity of another key. -/
theorem exists_collision {key : CacheKey} (hkey : key.Normalized canonicalPath) (hlines : ¬key.OneLine) :
    ∃ key' : CacheKey, key'.Normalized canonicalPath ∧ key' ≠ key ∧ key'.identity = key.identity := by
  obtain ⟨root, version, target, parse, visibility, sysroot, includes, stdlib, system, defines⟩ := key
  obtain ⟨hincludes, hstdlib, hsystem, hdefines⟩ := hkey
  dsimp only at hincludes hstdlib hsystem hdefines
  have hnil : NormalRoots canonicalPath [] := ⟨List.nodup_nil, nofun⟩
  -- the first entry of all
  rcases includes with _ | ⟨entry, includes⟩
  on_goal 2 =>
    exact exists_collision_of_entry ⟨root, version, target, parse, visibility, sysroot ++ 10 :: (text "I:" ++ entry),
      includes, stdlib, system, defines⟩ ⟨hincludes.tail, hstdlib, hsystem, hdefines⟩ rfl rfl rfl
  rcases stdlib with _ | ⟨entry, stdlib⟩
  on_goal 2 =>
    exact exists_collision_of_entry ⟨root, version, target, parse, visibility, sysroot ++ 10 :: (text "S:" ++ entry),
      [], stdlib, system, defines⟩ ⟨hnil, hstdlib.tail, hsystem, hdefines⟩ rfl rfl rfl
  rcases system with _ | ⟨entry, system⟩
  on_goal 2 =>
    exact exists_collision_of_entry ⟨root, version, target, parse, visibility, sysroot ++ 10 :: (text "Y:" ++ entry),
      [], [], system, defines⟩ ⟨hnil, hnil, hsystem.tail, hdefines⟩ rfl rfl rfl
  rcases defines with _ | ⟨entry, defines⟩
  on_goal 2 =>
    exact exists_collision_of_entry ⟨root, version, target, parse, visibility, sysroot ++ 10 :: (text "D:" ++ entry),
      [], [], [], defines⟩ ⟨hnil, hnil, hnil, (List.pairwise_cons.mp hdefines).2⟩ rfl rfl rfl
  -- no entry: one of the six texts, which shares its lines with a neighbour
  have hnormal : ∀ {k : CacheKey}, k.entries = [] → k.Normalized canonicalPath := by
    intro k hk
    obtain ⟨hi, hs, hy, hd⟩ := k.tagged_entries
    rw [hk] at hi hs hy hd
    exact ⟨hi ▸ hnil, hs ▸ hnil, hy ▸ hnil, hd ▸ List.Pairwise.nil⟩
  obtain ⟨t, ht, hline⟩ : ∃ t ∈ [root, version, target, parse, visibility, sysroot], (10 : UInt8) ∈ t := by
    simpa [OneLine, texts, imp_iff_not_or] using hlines
  obtain ⟨a, b, rfl⟩ := List.append_of_mem hline
  simp only [List.mem_cons, List.not_mem_nil, or_false] at ht
  rcases ht with rfl | rfl | rfl | rfl | rfl | rfl
  · exact ⟨⟨a, b ++ 10 :: version, target, parse, visibility, sysroot, [], [], [], []⟩, hnormal rfl,
      fun h => ne_append a b (congrArg workspaceRoot h).symm, by simp [identity, texts, entries]⟩
  · exact ⟨⟨root ++ 10 :: a, b, target, parse, visibility, sysroot, [], [], [], []⟩, hnormal rfl,
      fun h => ne_append root a (congrArg workspaceRoot h), by simp [identity, texts, entries]⟩
  · exact ⟨⟨root, version ++ 10 :: a, b, parse, visibility, sysroot, [], [], [], []⟩, hnormal rfl,
      fun h => ne_append version a (congrArg compilerVersion h), by simp [identity, texts, entries]⟩
  · exact ⟨⟨root, version, target ++ 10 :: a, b, visibility, sysroot, [], [], [], []⟩, hnormal rfl,
      fun h => ne_append target a (congrArg targetTriple h), by simp [identity, texts, entries]⟩
  · exact ⟨⟨root, version, target, parse ++ 10 :: a, b, sysroot, [], [], [], []⟩, hnormal rfl,
      fun h => ne_append parse a (congrArg parseFlags h), by simp [identity, texts, entries]⟩
  · exact ⟨⟨root, version, target, parse, visibility ++ 10 :: a, b, [], [], [], []⟩, hnormal rfl,
      fun h => ne_append visibility a (congrArg visibilityFlags h), by simp [identity, texts, entries]⟩

end CacheKey

/-- Keys whose texts stay in their lines are told apart, with any path and fingerprint. A key whose text runs over a
    line is not: some other key stands for the same entries of the cache. -/
theorem bucketKey_separates (canonicalPath : Text → Text) :
    (∀ (key key' : CacheKey) (path path' : Text), key.OneLine → key'.OneLine →
      (bucketKey key path = bucketKey key' path' → key = key' ∧ path = path') ∧
      ∀ f f' : ContentFingerprint, inFlightKey key path f = inFlightKey key' path' f' →
        key = key' ∧ path = path' ∧ f = f') ∧
    ∀ key : CacheKey, key.Normalized canonicalPath → ¬key.OneLine → ∃ key' : CacheKey, key'.Normalized canonicalPath ∧
      key' ≠ key ∧ ∀ (path : Text) (f : ContentFingerprint), bucketKey key' path = bucketKey key path ∧
        inFlightKey key' path f = inFlightKey key path f := by
  refine ⟨fun key key' path path' h h' => ⟨h.bucketKey_inj h', fun f f' heq => ?_⟩, fun key hkey hlines => ?_⟩
  · obtain ⟨hbucket, hf⟩ := inFlightKey_inj heq
    obtain ⟨hkey, hpath⟩ := h.bucketKey_inj h' hbucket
    exact ⟨hkey, hpath, hf⟩
  · obtain ⟨key', hkey', hne, hidentity⟩ := CacheKey.exists_collision hkey hlines
    exact ⟨key', hkey', hne, fun path f => by simp only [inFlightKey, bucketKey, hidentity, and_self]⟩

/-- A configuration with these defines. -/
def withDefines (cDefines : List Text) : CacheKey := ⟨[], [], [], [], [], [], [], [], [], cDefines⟩

theorem bucketKey_separates_plain : ((withDefines []).OneLine ∧ (withDefines [text "A=1"]).OneLine) ∧
    bucketKey (withDefines []) [] ≠ bucketKey (withDefines [text "A=1"]) [] ∧
    ((withDefines [text "A=1\nD:B=2"]).Normalized id ∧ ¬(withDefines [text "A=1\nD:B=2"]).OneLine) ∧
    ∃ key, key ≠ withDefines [text "A=1\nD:B=2"] ∧ bucketKey key [] = bucketKey (withDefines [text "A=1\nD:B=2"]) [] := by
  have hnil : NormalRoots id [] := ⟨List.nodup_nil, nofun⟩
  have hplain : (withDefines []).OneLine ∧ (withDefines [text "A=1"]).OneLine := by
    unfold CacheKey.OneLine
    decide +kernel
  have hnormal : (withDefines [text "A=1\nD:B=2"]).Normalized id := ⟨hnil, hnil, hnil, List.pairwise_singleton _ _⟩
  have hlines : ¬(withDefines [text "A=1\nD:B=2"]).OneLine := by
    unfold CacheKey.OneLine
    decide +kernel
  refine ⟨hplain, fun heq => ?_, ⟨hnormal, hlines⟩, ?_⟩
  · have hkeys := (((bucketKey_separates id).1 _ _ [] [] hplain.1 hplain.2).1 heq).1
    exact List.cons_ne_nil _ _ (congrArg CacheKey.cDefines hkeys).symm
  · obtain ⟨key, -, hne, hkey⟩ := (bucketKey_separates id).2 _ hnormal hlines
    exact ⟨key, hne, (hkey [] ⟨0, 0⟩).1⟩

/-- A define with a define in its second line, and two defines. -/
theorem bucketKey_defines :
    (withDefines [text "A=1\nD:B=2"]).Normalized id ∧ (withDefines [text "A=1", text "B=2"]).Normalized id ∧
    withDefines [text "A=1\nD:B=2"] ≠ withDefines [text "A=1", text "B=2"] ∧ ∀ (path : Text) (f : ContentFingerprint),
      bucketKey (withDefines [text "A=1\nD:B=2"]) path = bucketKey (withDefines [text "A=1", text "B=2"]) path ∧
      inFlightKey (withDefines [text "A=1\nD:B=2"]) path f = inFlightKey (withDefines [text "A=1", text "B=2"]) path f := by
  have hnil : NormalRoots id [] := ⟨List.nodup_nil, nofun⟩
  have hidentity : (withDefines [text "A=1\nD:B=2"]).identity = (withDefines [text "A=1", text "B=2"]).identity := by
    decide +kernel
  have hdefines : (withDefines [text "A=1", text "B=2"]).Normalized id := by
    refine ⟨hnil, hnil, hnil, ?_⟩
    decide +kernel
  refine ⟨⟨hnil, hnil, hnil, List.pairwise_singleton _ _⟩, hdefines, fun h => ?_, fun path f => ?_⟩
  · have hlen := congrArg (fun key => key.cDefines.length) h
    exact absurd hlen (by decide)
  · simp only [inFlightKey, bucketKey, hidentity, and_self]

end Zith.Session
