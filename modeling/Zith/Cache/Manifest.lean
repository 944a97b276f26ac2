import Mathlib.Algebra.Group.Nat.Defs
import Mathlib.Data.List.Perm.Subperm

/-! `cache::Manifest`: the entries by path, the reverse dependency relation, and the text file both are
    saved in. A record is one line: six fields separated by `\x1f`, then `\x1e`, then the dependencies
    separated by `\x1d`. Strings are byte strings.

        save   escapeField on every string, `\` before `\n`, `\x1e` and `\x1f`
        load   getline, find `\x1e`, split on `\x1f` and `\x1d`, and only then unescapeField
-/

namespace Zith.Cache

abbrev Bytes := List UInt8

/-- `\n`, `\x1d`, `\x1e`, `\x1f` and the backslash. -/
def newline : UInt8 := 0x0a
def depSep : UInt8 := 0x1d
def recordSep : UInt8 := 0x1e
def fieldSep : UInt8 := 0x1f
def backslash : UInt8 := 0x5c

structure ManifestEntry where
  canonicalPath : Bytes
  artifactPath : Bytes := []
  publicAbiHi : UInt32 := 0
  publicAbiLo : UInt32 := 0
  sourceFpHi : UInt32 := 0
  sourceFpLo : UInt32 := 0
  dependencies : List Bytes := []
deriving DecidableEq

/-! ### Fields -/

/-- The bytes `escapeField` puts a backslash before. -/
def escaped (c : UInt8) : Bool := c == newline || c == fieldSep || c == recordSep

def escapeField : Bytes → Bytes
  | [] => []
  | c :: cs => if escaped c then backslash :: c :: escapeField cs else c :: escapeField cs

def unescapeField : Bytes → Bytes
  | [] => []
  | [c] => [c]
  | c :: d :: cs => if c == backslash then d :: unescapeField cs else c :: unescapeField (d :: cs)

def hexDigit (n : Nat) : UInt8 := UInt8.ofNat (if n < 10 then 48 + n else 87 + n)

/-- The `w` low-order hex digits of `n`. -/
def hexDigits : Nat → Nat → Bytes
  | 0, _ => []
  | w + 1, n => hexDigits w (n / 16) ++ [hexDigit (n % 16)]

/-- `std::hex << std::setfill('0') << std::setw(8) << v`. -/
def writeHex32 (v : UInt32) : Bytes := hexDigits 8 v.toNat

def hexValue (c : UInt8) : Option Nat :=
  if 48 ≤ c.toNat ∧ c.toNat ≤ 57 then some (c.toNat - 48)
  else if 97 ≤ c.toNat ∧ c.toNat ≤ 102 then some (c.toNat - 87)
  else if 65 ≤ c.toNat ∧ c.toNat ≤ 70 then some (c.toNat - 55)
  else none

/-- The number a string of hex digits stands for, read after `acc`. -/
def hexNumber (acc : Nat) : Bytes → Option Nat
  | [] => some acc
  | c :: cs => do hexNumber (16 * acc + (← hexValue c)) cs

/-- `std::from_chars` in base 16 that has to succeed and to consume everything. -/
def parseHex32 (text : Bytes) : Option UInt32 :=
  if text.isEmpty then none else do
    let n ← hexNumber 0 text
    if n < 2 ^ 32 then some (UInt32.ofNat n) else none

/-! ### Manifests -/

/-- The entries have distinct paths; a pair `(dep, path)` says that `path` imports `dep`. -/
structure Manifest where
  byPath : List ManifestEntry := []
  reverseDeps : List (Bytes × Bytes) := []

namespace Manifest

def find (m : Manifest) (canonicalPath : Bytes) : Option ManifestEntry :=
  m.byPath.find? fun e => e.canonicalPath == canonicalPath

/-- `by_path_[entry.canonical_path] = entry`. -/
def put (entries : List ManifestEntry) (entry : ManifestEntry) : List ManifestEntry :=
  match entries with
  | [] => [entry]
  | e :: rest => if e.canonicalPath == entry.canonicalPath then entry :: rest else e :: put rest entry

/-- `reverse_deps_[dep].insert(canonical_path)` for every dependency. -/
def addDeps (reverse : List (Bytes × Bytes)) (entry : ManifestEntry) : List (Bytes × Bytes) :=
  entry.dependencies.foldl (fun reverse dep => reverse.insert (dep, entry.canonicalPath)) reverse

/-- `reverse_deps_[dep].erase(canonical_path)` for every dependency. -/
def dropDeps (reverse : List (Bytes × Bytes)) (entry : ManifestEntry) : List (Bytes × Bytes) :=
  entry.dependencies.foldl (fun reverse dep => reverse.filter fun pair => pair != (dep, entry.canonicalPath)) reverse

/-- The relation without the dependencies of the entry of a path, if there is one. -/
def detach (m : Manifest) (canonicalPath : Bytes) : List (Bytes × Bytes) :=
  match m.find canonicalPath with
  | some existing => dropDeps m.reverseDeps existing
  | none => m.reverseDeps

def upsert (m : Manifest) (entry : ManifestEntry) : Manifest :=
  { byPath := put m.byPath entry
    reverseDeps := addDeps (m.detach entry.canonicalPath) entry }

end Manifest

/-! ### The file -/

/-- The line of a record, without its newline. -/
def writeLine (e : ManifestEntry) : Bytes :=
  [fieldSep].intercalate [escapeField e.canonicalPath, escapeField e.artifactPath,
    writeHex32 e.publicAbiHi, writeHex32 e.publicAbiLo, writeHex32 e.sourceFpHi,
    writeHex32 e.sourceFpLo] ++
  recordSep :: [depSep].intercalate (e.dependencies.map escapeField)

/-- `Manifest::save`, of the entries in the order the map iterates them. -/
def save (entries : List ManifestEntry) : Bytes := entries.flatMap fun e => writeLine e ++ [newline]

/-- The lines `std::getline` gives; `line` is what was read of the current one. -/
def getLines (line : Bytes) : Bytes → List Bytes
  | [] => if line.isEmpty then [] else [line]
  | c :: cs => if c == newline then line :: getLines [] cs else getLines (line ++ [c]) cs

/-- The part before the first `\x1e`. -/
def lineHeader (raw : Bytes) : Bytes := raw.takeWhile fun c => c != recordSep

/-- The part after the first `\x1e`. -/
def lineDeps (raw : Bytes) : Bytes := (raw.dropWhile fun c => c != recordSep).tail

def parseDeps (deps : Bytes) : List Bytes := ((deps.splitOn depSep).filter fun d => !d.isEmpty).map unescapeField

/-- The record of a line; `none` where the loop of `load` goes on with the next line. -/
def parseLine (raw : Bytes) : Option ManifestEntry :=
  match (lineHeader raw).splitOn fieldSep with
  | path :: artifact :: abiHi :: abiLo :: fpHi :: fpLo :: _ => do
      let publicAbiHi ← parseHex32 abiHi
      let publicAbiLo ← parseHex32 abiLo
      let sourceFpHi ← parseHex32 fpHi
      let sourceFpLo ← parseHex32 fpLo
      return { canonicalPath := unescapeField path
               artifactPath := unescapeField artifact
               publicAbiHi, publicAbiLo, sourceFpHi, sourceFpLo
               dependencies := parseDeps (lineDeps raw) }
  | _ => none

/-- One round of the loop of `Manifest::load`. -/
def loadLine (m : Manifest) (raw : Bytes) : Manifest :=
  match parseLine raw with
  | none => m
  | some entry =>
    { byPath := Manifest.put m.byPath entry
      reverseDeps := Manifest.addDeps m.reverseDeps entry }

/-- `Manifest::load` into an empty manifest. An empty line has no six fields. -/
def load (file : Bytes) : Manifest := (getLines [] file).foldl loadLine {}

/-! ### Field round trips -/

/-- Every backslash is the last byte or stands before a byte that is escaped. -/
def undisturbed : Bytes → Bool
  | c :: d :: cs => (c != backslash || escaped d) && undisturbed (d :: cs)
  | _ => true

variable {c : UInt8}

theorem ne_backslash_of_escaped (h : escaped c = true) : c ≠ backslash := by
  rintro rfl
  revert h
  decide

/-- A byte other than a backslash is read as it is. -/
theorem unescapeField_cons (hc : c ≠ backslash) : ∀ cs : Bytes, unescapeField (c :: cs) = c :: unescapeField cs
  | [] => rfl
  | d :: cs => by simp [unescapeField, hc]

theorem unescapeField_backslash (d : UInt8) (cs : Bytes) :
    unescapeField (backslash :: d :: cs) = d :: unescapeField cs := by
  simp [unescapeField]

theorem undisturbed_cons (hc : c ≠ backslash) : ∀ cs : Bytes, undisturbed (c :: cs) = undisturbed cs
  | [] => rfl
  | d :: cs => by simp [undisturbed, hc]

/-- An undisturbed field comes back; of any other one bytes are lost. -/
theorem unescapeField_escapeField : ∀ s : Bytes, if undisturbed s then unescapeField (escapeField s) = s
    else (unescapeField (escapeField s)).length < s.length
  | [] => rfl
  | c :: cs => by
    by_cases hc : c = backslash
    · subst hc
      have hplain : escaped backslash = false := by decide
      match cs with
      | [] => rfl
      | d :: ds =>
        have ih := unescapeField_escapeField ds
        by_cases hd : escaped d = true
        · have hne := ne_backslash_of_escaped hd
          simp only [escapeField, hplain, hd, Bool.false_eq_true, if_false, if_true,
            unescapeField_backslash, unescapeField_cons hne, undisturbed, bne_self_eq_false,
            Bool.false_or, Bool.true_and, undisturbed_cons hne]
          split <;> rename_i h <;> simp only [h, if_true, Bool.false_eq_true, if_false] at ih
          · rw [ih]
          · simpa using ih
        · -- the backslash takes the next byte with it
          have hle : (unescapeField (escapeField ds)).length ≤ ds.length := by
            split at ih
            · exact Nat.le_of_eq (congrArg List.length ih)
            · exact Nat.le_of_lt ih
          simp only [escapeField, hplain, hd, Bool.false_eq_true, if_false,
            unescapeField_backslash, undisturbed, bne_self_eq_false, Bool.false_or,
            Bool.false_and, List.length_cons]
          omega
    · have ih := unescapeField_escapeField cs
      rw [undisturbed_cons hc]
      have hread : unescapeField (escapeField (c :: cs)) = c :: unescapeField (escapeField cs) := by
        by_cases he : escaped c = true
        · simp [escapeField, he, unescapeField_backslash]
        · simp [escapeField, he, unescapeField_cons hc]
      rw [hread]
      split <;> rename_i h <;> simp only [h, if_true, Bool.false_eq_true, if_false] at ih
      · rw [ih]
      · simpa using ih

theorem unescapeField_escapeField_length_le (s : Bytes) : (unescapeField (escapeField s)).length ≤ s.length := by
  have h := unescapeField_escapeField s
  split at h
  · exact Nat.le_of_eq (congrArg List.length h)
  · exact Nat.le_of_lt h

theorem unescapeField_escapeField_eq {s : Bytes} (h : undisturbed s = true) : unescapeField (escapeField s) = s := by
  have hs := unescapeField_escapeField s
  rwa [if_pos h] at hs

theorem undisturbed_of_length {s : Bytes} (h : (unescapeField (escapeField s)).length = s.length) :
    undisturbed s = true := by
  have hs := unescapeField_escapeField s
  split at hs
  · assumption
  · omega

/-- Escaping adds backslashes only. -/
theorem mem_escapeField {c : UInt8} : ∀ {s : Bytes}, c ≠ backslash → c ∈ escapeField s → c ∈ s
  | [], _, h => h
  | d :: ds, hc, h => by
    have ih := fun h => mem_escapeField (s := ds) hc h
    simp only [escapeField] at h
    split at h <;> simp only [List.mem_cons] at h ⊢
    · rcases h with h | h | h
      · exact absurd h hc
      · exact .inl h
      · exact .inr (ih h)
    · exact h.imp_right ih

theorem mem_unescapeField {c : UInt8} : ∀ {s : Bytes}, c ∈ unescapeField s → c ∈ s
  | [], h => h
  | [_], h => h
  | d :: e :: cs, h => by
    simp only [unescapeField] at h
    split at h
    · rcases List.mem_cons.mp h with rfl | h
      · exact .tail _ (.head _)
      · exact .tail _ (.tail _ (mem_unescapeField h))
    · rcases List.mem_cons.mp h with rfl | h
      · exact .head _
      · exact .tail _ (mem_unescapeField h)

theorem unescapeField_ne_nil : ∀ {s : Bytes}, s ≠ [] → unescapeField s ≠ []
  | [], h => h
  | [_], h => h
  | c :: d :: cs, _ => by
    simp only [unescapeField]
    split <;> exact List.cons_ne_nil _ _

theorem escapeField_ne_nil : ∀ {s : Bytes}, s ≠ [] → escapeField s ≠ []
  | [], h => h
  | c :: cs, _ => by
    simp only [escapeField]
    split <;> exact List.cons_ne_nil _ _

/-! ### Hash words -/

theorem hexValue_hexDigit {n : Nat} (h : n < 16) : hexValue (hexDigit n) = some n := by
  revert n
  decide

theorem hexNumber_append (cs ds : Bytes) : ∀ acc : Nat,
    hexNumber acc (cs ++ ds) = (hexNumber acc cs).bind fun n => hexNumber n ds := by
  induction cs with
  | nil => exact fun _ => rfl
  | cons c cs ih =>
    intro acc
    simp only [List.cons_append, hexNumber, bind]
    cases hexValue c with
    | none => rfl
    | some v => exact ih _

theorem hexNumber_hexDigits : ∀ (w n : Nat), n < 16 ^ w → hexNumber 0 (hexDigits w n) = some n
  | 0, n, h => by
    obtain rfl : n = 0 := by simpa using h
    rfl
  | w + 1, n, h => by
    have hdiv : n / 16 < 16 ^ w := Nat.div_lt_of_lt_mul (by rwa [Nat.pow_succ, Nat.mul_comm] at h)
    rw [hexDigits, hexNumber_append, hexNumber_hexDigits w (n / 16) hdiv]
    simp only [Option.bind_some, hexNumber, bind, hexValue_hexDigit (Nat.mod_lt n (by decide)), Nat.div_add_mod]

theorem parseHex32_writeHex32 (v : UInt32) : parseHex32 (writeHex32 v) = some v := by
  have hlt := v.toNat_lt
  have hnum := hexNumber_hexDigits 8 v.toNat (by simpa using hlt)
  have hne : (hexDigits 8 v.toNat).isEmpty = false := by
    simp [hexDigits]
  simp only [parseHex32, writeHex32, hne, Bool.false_eq_true, if_false, hnum, bind, Option.bind,
    if_pos hlt, UInt32.ofNat_toNat]

theorem hexDigit_ne {n : Nat} (h : n < 16) (hc : c.toNat < 48) : hexDigit n ≠ c := by
  rintro rfl
  have hall : ∀ n < 16, 48 ≤ (hexDigit n).toNat := by decide
  exact absurd (hall n h) (by omega)

theorem not_mem_hexDigits {c : UInt8} (hc : c.toNat < 48) : ∀ w n : Nat, c ∉ hexDigits w n
  | 0, _ => List.not_mem_nil
  | w + 1, n => by
    rw [hexDigits, List.mem_append, List.mem_singleton]
    rintro (h | h)
    · exact not_mem_hexDigits hc w _ h
    · exact hexDigit_ne (Nat.mod_lt n (by decide)) hc h.symm

end Zith.Cache
