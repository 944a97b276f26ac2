import Zith.Lib.Interning
import Zith.Types.TypeIntern

/-! `TypeIntern::intern` as the source has it: the rows with their hashes beside them, a scan for a row of the
    same hash that `typeDataEqual` accepts, and the pool that gives a name its id. A helper such as
    `internPack` puts its arguments into a `TypeData` and calls `intern` with it.

        names into the pool ──▶ computeHash ──▶ scan from row 5 ──▶ the row found, or a new one -/

namespace Zith.Types

def kFirstCustom : ℕ := 5

/-! ### Hashes -/

def hashCombine (h v : UInt64) : UInt64 := (h ^^^ v) * 1099511628211

/-- The names of a type, in the order in which they are interned. -/
def TypeData.strings : TypeData → List Text
  | .nominal name _ | .trait name | .genericParam name _ => [name]
  | .pack _ names => names
  | _ => []

/-- What `computeHash` mixes in behind the kind; `nameId` is the id of a name in the pool. -/
def TypeData.hashWords (nameId : Text → ℕ) (data : TypeData) : List ℕ :=
  match data with
  | .int width => [width.ctorIdx]
  | .float width => [width.ctorIdx]
  | .ptr pointee isMut ownership => [pointee, isMut.toNat, ownership.ctorIdx]
  | .array elem count => [elem, count.toNat]
  | .struct defId => [defId]
  | .fn params ret => ret :: params.length :: params
  | .typeVar id => [id.toNat]
  | .optional inner => [inner]
  | .failable inner => [inner]
  | .alias target => [target]
  | .nominal name target => [nameId name, target]
  | .trait name => [nameId name]
  | .dyn target methodCount => [target, methodCount.toNat]
  | .qualified inner ownership isMut => [inner, ownership.ctorIdx, isMut.toNat]
  | .slice elem => [elem]
  | .enum defId => [defId]
  | .union defId => [defId]
  | .pack members _ => members.length :: members
  | .sum members => members.length :: members
  | .genericParam ownerName paramIndex => [nameId ownerName, paramIndex.toNat]
  | .incomplete base args => base :: args.length :: args
  | _ => []

def computeHash (nameId : Text → ℕ) (data : TypeData) : UInt64 :=
  (data.ctorIdx :: data.hashWords nameId).foldl (fun h v => hashCombine h (UInt64.ofNat v)) 14695981039346656037

/-! ### Equality -/

def typeDataEqual (a b : TypeData) : Bool :=
  a.ctorIdx = b.ctorIdx &&
    match a, b with
    | .int wa, .int wb => wa = wb
    | .float wa, .float wb => wa = wb
    | .ptr pa ma oa, .ptr pb mb ob => pa = pb && ma = mb && oa = ob
    | .array ea ca, .array eb cb => ea = eb && ca = cb
    | .struct da, .struct db => da = db
    | .fn pa ra, .fn pb rb => pa.length = pb.length && ra = rb && pa = pb
    | .typeVar ia, .typeVar ib => ia = ib
    | .optional ia, .optional ib => ia = ib
    | .failable ia, .failable ib => ia = ib
    | .alias ta, .alias tb => ta = tb
    | .nominal na ta, .nominal nb tb => na = nb && ta = tb
    | .trait na, .trait nb => na = nb
    | .dyn ta ca, .dyn tb cb => ta = tb && ca = cb
    | .qualified ia oa ma, .qualified ib ob mb => ia = ib && oa = ob && ma = mb
    | .slice ea, .slice eb => ea = eb
    | .enum da, .enum db => da = db
    | .union da, .union db => da = db
    | .pack ma _, .pack mb _ => ma.length = mb.length && ma = mb
    | .sum ma, .sum mb => ma.length = mb.length && ma = mb
    | .genericParam oa ia, .genericParam ob ib => oa = ob && ia = ib
    | .incomplete ba aa, .incomplete bb ab => ba = bb && aa.length = ab.length && aa = ab
    | _, _ => true

theorem typeDataEqual_iff (a b : TypeData) :
    typeDataEqual a b = true ↔ TypeIntern.compared a = TypeIntern.compared b := by
  cases a <;> cases b <;> simp [typeDataEqual, TypeIntern.compared, TypeData.ctorIdx] <;> grind

/-- The names of a pack are in neither. -/
theorem computeHash_eq {nameId : Text → ℕ} {a b : TypeData} (h : TypeIntern.compared a = TypeIntern.compared b) :
    computeHash nameId a = computeHash nameId b := by
  have hwords : ∀ d : TypeData, computeHash nameId d = computeHash nameId (TypeIntern.compared d) := by
    intro d
    cases d <;> rfl
  rw [hwords a, hwords b, h]

theorem computeHash_congr {nameId nameId' : Text → ℕ} {data : TypeData}
    (h : ∀ name ∈ data.strings, nameId name = nameId' name) : computeHash nameId data = computeHash nameId' data := by
  have hwords : data.hashWords nameId = data.hashWords nameId' := by
    cases data <;> simp_all [TypeData.strings, TypeData.hashWords]
  rw [computeHash, computeHash, hwords]

/-! ### The table -/

local instance lawfulText : LawfulBEq Text := List.instLawfulBEq

/-- `StringInterner::intern`, of which only the pool is left; the id of a name is its index. -/
def internName (pool : List Text) (name : Text) : List Text := if name ∈ pool then pool else pool ++ [name]

def TypeData.isTypeVar : TypeData → Bool
  | .typeVar _ => true
  | _ => false

def builtinTypes : List TypeData := [.error, .never, .void, .bool, .char]

/-- `types_` and `hashes_`, with the pool of `interner_`. -/
structure InternTable where
  pool : List Text
  types : List TypeData
  hashes : List UInt64
  deriving DecidableEq

namespace InternTable

/-- The constructor of `TypeIntern`, over a pool that may have names already. -/
def start (pool : List Text) : InternTable :=
  { pool, types := builtinTypes, hashes := builtinTypes.map (computeHash pool.idxOf) }

/-- The loop over the rows from `kFirstCustom` on. -/
def scan (s : InternTable) (hash : UInt64) (data : TypeData) : Option ℕ :=
  (((s.types.zip s.hashes).drop kFirstCustom).findIdx? fun row => row.2 = hash && typeDataEqual row.1 data).map
    (· + kFirstCustom)

/-- The names that a call, or anyone else, interns. -/
def names (s : InternTable) (texts : List Text) : InternTable := { s with pool := texts.foldl internName s.pool }

/-- `TypeIntern::intern`. -/
def intern (s : InternTable) (data : TypeData) : InternTable × ℕ :=
  let hash := computeHash s.pool.idxOf data
  match if data.isTypeVar then none else s.scan hash data with
  | some id => (s, id)
  | none => ({ s with types := s.types ++ [data], hashes := s.hashes ++ [hash] }, s.types.length)

end InternTable

/-- A call of an intern helper: the `TypeData` it makes of its arguments. Others use the pool before it. -/
structure InternCall where
  others : List Text := []
  data : TypeData

/-- `internPack`: a member without a name has the empty one. -/
def packData (members : List ℕ) (names : List Text) : TypeData :=
  .pack members ((List.range members.length).map fun i => names[i]?.getD [])

namespace InternTable

def call (s : InternTable) (c : InternCall) : InternTable × ℕ :=
  ((s.names c.others).names c.data.strings).intern c.data

/-- Calls one after the other: the table at the end, and what they returned. -/
def run (s : InternTable) : List InternCall → InternTable × List ℕ
  | [] => (s, [])
  | c :: cs =>
    let (s, id) := s.call c
    let (s, ids) := run s cs
    (s, id :: ids)

/-! ### What a call does -/

/-- The hashes are those of the rows, and the pool has their names. -/
structure Hashed (s : InternTable) : Prop where
  hashes_eq : s.hashes = s.types.map (computeHash s.pool.idxOf)
  named : ∀ d ∈ s.types, ∀ name ∈ d.strings, name ∈ s.pool

/-- Interning by what `typeDataEqual` compares. -/
def byComponents : Lib.Interner TypeData TypeData where
  key := TypeIntern.compared
  fresh := TypeData.isTypeVar
  reserved := kFirstCustom
  fresh_of_key := by
    intro a b h
    cases a <;> cases b <;> simp_all [TypeIntern.compared, TypeData.isTypeVar]

theorem subset_internNames : ∀ (texts pool : List Text), pool ⊆ texts.foldl internName pool
  | [], pool => List.Subset.refl pool
  | t :: texts, pool => by
    refine List.Subset.trans ?_ (subset_internNames texts (internName pool t))
    rw [internName]
    split
    · exact List.Subset.refl pool
    · exact List.subset_append_left pool [t]

theorem mem_internNames {text : Text} : ∀ {texts pool : List Text}, text ∈ texts → text ∈ texts.foldl internName pool
  | t :: texts, pool, h => by
    rcases List.mem_cons.mp h with rfl | h
    · refine subset_internNames texts _ ?_
      rw [internName]
      split <;> simp_all
    · rw [List.foldl_cons]
      exact mem_internNames h

theorem idxOf_internNames {text : Text} : ∀ {texts pool : List Text}, text ∈ pool →
    (texts.foldl internName pool).idxOf text = pool.idxOf text
  | [], _, _ => rfl
  | t :: texts, pool, h => by
    have ht : text ∈ internName pool t := subset_internNames [t] pool h
    rw [List.foldl_cons, idxOf_internNames ht, internName]
    split
    · rfl
    · exact List.idxOf_append_of_mem h

theorem hashed_start (pool : List Text) : (start pool).Hashed :=
  ⟨rfl, by simp [start, builtinTypes, TypeData.strings]⟩

theorem Hashed.names {s : InternTable} (h : s.Hashed) (texts : List Text) : (s.names texts).Hashed := by
  refine ⟨?_, fun d hd name hname => subset_internNames texts s.pool (h.named d hd name hname)⟩
  refine h.hashes_eq.trans (List.map_congr_left fun d hd => computeHash_congr fun name hname => ?_)
  exact (idxOf_internNames (h.named d hd name hname)).symm

/-- An equal row has an equal hash, so the scan finds what `typeDataEqual` accepts. -/
theorem Hashed.scan {s : InternTable} (h : s.Hashed) (data : TypeData) :
    s.scan (computeHash s.pool.idxOf data) data = byComponents.find s.types data := by
  have hzip : s.types.zip s.hashes = s.types.map fun d => (d, computeHash s.pool.idxOf d) := by
    rw [h.hashes_eq, List.zip_map_right, List.zip_eq_zipWith, List.zipWith_self, List.map_map]
    rfl
  rw [InternTable.scan, Lib.Interner.find, hzip, ← List.map_drop, List.findIdx?_map]
  congr 2
  funext d
  rw [Function.comp_apply, Bool.eq_iff_iff, Bool.and_eq_true, decide_eq_true_iff, decide_eq_true_iff, typeDataEqual_iff]
  exact and_iff_right_of_imp computeHash_eq

theorem Hashed.intern {s : InternTable} (h : s.Hashed) {data : TypeData}
    (hnames : ∀ name ∈ data.strings, name ∈ s.pool) : (s.intern data).1.Hashed ∧ (s.intern data).1.pool = s.pool ∧
      ((s.intern data).1.types, (s.intern data).2) = byComponents.intern s.types data := by
  have hfound : (if data.isTypeVar then none else s.scan (computeHash s.pool.idxOf data) data) =
      if byComponents.fresh data then none else byComponents.find s.types data := by
    rw [h.scan]
    rfl
  rw [InternTable.intern, Lib.Interner.intern, hfound]
  cases if byComponents.fresh data then none else byComponents.find s.types data with
  | some id => exact ⟨h, rfl, rfl⟩
  | none =>
    refine ⟨⟨?_, fun d hd => ?_⟩, rfl, rfl⟩
    · simp [h.hashes_eq]
    · rcases List.mem_append.mp hd with hd | hd
      · exact h.named d hd
      · rw [List.mem_singleton.mp hd]
        exact hnames

/-- A call interns its data by what is compared. -/
theorem Hashed.call {s : InternTable} (h : s.Hashed) (c : InternCall) :
    (s.call c).1.Hashed ∧ ((s.call c).1.types, (s.call c).2) = byComponents.intern s.types c.data := by
  have hnamed : ((s.names c.others).names c.data.strings).Hashed := (h.names c.others).names c.data.strings
  obtain ⟨hh, -, htypes⟩ := hnamed.intern fun name hname => mem_internNames hname
  exact ⟨hh, htypes⟩

/-! ### A run -/

theorem Hashed.run {calls : List InternCall} : ∀ {s : InternTable}, s.Hashed → (s.run calls).1.Hashed ∧
    ((s.run calls).1.types, (s.run calls).2) = byComponents.run s.types (calls.map InternCall.data) := by
  induction calls with
  | nil => exact fun h => ⟨h, rfl⟩
  | cons c calls ih =>
    intro s h
    obtain ⟨hc, hcall⟩ := h.call c
    obtain ⟨hrun, htypes⟩ := ih hc
    refine ⟨hrun, ?_⟩
    rw [List.map_cons, Lib.Interner.run_cons, ← hcall, ← htypes]
    rfl

theorem distinct_builtinTypes : byComponents.Distinct builtinTypes := by
  intro i j a b hi hij ha hb
  have hj := (List.getElem?_eq_some_iff.mp hb).1
  change j < 5 at hj
  change 5 ≤ i at hi
  omega

/-- What ids mean, over a run of calls. -/
structure IdsMeanData (pool : List Text) (calls : List InternCall) : Prop where
  /-- Two ids are equal exactly when all but the names of packs is. -/
  same : ∀ {k l : ℕ} {a b : InternCall} {i j : ℕ}, calls[k]? = some a → calls[l]? = some b →
    ((start pool).run calls).2[k]? = some i → ((start pool).run calls).2[l]? = some j →
    a.data.isTypeVar = false → b.data.isTypeVar = false →
    (i = j ↔ TypeIntern.compared a.data = TypeIntern.compared b.data)
  /-- The row of an id is the data of a call that returned it, and of every such call but for names of packs. -/
  denotes : ∀ {k i : ℕ} {a : InternCall}, calls[k]? = some a → ((start pool).run calls).2[k]? = some i →
    kFirstCustom ≤ i ∧ ∃ (l : ℕ) (b : InternCall), calls[l]? = some b ∧ ((start pool).run calls).2[l]? = some i ∧
      ((start pool).run calls).1.types[i]? = some b.data ∧
      TypeIntern.compared b.data = TypeIntern.compared a.data
  /-- Rows stay as they are, whatever is called afterwards. -/
  keeps : ∀ more, ((start pool).run calls).1.types <+: ((start pool).run (calls ++ more)).1.types
  /-- The first rows are the builtin types. -/
  builtin : builtinTypes <+: ((start pool).run calls).1.types
  /-- The hash beside a row is the hash of every equal type. -/
  hash : ∀ {i : ℕ} {d : TypeData} {h : UInt64}, ((start pool).run calls).1.types[i]? = some d →
    ((start pool).run calls).1.hashes[i]? = some h → ∀ e, TypeIntern.compared e = TypeIntern.compared d →
    computeHash ((start pool).run calls).1.pool.idxOf e = h

theorem types_run (pool : List Text) (calls : List InternCall) :
    ((start pool).run calls).1.types = (byComponents.run builtinTypes (calls.map InternCall.data)).1 :=
  congrArg Prod.fst (hashed_start pool).run.2

theorem ids_run (pool : List Text) (calls : List InternCall) :
    ((start pool).run calls).2 = (byComponents.run builtinTypes (calls.map InternCall.data)).2 :=
  congrArg Prod.snd (hashed_start pool).run.2

theorem getElem?_data {calls : List InternCall} {k : ℕ} {a : InternCall} (h : calls[k]? = some a) :
    (calls.map InternCall.data)[k]? = some a.data := by
  rw [List.getElem?_map, h]
  rfl

/-- Ids are equal exactly when the types are, but for the names of packs; the rows keep what they were
    created with, and equal types have equal hashes. -/
theorem ids_mean_data (pool : List Text) (calls : List InternCall) : IdsMeanData pool calls where
  same := by
    intro k l a b i j ha hb hi hj hfa hfb
    rw [ids_run] at hi hj
    exact byComponents.run_index_eq_iff distinct_builtinTypes (Nat.le_refl 5) (getElem?_data ha) (getElem?_data hb)
      hi hj hfa hfb
  denotes := by
    intro k i a ha hi
    rw [ids_run] at hi
    have hreserved : byComponents.reserved ≤ builtinTypes.length := Nat.le_refl 5
    obtain ⟨hle, d, hd, hkey⟩ := byComponents.entry_run hreserved (getElem?_data ha) hi
    obtain ⟨l, hl, hid⟩ := byComponents.exists_call_of_entry hle hd
    rw [List.getElem?_map, Option.map_eq_some_iff] at hl
    obtain ⟨b, hb, rfl⟩ := hl
    refine ⟨hle, l, b, hb, ?_, ?_, hkey⟩
    · rw [ids_run]
      exact hid
    · rw [types_run]
      exact hd
  keeps := by
    intro more
    rw [types_run, types_run, List.map_append, Lib.Interner.run_append]
    exact byComponents.extends_run _ _
  builtin := by
    rw [types_run]
    exact byComponents.extends_run _ _
  hash := by
    intro i d h hd hh e he
    rw [(hashed_start pool).run.1.hashes_eq, List.getElem?_map, hd] at hh
    rw [computeHash_eq he]
    exact Option.some.inj hh

/-- Two packs that differ in the name of their member get one id. -/
theorem packs_share_id :
    ((start []).run [⟨[], .int .i32⟩, ⟨[], packData [5] [[120]]⟩, ⟨[], packData [5] [[121]]⟩]).2 = [5, 6, 6] ∧
      packData [5] [[120]] ≠ packData [5] [[121]] := by
  decide +kernel

end InternTable

/-- The table of rows alone does the same. -/
theorem TypeIntern.intern_eq (T : TypeIntern) (data : TypeData) :
    ((T.intern data).1.types, (T.intern data).2) = InternTable.byComponents.intern T.types data := by
  rw [TypeIntern.intern.eq_def, Lib.Interner.intern, Lib.Interner.find]
  change _ = match if data.isTypeVar then none else
    ((T.types.drop 5).findIdx? fun old => decide (compared old = compared data)).map (· + 5) with
    | some i => _
    | none => _
  cases (T.types.drop 5).findIdx? fun old => decide (compared old = compared data) with
  | none => cases data <;> rfl
  | some row => cases data <;> rfl

end Zith.Types
