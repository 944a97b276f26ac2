import Mathlib.Data.List.Basic
import Mathlib.Tactic.Ring

/-! Byte formats: little-endian words, readers of a byte string, and the two laws a writer and a
    reader can have. `Inverts` is the round trip of one value (the reader returns the value and leaves
    what follows it), `Canonical` its converse (what the reader accepts is what the writer writes).
    Both are closed under sequencing and repetition, so the laws of a record format are assembled from
    those of its fields. -/

namespace Zith.Lib

/-! ### Little-endian words -/

/-- The `w` low-order bytes of `n`, least significant first. -/
def leBytes : ℕ → ℕ → List UInt8
  | 0, _ => []
  | w + 1, n => UInt8.ofNat (n % 256) :: leBytes w (n / 256)

/-- The number a little-endian byte string stands for. -/
def leNat : List UInt8 → ℕ
  | [] => 0
  | b :: bs => b.toNat + 256 * leNat bs

@[simp] theorem leBytes_length : ∀ w n, (leBytes w n).length = w
  | 0, _ => rfl
  | w + 1, n => by rw [leBytes, List.length_cons, leBytes_length]

theorem leNat_leBytes : ∀ {w n : ℕ}, n < 256 ^ w → leNat (leBytes w n) = n
  | 0, n, h => by simp at h; simp [leBytes, leNat, h]
  | w + 1, n, h => by
    have hdiv : n / 256 < 256 ^ w := Nat.div_lt_of_lt_mul (by rwa [pow_succ, Nat.mul_comm] at h)
    have hlow : (UInt8.ofNat (n % 256)).toNat = n % 256 := UInt8.toNat_ofNat_of_lt (Nat.mod_lt _ (by norm_num))
    rw [leBytes, leNat, leNat_leBytes hdiv, hlow]
    exact Nat.mod_add_div n 256

theorem leBytes_leNat : ∀ bs : List UInt8, leBytes bs.length (leNat bs) = bs
  | [] => rfl
  | b :: bs => by
    have hb := b.toNat_lt
    rw [leNat, List.length_cons, leBytes, Nat.add_mul_div_left _ _ (by norm_num),
      Nat.div_eq_of_lt hb, Nat.zero_add, leBytes_leNat bs, Nat.add_mul_mod_self_left,
      Nat.mod_eq_of_lt hb, UInt8.ofNat_toNat]

theorem leNat_lt : ∀ bs : List UInt8, leNat bs < 256 ^ bs.length
  | [] => by simp [leNat]
  | b :: bs => by
    have hb := b.toNat_lt
    have ih := leNat_lt bs
    rw [leNat, List.length_cons, pow_succ]
    omega

/-! ### Readers -/

/-- A reader consumes a prefix of the bytes left, or fails. -/
abbrev Reader (α : Type) := StateT (List UInt8) Option α

namespace Reader

variable {α β : Type}

@[simp] theorem pure_apply (a : α) (bs : List UInt8) : (pure a : Reader α) bs = some (a, bs) := rfl

@[simp] theorem bind_apply (rd : Reader α) (f : α → Reader β) (bs : List UInt8) :
    (rd >>= f) bs = (rd bs).bind fun r => f r.1 r.2 := by
  change (rd bs >>= fun r => f r.1 r.2) = _
  rfl

/-- The next `n` bytes. -/
def take (n : ℕ) : Reader (List UInt8) := fun bs =>
  if n ≤ bs.length then some (bs.take n, bs.drop n) else none

/-- Fail unless the bytes left satisfy `p`. -/
def guardLeft (p : List UInt8 → Bool) : Reader Unit := fun bs => if p bs then some ((), bs) else none

/-- Fail unless `b`, consuming nothing. -/
def check (b : Bool) : Reader Unit := fun bs => if b then some ((), bs) else none

theorem check_bind {b : Bool} (h : b = true) (f : Unit → Reader β) (bs : List UInt8) :
    (check b >>= f) bs = f () bs := by
  rw [h]
  rfl

/-- Fail on `none`, consuming nothing. -/
def lift (o : Option α) : Reader α := fun bs => o.map fun a => (a, bs)

theorem lift_some_bind (a : α) (f : α → Reader β) (bs : List UInt8) :
    (lift (some a) >>= f) bs = f a bs := rfl

/-- `n` values in a row. -/
def replicate (rd : Reader α) : ℕ → Reader (List α)
  | 0 => pure []
  | n + 1 => do
    let a ← rd
    let as ← replicate rd n
    pure (a :: as)

/-- One value for each element of a list. -/
def forEach (rd : β → Reader α) : List β → Reader (List α)
  | [] => pure []
  | b :: bs => do
    let a ← rd b
    let as ← forEach rd bs
    pure (a :: as)

theorem take_append {a : List UInt8} {n : ℕ} (h : a.length = n) (rest : List UInt8) :
    take n (a ++ rest) = some (a, rest) := by
  subst h
  rw [take, if_pos (by simp), List.take_left, List.drop_left]

theorem take_eq_some {n : ℕ} {bs a rest : List UInt8} (h : take n bs = some (a, rest)) :
    bs = a ++ rest ∧ a.length = n := by
  unfold take at h
  split at h
  · next hle =>
    simp only [Option.some.injEq, Prod.mk.injEq] at h
    obtain ⟨rfl, rfl⟩ := h
    exact ⟨(List.take_append_drop n bs).symm, List.length_take_of_le hle⟩
  · simp at h

variable {rd : Reader α} {bs rest : List UInt8} {f : α → Reader β}

theorem bind_eq_some {b : β} (h : (rd >>= f) bs = some (b, rest)) :
    ∃ a mid, rd bs = some (a, mid) ∧ f a mid = some (b, rest) := by
  rw [bind_apply, Option.bind_eq_some_iff] at h
  obtain ⟨⟨a, mid⟩, ha, hb⟩ := h
  exact ⟨a, mid, ha, hb⟩

theorem take_bind {a : List UInt8} {n : ℕ} (h : a.length = n) (f : List UInt8 → Reader β)
    (rest : List UInt8) : (take n >>= f) (a ++ rest) = f a rest := by
  rw [bind_apply, take_append h, Option.bind_some]

theorem guardLeft_bind {p : List UInt8 → Bool} {bs : List UInt8} (h : p bs = true)
    (f : Unit → Reader β) : (guardLeft p >>= f) bs = f () bs := by
  rw [bind_apply, guardLeft, if_pos h, Option.bind_some]

theorem pure_eq_some {a b : α} (h : (pure a : Reader α) bs = some (b, rest)) : a = b ∧ bs = rest := by
  simpa using h

theorem guardLeft_eq_some {p : List UInt8 → Bool} {u : Unit} (h : guardLeft p bs = some (u, rest)) :
    p bs = true ∧ bs = rest := by
  unfold guardLeft at h
  split at h
  · next hp => simp only [Option.some.injEq, Prod.mk.injEq] at h; exact ⟨hp, h.2⟩
  · simp at h

theorem check_eq_some {b : Bool} {u : Unit} (h : check b bs = some (u, rest)) : b = true ∧ bs = rest := by
  cases b with
  | false => cases h
  | true => exact ⟨rfl, congrArg Prod.snd (Option.some.inj h)⟩

/-! ### What a reader ensures -/

/-- Every value the reader accepts has the property. -/
def Ensures (rd : Reader α) (P : α → Prop) : Prop := ∀ bs a rest, rd bs = some (a, rest) → P a

theorem Ensures.bind {Q : α → Prop} {P : β → Prop} (h : Ensures rd Q) (hf : ∀ a, Q a → Ensures (f a) P) :
    Ensures (rd >>= f) P := by
  intro bs b rest hrun
  obtain ⟨a, mid, ha, hrun⟩ := bind_eq_some hrun
  exact hf a (h _ _ _ ha) _ _ _ hrun

/-- A value that does not matter. -/
theorem Ensures.skip {P : β → Prop} (hf : ∀ a, Ensures (f a) P) : Ensures (rd >>= f) P := by
  intro bs b rest hrun
  obtain ⟨a, mid, _, hrun⟩ := bind_eq_some hrun
  exact hf a _ _ _ hrun

theorem Ensures.pure {a : α} {P : α → Prop} (h : P a) : Ensures (pure a : Reader α) P := by
  intro bs b rest hrun
  obtain ⟨rfl, _⟩ := pure_eq_some hrun
  exact h

/-! ### Readers of a fixed number of bytes -/

/-- The reader takes `n` bytes, and nothing else matters to it. -/
def Fixed (rd : Reader α) (n : ℕ) : Prop :=
  ∀ bs a rest, rd bs = some (a, rest) → ∃ x, x.length = n ∧ bs = x ++ rest ∧
    ∀ rest', rd (x ++ rest') = some (a, rest')

theorem fixed_pure (a : α) : Fixed (pure a : Reader α) 0 := by
  intro bs b rest h
  obtain ⟨rfl, rfl⟩ := pure_eq_some h
  exact ⟨[], rfl, rfl, fun _ => rfl⟩

theorem fixed_take (n : ℕ) : Fixed (take n) n := by
  intro bs a rest h
  obtain ⟨rfl, hlen⟩ := take_eq_some h
  exact ⟨a, hlen, rfl, fun rest' => take_append hlen rest'⟩

theorem Fixed.bind {n m : ℕ} (h : Fixed rd n) (hf : ∀ a, Fixed (f a) m) : Fixed (rd >>= f) (n + m) := by
  intro bs b rest hrun
  obtain ⟨a, mid, ha, hb⟩ := bind_eq_some hrun
  obtain ⟨y, hy, rfl, hrest⟩ := hf a _ _ _ hb
  obtain ⟨x, hx, rfl, hread⟩ := h _ _ _ ha
  refine ⟨x ++ y, by rw [List.length_append, hx, hy], by rw [List.append_assoc], fun rest' => ?_⟩
  rw [List.append_assoc, bind_apply, hread, Option.bind_some, hrest]

/-! ### The two laws -/

/-- The reader undoes the writer at `a`, whatever follows. -/
def Inverts (enc : α → List UInt8) (rd : Reader α) (a : α) : Prop := ∀ rest, rd (enc a ++ rest) = some (a, rest)

/-- What the reader accepts is what the writer writes. -/
def Canonical (enc : α → List UInt8) (rd : Reader α) : Prop :=
  ∀ bs a rest, rd bs = some (a, rest) → bs = enc a ++ rest

theorem Inverts.bind {enc : α → List UInt8} {a : α} (h : Inverts enc rd a) (f : α → Reader β)
    (rest : List UInt8) : (rd >>= f) (enc a ++ rest) = f a rest := by
  rw [bind_apply, h rest, Option.bind_some]

theorem Inverts.replicate {enc : α → List UInt8} {rd : Reader α} :
    ∀ {l : List α}, (∀ a ∈ l, Inverts enc rd a) → ∀ rest,
      rd.replicate l.length (l.flatMap enc ++ rest) = some (l, rest)
  | [], _, rest => by simp [Reader.replicate]
  | a :: l, h, rest => by
    have ha := h a (List.mem_cons_self ..)
    have hl := Inverts.replicate fun b hb => h b (List.mem_cons_of_mem _ hb)
    rw [List.length_cons, List.flatMap_cons, List.append_assoc, Reader.replicate, bind_apply,
      ha, Option.bind_some, bind_apply, hl rest]
    rfl

theorem Inverts.replicate_bind {enc : α → List UInt8} {l : List α} {n : ℕ} (h : ∀ a ∈ l, Inverts enc rd a)
    (hn : l.length = n) (f : List α → Reader β) (rest : List UInt8) :
    (rd.replicate n >>= f) (l.flatMap enc ++ rest) = f l rest := by
  subst hn
  rw [bind_apply, Inverts.replicate h, Option.bind_some]

theorem Inverts.forEach {enc : α → List UInt8} {key : α → β} {rd : β → Reader α} :
    ∀ {l : List α}, (∀ a ∈ l, Inverts enc (rd (key a)) a) → ∀ rest,
      Reader.forEach rd (l.map key) (l.flatMap enc ++ rest) = some (l, rest)
  | [], _, rest => by simp [Reader.forEach]
  | a :: l, h, rest => by
    have ha := h a (List.mem_cons_self ..)
    have hl := Inverts.forEach fun b hb => h b (List.mem_cons_of_mem _ hb)
    rw [List.map_cons, List.flatMap_cons, List.append_assoc, Reader.forEach, bind_apply,
      ha, Option.bind_some, bind_apply, hl rest]
    rfl

theorem Canonical.replicate {enc : α → List UInt8} {rd : Reader α} (h : Canonical enc rd) :
    ∀ {n : ℕ} {bs : List UInt8} {l : List α} {rest : List UInt8},
      rd.replicate n bs = some (l, rest) → bs = l.flatMap enc ++ rest ∧ l.length = n
  | 0, bs, l, rest, hrun => by
    obtain ⟨rfl, rfl⟩ := pure_eq_some hrun
    exact ⟨rfl, rfl⟩
  | n + 1, bs, l, rest, hrun => by
    obtain ⟨a, mid, ha, hrun⟩ := bind_eq_some hrun
    obtain ⟨as, mid', has, hrun⟩ := bind_eq_some hrun
    obtain ⟨rfl, rfl⟩ := pure_eq_some hrun
    obtain ⟨hmid, hlen⟩ := h.replicate has
    rw [h _ _ _ ha, hmid, List.flatMap_cons, List.append_assoc]
    exact ⟨rfl, by rw [List.length_cons, hlen]⟩

/-- Repetition reads exactly as many values as asked for. -/
theorem replicate_length {rd : Reader α} : ∀ {n : ℕ} {bs : List UInt8} {l : List α}
    {rest : List UInt8}, rd.replicate n bs = some (l, rest) → l.length = n
  | 0, bs, l, rest, hrun => by
    obtain ⟨rfl, rfl⟩ := pure_eq_some hrun
    rfl
  | n + 1, bs, l, rest, hrun => by
    obtain ⟨a, mid, _, hrun⟩ := bind_eq_some hrun
    obtain ⟨as, mid', has, hrun⟩ := bind_eq_some hrun
    obtain ⟨rfl, rfl⟩ := pure_eq_some hrun
    rw [List.length_cons, replicate_length has]

/-- What holds of every value a reader accepts holds of all it repeats. -/
theorem forall_of_replicate {rd : Reader α} {P : α → Prop}
    (h : ∀ bs a rest, rd bs = some (a, rest) → P a) : ∀ {n : ℕ} {bs : List UInt8} {l : List α}
      {rest : List UInt8}, rd.replicate n bs = some (l, rest) → ∀ a ∈ l, P a
  | 0, bs, l, rest, hrun => by
    obtain ⟨rfl, rfl⟩ := pure_eq_some hrun
    simp
  | n + 1, bs, l, rest, hrun => by
    obtain ⟨a, mid, ha, hrun⟩ := bind_eq_some hrun
    obtain ⟨as, mid', has, hrun⟩ := bind_eq_some hrun
    obtain ⟨rfl, rfl⟩ := pure_eq_some hrun
    exact List.forall_mem_cons.mpr ⟨h _ _ _ ha, forall_of_replicate h has⟩

end Reader

/-- A list of values of at least `k` bytes each takes at least `k` bytes an element. -/
theorem mul_length_le_flatMap {α : Type} {enc : α → List UInt8} {k : ℕ} :
    ∀ {l : List α}, (∀ a ∈ l, k ≤ (enc a).length) → k * l.length ≤ (l.flatMap enc).length
  | [], _ => by simp
  | a :: l, h => by
    have ha := h a (List.mem_cons_self ..)
    have hl := mul_length_le_flatMap fun b hb => h b (List.mem_cons_of_mem _ hb)
    rw [List.length_cons, List.flatMap_cons, List.length_append, Nat.mul_succ]
    omega

end Zith.Lib
