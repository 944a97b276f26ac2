import Mathlib.Order.Nat
import Zith.Session.ModuleCache

/-! What a run of the module cache keeps. `Keyed` says what each table entry is an entry of, whatever
    happens; `Fresh` says that no artifact, and no running build that may still be stored, started before an
    invalidation that concerns its module. Two steps break `Fresh`: a request that takes over a build in
    flight which an invalidation has overtaken, and a dependency recorded only after its target was
    invalidated. -/

namespace Zith.Session

open Relation

/-! ### Invalidation -/

theorem le_bumpAll (x : ModuleKey) : ∀ (modules : List ModuleKey) (epochs : ModuleKey → Nat),
    epochs x ≤ bumpAll modules epochs x
  | [], _ => le_rfl
  | m :: modules, epochs => by
    refine le_trans ?_ (le_bumpAll x modules (Function.update epochs m (epochs m + 1)))
    by_cases hx : x = m
    · subst hx
      simp
    · simp [hx]

theorem lt_bumpAll {x : ModuleKey} : ∀ {modules : List ModuleKey} (epochs : ModuleKey → Nat),
    x ∈ modules → epochs x < bumpAll modules epochs x
  | m :: modules, epochs, h => by
    by_cases hx : x = m
    · subst hx
      refine lt_of_lt_of_le ?_ (le_bumpAll x modules (Function.update epochs x (epochs x + 1)))
      simp
    · have hmem : x ∈ modules := (List.mem_cons.mp h).resolve_left hx
      have ih := lt_bumpAll (Function.update epochs m (epochs m + 1)) hmem
      simpa [bumpAll, hx] using ih

theorem evict_eq_some {module : ModuleKey} {artifacts : BucketKey → Option Artifact}
    {bucket : BucketKey} {a : Artifact} :
    evict module artifacts bucket = some a ↔ artifacts bucket = some a ∧ a.key ≠ module := by
  simp [evict, Option.filter_eq_some_iff]

/-- The artifacts of what has been visited are gone, and the modules that depend on it directly are bumped
    and on their way. -/
structure Visiting (reverse : List (ModuleKey × ModuleKey)) (root : ModuleKey)
    (artifacts₀ : BucketKey → Option Artifact) (epochs₀ : ModuleKey → Nat)
    (visited pending : List ModuleKey) (s : (BucketKey → Option Artifact) × (ModuleKey → Nat)) :
    Prop where
  root : root ∈ visited ∨ root ∈ pending
  artifacts : ∀ bucket a, s.1 bucket = some a → artifacts₀ bucket = some a ∧ a.key ∉ visited
  epochs : ∀ x, epochs₀ x ≤ s.2 x
  dependents : ∀ d x, d ∈ visited → (d, x) ∈ reverse → epochs₀ x < s.2 x ∧ (x ∈ visited ∨ x ∈ pending)

theorem Visiting.skip {reverse : List (ModuleKey × ModuleKey)} {root current : ModuleKey}
    {artifacts : BucketKey → Option Artifact} {epochs : ModuleKey → Nat}
    {visited pending : List ModuleKey} {s : (BucketKey → Option Artifact) × (ModuleKey → Nat)}
    (hmem : current ∈ visited) (h : Visiting reverse root artifacts epochs visited (current :: pending) s) :
    Visiting reverse root artifacts epochs visited pending s := by
  have hskip : ∀ x, x ∈ visited ∨ x ∈ current :: pending → x ∈ visited ∨ x ∈ pending := by
    rintro x (hx | hx)
    · exact .inl hx
    · rcases List.mem_cons.mp hx with rfl | hx
      · exact .inl hmem
      · exact .inr hx
  refine ⟨hskip _ h.root, h.artifacts, h.epochs, fun d x hd hedge => ?_⟩
  exact ⟨(h.dependents d x hd hedge).1, hskip x (h.dependents d x hd hedge).2⟩

theorem Visiting.enter {reverse : List (ModuleKey × ModuleKey)} {root current : ModuleKey}
    {artifacts : BucketKey → Option Artifact} {epochs : ModuleKey → Nat}
    {visited pending : List ModuleKey} {s : (BucketKey → Option Artifact) × (ModuleKey → Nat)}
    (h : Visiting reverse root artifacts epochs visited (current :: pending) s) :
    Visiting reverse root artifacts epochs (current :: visited)
      ((Lib.successors reverse current).reverse ++ pending) (invalidateModule reverse current s) := by
  have hmove : ∀ x, x ∈ visited ∨ x ∈ current :: pending →
      x ∈ current :: visited ∨ x ∈ (Lib.successors reverse current).reverse ++ pending := by
    intro x hx
    simp only [List.mem_cons, List.mem_append] at hx ⊢
    tauto
  refine ⟨hmove _ h.root, ?_, ?_, ?_⟩
  · intro bucket a ha
    obtain ⟨ha, hkey⟩ := evict_eq_some.mp ha
    obtain ⟨hold, hnot⟩ := h.artifacts bucket a ha
    exact ⟨hold, by simp [hkey, hnot]⟩
  · intro x
    exact (h.epochs x).trans (le_bumpAll x _ _)
  · intro d x hd hedge
    rcases List.mem_cons.mp hd with rfl | hd
    · have hx : x ∈ Lib.successors reverse d := Lib.mem_successors.mpr hedge
      refine ⟨(h.epochs x).trans_lt (lt_bumpAll _ hx), .inr ?_⟩
      exact List.mem_append_left _ (List.mem_reverse.mpr hx)
    · obtain ⟨hlt, hin⟩ := h.dependents d x hd hedge
      exact ⟨hlt.trans_le (le_bumpAll x _ _), hmove x hin⟩

/-- `t` has lost artifacts and raised epochs; only the latest fingerprints may differ besides. -/
structure Retreat (s t : Cache) : Prop where
  artifacts : ∀ bucket a, t.artifacts bucket = some a → s.artifacts bucket = some a
  epochs : ∀ x, s.epochs x ≤ t.epochs x
  inFlight : t.inFlight = s.inFlight
  reverse : t.reverseDependencies = s.reverseDependencies
  builds : t.builds = s.builds
  now : t.now = s.now
  invalidations : t.invalidations = s.invalidations

theorem Retreat.refl (s : Cache) : Retreat s s := ⟨fun _ _ h => h, fun _ => le_rfl, rfl, rfl, rfl, rfl, rfl⟩

/-- Every module that depends on the given one is bumped and has no artifact left. -/
theorem invalidateLocked_spec (s : Cache) (module : ModuleKey) : Retreat s (s.invalidateLocked module) ∧
      ∀ x, DependsOn s.reverseDependencies module x → s.epochs x < (s.invalidateLocked module).epochs x ∧
          ∀ bucket a, (s.invalidateLocked module).artifacts bucket = some a → a.key ≠ x := by
  set epochs := Function.update s.epochs module (s.epochs module + 1) with hepochs
  have hle : ∀ x, s.epochs x ≤ epochs x := by
    intro x
    by_cases hx : x = module
    · subst hx
      simp [hepochs]
    · simp [hepochs, hx]
  have hstart : Visiting s.reverseDependencies module s.artifacts epochs [] [module]
      (s.artifacts, epochs) :=
    ⟨.inr (by simp), fun _ _ h => ⟨h, by simp⟩, fun _ => le_rfl, fun d x hd => by simp at hd⟩
  have hfuel : [module].length + (Lib.unvisited s.reverseDependencies []).length ≤
      s.reverseDependencies.length + 1 := by
    have := List.length_filter_le (fun edge => !decide (edge.1 ∈ ([] : List ModuleKey))) s.reverseDependencies
    simp only [List.length_singleton, Lib.unvisited]
    omega
  obtain ⟨visited, hend⟩ := Lib.drain_rule
    (Visiting s.reverseDependencies module s.artifacts epochs)
    Visiting.skip (fun _ h => h.enter) _ _ _ _ hfuel hstart
  have hroot : module ∈ visited := by simpa using hend.root
  have hclosed : ∀ {d x}, d ∈ visited → (d, x) ∈ s.reverseDependencies → x ∈ visited :=
    fun hd hedge => by simpa using (hend.dependents _ _ hd hedge).2
  refine ⟨⟨fun bucket a ha => (hend.artifacts bucket a ha).1,
    fun x => (hle x).trans (hend.epochs x), rfl, rfl, rfl, rfl, rfl⟩, fun x hx => ⟨?_, ?_⟩⟩
  · cases hx with
    | refl =>
      have hbump : s.epochs module < epochs module := by simp [hepochs]
      exact hbump.trans_le (hend.epochs module)
    | tail hpath hedge =>
      have hd := Lib.mem_of_reachable hclosed hroot hpath
      exact (hle x).trans_lt (hend.dependents _ x hd hedge).1
  · rintro bucket a ha rfl
    exact (hend.artifacts bucket a ha).2 (Lib.mem_of_reachable hclosed hroot hx)

theorem Cache.noteSource_retreat (s : Cache) (source : SourceRecord) : Retreat s (s.noteSource source) := by
  unfold Cache.noteSource
  split
  · exact .refl s
  · exact ⟨(invalidateLocked_spec _ _).1.artifacts, (invalidateLocked_spec _ _).1.epochs,
      rfl, rfl, rfl, rfl, rfl⟩

/-! ### What the entries are entries of -/

/-- The builds that artifacts and in-flight entries refer to have their keys, and no build is ahead of the
    epoch of its path. -/
structure Keyed (s : Cache) : Prop where
  artifact : ∀ {cacheKey path a}, s.artifacts (cacheKey, path) = some a →
    a.key = path ∧ ∃ b, s.builds[a.build]? = some b ∧ b.cacheKey = cacheKey ∧ b.source = ⟨path, a.fingerprint⟩
  inFlight : ∀ {cacheKey path fingerprint active},
    s.inFlight ((cacheKey, path), fingerprint) = some active →
      ∃ b, s.builds[active.build]? = some b ∧ b.cacheKey = cacheKey ∧
        b.source = ⟨path, fingerprint⟩ ∧ b.epoch = active.epoch ∧ b.finished = false
  epoch : ∀ {i : Nat} {b : Build}, s.builds[i]? = some b → b.epoch ≤ s.epochs b.source.canonicalPath

theorem keyed_init : Keyed Cache.init :=
  ⟨fun h => by simp [Cache.init] at h, fun h => by simp [Cache.init] at h, fun h => by simp [Cache.init] at h⟩

theorem Keyed.retreat {s t : Cache} (h : Keyed s) (r : Retreat s t) : Keyed t := by
  refine ⟨fun ha => ?_, fun hf => ?_, fun hb => ?_⟩
  · rw [r.builds]
    exact h.artifact (r.artifacts _ _ ha)
  · rw [r.builds]
    exact h.inFlight (r.inFlight ▸ hf)
  · exact (h.epoch (r.builds ▸ hb)).trans (r.epochs _)

theorem lookup_cases (s : Cache) (cacheKey : String) (source : SourceRecord) : (∃ a, s.lookup cacheKey source = .hit a ∧
        s.artifacts (cacheKey, source.canonicalPath) = some a ∧ a.fingerprint = source.fingerprint) ∨
      (∃ active, s.lookup cacheKey source = .wait active.build ∧
        s.inFlight ((cacheKey, source.canonicalPath), source.fingerprint) = some active) ∨
      (s.lookup cacheKey source = .own s.builds.length ∧
        s.inFlight ((cacheKey, source.canonicalPath), source.fingerprint) = none) := by
  unfold Cache.lookup
  rcases hf : s.inFlight ((cacheKey, source.canonicalPath), source.fingerprint) with _ | active <;>
    rcases ha : s.artifacts (cacheKey, source.canonicalPath) with _ | a <;>
    simp only [ha, hf]
  · simp
  · by_cases hfp : a.fingerprint = source.fingerprint <;> simp [hfp]
  · simp
  · by_cases hfp : a.fingerprint = source.fingerprint <;> simp [hfp]

/-- The tables with a build of their own added for a request. -/
def Cache.withBuild (s : Cache) (cacheKey : String) (source : SourceRecord) : Cache :=
  let epoch := s.epochs source.canonicalPath
  let key := ((cacheKey, source.canonicalPath), source.fingerprint)
  { s with
    builds := s.builds ++ [⟨cacheKey, source, epoch, none, false⟩]
    inFlight := Function.update s.inFlight key (some ⟨s.builds.length, epoch⟩) }

variable {s : Cache} {source : SourceRecord} {cacheKey : String} {b : Build}

theorem getOrBuild_of_own
    (h : (s.noteSource source).lookup cacheKey source = .own (s.noteSource source).builds.length) :
    s.getOrBuild cacheKey source =
      (.own (s.noteSource source).builds.length, (s.noteSource source).withBuild cacheKey source) := by
  simp only [Cache.getOrBuild, h, Cache.withBuild]

theorem getOrBuild_of_shared (h : ∀ n, (s.noteSource source).lookup cacheKey source ≠ .own n) :
    s.getOrBuild cacheKey source = ((s.noteSource source).lookup cacheKey source, s.noteSource source) := by
  unfold Cache.getOrBuild
  rcases hl : (s.noteSource source).lookup cacheKey source with a | n | n
  · simp [hl]
  · simp [hl]
  · exact absurd hl (h n)

theorem withBuild_getElem? {n : Nat} : (s.withBuild cacheKey source).builds[n]? = some b ↔
      s.builds[n]? = some b ∨ n = s.builds.length ∧
        b = ⟨cacheKey, source, s.epochs source.canonicalPath, none, false⟩ := by
  simp only [Cache.withBuild]
  rcases Nat.lt_trichotomy n s.builds.length with hlt | rfl | hgt
  · rw [List.getElem?_append_left hlt]
    simp [Nat.ne_of_lt hlt]
  · simp [eq_comm]
  · rw [List.getElem?_eq_none (by simp; omega), List.getElem?_eq_none (by omega)]
    simp [Nat.ne_of_gt hgt]

theorem Keyed.withBuild {s : Cache} (h : Keyed s) (cacheKey : String) (source : SourceRecord) :
    Keyed (s.withBuild cacheKey source) := by
  refine ⟨fun ha => ?_, fun {ck path fp active} hf => ?_, fun hb => ?_⟩
  · obtain ⟨hkey, b, hb, hck, hsource⟩ := h.artifact ha
    exact ⟨hkey, b, withBuild_getElem?.mpr (.inl hb), hck, hsource⟩
  · by_cases hk : ((ck, path), fp) = ((cacheKey, source.canonicalPath), source.fingerprint)
    · obtain ⟨⟨rfl, rfl⟩, rfl⟩ : (ck = cacheKey ∧ path = source.canonicalPath) ∧
        fp = source.fingerprint := by simpa using hk
      obtain rfl : active = ⟨s.builds.length, s.epochs source.canonicalPath⟩ := by
        simpa [Cache.withBuild, eq_comm] using hf
      exact ⟨_, withBuild_getElem?.mpr (.inr ⟨rfl, rfl⟩), rfl, rfl, rfl, rfl⟩
    · have hold : s.inFlight ((ck, path), fp) = some active := by
        simpa [Cache.withBuild, Function.update_of_ne hk] using hf
      obtain ⟨b, hb, hrest⟩ := h.inFlight hold
      exact ⟨b, withBuild_getElem?.mpr (.inl hb), hrest⟩
  · rcases withBuild_getElem?.mp hb with hb | ⟨-, rfl⟩
    · exact h.epoch hb
    · exact le_rfl

theorem getElem?_modify {builds : List Build} {n m : Nat} {g : Build → Build} {b' : Build} :
    (builds.modify n g)[m]? = some b' ↔ ∃ b, builds[m]? = some b ∧ b' = if n = m then g b else b := by
  rw [List.getElem?_modify]
  rcases builds[m]? with _ | b
  · simp
  · split <;> simp [eq_comm]

/-- What `start` makes of a build. -/
def Build.begin (now : Nat) (b : Build) : Build :=
  if b.startedAt.isNone then { b with startedAt := some now } else b

@[simp] theorem Build.begin_same (now : Nat) (b : Build) :
    (b.begin now).cacheKey = b.cacheKey ∧ (b.begin now).source = b.source ∧
      (b.begin now).epoch = b.epoch ∧ (b.begin now).finished = b.finished := by
  unfold Build.begin
  split <;> simp

theorem Keyed.start {s : Cache} (h : Keyed s) (n : Nat) : Keyed (s.start n) := by
  have hsame : ∀ (m : Nat) (b : Build), s.builds[m]? = some b →
      ∃ b', (s.start n).builds[m]? = some b' ∧ b'.cacheKey = b.cacheKey ∧ b'.source = b.source ∧
        b'.epoch = b.epoch ∧ b'.finished = b.finished := by
    intro m b hb
    refine ⟨_, getElem?_modify.mpr ⟨b, hb, rfl⟩, ?_⟩
    split
    · exact b.begin_same s.now
    · exact ⟨rfl, rfl, rfl, rfl⟩
  refine ⟨fun ha => ?_, fun hf => ?_, fun hb' => ?_⟩
  · obtain ⟨hkey, b, hb, hck, hsource⟩ := h.artifact ha
    obtain ⟨b', hb', hck', hsource', -⟩ := hsame _ b hb
    exact ⟨hkey, b', hb', hck'.trans hck, hsource'.trans hsource⟩
  · obtain ⟨b, hb, hck, hsource, hepoch, hfin⟩ := h.inFlight hf
    obtain ⟨b', hb', hck', hsource', hepoch', hfin'⟩ := hsame _ b hb
    exact ⟨b', hb', hck'.trans hck, hsource'.trans hsource, hepoch'.trans hepoch, hfin'.trans hfin⟩
  · obtain ⟨b, hb, -⟩ := getElem?_modify.mp hb'
    obtain ⟨b'', hb'', -, hsource, hepoch, -⟩ := hsame _ b hb
    obtain rfl : b'' = _ := Option.some.inj (hb''.symm.trans hb')
    rw [hepoch, hsource]
    exact h.epoch hb

/-- The tables once a build has ended. -/
def Cache.withResult (s : Cache) (n : Nat) (ok : Bool) (b : Build) : Cache :=
  let bucket := (b.cacheKey, b.source.canonicalPath)
  { s with
    builds := s.builds.modify n fun b => { b with finished := true }
    inFlight := Function.update s.inFlight (bucket, b.source.fingerprint) none
    artifacts :=
      if ok && s.publishes b then
        Function.update s.artifacts bucket (some ⟨b.source.canonicalPath, b.source.fingerprint, n⟩)
      else s.artifacts }

/-- A worker's locked section does nothing, or ends a started build. -/
theorem finish_cases (s : Cache) (n : Nat) (ok : Bool) :
    s.finish n ok = s ∨ ∃ b t, s.builds[n]? = some b ∧ b.startedAt = some t ∧ b.finished = false ∧
      s.finish n ok = s.withResult n ok b := by
  unfold Cache.finish
  rcases hb : s.builds[n]? with _ | b
  · exact .inl rfl
  · simp only
    split
    · exact .inl rfl
    · rename_i hrun
      simp only [Bool.or_eq_true, not_or, Bool.not_eq_true] at hrun
      obtain ⟨t, ht⟩ := Option.isSome_iff_exists.mp (by simpa using hrun.1)
      exact .inr ⟨b, t, rfl, ht, hrun.2, rfl⟩

/-- An artifact after a build has ended is one from before, or the one the build has stored. -/
theorem withResult_artifact {n : Nat} {ok : Bool} {bucket : BucketKey} {a : Artifact}
    (ha : (s.withResult n ok b).artifacts bucket = some a) : s.artifacts bucket = some a ∨
      s.publishes b ∧ bucket = (b.cacheKey, b.source.canonicalPath) ∧
        a = ⟨b.source.canonicalPath, b.source.fingerprint, n⟩ := by
  simp only [Cache.withResult] at ha
  split at ha
  · rename_i hpub
    by_cases hbucket : bucket = (b.cacheKey, b.source.canonicalPath)
    · subst hbucket
      refine .inr ⟨by simp at hpub; exact hpub.2, rfl, ?_⟩
      simpa [eq_comm] using ha
    · rw [Function.update_of_ne hbucket] at ha
      exact .inl ha
  · exact .inl ha

theorem withResult_getElem? {n m : Nat} {ok : Bool} {b b' : Build} : (s.withResult n ok b).builds[m]? = some b' ↔
      ∃ old, s.builds[m]? = some old ∧ b' = if n = m then { old with finished := true } else old :=
  getElem?_modify

/-- What is in flight after a build has ended was so before, under another key. -/
theorem withResult_inFlight {n : Nat} {ok : Bool} {key : InFlightKey} {active : InFlight} :
    (s.withResult n ok b).inFlight key = some active ↔
      key ≠ ((b.cacheKey, b.source.canonicalPath), b.source.fingerprint) ∧ s.inFlight key = some active := by
  simp only [Cache.withResult]
  by_cases hk : key = ((b.cacheKey, b.source.canonicalPath), b.source.fingerprint)
  · simp [hk]
  · simp [hk]

theorem Keyed.finish (h : Keyed s) (n : Nat) (ok : Bool) : Keyed (s.finish n ok) := by
  rcases finish_cases s n ok with heq | ⟨b, t, hb, -, hfin, heq⟩ <;> rw [heq]
  · exact h
  refine ⟨fun {ck path a} ha => ?_, fun {ck path fp active} hf => ?_, fun {m b'} hb' => ?_⟩
  · rcases withResult_artifact ha with ha | ⟨-, hbucket, rfl⟩
    · obtain ⟨hkey, b', hb', hck, hsource⟩ := h.artifact ha
      refine ⟨hkey, _, withResult_getElem?.mpr ⟨b', hb', rfl⟩, ?_⟩
      split <;> exact ⟨hck, hsource⟩
    · obtain ⟨rfl, rfl⟩ := Prod.mk.inj hbucket
      exact ⟨rfl, _, withResult_getElem?.mpr ⟨b, hb, rfl⟩, by simp, by simp⟩
  · obtain ⟨hk, hf⟩ := withResult_inFlight.mp hf
    obtain ⟨b', hb', hck, hsource, hepoch, hfin'⟩ := h.inFlight hf
    have hne : n ≠ active.build := by
      rintro rfl
      obtain rfl := Option.some.inj (hb.symm.trans hb')
      simp [hck, hsource] at hk
    exact ⟨b', withResult_getElem?.mpr ⟨b', hb', by simp [hne]⟩, hck, hsource, hepoch, hfin'⟩
  · obtain ⟨old, hold, rfl⟩ := withResult_getElem?.mp hb'
    have hle := h.epoch hold
    split <;> exact hle

theorem Keyed.getOrBuild (h : Keyed s) (cacheKey : String) (source : SourceRecord) :
    Keyed (s.getOrBuild cacheKey source).2 := by
  have hnote := h.retreat (s.noteSource_retreat source)
  rcases lookup_cases (s.noteSource source) cacheKey source with
    ⟨a, hl, -⟩ | ⟨active, hl, -⟩ | ⟨hl, -⟩
  · rw [getOrBuild_of_shared (by simp [hl])]
    exact hnote
  · rw [getOrBuild_of_shared (by simp [hl])]
    exact hnote
  · rw [getOrBuild_of_own hl]
    exact hnote.withBuild cacheKey source

theorem Keyed.step {s : Cache} (h : Keyed s) (e : Event) : Keyed (s.step e) := by
  have happly : Keyed (s.apply e) := by
    cases e with
    | request cacheKey source => exact h.getOrBuild cacheKey source
    | start n => exact h.start n
    | finish n ok => exact h.finish n ok
    | noteSource source => exact h.retreat (s.noteSource_retreat source)
    | updateDependencies module dependencies => exact ⟨h.artifact, h.inFlight, h.epoch⟩
    | invalidate path =>
      have hlock := h.retreat (invalidateLocked_spec s path).1
      exact ⟨hlock.artifact, hlock.inFlight, hlock.epoch⟩
  exact ⟨happly.artifact, happly.inFlight, happly.epoch⟩

theorem keyed_run : ∀ (events : List Event) {s : Cache}, Keyed s → Keyed (s.run events)
  | [], _, h => h
  | e :: events, _, h => keyed_run events (h.step e)

/-- A cached artifact was built from the requested source, in every run. -/
theorem Keyed.hit_builtFrom (h : Keyed s) {a : Artifact} (hhit : (s.getOrBuild cacheKey source).1 = .hit a) :
    ∃ b, s.builds[a.build]? = some b ∧ b.cacheKey = cacheKey ∧ b.source = source := by
  have hnote := h.retreat (s.noteSource_retreat source)
  rcases lookup_cases (s.noteSource source) cacheKey source with
    ⟨a', hl, ha, hfp⟩ | ⟨active, hl, -⟩ | ⟨hl, -⟩
  · rw [getOrBuild_of_shared (by simp [hl]), hl] at hhit
    obtain rfl : a' = a := by simpa using hhit
    obtain ⟨-, b, hb, hck, hsource⟩ := hnote.artifact ha
    rw [(s.noteSource_retreat source).builds] at hb
    exact ⟨b, hb, hck, by rw [hsource, hfp]⟩
  · rw [getOrBuild_of_shared (by simp [hl]), hl] at hhit
    simp at hhit
  · rw [getOrBuild_of_own hl] at hhit
    simp at hhit

/-! ### No build outlives an invalidation -/

def Fresh (s : Cache) : Prop := ∀ b, s.Live b → s.Current b

/-- The invalidations so far lie in the past. -/
def Past (s : Cache) : Prop := ∀ i ∈ s.invalidations, i.time < s.now

theorem current_congr {s t : Cache} (hi : t.invalidations = s.invalidations)
    (hr : t.reverseDependencies = s.reverseDependencies) : t.Current b ↔ s.Current b := by
  simp only [Cache.Current, Cache.StaleSince, hi, hr]

theorem current_of_not_started (s : Cache) (h : b.startedAt = none) : s.Current b :=
  fun t ht => by simp [h] at ht

theorem Fresh.retreat {s t : Cache} (hk : Keyed s) (h : Fresh s) (r : Retreat s t) : Fresh t := by
  intro b hb
  refine (current_congr r.invalidations r.reverse).mpr (h b ?_)
  rcases hb with ⟨bucket, a, ha, hb⟩ | ⟨i, hb, hfin, hepoch⟩ <;> rw [r.builds] at hb
  · exact .inl ⟨bucket, a, r.artifacts _ _ ha, hb⟩
  · refine .inr ⟨i, hb, hfin, le_antisymm (hk.epoch hb) ?_⟩
    exact (r.epochs _).trans_eq hepoch.symm

theorem Fresh.withBuild (h : Fresh s) (cacheKey : String) (source : SourceRecord) :
    Fresh (s.withBuild cacheKey source) := by
  intro b hb
  refine (current_congr (s := s) rfl rfl).mpr ?_
  rcases hb with ⟨⟨ck, path⟩, a, ha, hb⟩ | ⟨i, hb, hfin, hepoch⟩
  · rcases withBuild_getElem?.mp hb with hb | ⟨-, rfl⟩
    · exact h b (.inl ⟨_, a, ha, hb⟩)
    · exact current_of_not_started s rfl
  · rcases withBuild_getElem?.mp hb with hb | ⟨-, rfl⟩
    · exact h b (.inr ⟨i, hb, hfin, hepoch⟩)
    · exact current_of_not_started s rfl

theorem Fresh.getOrBuild (hk : Keyed s) (h : Fresh s) (cacheKey : String) (source : SourceRecord) :
    Fresh (s.getOrBuild cacheKey source).2 := by
  have hnote := h.retreat hk (s.noteSource_retreat source)
  rcases lookup_cases (s.noteSource source) cacheKey source with
    ⟨a, hl, -⟩ | ⟨active, hl, -⟩ | ⟨hl, -⟩
  · rw [getOrBuild_of_shared (by simp [hl])]
    exact hnote
  · rw [getOrBuild_of_shared (by simp [hl])]
    exact hnote
  · rw [getOrBuild_of_own hl]
    exact hnote.withBuild cacheKey source

theorem Fresh.request_serves (hk : Keyed s) (h : Fresh s) (horder : s.Orderly (.request cacheKey source)) :
    s.Serves (.request cacheKey source) := by
  have hkey := hk.retreat (s.noteSource_retreat source)
  have hnote := h.retreat hk (s.noteSource_retreat source)
  simp only [Cache.Serves]
  rcases lookup_cases (s.noteSource source) cacheKey source with
    ⟨a, hl, ha, hfp⟩ | ⟨active, hl, hf⟩ | ⟨hl, -⟩
  · rw [getOrBuild_of_shared (by simp [hl]), hl]
    obtain ⟨-, b, hb, -, hsource⟩ := hkey.artifact ha
    exact ⟨b, hb, by rw [hsource, hfp], hnote b (.inl ⟨_, a, ha, hb⟩)⟩
  · rw [getOrBuild_of_shared (by simp [hl]), hl]
    obtain ⟨b, hb, -, hsource, hepoch, hfin⟩ := hkey.inFlight hf
    have hcur : b.epoch = (s.noteSource source).epochs b.source.canonicalPath := by
      rw [hepoch, hsource]
      exact horder active hl hf
    exact ⟨b, hb, hsource, hnote b (.inr ⟨_, hb, hfin, hcur⟩)⟩
  · rw [getOrBuild_of_own hl]
    exact ⟨_, withBuild_getElem?.mpr (.inr ⟨rfl, rfl⟩), rfl, current_of_not_started _ rfl⟩

/-- A build that starts now starts after every invalidation. -/
theorem current_of_started_now (hp : Past s) (h : b.startedAt = some s.now) : s.Current b := by
  rintro t ht ⟨i, hi, hle, -⟩
  obtain rfl : s.now = t := Option.some.inj (h.symm.trans ht)
  exact absurd (hp i hi) (by omega)

theorem Fresh.start {s : Cache} (h : Fresh s) (hp : Past s) (n : Nat) : Fresh (s.start n) := by
  have hold : ∀ {m : Nat} {b' : Build}, (s.start n).builds[m]? = some b' →
      ∃ b, s.builds[m]? = some b ∧ b'.source = b.source ∧ b'.epoch = b.epoch ∧
        b'.finished = b.finished ∧ (s.Current b → s.Current b') := by
    intro m b' hb'
    obtain ⟨b, hb, rfl⟩ := getElem?_modify.mp hb'
    refine ⟨b, hb, ?_⟩
    by_cases hm : n = m
    · by_cases hstart : b.startedAt.isNone = true
      · simp only [hm, if_true, hstart, true_and]
        exact fun _ => current_of_started_now hp rfl
      · simp [hm, hstart]
    · simp [hm]
  intro b' hb'
  refine (current_congr (s := s) rfl rfl).mpr ?_
  rcases hb' with ⟨bucket, a, ha, hb'⟩ | ⟨i, hb', hfin', hepoch'⟩
  · obtain ⟨b, hb, -, -, -, hcur⟩ := hold hb'
    exact hcur (h b (.inl ⟨bucket, a, ha, hb⟩))
  · obtain ⟨b, hb, hsource, hepoch, hfin, hcur⟩ := hold hb'
    refine hcur (h b (.inr ⟨i, hb, hfin ▸ hfin', ?_⟩))
    rw [← hepoch, ← hsource]
    exact hepoch'

theorem Fresh.finish (h : Fresh s) (n : Nat) (ok : Bool) : Fresh (s.finish n ok) := by
  rcases finish_cases s n ok with heq | ⟨b, t, hb, -, hfin, heq⟩ <;> rw [heq]
  · exact h
  intro b' hb'
  refine (current_congr (s := s) rfl rfl).mpr ?_
  rcases hb' with ⟨bucket, a, ha, hb'⟩ | ⟨i, hb', hfin', hepoch'⟩
  · obtain ⟨old, hold, rfl⟩ := withResult_getElem?.mp hb'
    have hcur : s.Current old := by
      rcases withResult_artifact ha with ha | ⟨hpub, -, rfl⟩
      · exact h old (.inl ⟨bucket, a, ha, hold⟩)
      · obtain rfl := Option.some.inj (hb.symm.trans hold)
        simp only [Cache.publishes, Bool.and_eq_true, beq_iff_eq] at hpub
        exact h b (.inr ⟨n, hb, hfin, hpub.1.symm⟩)
    split <;> exact hcur
  · obtain ⟨old, hold, rfl⟩ := withResult_getElem?.mp hb'
    by_cases hn : n = i
    · simp [hn] at hfin'
    · simp only [hn, if_false] at hfin' hepoch' ⊢
      exact h old (.inr ⟨i, hold, hfin', hepoch'⟩)

theorem Fresh.finish_serves (hk : Keyed s) (h : Fresh s) (n : Nat) (ok : Bool) : s.Serves (.finish n ok) := by
  rintro ⟨ck, path⟩ a ha rfl
  obtain ⟨hkey, b, hb, -, hsource⟩ := (hk.finish a.build ok).artifact ha
  exact ⟨b, hb, by rw [hsource, hkey], h.finish a.build ok b (.inl ⟨_, a, ha, hb⟩)⟩

/-- A path through recorded dependencies is one from before, or goes through a recorded one. -/
theorem dependsOn_append {recorded kept reverse : List (ModuleKey × ModuleKey)}
    {module p m : ModuleKey} {dependencies : List ModuleKey}
    (hrec : ∀ {d x}, (d, x) ∈ recorded → d ∈ dependencies ∧ x = module)
    (hkept : ∀ {edge}, edge ∈ kept → edge ∈ reverse) (h : DependsOn (recorded ++ kept) p m) : DependsOn reverse p m ∨
      (∃ d ∈ dependencies, DependsOn reverse p d) ∧ DependsOn reverse module m := by
  induction h with
  | refl => exact .inl .refl
  | tail _ hedge ih =>
    rcases List.mem_append.mp hedge with hnew | hold
    · obtain ⟨hd, rfl⟩ := hrec hnew
      rcases ih with ih | ⟨ih, -⟩
      · exact .inr ⟨⟨_, hd, ih⟩, .refl⟩
      · exact .inr ⟨ih, .refl⟩
    · rcases ih with ih | ⟨hsome, ih⟩
      · exact .inl (ih.tail (hkept hold))
      · exact .inr ⟨hsome, ih.tail (hkept hold)⟩

theorem Fresh.updateDependencies (h : Fresh s) {module : ModuleKey} {dependencies : List ModuleKey}
    (horder : s.Orderly (.updateDependencies module dependencies)) :
    Fresh (s.updateDependencies module dependencies) := by
  rintro b hb t ht ⟨i, hi, hle, hdep⟩
  have hlive : s.Live b := hb
  rcases hdep with hthen | hnow
  · exact h b hlive t ht ⟨i, hi, hle, .inl hthen⟩
  · have hcases := @dependsOn_append _ _ s.reverseDependencies module _ _ dependencies (by simp)
      (fun hedge => (List.mem_filter.mp hedge).1) hnow
    rcases hcases with hold | ⟨⟨d, hd, hpath⟩, hmodule⟩
    · exact h b hlive t ht ⟨i, hi, hle, .inr hold⟩
    · exact absurd (horder d hd i hi hpath b t hlive hmodule ht) (by omega)

theorem Fresh.invalidate (hk : Keyed s) (h : Fresh s) (path : ModuleKey) : Fresh (s.invalidate path) := by
  obtain ⟨hretreat, hreach⟩ := invalidateLocked_spec s path
  rintro b hb t ht ⟨i, hi, hle, hdep⟩
  have hlive : (s.invalidateLocked path).Live b := hb
  have hclear : ¬ DependsOn s.reverseDependencies path b.source.canonicalPath := by
    intro hpath
    obtain ⟨hlt, hgone⟩ := hreach _ hpath
    rcases hlive with ⟨⟨ck, bucket⟩, a, ha, hb⟩ | ⟨n, hb, -, hepoch⟩
    · obtain ⟨hkey, b', hb', -, hsource⟩ := (hk.retreat hretreat).artifact ha
      obtain rfl := Option.some.inj (hb.symm.trans hb')
      exact hgone _ a ha (by rw [hkey, hsource])
    · have hle := hk.epoch (hretreat.builds ▸ hb)
      omega
  rcases List.mem_cons.mp hi with rfl | hi
  · rcases hdep with hdep | hdep <;> exact hclear hdep
  · exact (h.retreat hk hretreat) b hlive t ht ⟨i, hi, hle, hdep⟩

theorem Fresh.step {s : Cache} (hk : Keyed s) (hp : Past s) (h : Fresh s) {e : Event}
    (horder : s.Orderly e) : Fresh (s.step e) := by
  have happly : Fresh (s.apply e) := by
    cases e with
    | request cacheKey source => exact h.getOrBuild hk cacheKey source
    | start n => exact h.start hp n
    | finish n ok => exact h.finish n ok
    | noteSource source => exact h.retreat hk (s.noteSource_retreat source)
    | updateDependencies module dependencies => exact h.updateDependencies horder
    | invalidate path => exact h.invalidate hk path
  exact fun b hb => happly b hb

theorem Fresh.serves (hk : Keyed s) (h : Fresh s) {e : Event} (horder : s.Orderly e) : s.Serves e := by
  cases e with
  | request cacheKey source => exact h.request_serves hk horder
  | finish n ok => exact h.finish_serves hk n ok
  | _ => trivial

theorem getOrBuild_invalidations (s : Cache) (cacheKey : String) (source : SourceRecord) :
    (s.getOrBuild cacheKey source).2.invalidations = s.invalidations := by
  have hnote := (s.noteSource_retreat source).invalidations
  rcases lookup_cases (s.noteSource source) cacheKey source with
    ⟨a, hl, -⟩ | ⟨active, hl, -⟩ | ⟨hl, -⟩
  · rw [getOrBuild_of_shared (by simp [hl]), hnote]
  · rw [getOrBuild_of_shared (by simp [hl]), hnote]
  · rw [getOrBuild_of_own hl]
    exact hnote

/-- A step records an invalidation at its own time, if any. -/
theorem apply_invalidations (s : Cache) (e : Event) :
    ∀ i ∈ (s.apply e).invalidations, i ∈ s.invalidations ∨ i.time = s.now := by
  cases e with
  | request cacheKey source =>
    rw [Cache.apply, getOrBuild_invalidations]
    exact fun i hi => .inl hi
  | start n => exact fun i hi => .inl hi
  | finish n ok =>
    rcases finish_cases s n ok with heq | ⟨b, t, -, -, -, heq⟩ <;> rw [Cache.apply, heq]
    · exact fun i hi => .inl hi
    · exact fun i hi => .inl hi
  | noteSource source =>
    rw [Cache.apply, (s.noteSource_retreat source).invalidations]
    exact fun i hi => .inl hi
  | updateDependencies module dependencies => exact fun i hi => .inl hi
  | invalidate path =>
    intro i hi
    rcases List.mem_cons.mp hi with rfl | hi
    · exact .inr rfl
    · exact .inl hi

theorem Past.step {s : Cache} (h : Past s) (e : Event) : Past (s.step e) := by
  intro i hi
  show i.time < s.now + 1
  rcases apply_invalidations s e i hi with hi | htime
  · exact (h i hi).trans (Nat.lt_succ_self _)
  · omega

theorem along_serves : ∀ (events : List Event) {s : Cache}, Keyed s → Past s → Fresh s →
    s.Along Cache.Orderly events → s.Along Cache.Serves events
  | [], _, _, _, _, _ => trivial
  | e :: events, _, hk, hp, h, horder =>
    ⟨h.serves hk horder.1, along_serves events (hk.step e) (hp.step e) (h.step hk hp horder.1) horder.2⟩

theorem past_init : Past Cache.init := fun i hi => by simp [Cache.init] at hi

theorem fresh_init : Fresh Cache.init := by
  rintro b (⟨bucket, a, ha, -⟩ | ⟨i, hb, -⟩)
  · simp [Cache.init] at ha
  · simp [Cache.init] at hb

/-- Whatever the interleaving, an artifact returned as cached was built from the requested source. In a
    run whose steps are orderly, no request gets, and no worker stores, an artifact whose build started
    before an invalidation that concerns its module. -/
theorem module_cache_never_stale (events : List Event) :
    (∀ cacheKey source a, ((Cache.init.run events).getOrBuild cacheKey source).1 = .hit a →
      ∃ b, (Cache.init.run events).builds[a.build]? = some b ∧ b.cacheKey = cacheKey ∧ b.source = source) ∧
    (Cache.init.Along Cache.Orderly events → Cache.init.Along Cache.Serves events) :=
  ⟨fun _ _ _ hhit => (keyed_run events keyed_init).hit_builtFrom hhit,
    along_serves events keyed_init past_init fresh_init⟩

/-- A module is built, stored and invalidated, and then asked for again. -/
theorem module_cache_never_stale_rebuilt : Cache.init.Along Cache.Serves
      [.request "debug" ⟨"/a.zith", ⟨1, 2⟩⟩, .start 0, .finish 0 true, .invalidate "/a.zith",
        .request "debug" ⟨"/a.zith", ⟨1, 2⟩⟩] := by
  refine (module_cache_never_stale _).2 ⟨?_, trivial, trivial, trivial, ?_, trivial⟩
  · rintro active - hf
    cases (show none = some active from hf)
  · rintro active - hf
    cases (show none = some active from hf)

/-- A request waits for a build that started before its own path was invalidated. -/
theorem getOrBuild_awaits_invalidated_build : ¬ (Cache.init.run
        [.request "debug" ⟨"/a.zith", ⟨1, 2⟩⟩, .start 0, .invalidate "/a.zith"]).Serves
      (.request "debug" ⟨"/a.zith", ⟨1, 2⟩⟩) := by
  rintro ⟨b, hb, -, hcur⟩
  obtain rfl := Option.some.inj hb
  exact hcur 1 rfl ⟨⟨"/a.zith", 2, []⟩, by decide, by decide, .inl .refl⟩

end Zith.Session
