import Zith.Session.ModuleCacheSafety

/-! One build at a time, and the last revision only. The in-flight table says exactly which builds have not ended, so
    that a request of a key that is being built waits for that build. What is cached is of the last revision that the
    cache was told of: a new one evicts, and a worker with an old one stores nothing. -/

namespace Zith.Session

/-- `inFlightKey` of what a build was submitted for. -/
def Build.key (b : Build) : InFlightKey := ((b.cacheKey, b.source.canonicalPath), b.source.fingerprint)

/-- The build with the given number is of the key, and has not ended. -/
def Cache.Building (s : Cache) (key : InFlightKey) (n : Nat) : Prop :=
  ∃ b, s.builds[n]? = some b ∧ b.key = key ∧ b.finished = false

/-- Every artifact is of its path, and of the last revision of it that the cache was told of. -/
def Cache.Latest (s : Cache) : Prop :=
  ∀ bucket a, s.artifacts bucket = some a →
    a.key = bucket.2 ∧ s.currentFingerprints bucket.2 = some a.fingerprint

structure Settled (s : Cache) : Prop where
  inFlight : ∀ (n : Nat) (b : Build), s.builds[n]? = some b → b.finished = false →
    s.inFlight b.key = some ⟨n, b.epoch⟩
  latest : s.Latest

namespace Settled

variable {s : Cache}

theorem noteSource (h : Settled s) (source : SourceRecord) : Settled (s.noteSource source) := by
  refine ⟨fun n b hb hfin => ?_, ?_⟩
  · rw [(s.noteSource_retreat source).builds] at hb
    rw [(s.noteSource_retreat source).inFlight]
    exact h.inFlight n b hb hfin
  · unfold Cache.noteSource
    split
    · exact h.latest
    intro bucket a ha
    obtain ⟨hretreat, hgone⟩ := invalidateLocked_spec
      { s with currentFingerprints :=
          Function.update s.currentFingerprints source.canonicalPath (some source.fingerprint) } source.canonicalPath
    obtain ⟨hkey, hold⟩ := h.latest bucket a (hretreat.artifacts bucket a ha)
    have hne : bucket.2 ≠ source.canonicalPath := fun heq => (hgone _ .refl).2 bucket a ha (hkey.trans heq)
    exact ⟨hkey, (Function.update_of_ne hne _ _).trans hold⟩

theorem withBuild (h : Settled s) {cacheKey : String} {source : SourceRecord}
    (hnone : s.inFlight ((cacheKey, source.canonicalPath), source.fingerprint) = none) :
    Settled (s.withBuild cacheKey source) := by
  refine ⟨fun n b hb hfin => ?_, h.latest⟩
  rcases withBuild_getElem?.mp hb with hb | ⟨rfl, rfl⟩
  · have hold := h.inFlight n b hb hfin
    have hne : b.key ≠ ((cacheKey, source.canonicalPath), source.fingerprint) := by
      intro heq
      rw [heq, hnone] at hold
      cases hold
    simpa [Cache.withBuild, hne] using hold
  · simp [Cache.withBuild, Build.key]

theorem getOrBuild (h : Settled s) (cacheKey : String) (source : SourceRecord) :
    Settled (s.getOrBuild cacheKey source).2 := by
  have hnote := h.noteSource source
  rcases lookup_cases (s.noteSource source) cacheKey source with ⟨a, hl, -⟩ | ⟨active, hl, -⟩ | ⟨hl, hnone⟩
  · rwa [getOrBuild_of_shared (by simp [hl])]
  · rwa [getOrBuild_of_shared (by simp [hl])]
  · rw [getOrBuild_of_own hl]
    exact hnote.withBuild hnone

theorem start (h : Settled s) (n : Nat) : Settled (s.start n) := by
  refine ⟨fun m b' hb' hfin => ?_, h.latest⟩
  obtain ⟨b, hb, hb''⟩ := getElem?_modify.mp hb'
  have hsame : b'.cacheKey = b.cacheKey ∧ b'.source = b.source ∧ b'.epoch = b.epoch ∧ b'.finished = b.finished := by
    rw [hb'']
    split
    · exact b.begin_same s.now
    · simp
  rw [Build.key, hsame.1, hsame.2.1, hsame.2.2.1]
  exact h.inFlight m b hb (hsame.2.2.2.symm.trans hfin)

/-- A build that ends takes its own entry from the table, and no other. -/
theorem finish (h : Settled s) (n : Nat) (ok : Bool) : Settled (s.finish n ok) := by
  rcases finish_cases s n ok with heq | ⟨b, t, hb, -, hrun, heq⟩ <;> rw [heq]
  · exact h
  refine ⟨fun m b' hb' hfin => ?_, fun bucket a ha => ?_⟩
  · obtain ⟨old, hold, rfl⟩ := withResult_getElem?.mp hb'
    by_cases hm : n = m
    · simp [hm] at hfin
    · rw [if_neg hm] at hfin ⊢
      refine withResult_inFlight.mpr ⟨fun heq => hm ?_, h.inFlight m old hold hfin⟩
      have hsame := (h.inFlight n b hb hrun).symm.trans
        ((congrArg s.inFlight heq.symm).trans (h.inFlight m old hold hfin))
      exact congrArg InFlight.build (Option.some.inj hsame)
  · rcases withResult_artifact ha with ha | ⟨hpub, rfl, rfl⟩
    · exact h.latest bucket a ha
    · simp only [Cache.publishes, Bool.and_eq_true, beq_iff_eq] at hpub
      exact ⟨rfl, hpub.2⟩

theorem step (h : Settled s) (e : Event) : Settled (s.step e) := by
  have happly : Settled (s.apply e) := by
    cases e with
    | request cacheKey source => exact h.getOrBuild cacheKey source
    | start n => exact h.start n
    | finish n ok => exact h.finish n ok
    | noteSource source => exact h.noteSource source
    | updateDependencies module dependencies => exact ⟨h.inFlight, h.latest⟩
    | invalidate path =>
      have hretreat := (invalidateLocked_spec s path).1
      exact ⟨h.inFlight, fun bucket a ha => h.latest bucket a (hretreat.artifacts bucket a ha)⟩
  exact ⟨happly.inFlight, happly.latest⟩

theorem run : ∀ (events : List Event) {s : Cache}, Settled s → Settled (s.run events)
  | [], _, h => h
  | e :: events, _, h => run events (h.step e)

theorem inFlight_iff (h : Settled s) (hk : Keyed s) {key : InFlightKey} {n : Nat} :
    (∃ epoch, s.inFlight key = some ⟨n, epoch⟩) ↔ s.Building key n := by
  constructor
  · rintro ⟨epoch, hf⟩
    obtain ⟨b, hb, hck, hsource, -, hfin⟩ := hk.inFlight hf
    exact ⟨b, hb, by rw [Build.key, hck, hsource], hfin⟩
  · rintro ⟨b, hb, rfl, hfin⟩
    exact ⟨b.epoch, h.inFlight n b hb hfin⟩

end Settled

theorem settled_init : Settled Cache.init := ⟨by simp [Cache.init], fun bucket a ha => by cases ha⟩

/-- However requests, workers, revisions and invalidations interleave: no two builds of one key run at a time, and a
    request gets an artifact built for its key, waits for the build of its key, or builds where none runs. -/
theorem module_cache_single_flight (events : List Event) :
    let s := Cache.init.run events
    (∀ key m n, s.Building key m → s.Building key n → m = n) ∧
      ∀ (cacheKey : String) (source : SourceRecord),
        let key := ((cacheKey, source.canonicalPath), source.fingerprint)
        (∀ a, (s.getOrBuild cacheKey source).1 = .hit a → ∃ b, s.builds[a.build]? = some b ∧ b.key = key) ∧
          (∀ n, (s.getOrBuild cacheKey source).1 = .wait n → s.Building key n) ∧
          ∀ n, (s.getOrBuild cacheKey source).1 = .own n → ∀ m, ¬ s.Building key m := by
  intro s
  have h : Settled s := settled_init.run events
  have hk : Keyed s := keyed_run events keyed_init
  refine ⟨fun key m n hm hn => ?_, fun cacheKey source => ⟨fun a ha => ?_, ?_⟩⟩
  · obtain ⟨_, hm⟩ := (h.inFlight_iff hk).mpr hm
    obtain ⟨_, hn⟩ := (h.inFlight_iff hk).mpr hn
    exact congrArg InFlight.build (Option.some.inj (hm.symm.trans hn))
  · obtain ⟨b, hb, hck, hsource⟩ := hk.hit_builtFrom ha
    exact ⟨b, hb, by rw [Build.key, hck, hsource]⟩
  · have hsame := (s.noteSource_retreat source).inFlight
    rcases lookup_cases (s.noteSource source) cacheKey source with ⟨a, hl, -⟩ | ⟨active, hl, hf⟩ | ⟨hl, hnone⟩
    · simp [getOrBuild_of_shared, hl]
    · have hrun := (h.inFlight_iff hk).mp ⟨active.epoch, hsame ▸ hf⟩
      simpa [getOrBuild_of_shared, hl] using hrun
    · have hfree : ∀ m, ¬ s.Building ((cacheKey, source.canonicalPath), source.fingerprint) m := by
        intro m hm
        obtain ⟨epoch, hf⟩ := (h.inFlight_iff hk).mpr hm
        rw [← hsame, hnone] at hf
        cases hf
      simpa [getOrBuild_of_own hl] using hfree

/-- However they interleave, and whichever worker ends last: no older revision is in the cache. -/
theorem module_cache_latest (events : List Event) : (Cache.init.run events).Latest := (settled_init.run events).latest

end Zith.Session
