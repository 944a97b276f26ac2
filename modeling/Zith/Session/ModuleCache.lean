import Mathlib.Data.List.Dedup
import Zith.Lib.Worklist

/-! `ModuleCache`: the tables under its lock and one step for each section that holds it. Requesters and
    workers interleave freely, so a run is any sequence of steps. Keys the code joins from strings with
    separators are tuples, the maps are functions, and the artifact `buildModule` makes of a source is that
    of the source's path and fingerprint.

        getOrBuild            lookup, or an in-flight build to wait for, or a new build
        start, finish         a worker calls `build`; a worker publishes the result

    The code has no clock: `now` counts the steps, and `invalidations` records the calls of `invalidate`. -/

namespace Zith.Session

abbrev ModuleKey := String

structure ContentFingerprint where
  primary : UInt64
  secondary : UInt64
deriving DecidableEq, Repr

structure SourceRecord where
  canonicalPath : ModuleKey
  fingerprint : ContentFingerprint
deriving DecidableEq, Repr

/-- `bucketKey`: the identity of the cache key and a path. -/
abbrev BucketKey := String × ModuleKey

/-- `inFlightKey`. -/
abbrev InFlightKey := BucketKey × ContentFingerprint

/-- A published artifact; `build` is the build that made it. -/
structure Artifact where
  key : ModuleKey
  fingerprint : ContentFingerprint
  build : Nat
deriving DecidableEq, Repr

/-- `InFlight`; the future is that of a build. -/
structure InFlight where
  build : Nat
  epoch : Nat
deriving DecidableEq, Repr

/-- What a submitted task has captured, and when a worker called `build`. -/
structure Build where
  cacheKey : String
  source : SourceRecord
  epoch : Nat
  startedAt : Option Nat := none
  finished : Bool := false
deriving DecidableEq, Repr

/-- One call of `invalidate`, with the reverse dependencies it found. -/
structure Invalidation where
  path : ModuleKey
  time : Nat
  reverseDependencies : List (ModuleKey × ModuleKey)
deriving DecidableEq, Repr

/-- The tables, the builds so far, and the clock. -/
structure Cache where
  artifacts : BucketKey → Option Artifact
  inFlight : InFlightKey → Option InFlight
  currentFingerprints : ModuleKey → Option ContentFingerprint
  epochs : ModuleKey → Nat
  dependencies : ModuleKey → List ModuleKey
  /-- `(d, m)`: the module `m` is in the set of reverse dependencies of `d`. -/
  reverseDependencies : List (ModuleKey × ModuleKey)
  builds : List Build
  now : Nat
  invalidations : List Invalidation

def Cache.init : Cache :=
  { artifacts := fun _ => none
    inFlight := fun _ => none
    currentFingerprints := fun _ => none
    epochs := fun _ => 0
    dependencies := fun _ => []
    reverseDependencies := []
    builds := []
    now := 0
    invalidations := [] }

/-! ### Invalidation -/

/-- Drops the artifacts of a module from every bucket. -/
def evict (module : ModuleKey) (artifacts : BucketKey → Option Artifact) :
    BucketKey → Option Artifact :=
  fun bucket => (artifacts bucket).filter fun artifact => artifact.key != module

def bumpAll (modules : List ModuleKey) (epochs : ModuleKey → Nat) : ModuleKey → Nat :=
  modules.foldl (fun epochs module => Function.update epochs module (epochs module + 1)) epochs

/-- A round of the loop of `invalidateLocked`, on a module it has not visited. -/
def invalidateModule (reverse : List (ModuleKey × ModuleKey)) (current : ModuleKey)
    (s : (BucketKey → Option Artifact) × (ModuleKey → Nat)) :
    (BucketKey → Option Artifact) × (ModuleKey → Nat) :=
  (evict current s.1, bumpAll (Lib.successors reverse current) s.2)

/-- `++epochs_[module]` and `invalidateLocked`. A round takes one module off and a module brings in its
    dependents once, so the fuel lasts. -/
def Cache.invalidateLocked (s : Cache) (module : ModuleKey) : Cache :=
  let reverse := s.reverseDependencies
  let epochs := Function.update s.epochs module (s.epochs module + 1)
  let result := Lib.drain reverse (invalidateModule reverse) (reverse.length + 1) [module] []
    (s.artifacts, epochs)
  { s with artifacts := result.1, epochs := result.2 }

/-! ### The locked sections -/

/-- `noteSource`, and the first thing `getOrBuild` does: a new revision of a path. -/
def Cache.noteSource (s : Cache) (source : SourceRecord) : Cache :=
  if s.currentFingerprints source.canonicalPath = some source.fingerprint then s else
    let path := source.canonicalPath
    let fingerprints := Function.update s.currentFingerprints path (some source.fingerprint)
    { s with currentFingerprints := fingerprints }.invalidateLocked path

/-- What a request gets: a cached artifact, the future of a build in flight, or that of its own build. -/
inductive Answer
  | hit (artifact : Artifact)
  | wait (build : Nat)
  | own (build : Nat)
deriving DecidableEq, Repr

/-- The build whose result the requester gets. -/
def Answer.build : Answer → Nat
  | .hit artifact => artifact.build
  | .wait build => build
  | .own build => build

def Cache.lookup (s : Cache) (cacheKey : String) (source : SourceRecord) : Answer :=
  let bucket := (cacheKey, source.canonicalPath)
  let active := match s.inFlight (bucket, source.fingerprint) with
    | some active => .wait active.build
    | none => .own s.builds.length
  match s.artifacts bucket with
  | some cached => if cached.fingerprint = source.fingerprint then .hit cached else active
  | none => active

/-- The locked section of `getOrBuild`. -/
def Cache.getOrBuild (s : Cache) (cacheKey : String) (source : SourceRecord) : Answer × Cache :=
  let s := s.noteSource source
  match s.lookup cacheKey source with
  | .own build =>
    let epoch := s.epochs source.canonicalPath
    let key := ((cacheKey, source.canonicalPath), source.fingerprint)
    (.own build,
      { s with
        builds := s.builds ++ [⟨cacheKey, source, epoch, none, false⟩]
        inFlight := Function.update s.inFlight key (some ⟨build, epoch⟩) })
  | answer => (answer, s)

/-- A worker calls `build`. -/
def Cache.start (s : Cache) (build : Nat) : Cache :=
  { s with
    builds := s.builds.modify build fun b =>
      if b.startedAt.isNone then { b with startedAt := some s.now } else b }

/-- Whether the result of a build is stored. -/
def Cache.publishes (s : Cache) (b : Build) : Bool :=
  s.epochs b.source.canonicalPath == b.epoch &&
    s.currentFingerprints b.source.canonicalPath == some b.source.fingerprint

/-- The locked section of a worker, after `build` has returned an artifact or, without `ok`, none. -/
def Cache.finish (s : Cache) (build : Nat) (ok : Bool) : Cache :=
  match s.builds[build]? with
  | none => s
  | some b =>
    if b.startedAt.isNone || b.finished then s else
      let bucket := (b.cacheKey, b.source.canonicalPath)
      let artifact : Artifact := ⟨b.source.canonicalPath, b.source.fingerprint, build⟩
      { s with
        builds := s.builds.modify build fun b => { b with finished := true }
        inFlight := Function.update s.inFlight (bucket, b.source.fingerprint) none
        artifacts :=
          if ok && s.publishes b then Function.update s.artifacts bucket (some artifact)
          else s.artifacts }

def Cache.updateDependencies (s : Cache) (module : ModuleKey) (dependencies : List ModuleKey) : Cache :=
  let stored := dependencies.dedup
  let kept := s.reverseDependencies.filter fun edge =>
    !(edge.2 == module && (s.dependencies module).contains edge.1)
  { s with
    dependencies := Function.update s.dependencies module stored
    reverseDependencies := stored.map (fun d => (d, module)) ++ kept }

def Cache.invalidate (s : Cache) (path : ModuleKey) : Cache :=
  { s.invalidateLocked path with
    invalidations := ⟨path, s.now, s.reverseDependencies⟩ :: s.invalidations }

/-! ### Runs -/

inductive Event
  | request (cacheKey : String) (source : SourceRecord)
  | start (build : Nat)
  | finish (build : Nat) (ok : Bool)
  | noteSource (source : SourceRecord)
  | updateDependencies (module : ModuleKey) (dependencies : List ModuleKey)
  | invalidate (path : ModuleKey)
deriving DecidableEq, Repr

def Cache.apply (s : Cache) : Event → Cache
  | .request cacheKey source => (s.getOrBuild cacheKey source).2
  | .start build => s.start build
  | .finish build ok => s.finish build ok
  | .noteSource source => s.noteSource source
  | .updateDependencies module dependencies => s.updateDependencies module dependencies
  | .invalidate path => s.invalidate path

def Cache.step (s : Cache) (e : Event) : Cache :=
  { s.apply e with now := s.now + 1 }

def Cache.run (s : Cache) (events : List Event) : Cache := events.foldl Cache.step s

/-! ### What a request may get -/

/-- The module `m` is `p` or depends on it, directly or transitively, in a table of reverse
    dependencies. -/
def DependsOn (reverse : List (ModuleKey × ModuleKey)) (p m : ModuleKey) : Prop :=
  Relation.ReflTransGen (fun d m => (d, m) ∈ reverse) p m

/-- At time `t` or later, a path was invalidated that the module depended on then, or depends on now. -/
def Cache.StaleSince (s : Cache) (module : ModuleKey) (t : Nat) : Prop :=
  ∃ i ∈ s.invalidations, t ≤ i.time ∧
    (DependsOn i.reverseDependencies i.path module ∨ DependsOn s.reverseDependencies i.path module)

/-- The build did not start before an invalidation that concerns its module. -/
def Cache.Current (s : Cache) (b : Build) : Prop :=
  ∀ t, b.startedAt = some t → ¬ s.StaleSince b.source.canonicalPath t

/-- The build with the given number is of the given source, and current. -/
def Cache.Delivers (s : Cache) (source : SourceRecord) (build : Nat) : Prop :=
  ∃ b, s.builds[build]? = some b ∧ b.source = source ∧ s.Current b

/-- What the requester gets, and what a worker stores, is current. -/
def Cache.Serves (s : Cache) : Event → Prop
  | .request cacheKey source =>
    (s.getOrBuild cacheKey source).2.Delivers source (s.getOrBuild cacheKey source).1.build
  | .finish build ok =>
    ∀ bucket a, (s.finish build ok).artifacts bucket = some a → a.build = build →
      (s.finish build ok).Delivers ⟨a.key, a.fingerprint⟩ build
  | _ => True

/-- The build is that of a cached artifact, or it runs and may still be stored. -/
def Cache.Live (s : Cache) (b : Build) : Prop :=
  (∃ bucket a, s.artifacts bucket = some a ∧ s.builds[a.build]? = some b) ∨
    ∃ i : Nat, s.builds[i]? = some b ∧ b.finished = false ∧ b.epoch = s.epochs b.source.canonicalPath

/-- A request does not take over a build in flight from an older epoch of its path. A module comes to
    depend on a path before the path is invalidated, or with no build made of the module, or of one that
    depends on it, since before that. -/
def Cache.Orderly (s : Cache) : Event → Prop
  | .request cacheKey source =>
    let s := s.noteSource source
    ∀ active, s.lookup cacheKey source = .wait active.build →
      s.inFlight ((cacheKey, source.canonicalPath), source.fingerprint) = some active →
        active.epoch = s.epochs source.canonicalPath
  | .updateDependencies module dependencies =>
    ∀ d ∈ dependencies, ∀ i ∈ s.invalidations, DependsOn s.reverseDependencies i.path d →
      ∀ b t, s.Live b → DependsOn s.reverseDependencies module b.source.canonicalPath →
        b.startedAt = some t → i.time < t
  | _ => True

/-- What holds of each step of a run, in the state it is taken in. -/
def Cache.Along (P : Cache → Event → Prop) : Cache → List Event → Prop
  | _, [] => True
  | s, e :: events => P s e ∧ (s.step e).Along P events

end Zith.Session
