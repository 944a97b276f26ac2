import Mathlib.Data.List.Dedup
import Zith.Cache.ManifestRoundTrip
import Zith.Lib.Numeral
import Zith.Lib.Worklist
import Zith.Zirl.Header

/-! `Manifest::remove`, `Manifest::dependentsOf` and `Store::invalidate`. The reverse relation is kept up
    to date entry by entry, and the dependents of a path are collected from it with a stack; cycles end
    because a path is expanded once. What is invalidated leaves no entry behind that depends on it. -/

namespace Zith.Cache
open Lib (numeral drain drain_rule successors mem_successors unvisited unvisited_cons)

namespace Manifest

/-- `Manifest::remove`. -/
def remove (m : Manifest) (canonicalPath : Bytes) : Manifest :=
  match m.find canonicalPath with
  | none => m
  | some slot =>
    { byPath := m.byPath.filter fun e => e.canonicalPath != canonicalPath
      reverseDeps := dropDeps m.reverseDeps slot }

/-- The loop of `dependentsOf`: the head of the list is the back of the stack. -/
def dependentsLoop (reverse : List (Bytes × Bytes)) (stack visited result : List Bytes) : List Bytes :=
  match stack with
  | [] => result
  | cur :: stack =>
    if cur ∈ visited then dependentsLoop reverse stack visited result
    else
      dependentsLoop reverse ((successors reverse cur).reverse ++ stack) (cur :: visited)
        (result ++ successors reverse cur)
termination_by stack.length + (unvisited reverse visited).length
decreasing_by
  · simp
  · have h := unvisited_cons cur visited ‹_› reverse
    simp only [List.length_append, List.length_reverse, List.length_cons]
    omega

/-- `Manifest::dependentsOf`: the paths that import a path, directly or not, some of them repeated. -/
def dependentsOf (m : Manifest) (canonicalPath : Bytes) : List Bytes :=
  dependentsLoop m.reverseDeps [canonicalPath] [] []

end Manifest

inductive ManifestOp
  | upsert (entry : ManifestEntry)
  | remove (canonicalPath : Bytes)

def ManifestOp.apply (m : Manifest) : ManifestOp → Manifest
  | upsert entry => m.upsert entry
  | remove canonicalPath => m.remove canonicalPath

/-- The manifest after a sequence of calls on an empty one. -/
def Manifest.run (ops : List ManifestOp) : Manifest := ops.foldl ManifestOp.apply {}

/-! ### The store -/

/-- What `Store::invalidate` reads and writes: the manifest, the files by path and a counter. -/
structure Store where
  root : Bytes
  manifest : Manifest
  files : Bytes → Option Bytes
  evictions : ℕ

namespace Store

def pathHash (path : Bytes) : UInt32 := Zirl.fnv1a32 path

/-- `root_ + "/modules/"`. -/
def modules (s : Store) : Bytes := s.root ++ "/modules/".toUTF8.toList

/-- The hash in `std::hex`, without leading zeros. -/
def artifactPath (s : Store) (canonicalPath : Bytes) : Bytes :=
  s.modules ++ numeral 16 (pathHash canonicalPath).toNat ++ ".zirl".toUTF8.toList

/-- One round of the eviction loop. -/
def evict (s : Store) (path : Bytes) : Store :=
  { s with
    manifest := s.manifest.remove path
    files := fun file => if file = s.artifactPath path then none else s.files file }

/-- `manifest_.save()`. -/
def saveManifest (s : Store) : Store :=
  { s with
    files := fun file =>
      if file = s.modules ++ "manifest".toUTF8.toList then some (save s.manifest.byPath)
      else s.files file }

/-- The path and its dependents, each once. -/
def toEvict (s : Store) (canonicalPath : Bytes) : List Bytes :=
  (canonicalPath :: s.manifest.dependentsOf canonicalPath).dedup

/-- `Store::invalidate`. -/
def invalidate (s : Store) (canonicalPath : Bytes) : Store :=
  let paths := s.toEvict canonicalPath
  let evicted := (paths.foldl evict s).saveManifest
  { evicted with evictions := evicted.evictions + paths.length }

end Store

/-! ### The relation after a removal -/

namespace Manifest

theorem WF.remove {m : Manifest} (h : WF m) (canonicalPath : Bytes) : WF (m.remove canonicalPath) := by
  unfold Manifest.remove
  split
  · exact h
  · rename_i slot hfind
    obtain ⟨hmem, hpath⟩ := (find_eq_some_iff h.nodup).mp hfind
    refine ⟨h.nodup.sublist (List.filter_sublist.map _), fun dep path => ?_⟩
    show (dep, path) ∈ dropDeps m.reverseDeps slot ↔ _
    simp only [mem_dropDeps, h.reverse, List.mem_filter, bne_iff_ne]
    constructor
    · rintro ⟨⟨e, he, rfl, hdep⟩, hnot⟩
      refine ⟨e, ⟨he, fun heq => hnot ⟨hpath.trans heq.symm, ?_⟩⟩, rfl, hdep⟩
      rwa [← eq_of_path h.nodup he hmem (heq.trans hpath.symm)]
    · rintro ⟨e, ⟨he, hne⟩, rfl, hdep⟩
      exact ⟨⟨e, he, rfl, hdep⟩, fun heq => hne (heq.1.symm.trans hpath)⟩

end Manifest

namespace Manifest

theorem find_remove (m : Manifest) (q p : Bytes) : (m.remove q).find p = if p = q then none else m.find p := by
  unfold Manifest.remove
  split
  · rename_i hnone
    split
    · rename_i heq
      rw [heq, hnone]
    · rfl
  · show (m.byPath.filter _).find? _ = _
    rw [List.find?_filter]
    split
    · rename_i heq
      subst heq
      rw [List.find?_eq_none]
      intro e _
      simp
    · rename_i hne
      refine congrArg (fun f => m.byPath.find? f) (funext fun e => ?_)
      by_cases hp : e.canonicalPath = p
      · simp [hp, hne]
      · simp [hp]

theorem find_removeAll {p : Bytes} : ∀ (paths : List Bytes) (m : Manifest),
    (paths.foldl Manifest.remove m).find p = if p ∈ paths then none else m.find p
  | [], m => by simp
  | q :: qs, m => by
    rw [List.foldl_cons, find_removeAll qs, find_remove]
    by_cases hq : p = q <;> by_cases hqs : p ∈ qs <;> simp [hq, hqs]

theorem wf_apply {m : Manifest} (h : WF m) : ∀ op : ManifestOp, WF (op.apply m)
  | .upsert entry => h.upsert entry
  | .remove canonicalPath => h.remove canonicalPath

theorem wf_applyAll : ∀ (ops : List ManifestOp) {m : Manifest}, WF m → WF (ops.foldl ManifestOp.apply m)
  | [], _, h => h
  | op :: ops, _, h => wf_applyAll ops (wf_apply h op)

theorem wf_run (ops : List ManifestOp) : WF (run ops) := wf_applyAll ops wf_empty

/-! ### The dependents of a path -/

/-- `path` has an entry that lists `dep`. -/
def DependsOn (m : Manifest) (path dep : Bytes) : Prop := ∃ e, m.find path = some e ∧ dep ∈ e.dependencies

theorem WF.mem_reverseDeps {m : Manifest} (h : WF m) {dep path : Bytes} :
    (dep, path) ∈ m.reverseDeps ↔ m.DependsOn path dep := by
  simp only [h.reverse, DependsOn, find_eq_some_iff h.nodup, and_assoc]

/-- The loop is the general one, with fuel for every edge and every path on the stack. -/
theorem dependentsLoop_eq_drain (reverse : List (Bytes × Bytes)) (stack visited result : List Bytes) :
    dependentsLoop reverse stack visited result = drain reverse (fun node result => result ++ successors reverse node)
        (stack.length + (unvisited reverse visited).length) stack visited result := by
  fun_induction dependentsLoop reverse stack visited result with
  | case1 visited result =>
    cases (unvisited reverse visited).length <;> simp [drain]
  | case2 visited result cur stack hmem ih =>
    rw [List.length_cons, Nat.add_right_comm, drain, if_pos hmem, ih]
  | case3 visited result cur stack hnew ih =>
    have hlen := unvisited_cons cur visited hnew reverse
    rw [List.length_append, List.length_reverse] at ih
    rw [List.length_cons, Nat.add_right_comm, drain, if_neg hnew, ih]
    congr 1
    omega

/-- What the stack, the visited paths and the result are while the dependents of `q` are collected. -/
structure Collecting (edge : Bytes → Bytes → Prop) (q : Bytes) (visited stack result : List Bytes) :
    Prop where
  start : q ∈ visited ∨ q ∈ stack
  reached : ∀ p ∈ stack, p = q ∨ Relation.TransGen edge p q
  sound : ∀ p ∈ result, Relation.TransGen edge p q
  expanded : ∀ d ∈ visited, ∀ p, edge p d → p ∈ result ∧ (p ∈ visited ∨ p ∈ stack)

theorem Collecting.skip {edge : Bytes → Bytes → Prop} {q node : Bytes}
    {visited stack result : List Bytes} (hnode : node ∈ visited)
    (h : Collecting edge q visited (node :: stack) result) : Collecting edge q visited stack result where
  start := h.start.elim .inl fun hq => (List.mem_cons.mp hq).elim (fun heq => .inl (heq ▸ hnode)) .inr
  reached p hp := h.reached p (.tail _ hp)
  sound := h.sound
  expanded d hd p hp := by
    obtain ⟨hres, hvis | hstack⟩ := h.expanded d hd p hp
    · exact ⟨hres, .inl hvis⟩
    · rcases List.mem_cons.mp hstack with rfl | hstack
      · exact ⟨hres, .inl hnode⟩
      · exact ⟨hres, .inr hstack⟩

theorem Collecting.enter {reverse : List (Bytes × Bytes)} {edge : Bytes → Bytes → Prop}
    (hedge : ∀ d p, (d, p) ∈ reverse ↔ edge p d) {q node : Bytes} {visited stack result : List Bytes}
    (h : Collecting edge q visited (node :: stack) result) :
    Collecting edge q (node :: visited) ((successors reverse node).reverse ++ stack)
      (result ++ successors reverse node) := by
  have hnew : ∀ p ∈ successors reverse node, Relation.TransGen edge p q := by
    intro p hp
    have hp := (hedge node p).mp (mem_successors.mp hp)
    rcases h.reached node (.head _) with rfl | hnode
    · exact .single hp
    · exact .head hp hnode
  refine ⟨?_, ?_, ?_, ?_⟩
  · rcases h.start with hq | hq
    · exact .inl (.tail _ hq)
    · rcases List.mem_cons.mp hq with rfl | hq
      · exact .inl (.head _)
      · exact .inr (List.mem_append_right _ hq)
  · intro p hp
    rcases List.mem_append.mp hp with hp | hp
    · exact .inr (hnew p (List.mem_reverse.mp hp))
    · exact h.reached p (.tail _ hp)
  · intro p hp
    exact (List.mem_append.mp hp).elim (h.sound p) (hnew p)
  · intro d hd p hp
    rcases List.mem_cons.mp hd with rfl | hd
    · have hsucc := mem_successors.mpr ((hedge d p).mpr hp)
      exact ⟨List.mem_append_right _ hsucc, .inr (List.mem_append_left _ (List.mem_reverse.mpr hsucc))⟩
    · obtain ⟨hres, hvis | hstack⟩ := h.expanded d hd p hp
      · exact ⟨List.mem_append_left _ hres, .inl (.tail _ hvis)⟩
      · rcases List.mem_cons.mp hstack with rfl | hstack
        · exact ⟨List.mem_append_left _ hres, .inl (.head _)⟩
        · exact ⟨List.mem_append_left _ hres, .inr (List.mem_append_right _ hstack)⟩

/-- With the stack empty the result holds everything that reaches `q`. -/
theorem Collecting.complete {edge : Bytes → Bytes → Prop} {q : Bytes} {visited result : List Bytes}
    (h : Collecting edge q visited [] result) {p : Bytes} : p ∈ result ↔ Relation.TransGen edge p q := by
  have hq : q ∈ visited := h.start.resolve_right List.not_mem_nil
  refine ⟨h.sound p, fun hp => ?_⟩
  have hall : p ∈ result ∧ p ∈ visited := by
    induction hp using Relation.TransGen.head_induction_on with
    | single hp =>
      obtain ⟨hres, hvis⟩ := h.expanded q hq _ hp
      exact ⟨hres, hvis.resolve_right List.not_mem_nil⟩
    | head hp _ ih =>
      obtain ⟨hres, hvis⟩ := h.expanded _ ih.2 _ hp
      exact ⟨hres, hvis.resolve_right List.not_mem_nil⟩
  exact hall.1

theorem WF.mem_dependentsOf {m : Manifest} (h : WF m) {p q : Bytes} :
    p ∈ m.dependentsOf q ↔ Relation.TransGen m.DependsOn p q := by
  have hstart : Collecting m.DependsOn q [] [q] [] :=
    { start := .inr (.head _)
      reached := fun p hp => .inl (List.mem_singleton.mp hp)
      sound := fun _ hp => absurd hp List.not_mem_nil
      expanded := fun _ hd => absurd hd List.not_mem_nil }
  obtain ⟨seen, hend⟩ : ∃ seen, Collecting m.DependsOn q seen [] (drain m.reverseDeps
      (fun node result => result ++ successors m.reverseDeps node)
      ([q].length + (unvisited m.reverseDeps []).length) [q] [] []) :=
    drain_rule (fun visited stack result => Collecting m.DependsOn q visited stack result)
      (fun hnode hc => hc.skip hnode) (fun _ hc => hc.enter fun _ _ => h.mem_reverseDeps) _ _ _ _
      (Nat.le_refl _) hstart
  rw [dependentsOf, dependentsLoop_eq_drain]
  exact hend.complete

end Manifest

/-! ### Invalidation -/

namespace Store

theorem manifest_evict (s : Store) (path : Bytes) : (s.evict path).manifest = s.manifest.remove path := rfl

theorem manifest_evictAll : ∀ (paths : List Bytes) (s : Store),
    (paths.foldl evict s).manifest = paths.foldl Manifest.remove s.manifest
  | [], _ => rfl
  | path :: paths, s => by
    rw [List.foldl_cons, manifest_evictAll paths, List.foldl_cons, manifest_evict]

@[simp] theorem manifest_invalidate (s : Store) (q : Bytes) :
    (s.invalidate q).manifest = (s.toEvict q).foldl Manifest.remove s.manifest := by
  show ((s.toEvict q).foldl evict s).manifest = _
  rw [manifest_evictAll]

theorem mem_toEvict {s : Store} (h : s.manifest.WF) {p q : Bytes} :
    p ∈ s.toEvict q ↔ Relation.ReflTransGen s.manifest.DependsOn p q := by
  rw [toEvict, List.mem_dedup, List.mem_cons, h.mem_dependentsOf, Relation.reflTransGen_iff_eq_or_transGen,
    eq_comm (a := q)]

/-- What is left is what did not depend on the path. -/
theorem find_invalidate {s : Store} (h : s.manifest.WF) (p q : Bytes) {e : ManifestEntry} :
    (s.invalidate q).manifest.find p = some e ↔
      s.manifest.find p = some e ∧ ¬ Relation.ReflTransGen s.manifest.DependsOn p q := by
  rw [manifest_invalidate, Manifest.find_removeAll, ← mem_toEvict h]
  by_cases hp : p ∈ s.toEvict q <;> simp [hp]

theorem dependsOn_of_invalidate {s : Store} (h : s.manifest.WF) {p d q : Bytes}
    (hp : (s.invalidate q).manifest.DependsOn p d) : s.manifest.DependsOn p d := by
  obtain ⟨e, he, hdep⟩ := hp
  exact ⟨e, ((find_invalidate h p q).mp he).1, hdep⟩

end Store

/-- `Store::Store`: the manifest is read from its file, if there is one. -/
def Store.reopen (s : Store) : Store :=
  { s with manifest := load ((s.files (s.modules ++ "manifest".toUTF8.toList)).getD []), evictions := 0 }

end Zith.Cache
