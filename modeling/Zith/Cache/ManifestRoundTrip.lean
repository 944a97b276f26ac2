import Mathlib.Algebra.Order.BigOperators.Group.List
import Mathlib.Algebra.Order.Ring.Nat
import Mathlib.Data.List.Nodup
import Mathlib.Data.List.TakeWhile
import Zith.Cache.Manifest

/-! When a saved manifest is loaded as it was. The four passes disagree on which bytes are special: lines
    and fields are split before anything is unescaped, and the backslash itself is never escaped. What is
    lost is lost for good, so the entries come back exactly when every field is storable. -/

namespace Zith.Cache

/-- A path that is written and read as it is. -/
structure PlainField (s : Bytes) : Prop where
  no_escaped : ∀ c ∈ s, escaped c = false
  undisturbed : undisturbed s = true

/-- A dependency that is written and read as it is; here `\x1e` and `\x1f` are not split on. -/
structure DepField (s : Bytes) : Prop where
  ne_nil : s ≠ []
  no_newline : newline ∉ s
  no_sep : depSep ∉ s
  undisturbed : undisturbed s = true

structure Storable (e : ManifestEntry) : Prop where
  path : PlainField e.canonicalPath
  artifact : PlainField e.artifactPath
  deps : ∀ d ∈ e.dependencies, DepField d

/-- The entry as it is read back from a line of its own. -/
def roundEntry (e : ManifestEntry) : ManifestEntry :=
  { e with
    canonicalPath := unescapeField (escapeField e.canonicalPath)
    artifactPath := unescapeField (escapeField e.artifactPath)
    dependencies := e.dependencies.map fun d => unescapeField (escapeField d) }

/-! ### Splitting -/

theorem sep_not_mem_of_mem_splitOn {sep : UInt8} : ∀ {bs f : Bytes}, f ∈ bs.splitOn sep → sep ∉ f
  | [], f, h => by
    rw [List.splitOn_nil, List.mem_singleton] at h
    simp [h]
  | c :: cs, f, h => by
    rw [List.splitOn_cons_eq_if_modifyHead] at h
    split at h
    · rcases List.mem_cons.mp h with rfl | h
      · exact List.not_mem_nil
      · exact sep_not_mem_of_mem_splitOn h
    · next hc =>
      obtain ⟨g, gs, hsplit⟩ := List.exists_cons_of_ne_nil (List.splitOn_ne_nil sep cs)
      have ih : ∀ f ∈ g :: gs, sep ∉ f := fun f hf => sep_not_mem_of_mem_splitOn (hsplit ▸ hf)
      rw [hsplit, List.modifyHead_cons] at h
      rcases List.mem_cons.mp h with rfl | h
      · rw [List.mem_cons]
        rintro (rfl | hmem)
        · exact hc (beq_self_eq_true _)
        · exact ih g (.head _) hmem
      · exact ih f (.tail _ h)

theorem mem_of_mem_splitOn {sep : UInt8} : ∀ {bs f : Bytes} {c : UInt8}, f ∈ bs.splitOn sep → c ∈ f → c ∈ bs
  | [], f, c, h, hc => by
    rw [List.splitOn_nil, List.mem_singleton] at h
    rwa [h] at hc
  | d :: ds, f, c, h, hc => by
    rw [List.splitOn_cons_eq_if_modifyHead] at h
    split at h
    · rcases List.mem_cons.mp h with rfl | h
      · cases hc
      · exact .tail _ (mem_of_mem_splitOn h hc)
    · obtain ⟨g, gs, hsplit⟩ := List.exists_cons_of_ne_nil (List.splitOn_ne_nil sep ds)
      have ih : ∀ f ∈ g :: gs, c ∈ f → c ∈ ds := fun f hf => mem_of_mem_splitOn (hsplit ▸ hf)
      rw [hsplit, List.modifyHead_cons] at h
      rcases List.mem_cons.mp h with rfl | h
      · rcases List.mem_cons.mp hc with rfl | hc
        · exact .head _
        · exact .tail _ (ih g (.head _) hc)
      · exact .tail _ (ih f (.tail _ h) hc)

theorem newline_not_mem_getLines : ∀ {file line l : Bytes}, newline ∉ line → l ∈ getLines line file → newline ∉ l
  | [], line, l, hline, h => by
    rw [getLines] at h
    split at h
    · cases h
    · rwa [List.mem_singleton.mp h]
  | c :: cs, line, l, hline, h => by
    rw [getLines] at h
    split at h
    · rcases List.mem_cons.mp h with rfl | h
      · exact hline
      · exact newline_not_mem_getLines List.not_mem_nil h
    · next hc =>
      refine newline_not_mem_getLines ?_ h
      rw [List.mem_append, List.mem_singleton]
      rintro (hmem | rfl)
      · exact hline hmem
      · exact hc (beq_self_eq_true _)

theorem getLines_append {s : Bytes} (hs : newline ∉ s) (rest : Bytes) : ∀ line : Bytes,
    getLines line (s ++ newline :: rest) = (line ++ s) :: getLines [] rest := by
  induction s with
  | nil => simp [getLines]
  | cons c cs ih =>
    intro line
    rw [List.mem_cons, not_or] at hs
    rw [List.cons_append, getLines, if_neg (by simpa using Ne.symm hs.1), ih hs.2, List.append_assoc]
    rfl

/-- Lines without a newline are read back one by one. -/
theorem getLines_flatMap {α : Type} {f : α → Bytes} : ∀ {l : List α}, (∀ a ∈ l, newline ∉ f a) →
    getLines [] (l.flatMap fun a => f a ++ [newline]) = l.map f
  | [], _ => rfl
  | a :: l, h => by
    have ih := getLines_flatMap (l := l) fun b hb => h b (.tail _ hb)
    rw [List.flatMap_cons, List.append_assoc, List.singleton_append, getLines_append (h a (.head _)), ih]
    rfl

/-! ### Lines -/

/-- What a line without a newline can be read as. -/
structure ReadEntry (e : ManifestEntry) : Prop where
  path : ∀ c ∈ e.canonicalPath, escaped c = false
  artifact : ∀ c ∈ e.artifactPath, escaped c = false
  deps : ∀ d ∈ e.dependencies, d ≠ [] ∧ newline ∉ d ∧ depSep ∉ d

theorem escaped_eq_false {c : UInt8} : escaped c = false ↔ c ≠ newline ∧ c ≠ fieldSep ∧ c ≠ recordSep := by
  simp [escaped, and_assoc]

theorem recordSep_not_mem_lineHeader {raw : Bytes} : recordSep ∉ lineHeader raw := fun h => by
  simpa using List.mem_takeWhile_imp h

theorem readEntry_of_parseLine {raw : Bytes} (hraw : newline ∉ raw) {e : ManifestEntry}
    (h : parseLine raw = some e) : ReadEntry e := by
  have hfield : ∀ f ∈ (lineHeader raw).splitOn fieldSep, ∀ c ∈ unescapeField f, escaped c = false := by
    intro f hf c hc
    have hcf := mem_unescapeField hc
    have hch := mem_of_mem_splitOn hf hcf
    rw [escaped_eq_false]
    refine ⟨?_, ?_, ?_⟩
    · rintro rfl
      exact hraw ((List.takeWhile_sublist _).subset hch)
    · rintro rfl
      exact sep_not_mem_of_mem_splitOn hf hcf
    · rintro rfl
      exact recordSep_not_mem_lineHeader hch
  unfold parseLine at h
  split at h
  · next path artifact abiHi abiLo fpHi fpLo rest hsplit =>
    simp only [bind, Option.bind_eq_some_iff, pure, Option.some.injEq] at h
    obtain ⟨w₁, -, w₂, -, w₃, -, w₄, -, rfl⟩ := h
    rw [hsplit] at hfield
    refine ⟨hfield path (.head _), hfield artifact (.tail _ (.head _)), ?_⟩
    intro d hd
    obtain ⟨f, hf, rfl⟩ := List.mem_map.mp hd
    obtain ⟨hf, hne⟩ := List.mem_filter.mp hf
    have hmem : ∀ c ∈ unescapeField f, c ∈ raw := fun c hc =>
      (List.dropWhile_sublist _).subset (List.mem_of_mem_tail (mem_of_mem_splitOn hf (mem_unescapeField hc)))
    exact ⟨unescapeField_ne_nil (by simpa using hne), fun hc => hraw (hmem _ hc),
      fun hc => sep_not_mem_of_mem_splitOn hf (mem_unescapeField hc)⟩
  · cases h

theorem not_mem_writeHex32 {c : UInt8} (hc : c.toNat < 48) (v : UInt32) : c ∉ writeHex32 v := not_mem_hexDigits hc 8 _

theorem not_mem_escapeField {c : UInt8} {s : Bytes} (hc : c ≠ backslash) (h : c ∉ s) :
    c ∉ escapeField s := fun hmem => h (mem_escapeField hc hmem)

theorem not_mem_intercalate {sep c : UInt8} (hc : c ≠ sep) : ∀ {fs : List Bytes}, (∀ f ∈ fs, c ∉ f) →
    c ∉ [sep].intercalate fs
  | [], _ => List.not_mem_nil
  | [f], h => by
    rw [List.intercalate_singleton]
    exact h f (.head _)
  | f :: g :: fs, h => by
    rw [List.intercalate_cons_cons]
    have ih := not_mem_intercalate hc fun f (hf : f ∈ g :: fs) => h f (.tail _ hf)
    simp only [List.mem_append, List.mem_singleton, not_or]
    exact ⟨⟨h f (.head _), hc⟩, ih⟩

section
variable {e : ManifestEntry} (h : ReadEntry e)
include h

/-- The six fields of the line of an entry hold none of the bytes a header is split on. -/
theorem ReadEntry.header_fields {c : UInt8} (hc : c = newline ∨ c = fieldSep ∨ c = recordSep) :
    ∀ f ∈ [escapeField e.canonicalPath, escapeField e.artifactPath, writeHex32 e.publicAbiHi,
      writeHex32 e.publicAbiLo, writeHex32 e.sourceFpHi, writeHex32 e.sourceFpLo], c ∉ f := by
  have hescaped : escaped c = true := by
    rcases hc with rfl | rfl | rfl <;> decide
  have hlt : c.toNat < 48 := by
    rcases hc with rfl | rfl | rfl <;> decide
  have hne := ne_backslash_of_escaped hescaped
  have hpath : c ∉ e.canonicalPath := fun hmem => by simp [h.path c hmem] at hescaped
  have hartifact : c ∉ e.artifactPath := fun hmem => by simp [h.artifact c hmem] at hescaped
  simp only [List.mem_cons, List.not_mem_nil, or_false, forall_eq_or_imp, forall_eq]
  exact ⟨not_mem_escapeField hne hpath, not_mem_escapeField hne hartifact, not_mem_writeHex32 hlt _,
    not_mem_writeHex32 hlt _, not_mem_writeHex32 hlt _, not_mem_writeHex32 hlt _⟩

theorem ReadEntry.newline_not_mem_writeLine : newline ∉ writeLine e := by
  rw [writeLine, List.mem_append, List.mem_cons, not_or, not_or]
  refine ⟨not_mem_intercalate (by decide) (h.header_fields (.inl rfl)), by decide, not_mem_intercalate (by decide) ?_⟩
  intro f hf
  obtain ⟨d, hd, rfl⟩ := List.mem_map.mp hf
  exact not_mem_escapeField (by decide) (h.deps d hd).2.1

theorem ReadEntry.parseDeps : parseDeps ([depSep].intercalate (e.dependencies.map escapeField)) =
    e.dependencies.map fun d => unescapeField (escapeField d) := by
  have hmap : ∀ l : List Bytes, (∀ d ∈ l, d ≠ []) →
      ((l.map escapeField).filter fun d => !d.isEmpty) = l.map escapeField := by
    intro l hl
    rw [List.filter_eq_self]
    intro f hf
    obtain ⟨d, hd, rfl⟩ := List.mem_map.mp hf
    simpa using escapeField_ne_nil (hl d hd)
  cases hdeps : e.dependencies with
  | nil => rfl
  | cons d ds =>
    have hsep : ∀ f ∈ (d :: ds).map escapeField, depSep ∉ f := by
      intro f hf
      obtain ⟨d', hd', rfl⟩ := List.mem_map.mp hf
      exact not_mem_escapeField (by decide) (h.deps d' (hdeps ▸ hd')).2.2
    rw [Cache.parseDeps, List.splitOn_intercalate _ hsep (by simp),
      hmap _ fun d' hd' => (h.deps d' (hdeps ▸ hd')).1, List.map_map]
    rfl

theorem ReadEntry.parseLine_writeLine : parseLine (writeLine e) = some (roundEntry e) := by
  have hne : recordSep ≠ fieldSep := by decide
  have hrecord := not_mem_intercalate hne (h.header_fields (.inr (.inr rfl)))
  have hheader : lineHeader (writeLine e) = [fieldSep].intercalate
      [escapeField e.canonicalPath, escapeField e.artifactPath, writeHex32 e.publicAbiHi,
        writeHex32 e.publicAbiLo, writeHex32 e.sourceFpHi, writeHex32 e.sourceFpLo] := by
    rw [lineHeader, writeLine, List.takeWhile_append_of_pos, List.takeWhile_cons_of_neg (by simp), List.append_nil]
    intro c hc
    rw [bne_iff_ne]
    rintro rfl
    exact hrecord hc
  have hdeps : lineDeps (writeLine e) = [depSep].intercalate (e.dependencies.map escapeField) := by
    rw [lineDeps, writeLine, List.dropWhile_append_of_pos, List.dropWhile_cons_of_neg (by simp), List.tail_cons]
    intro c hc
    rw [bne_iff_ne]
    rintro rfl
    exact hrecord hc
  have hfields := List.splitOn_intercalate fieldSep (h.header_fields (.inr (.inl rfl))) (by simp)
  simp only [parseLine, hheader, hfields, parseHex32_writeHex32, hdeps, h.parseDeps]
  rfl

end

/-! ### What is lost -/

/-- The bytes of all strings of an entry. -/
def entrySize (e : ManifestEntry) : Nat :=
  e.canonicalPath.length + e.artifactPath.length + (e.dependencies.map List.length).sum

theorem sum_roundDeps_le (ds : List Bytes) : ((ds.map fun d => unescapeField (escapeField d)).map List.length).sum ≤
      (ds.map List.length).sum := by
  rw [List.map_map]
  exact List.sum_le_sum fun d _ => unescapeField_escapeField_length_le d

theorem entrySize_roundEntry_le (e : ManifestEntry) : entrySize (roundEntry e) ≤ entrySize e :=
  Nat.add_le_add (Nat.add_le_add (unescapeField_escapeField_length_le _)
    (unescapeField_escapeField_length_le _)) (sum_roundDeps_le _)

/-- An entry that keeps its size has only undisturbed fields. -/
theorem undisturbed_of_entrySize {e : ManifestEntry} (h : entrySize (roundEntry e) = entrySize e) :
    undisturbed e.canonicalPath = true ∧ undisturbed e.artifactPath = true ∧
      ∀ d ∈ e.dependencies, undisturbed d = true := by
  have hpath := unescapeField_escapeField_length_le e.canonicalPath
  have hartifact := unescapeField_escapeField_length_le e.artifactPath
  have hdeps := sum_roundDeps_le e.dependencies
  simp only [entrySize, roundEntry] at h
  refine ⟨undisturbed_of_length (by omega), undisturbed_of_length (by omega), fun d hd => ?_⟩
  refine undisturbed_of_length (Nat.le_antisymm (unescapeField_escapeField_length_le d) ?_)
  by_contra hlt
  have hsum := List.sum_lt_sum (fun d => (unescapeField (escapeField d)).length) List.length
    (fun d _ => unescapeField_escapeField_length_le d) ⟨d, hd, Nat.lt_of_not_le hlt⟩
  rw [List.map_map] at h
  simp only [Function.comp_def] at h
  omega

theorem roundEntry_eq {e : ManifestEntry} (h : Storable e) : roundEntry e = e := by
  have hdeps : (e.dependencies.map fun d => unescapeField (escapeField d)) = e.dependencies := by
    conv_rhs => rw [← List.map_id e.dependencies]
    exact List.map_congr_left fun d hd => unescapeField_escapeField_eq (h.deps d hd).undisturbed
  simp only [roundEntry, unescapeField_escapeField_eq h.path.undisturbed,
    unescapeField_escapeField_eq h.artifact.undisturbed, hdeps]

theorem Storable.readEntry {e : ManifestEntry} (h : Storable e) : ReadEntry e where
  path := h.path.no_escaped
  artifact := h.artifact.no_escaped
  deps d hd := ⟨(h.deps d hd).ne_nil, (h.deps d hd).no_newline, (h.deps d hd).no_sep⟩

/-! ### Manifests -/

namespace Manifest

/-- Distinct paths, and the relation is the one the entries say. -/
structure WF (m : Manifest) : Prop where
  nodup : (m.byPath.map ManifestEntry.canonicalPath).Nodup
  reverse : ∀ dep path, (dep, path) ∈ m.reverseDeps ↔ ∃ e ∈ m.byPath, e.canonicalPath = path ∧ dep ∈ e.dependencies

theorem wf_empty : WF {} := ⟨List.nodup_nil, by simp⟩

theorem put_of_fresh {e : ManifestEntry} : ∀ {es : List ManifestEntry},
    e.canonicalPath ∉ es.map ManifestEntry.canonicalPath → put es e = es ++ [e]
  | [], _ => rfl
  | f :: fs, h => by
    rw [List.map_cons, List.mem_cons, not_or] at h
    rw [put, if_neg (by simpa using Ne.symm h.1), put_of_fresh h.2]
    rfl

theorem mem_put {e e' : ManifestEntry} : ∀ {es : List ManifestEntry}, (es.map ManifestEntry.canonicalPath).Nodup →
      (e' ∈ put es e ↔ e' = e ∨ e' ∈ es ∧ e'.canonicalPath ≠ e.canonicalPath)
  | [], _ => by simp [put]
  | f :: fs, h => by
    rw [List.map_cons, List.nodup_cons] at h
    have ih := @mem_put e e' fs h.2
    rw [put]
    split
    · next heq =>
      rw [beq_iff_eq] at heq
      have hrest : e' ∈ fs → e'.canonicalPath ≠ e.canonicalPath := fun hmem hpath =>
        h.1 (heq ▸ hpath ▸ List.mem_map_of_mem hmem)
      simp only [List.mem_cons]
      constructor
      · rintro (rfl | hmem)
        · exact .inl rfl
        · exact .inr ⟨.inr hmem, hrest hmem⟩
      · rintro (rfl | ⟨rfl | hmem, hne⟩)
        · exact .inl rfl
        · exact absurd heq hne
        · exact .inr hmem
    · next hne =>
      simp only [List.mem_cons, ih]
      constructor
      · rintro (rfl | rfl | ⟨hmem, hpath⟩)
        · exact .inr ⟨.inl rfl, by simpa using hne⟩
        · exact .inl rfl
        · exact .inr ⟨.inr hmem, hpath⟩
      · rintro (rfl | ⟨rfl | hmem, hpath⟩)
        · exact .inr (.inl rfl)
        · exact .inl rfl
        · exact .inr (.inr ⟨hmem, hpath⟩)

theorem nodup_put {e : ManifestEntry} : ∀ {es : List ManifestEntry},
    (es.map ManifestEntry.canonicalPath).Nodup → ((put es e).map ManifestEntry.canonicalPath).Nodup
  | [], _ => by simp [put]
  | f :: fs, h => by
    rw [List.map_cons, List.nodup_cons] at h
    rw [put]
    split
    · next heq =>
      rw [beq_iff_eq] at heq
      rw [List.map_cons, List.nodup_cons, ← heq]
      exact h
    · next hne =>
      rw [List.map_cons, List.nodup_cons]
      refine ⟨fun hmem => ?_, nodup_put h.2⟩
      obtain ⟨g, hg, hpath⟩ := List.mem_map.mp hmem
      rcases (mem_put h.2).mp hg with rfl | ⟨hg, -⟩
      · exact hne (beq_iff_eq.mpr hpath.symm)
      · exact h.1 (hpath ▸ List.mem_map_of_mem hg)

theorem mem_addDeps {dep path : Bytes} {e : ManifestEntry} {reverse : List (Bytes × Bytes)} :
    (dep, path) ∈ addDeps reverse e ↔ (dep, path) ∈ reverse ∨ e.canonicalPath = path ∧ dep ∈ e.dependencies := by
  unfold addDeps
  induction e.dependencies generalizing reverse with
  | nil => simp
  | cons d ds ih =>
    rw [List.foldl_cons, ih, List.mem_insert_iff, Prod.mk.injEq, List.mem_cons]
    constructor
    · rintro ((⟨rfl, rfl⟩ | h) | ⟨rfl, h⟩)
      · exact .inr ⟨rfl, .inl rfl⟩
      · exact .inl h
      · exact .inr ⟨rfl, .inr h⟩
    · rintro (h | ⟨rfl, rfl | h⟩)
      · exact .inl (.inr h)
      · exact .inl (.inl ⟨rfl, rfl⟩)
      · exact .inr ⟨rfl, h⟩

theorem mem_dropDeps {dep path : Bytes} {e : ManifestEntry} {reverse : List (Bytes × Bytes)} :
    (dep, path) ∈ dropDeps reverse e ↔ (dep, path) ∈ reverse ∧ ¬ (e.canonicalPath = path ∧ dep ∈ e.dependencies) := by
  unfold dropDeps
  induction e.dependencies generalizing reverse with
  | nil => simp
  | cons d ds ih =>
    rw [List.foldl_cons, ih, List.mem_filter, bne_iff_ne, List.mem_cons, Ne, Prod.mk.injEq]
    constructor
    · rintro ⟨⟨h, hne⟩, hrest⟩
      refine ⟨h, ?_⟩
      rintro ⟨rfl, rfl | hmem⟩
      · exact hne ⟨rfl, rfl⟩
      · exact hrest ⟨rfl, hmem⟩
    · rintro ⟨h, hrest⟩
      refine ⟨⟨h, ?_⟩, ?_⟩
      · rintro ⟨rfl, rfl⟩
        exact hrest ⟨rfl, .inl rfl⟩
      · rintro ⟨rfl, hmem⟩
        exact hrest ⟨rfl, .inr hmem⟩

/-- Entries of one path are one entry. -/
theorem eq_of_path {es : List ManifestEntry} (h : (es.map ManifestEntry.canonicalPath).Nodup)
    {e f : ManifestEntry} (he : e ∈ es) (hf : f ∈ es) (hpath : e.canonicalPath = f.canonicalPath) : e = f :=
  List.inj_on_of_nodup_map h he hf hpath

theorem find_eq_some_iff {m : Manifest} (h : (m.byPath.map ManifestEntry.canonicalPath).Nodup)
    {path : Bytes} {e : ManifestEntry} : m.find path = some e ↔ e ∈ m.byPath ∧ e.canonicalPath = path := by
  constructor
  · intro hfind
    exact ⟨List.mem_of_find?_eq_some hfind, by simpa using List.find?_some hfind⟩
  · rintro ⟨hmem, rfl⟩
    cases hfind : m.find e.canonicalPath with
    | none =>
      have := List.find?_eq_none.mp hfind e hmem
      simp at this
    | some f =>
      have hf : f.canonicalPath = e.canonicalPath := by simpa using List.find?_some hfind
      rw [eq_of_path h (List.mem_of_find?_eq_some hfind) hmem hf]

/-- The pairs of the entry of a path are gone. -/
theorem WF.mem_detach {m : Manifest} (h : WF m) {canonicalPath dep path : Bytes} :
    (dep, path) ∈ m.detach canonicalPath ↔ ∃ e ∈ m.byPath, e.canonicalPath ≠ canonicalPath ∧ e.canonicalPath = path ∧
        dep ∈ e.dependencies := by
  unfold detach
  cases hfind : m.find canonicalPath with
  | none =>
    have hnone : ∀ e ∈ m.byPath, e.canonicalPath ≠ canonicalPath := fun e he => by
      simpa using List.find?_eq_none.mp hfind e he
    simp only [h.reverse]
    exact exists_congr fun e => and_congr_right fun he => by simp [hnone e he]
  | some x =>
    obtain ⟨hx, hxpath⟩ := (find_eq_some_iff h.nodup).mp hfind
    simp only [mem_dropDeps, h.reverse]
    constructor
    · rintro ⟨⟨e, he, rfl, hdep⟩, hnot⟩
      refine ⟨e, he, fun heq => hnot ?_, rfl, hdep⟩
      have hex := eq_of_path h.nodup he hx (heq.trans hxpath.symm)
      exact ⟨by rw [hex], hex ▸ hdep⟩
    · rintro ⟨e, he, hne, rfl, hdep⟩
      exact ⟨⟨e, he, rfl, hdep⟩, fun hx' => hne (hx'.1.symm.trans hxpath)⟩

theorem WF.upsert {m : Manifest} (h : WF m) (entry : ManifestEntry) : WF (m.upsert entry) := by
  refine ⟨nodup_put h.nodup, fun dep path => ?_⟩
  show (dep, path) ∈ addDeps (m.detach entry.canonicalPath) entry ↔ ∃ e ∈ put m.byPath entry, _
  rw [mem_addDeps, h.mem_detach]
  simp only [mem_put h.nodup]
  constructor
  · rintro (⟨e, he, hne, hpath, hdep⟩ | ⟨hpath, hdep⟩)
    · exact ⟨e, .inr ⟨he, hne⟩, hpath, hdep⟩
    · exact ⟨entry, .inl rfl, hpath, hdep⟩
  · rintro ⟨e, rfl | ⟨he, hne⟩, hpath, hdep⟩
    · exact .inr ⟨hpath, hdep⟩
    · exact .inl ⟨e, he, hne, hpath, hdep⟩

theorem wf_upserts (records : List ManifestEntry) : ∀ {m : Manifest}, WF m → WF (records.foldl Manifest.upsert m) := by
  induction records with
  | nil => exact fun h => h
  | cons r rs ih => exact fun h => ih (h.upsert r)

end Manifest

/-! ### Saving and loading -/

open Manifest in
/-- Lines of entries with distinct new paths are loaded in order. -/
theorem loadLines_byPath {lines : List Bytes} : ∀ {es : List ManifestEntry} {m : Manifest},
    lines.map parseLine = es.map some → ((m.byPath ++ es).map ManifestEntry.canonicalPath).Nodup →
      (lines.foldl loadLine m).byPath = m.byPath ++ es ∧
      ∀ dep path, (dep, path) ∈ (lines.foldl loadLine m).reverseDeps ↔
        (dep, path) ∈ m.reverseDeps ∨ ∃ e ∈ es, e.canonicalPath = path ∧ dep ∈ e.dependencies := by
  induction lines with
  | nil =>
    intro es m h _
    obtain rfl : es = [] := by simpa using h
    simp
  | cons l ls ih =>
    intro es m h hnodup
    match es, h with
    | e :: es, h =>
      simp only [List.map_cons, List.cons.injEq] at h
      have hfresh : e.canonicalPath ∉ m.byPath.map ManifestEntry.canonicalPath := by
        rw [List.map_append, List.nodup_append] at hnodup
        exact fun hmem => hnodup.2.2 _ hmem _ (.head _) rfl
      have hload : loadLine m l = ⟨m.byPath ++ [e], addDeps m.reverseDeps e⟩ := by
        simp only [loadLine, h.1, put_of_fresh hfresh]
      obtain ⟨hbyPath, hreverse⟩ := ih (m := loadLine m l) h.2 (by rwa [hload, List.append_assoc])
      rw [List.foldl_cons]
      refine ⟨by rw [hbyPath, hload, List.append_assoc]; rfl, fun dep path => ?_⟩
      rw [hreverse, hload, mem_addDeps, List.exists_mem_cons_iff, or_assoc]

/-- Every loaded entry is what some line was read as. -/
theorem mem_loadLines {lines : List Bytes} : ∀ {m : Manifest} {e : ManifestEntry},
    e ∈ (lines.foldl loadLine m).byPath → e ∈ m.byPath ∨ ∃ l ∈ lines, parseLine l = some e := by
  have hput : ∀ {es : List ManifestEntry} {e f : ManifestEntry}, f ∈ Manifest.put es e →
      f = e ∨ f ∈ es := by
    intro es e f h
    induction es with
    | nil => exact .inl (List.mem_singleton.mp h)
    | cons g gs ih =>
      rw [Manifest.put] at h
      split at h
      · exact (List.mem_cons.mp h).imp_right (.tail _)
      · rcases List.mem_cons.mp h with rfl | h
        · exact .inr (.head _)
        · exact (ih h).imp_right (.tail _)
  induction lines with
  | nil => exact fun h => .inl h
  | cons l ls ih =>
    intro m e h
    rcases ih h with h | ⟨l', hl', hparse⟩
    · rw [loadLine] at h
      cases hl : parseLine l with
      | none =>
        rw [hl] at h
        exact .inl h
      | some f =>
        rw [hl] at h
        rcases hput h with rfl | h
        · exact .inr ⟨l, .head _, hl⟩
        · exact .inl h
    · exact .inr ⟨l', .tail _ hl', hparse⟩

/-- Entries and reverse dependencies are the same. -/
structure SameManifest (m n : Manifest) : Prop where
  entries : ∀ path, m.find path = n.find path
  reverse : ∀ dep path, (dep, path) ∈ m.reverseDeps ↔ (dep, path) ∈ n.reverseDeps

section
variable {m : Manifest} (hm : m.WF) {order : List ManifestEntry} (horder : order.Perm m.byPath)
include hm horder

theorem sameManifest_of_storable (h : ∀ e ∈ order, Storable e) : SameManifest (load (save order)) m := by
  have hlines : getLines [] (save order) = order.map writeLine :=
    getLines_flatMap fun e he => (h e he).readEntry.newline_not_mem_writeLine
  have hnodup : (order.map ManifestEntry.canonicalPath).Nodup := (horder.map _).nodup_iff.mpr hm.nodup
  have hparse : (order.map writeLine).map parseLine = order.map some := by
    rw [List.map_map]
    exact List.map_congr_left fun e he => by
      rw [Function.comp_apply, (h e he).readEntry.parseLine_writeLine, roundEntry_eq (h e he)]
  obtain ⟨hbyPath, hreverse⟩ := loadLines_byPath (m := {}) hparse hnodup
  rw [load, hlines]
  refine ⟨fun path => Option.ext fun e => ?_, fun dep path => ?_⟩
  · rw [Manifest.find_eq_some_iff (by rw [hbyPath]; exact hnodup), Manifest.find_eq_some_iff hm.nodup,
      hbyPath, List.nil_append, horder.mem_iff]
  · rw [hreverse, hm.reverse]
    simp [horder.mem_iff]

theorem storable_of_sameManifest (h : SameManifest (load (save order)) m) : ∀ e ∈ order, Storable e := by
  have hnodup : (order.map ManifestEntry.canonicalPath).Nodup := (horder.map _).nodup_iff.mpr hm.nodup
  have hloaded : ∀ e ∈ order, e ∈ (load (save order)).byPath := fun e he => by
    have hfind := (Manifest.find_eq_some_iff hm.nodup).mpr ⟨horder.mem_iff.mp he, rfl⟩
    rw [← h.entries] at hfind
    exact List.mem_of_find?_eq_some hfind
  have hread : ∀ e ∈ order, ReadEntry e := fun e he => by
    rcases mem_loadLines (hloaded e he) with hmem | ⟨l, hl, hparse⟩
    · cases hmem
    · exact readEntry_of_parseLine (newline_not_mem_getLines List.not_mem_nil hl) hparse
  have hlines : getLines [] (save order) = order.map writeLine :=
    getLines_flatMap fun e he => (hread e he).newline_not_mem_writeLine
  -- every entry is some entry read back, so none has lost a byte
  have hround : order ⊆ order.map roundEntry := fun e he => by
    rcases mem_loadLines (hloaded e he) with hmem | ⟨l, hl, hparse⟩
    · cases hmem
    · rw [hlines] at hl
      obtain ⟨f, hf, rfl⟩ := List.mem_map.mp hl
      rw [(hread f hf).parseLine_writeLine, Option.some.injEq] at hparse
      exact List.mem_map.mpr ⟨f, hf, hparse⟩
  have hperm : order.Perm (order.map roundEntry) :=
    ((List.Nodup.of_map _ hnodup).subperm hround).perm_of_length_le (by simp)
  have hsum := (hperm.map entrySize).sum_eq
  rw [List.map_map] at hsum
  intro e he
  have hsize : entrySize (roundEntry e) = entrySize e := by
    refine Nat.le_antisymm (entrySize_roundEntry_le e) ?_
    by_contra hlt
    have hlt := List.sum_lt_sum (entrySize ∘ roundEntry) entrySize
      (fun f _ => entrySize_roundEntry_le f) ⟨e, he, Nat.lt_of_not_le hlt⟩
    omega
  obtain ⟨hpath, hartifact, hdeps⟩ := undisturbed_of_entrySize hsize
  have hre := hread e he
  exact ⟨⟨hre.path, hpath⟩, ⟨hre.artifact, hartifact⟩, fun d hd =>
    ⟨(hre.deps d hd).1, (hre.deps d hd).2.1, (hre.deps d hd).2.2, hdeps d hd⟩⟩

end

/-- A manifest of any records comes back from its file, in whatever order its map is written, exactly when
    every entry in it is storable. -/
theorem load_undoes_save_iff (records : List ManifestEntry) (order : List ManifestEntry)
    (horder : order.Perm (records.foldl Manifest.upsert {}).byPath) :
    SameManifest (load (save order)) (records.foldl Manifest.upsert {}) ↔
      ∀ e ∈ (records.foldl Manifest.upsert {}).byPath, Storable e := by
  have hm := Manifest.wf_upserts records Manifest.wf_empty
  constructor
  · exact fun h e he => storable_of_sameManifest hm horder h e (horder.mem_iff.mpr he)
  · exact fun h => sameManifest_of_storable hm horder fun e he => h e (horder.mem_iff.mp he)

/-- `a` importing `b` and `c\x1e`. -/
theorem load_undoes_save_iff_imports : SameManifest (load (save [⟨[97], [], 1, 2, 3, 4, [[98], [99, 0x5c, 0x1e]]⟩]))
        ([⟨[97], [], 1, 2, 3, 4, [[98], [99, 0x5c, 0x1e]]⟩].foldl Manifest.upsert {}) ↔
      ∀ e ∈ ([⟨[97], [], 1, 2, 3, 4, [[98], [99, 0x5c, 0x1e]]⟩].foldl Manifest.upsert {}).byPath, Storable e :=
  load_undoes_save_iff [⟨[97], [], 1, 2, 3, 4, [[98], [99, 0x5c, 0x1e]]⟩]
    [⟨[97], [], 1, 2, 3, 4, [[98], [99, 0x5c, 0x1e]]⟩] (List.Perm.refl _)

/-- The path `a\b` is read back as `ab`. -/
theorem load_save_loses_backslash : ¬ ∀ records order : List ManifestEntry,
      order.Perm (records.foldl Manifest.upsert {}).byPath →
        SameManifest (load (save order)) (records.foldl Manifest.upsert {}) := by
  intro h
  have hsame := h [{ canonicalPath := [97, backslash, 98] }] [{ canonicalPath := [97, backslash, 98] }]
    (List.Perm.refl _)
  exact absurd (hsame.entries [97, backslash, 98]) (by decide +kernel)

end Zith.Cache
