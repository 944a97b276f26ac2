import Zith.Flow.Infer
import Zith.Flow.Faults

/-! One pass over a body tells of all runs of it whose steps it has thought of. A run of an expression
    `Tracks` what the pass does to it, with one lemma for each construct; inference is the pass as long as it
    reports nothing (`Follows`). -/

namespace Zith.Flow

open Lib (Command Exit Exec Outcome Monitor Triple Effect Passes Changes Revives Exposes Watches Within
  Settled Neutral Stays Tracks after)

variable {f : Fault}

/-! ### Names -/

theorem mem_tainted {x : LocalId} : ∀ {es : List (Effect LocalId)}, x ∈ tainted es ↔ .taint x ∈ es
  | [] => by simp [tainted]
  | .taint y :: es => by simp [tainted, mem_tainted]
  | .clear y :: es => by simp [tainted, mem_tainted]
  | .use y :: es => by simp [tainted, mem_tainted]

mutual

theorem escaping_mem {x : LocalId} : ∀ e : Expr, x ∈ escaping f e → .taint x ∈ visits f e
  | .literal _, h => by simp [escaping] at h
  | .name _, h => by simp [escaping] at h
  | .operator _ operands, h => escapingOperands_mem operands h
  | .isNull operand, h => escaping_mem operand h
  | .not operand, h => escaping_mem operand h
  | .payload operand, h => escaping_mem operand h
  | .address operand, h => by
    simp only [escaping, List.mem_append, mem_tainted] at h
    exact List.mem_append.mpr (h.imp (escaping_mem operand) id)
  | .method kind _ receiver arguments, h => by
    simp only [escaping, List.mem_append, mem_tainted] at h
    simp only [visits, List.mem_append]
    exact h.imp (escaping_mem receiver) (Or.imp (escapingOperands_mem arguments) id)
  | .path _ object operands, h =>
    List.mem_append.mpr ((List.mem_append.mp h).imp (escaping_mem object) (escapingOperands_mem operands))
  | .assign target value, h => List.mem_append_right _
      (List.mem_append.mpr ((List.mem_append.mp h).imp (escaping_mem target) (escaping_mem value)))
  | .optionalProp operand, h => escaping_mem operand h
  | .block statements, h => by
    simp only [escaping, List.mem_filter, List.mem_append] at h
    exact List.mem_append.mpr (h.1.imp (escapingStatements_mem statements) (escapingDefers_mem statements))
  | .ifE cond body tail, h => by
    simp only [escaping, List.mem_append] at h
    simp only [visits, List.mem_append]
    exact h.imp (escaping_mem cond) (Or.imp (escaping_mem body) (escapingTail_mem tail))
  | .whenE subject cases, h =>
    List.mem_append.mpr ((List.mem_append.mp h).imp (escaping_mem subject) (escapingCases_mem cases))
  | .whileE _ cond body, h =>
    List.mem_append.mpr ((List.mem_append.mp h).imp (escaping_mem cond) (escaping_mem body))
  | .forE _ cond body step, h => by
    simp only [escaping, List.mem_append] at h
    simp only [visits, List.mem_append]
    exact h.imp (escaping_mem cond) (Or.imp (escaping_mem body) (escapingStep_mem step))
  | .forIn _ iterable body, h =>
    List.mem_append.mpr ((List.mem_append.mp h).imp (escaping_mem iterable) (escaping_mem body))
  | .macroCall _ expansion, h => escaping_mem expansion h
termination_by structural e => e

theorem escapingOperands_mem {x : LocalId} : ∀ es : List Expr,
    x ∈ escapingOperands f es → .taint x ∈ visitsOperands f es
  | [], h => by simp [escapingOperands] at h
  | e :: rest, h =>
    List.mem_append.mpr ((List.mem_append.mp h).imp (escaping_mem e) (escapingOperands_mem rest))
termination_by structural es => es

theorem escapingTail_mem {x : LocalId} : ∀ tail : IfTail, x ∈ escapingTail f tail → .taint x ∈ visitsTail f tail
  | .none, h => by simp [escapingTail] at h
  | .els e, h => escaping_mem e h
  | .elsIf c b, h =>
    List.mem_append.mpr ((List.mem_append.mp h).symm.imp (escaping_mem b) (escaping_mem c))
termination_by structural tail => tail

theorem escapingCases_mem {x : LocalId} : ∀ cases : List WhenCase,
    x ∈ escapingCases f cases → .taint x ∈ visitsCases f cases
  | [], h => by simp [escapingCases] at h
  | .case c b :: rest, h => by
    simp only [escapingCases, List.mem_append] at h
    simp only [visitsCases, List.mem_append]
    exact h.imp (escaping_mem c) (Or.imp (escaping_mem b) (escapingCases_mem rest))
  | .default _ :: rest, h => escapingCases_mem rest h
termination_by structural cases => cases

theorem escapingStep_mem {x : LocalId} : ∀ step : Option Expr, x ∈ escapingStep f step → .taint x ∈ visitsStep f step
  | none, h => by simp [escapingStep] at h
  | some step, h => escaping_mem step h
termination_by structural step => step

theorem escapingStatements_mem {x : LocalId} : ∀ statements : List Stmt,
    x ∈ escapingStatements f statements → .taint x ∈ visitsStatements f statements
  | [], h => by simp [escapingStatements] at h
  | .expression e _ :: rest, h =>
    List.mem_append.mpr ((List.mem_append.mp h).imp (escaping_mem e) (escapingStatements_mem rest))
  | .discard e :: rest, h =>
    List.mem_append.mpr ((List.mem_append.mp h).imp (escaping_mem e) (escapingStatements_mem rest))
  | .declaration :: rest, h => escapingStatements_mem rest h
  | .binding x none :: rest, h =>
    List.mem_append.mpr ((List.mem_append.mp h).imp mem_tainted.mp (escapingStatements_mem rest))
  | .binding x (some e) :: rest, h => by
    simp only [escapingStatements, List.mem_append] at h
    simp only [visitsStatements, List.mem_append]
    exact h.imp (escaping_mem e) fun h => .inr (escapingStatements_mem rest h)
  | .element x :: rest, h => List.mem_append_right _ (escapingStatements_mem rest h)
  | .defer _ :: rest, h => escapingStatements_mem rest h
  | .ret none :: rest, h => escapingStatements_mem rest h
  | .ret (some e) :: rest, h =>
    List.mem_append.mpr ((List.mem_append.mp h).imp (escaping_mem e) (escapingStatements_mem rest))
  | .brk _ :: rest, h => escapingStatements_mem rest h
  | .cont _ :: rest, h => escapingStatements_mem rest h
  | .jump arguments :: _, h => escapingOperands_mem arguments h
termination_by structural statements => statements

theorem escapingDefers_mem {x : LocalId} : ∀ statements : List Stmt,
    x ∈ escapingDefers f statements → .taint x ∈ visitsDefers f statements
  | [], h => by simp [escapingDefers] at h
  | .defer e :: rest, h =>
    List.mem_append.mpr ((List.mem_append.mp h).imp (escaping_mem e) (escapingDefers_mem rest))
  | .jump _ :: _, h => by simp [escapingDefers] at h
  | .expression _ _ :: rest, h => escapingDefers_mem rest h
  | .discard _ :: rest, h => escapingDefers_mem rest h
  | .declaration :: rest, h => escapingDefers_mem rest h
  | .binding _ _ :: rest, h => escapingDefers_mem rest h
  | .element _ :: rest, h => escapingDefers_mem rest h
  | .ret _ :: rest, h => escapingDefers_mem rest h
  | .brk _ :: rest, h => escapingDefers_mem rest h
  | .cont _ :: rest, h => escapingDefers_mem rest h
termination_by structural statements => statements

end

theorem changes_of_escaping {x : LocalId} {e : Expr} (h : x ∈ escaping f e) : Changes x (visits f e) :=
  .inl (escaping_mem e h)

/-! ### Rules -/

/-- A run of the command does what the pass does with these effects. -/
abbrev Tracked (f : Fault) (es : List (Effect LocalId)) (ws : List LocalId) (c : Command Action) : Prop :=
  ∀ known, Tracks (faults f) (fun _ => True) known es ws True c

section
variable {es es' es'' : List (Effect LocalId)} {ws ws' ws'' : List LocalId} {c d cond body step : Command Action}
  {known : Finset LocalId}

theorem Tracked.seq (hc : Tracked f es ws c) (hd : Tracked f es' ws' d) :
    Tracked f (es ++ es') (ws ++ ws') (.seq c d) :=
  fun known => (hc known).seq (hd _) fun _ _ _ _ => trivial

theorem Tracked.value (hc : Tracked f es ws c) (v : Bool) : Tracked f es ws (.seq c (.done v)) :=
  fun known => (hc known).value v

theorem tracked_done (v : Bool) : Tracked f [] [] (.done v) := fun _ => .done

theorem tracked_act {a : Action} (h : f.effects a = es) (hws : ∀ x, .taint x ∈ es → x ∈ ws) :
    Tracked f es ws (.act a) := fun _ =>
  .act (fun _ _ _ hp => by simpa [faults, h] using hp) (fun _ _ => by simp [faults, h]) hws

theorem tracked_read (x : LocalId) : Tracked f [.use x] [] (.act (.read x)) :=
  tracked_act (by cases f <;> rfl) (by simp)

theorem tracked_store (x : LocalId) : Tracked f [.clear x] [] (.act (.store x)) :=
  tracked_act (by cases f <;> rfl) (by simp)

theorem tracked_storeThrough (e : Expr) : Tracked f [] [] (.act (.storeThrough e)) :=
  tracked_act (by cases f <;> rfl) (by simp)

theorem tracked_initialise (x : LocalId) : Tracked f (f.initialises x) [] (.act (.initialise x)) :=
  tracked_act (by cases f <;> rfl) (by cases f <;> simp [Fault.initialises])

theorem neutral_of_effects {a : Action} (h : f.effects a = []) : Neutral (faults f) a :=
  fun s => ⟨by simp [faults, h], by simp [faults, h, Passes]⟩

theorem neutral_enter (skipped : List Expr) (e : Expr) : Neutral (faults f) (.enter skipped e) :=
  neutral_of_effects (by cases f <;> rfl)

theorem neutral_tested (cond : Expr) (outcome : Bool) : Neutral (faults f) (.tested cond outcome) :=
  neutral_of_effects (by cases f <;> rfl)

theorem neutral_joined (e : Expr) : Neutral (faults f) (.joined e) := neutral_of_effects (by cases f <;> rfl)

/-- A name is used where the pass has not tainted it, and then it is moved. -/
theorem tracks_move (x : LocalId) (recorded : Bool) (arguments : List Expr) {kind : Receiver}
    (hkind : kind = .consumed ∨ kind = .consumedByGeneric ∧ recorded = false) :
    Tracks (faults f) (fun A => x ∈ A → x ∈ escapingOperands f arguments) known
      (f.receives kind (.name x)) (tainted (f.receives kind (.name x))) True (.act (.move x recorded arguments)) := by
  refine .act (fun A hA ha _ => ?_) (fun A ha => ?_) fun _ => mem_tainted.mpr
  · cases f with
    | uninitialised => trivial
    | moved => exact ⟨by simpa using fun hx => (ha rfl).2 (hA hx), by simp [Passes]⟩
  · cases f with
    | uninitialised => rcases hkind with rfl | ⟨rfl, -⟩ <;> rfl
    | moved =>
      rcases hkind with rfl | ⟨rfl, rfl⟩
      · rfl
      · exact absurd (ha rfl).1 (by simp)

theorem tracked_address (x : LocalId) : Tracked f ([.use x] ++ f.moves (.name x)) ([] ++ tainted (f.moves (.name x)))
      (.seq (.act (.read x)) (.seq (.act (.move x true [])) (.done true))) := by
  intro known
  have hmove : Tracks (faults f) _ (after known [.use x]) (f.moves (.name x)) _ True _ :=
    tracks_move x true [] (.inl (b := _) (Eq.refl Receiver.consumed))
  refine .of_passes (P := fun A => x ∉ A) (fun A hA => hA.1 x rfl)
    (((tracked_read x _).weaken (fun _ _ => trivial) fun _ h => h).seq (hmove.value true) fun A A' hx hin hA' => ?_)
  exact absurd hA' fun h => (hin x h).elim hx (by simp)

/-- The arguments do not move the receiver that the method consumes. -/
theorem tracked_consumed {x : LocalId} {recorded : Bool} {arguments : List Expr} {kind : Receiver}
    (hkind : kind = .consumed ∨ kind = .consumedByGeneric ∧ recorded = false) (v : Bool)
    (hargs : Tracked f (visitsOperands f arguments) (escapingOperands f arguments) c) :
    Tracked f ([.use x] ++ (visitsOperands f arguments ++ f.receives kind (.name x)))
      ([] ++ (escapingOperands f arguments ++ tainted (f.receives kind (.name x))))
      (.seq (.seq (.act (.read x)) (.done true)) (.seq c (.seq (.act (.move x recorded arguments)) (.done v)))) := by
  intro known
  have hargs' : Tracks (faults f) (fun A => x ∉ A) (after known [.use x]) (visitsOperands f arguments)
      (escapingOperands f arguments) True c := (hargs _).weaken (fun _ _ => trivial) fun _ h => h
  have hcall := hargs'.seq ((tracks_move x recorded arguments hkind).value v)
    fun A A' hx hin hA' => (hin x hA').resolve_left hx
  refine .of_passes (P := fun A => x ∉ A) (fun A hA => hA.1 x rfl)
    ((((tracked_read x).value true known).weaken (fun _ _ => trivial) fun _ h => h).seq hcall fun A A' hx hin hA' => ?_)
  exact (hin x hA').elim hx (by simp)

/-- The pass clears the target before it goes over the value, which is not to read it then. -/
theorem tracked_assign {x : LocalId} {value : Expr} (hvalue : Tracked f (visits f value) ws c) :
    Tracked f ([.clear x] ++ ([.use x] ++ visits f value)) ws
      (.seq (.act (.assigning x value)) (.seq c (.seq (.act (.store x)) (.done true)))) := by
  intro known hp before _ hcov
  refine Lib.after_neutral (neutral_of_effects (by cases f <;> rfl)) fun ha => ?_
  have hchange : ∀ y, Changes y [.clear x, .use x] ↔ y = x := by simp [Changes]
  have hcov' : Watches before known ([.clear x, .use x] ++ visits f value) := hcov
  have hskip : Watches before (known.erase x) (visits f value) :=
    hcov'.skip (fun y hy => .inl hy) fun y hy hrev =>
      (hchange y).mp hrev.changes ▸ ha ((hchange y).mp hrev.changes ▸ hy)
  have hstore := hvalue.seq ((tracked_store x).value true) (known.erase x)
  have hp' : Passes (known.erase x) (visits f value ++ [.clear x]) :=
    (Lib.passes_append _ _ _).mpr ⟨hp.2.2, by simp [Passes]⟩
  refine (hstore hp' before trivial fun y hy => (hskip y hy).imp id fun h h' => ?_).conseq
    (fun _ hs => hs) fun o A hA => ⟨hA.1.mono (by simp), fun h v ho y hy => ?_⟩
  · rcases Lib.exposes_append.mp h' with h' | ⟨-, h'⟩
    · exact h h'
    · simp [Exposes] at h'
  · rcases hA.2 h v ho y hy with hmem | ⟨hb, hk, hno⟩
    · rw [Lib.after_append] at hmem
      exact .inl (Finset.mem_of_mem_erase hmem)
    · simp only [Lib.changes_append, not_or] at hno
      have hyx : y ≠ x := fun h => hno.2 (by simp [h, Changes])
      exact .inr ⟨hb, fun hmem => hk (Finset.mem_erase.mpr ⟨hyx, hmem⟩), fun h =>
        hno.1 (by simpa [Changes, hyx] using h)⟩

/-- A loop without a step. -/
theorem stays_done (v : Bool) {P : Finset LocalId → Prop} {known : Finset LocalId} :
    Passes known [] → Stays (faults f) P [] (.done v) := fun _ => .done

/-- A loop, whose step may begin wherever an iteration is left by a `continue`. -/
theorem tracked_loopCode (label : String) (e : Expr) (endless : Bool)
    (hcond : Tracked f es ws cond) (hbody : Tracked f es' ws' body)
    (hstep : ∀ known, Passes (after known (es ++ es')) es'' → Stays (faults f) (fun A => ∃ before,
      Watches before known (es ++ (es' ++ es'')) ∧ Within before (ws ++ ws') A) ws'' step)
    (hchange : ∀ x ∈ ws ++ ws' ++ ws'', Changes x (es ++ (es' ++ es'')))
    (hagain : visits f (repeated e) = es ++ (es' ++ es'') ∧ ∀ x ∈ ws ++ ws' ++ ws'', x ∈ escaping f (repeated e))
    (hjoined : ∀ x, Revives x (es ++ (es' ++ es'')) → Revives x (visits f e)) :
    Tracked f (es ++ (es' ++ es'')) (ws ++ ws' ++ ws'') (loopCode label e endless cond body step) := by
  intro known
  refine .joined (neutral_of_effects (by cases f <;> rfl)) (fun hp => ?_) hchange
    fun A ha x hx hrev => ha x hx (hjoined x hrev)
  obtain ⟨hpc, hpb, hps⟩ : Passes known es ∧ Passes (after known es) es' ∧
      Passes (after known (es ++ es')) es'' := by simpa using hp
  have htest : Stays (faults f) (fun A => Watches A (after known es) es') ws'
      (if endless then body else .either (.exit (.brk "")) body) := by
    have hbody' : Stays (faults f) (fun A => Watches A (after known es) es') ws' body :=
      ((hbody (after known es)).stays hpb).weaken (fun _ h => ⟨trivial, h⟩) fun _ h => h
    cases endless with
    | true => exact hbody'
    | false => exact .either .exit hbody'
  have hfirst : Stays (faults f) (fun A => Watches A known (es ++ (es' ++ es''))) (ws ++ ws')
      (.resume label (.seq cond (if endless then body else .either (.exit (.brk "")) body))) :=
    .resume ((((hcond known).weaken (fun _ _ => trivial) fun _ h => h).seq_stays hpc
      (htest.weaken (fun A ⟨before, hcov, hset⟩ => (hcov.settled hset).left) fun _ h => h)).weaken
        (fun _ hcov => ⟨hcov, hcov.left⟩) fun _ h => h)
  refine (Stays.loop (neutral_of_effects (by cases f <;> rfl)) hfirst (hstep known hps).resume
    fun before A hcov hin ha x hx => ?_).weaken (fun _ h => h.2) fun _ h => h
  rcases hin x hx with hb | hw
  · exact hcov x hb
  · exact .inr (hagain.1 ▸ ha x hx (hagain.2 x hw))

/-! ### Blocks -/

theorem mem_after_clears {x : LocalId} : ∀ {xs : List LocalId} {A : Finset LocalId},
    x ∈ after A (xs.map .clear) ↔ x ∈ A ∧ x ∉ xs
  | [], A => by simp
  | y :: xs, A => by
    simp only [List.map_cons, Lib.after_cons, mem_after_clears, Effect.apply, Finset.mem_erase, List.mem_cons, not_or]
    tauto

theorem passes_clears : ∀ {xs : List LocalId} {A : Finset LocalId}, Passes A (xs.map Effect.clear)
  | [], _ => trivial
  | _ :: _, _ => ⟨by simp, passes_clears⟩

theorem visitsDefers_eq_nil {statements : List Stmt} (h : statements.any Stmt.isDefer = false) :
    visitsDefers f statements = [] := by
  induction statements with
  | nil => rfl
  | cons s rest ih =>
    simp only [List.any_cons, Bool.or_eq_false_iff] at h
    cases s with
    | defer e => simp [Stmt.isDefer] at h
    | jump arguments => rfl
    | _ => exact ih h.2

/-- What a run of a whole block may leave unwritten, or moved, before it leaves its locals. -/
def blockWs (f : Fault) (all : List Stmt) : List LocalId := escapingStatements f all ++ escapingDefers f all

/-- A run of the statements from anywhere in a run of their block that has begun in `entry`. -/
abbrev StatementsTracked (f : Fault) (all : List Stmt) (entry : Finset LocalId) (statements : List Stmt) :
    Prop :=
  ∀ known, Tracks (faults f) (Within entry (blockWs f all)) known (visitsStatements f statements)
    (blockWs f statements) (statements.any Stmt.isDefer = false) (statementsCode all statements)

variable {entry : Finset LocalId}

theorem statements_cons {all : List Stmt} {settles : Prop} (hc : Tracked f es ws c) (hws : ∀ x ∈ ws, x ∈ blockWs f all)
    (hd : ∀ known, Tracks (faults f) (Within entry (blockWs f all)) known es' ws' settles d) :
    ∀ known, Tracks (faults f) (Within entry (blockWs f all)) known (es ++ es') (ws ++ ws') settles
      (.seq c d) := fun known =>
  ((hc known).weaken (fun _ _ => trivial) fun _ h => h).seq (hd _) fun _ _ hb hin x hx =>
    (hin x hx).elim (hb x) fun h => .inr (hws x h)

theorem statements_initialise {all : List Stmt} {settles : Prop} (x : LocalId)
    (hd : ∀ known, Tracks (faults f) (Within entry (blockWs f all)) known es' ws' settles d) :
    ∀ known, Tracks (faults f) (Within entry (blockWs f all)) known (f.initialises x ++ es') ws' settles
      (.seq (.act (.initialise x)) d) :=
  statements_cons (tracked_initialise x) (by simp) hd

/-- A statement that is run before `d`, which stands for the rest. -/
theorem statements_step {all rest : List Stmt} {s : Stmt}
    (hc : Tracked f es ws c) (hws : ∀ x, x ∈ blockWs f (s :: rest) ↔ x ∈ ws ∨ x ∈ blockWs f rest)
    (hall : ∀ x ∈ blockWs f (s :: rest), x ∈ blockWs f all)
    (hd : (∀ x ∈ blockWs f rest, x ∈ blockWs f all) → ∀ known, Tracks (faults f)
      (Within entry (blockWs f all)) known es' (blockWs f rest) (rest.any Stmt.isDefer = false) d)
    (known : Finset LocalId) : Tracks (faults f) (Within entry (blockWs f all)) known (es ++ es')
      (blockWs f (s :: rest)) (rest.any Stmt.isDefer = false) (.seq c d) :=
  (statements_cons hc (fun x hx => hall x ((hws x).mpr (.inl hx)))
    (hd fun x hx => hall x ((hws x).mpr (.inr hx))) known).weaken (fun _ h => h)
      fun x hx => (hws x).mpr (List.mem_append.mp hx)

/-- A deferred body begins after some of the statements and of the bodies deferred later. -/
theorem watches_deferred {all : List Stmt} {e : Expr} {entry start A : Finset LocalId}
    {before later : List (Effect LocalId)} (hcov : Watches entry start (visitsStatements f all ++ visitsDefers f all))
    (hdefers : visitsDefers f all = before ++ (visits f e ++ later))
    (hin : Within entry (blockWs f all) A) (ha : f.foreseen A (.deferred all e)) :
    Watches A (after start (visitsStatements f all ++ before)) (visits f e) := by
  rw [hdefers, ← List.append_assoc, ← List.append_assoc] at hcov
  refine hcov.left.skip (fun x hx => ?_) fun x hx hrev => ha x hx ?_
  · rcases hin x hx with hb | hw
    · exact .inl hb
    · rcases List.mem_append.mp hw with hw | hw
      · exact .inr (.inl (Lib.changes_append.mpr (.inl (.inl (escapingStatements_mem all hw)))))
      · exact .inr (.inr (ha x hx (.inr (.inl (escapingDefers_mem all hw)))))
  · rcases Lib.revives_append.mp hrev with hrev | ⟨hrev, -⟩
    · exact .inr (hdefers ▸ Lib.changes_append.mpr (.inl hrev.changes))
    · exact .inl hrev

theorem statements_defer {all rest : List Stmt} {e : Expr} {entry start : Finset LocalId}
    {before : List (Effect LocalId)} (he : Tracked f (visits f e) (escaping f e) e.code)
    (hcov : Watches entry start (visitsStatements f all ++ visitsDefers f all))
    (hp : Passes start (visitsStatements f all ++ visitsDefers f all))
    (hdefers : visitsDefers f all = before ++ (visits f e ++ visitsDefers f rest))
    (hws : ∀ x ∈ blockWs f rest, x ∈ blockWs f all) (hrest : StatementsTracked f all entry rest) :
    StatementsTracked f all entry (.defer e :: rest) := by
  intro known hpass A hA hcovA
  have hpe : Passes (after start (visitsStatements f all ++ before)) (visits f e) := by
    rw [hdefers] at hp
    simp only [Lib.passes_append, Lib.after_append] at hp ⊢
    exact hp.2.2.1
  refine Triple.cleanup (S := fun _ s => Within A (blockWs f rest) s)
    ((hrest known hpass A hA hcovA).conseq (fun _ hs => hs) fun _ _ hs => hs.1) fun o => ?_
  intro s t o' hs hexec hassume
  have hbody : Triple (faults f) (· = s) (.seq (.act (.deferred all e)) e.code) fun _ s' =>
      Within s (escaping f e) s' :=
    Lib.after_neutral (neutral_of_effects (by cases f <;> rfl)) fun ha =>
      (he _ hpe s trivial (watches_deferred hcov hdefers (fun x hx =>
        (hs x hx).elim (hA x) fun h => .inr (hws x h)) ha)).conseq (fun _ h => h) fun _ _ h => h.1
  obtain ⟨hassert, hin⟩ := hbody s t o' rfl hexec hassume
  have hall : Within A (blockWs f (.defer e :: rest)) ((faults f).run s t) := by
    refine (hs.trans hin).mono fun x hx => ?_
    simp only [blockWs, escapingStatements, escapingDefers, List.mem_append] at hx ⊢
    tauto
  exact ⟨hassert, fun _ _ => ⟨hall, fun h => by simp [Stmt.isDefer] at h⟩,
    fun _ _ => ⟨hall, fun h => by simp [Stmt.isDefer] at h⟩⟩

theorem block_tracked {statements : List Stmt}
    (h : ∀ entry start, Watches entry start (visitsStatements f statements ++ visitsDefers f statements) →
      Passes start (visitsStatements f statements ++ visitsDefers f statements) →
      StatementsTracked f statements entry statements) :
    Tracked f (visits f (.block statements)) (escaping f (.block statements)) (Expr.code (.block statements)) := by
  have hclean : ∀ known before, Passes known (visits f (.block statements)) →
      Watches before known (visits f (.block statements)) → Triple (faults f) (· = before)
        (.cleanup (statementsCode statements statements) (.act (.leave (declared statements))))
        fun o A => Within before (escaping f (.block statements)) A ∧
          (statements.any Stmt.isDefer = false → ∀ v, o = .normal v →
            Settled before known (visitsStatements f statements) A) := by
    intro known before hp hcov
    refine Triple.cleanup (h before known hcov hp known ((Lib.passes_append _ _ _).mp hp).1 before
      (.refl _ _) hcov.left) fun o => .act (fun _ _ _ => passes_clears) fun A hA _ => ⟨fun _ _ => ?_, by simp⟩
    have hmem : ∀ x, x ∈ (faults f).step A (.leave (declared statements)) ↔
        x ∈ A ∧ x ∉ declared statements := fun x => by
      cases f <;> exact mem_after_clears
    refine ⟨fun x hx => ?_, fun hs v hv x hx => hA.2 hs v hv x ((hmem x).mp hx).1⟩
    refine (hA.1 x ((hmem x).mp hx).1).imp id fun hw => ?_
    exact List.mem_filter.mpr ⟨hw, by simpa using ((hmem x).mp hx).2⟩
  intro known
  simp only [Expr.code]
  split
  · exact .joined (neutral_of_effects (by cases f <;> rfl)) (fun hp before hb =>
      (hclean known before hp hb.2).conseq (fun _ hs => hs) fun _ _ hs => hs.1)
      (fun _ => changes_of_escaping) fun _ ha => ha
  · rename_i hno
    have hno : statements.any Stmt.isDefer = false := by simpa using hno
    refine fun hp before _ hcov => (hclean known before hp hcov).conseq (fun _ hs => hs)
      fun _ _ hs => ⟨hs.1, fun _ v hv => ?_⟩
    simpa [visits, visitsDefers_eq_nil hno] using hs.2 hno v hv

/-! ### Bodies -/

/-- The pass watches the set but for locals that a body cleared which the run has skipped. -/
def WatchesBut (f : Fault) (skipped : List Expr) (A known : Finset LocalId) (es : List (Effect LocalId)) :
    Prop :=
  ∀ x ∈ A, x ∈ known ∨ (∃ b ∈ skipped, Revives x (visits f b)) ∨ ¬ Exposes x es

theorem WatchesBut.enter {skipped : List Expr} {e : Expr} {A : Finset LocalId}
    (h : WatchesBut f skipped A known (visits f e ++ es)) (ha : f.foreseen A (.enter skipped e)) :
    Watches A known (visits f e) := fun x hx =>
  (h x hx).imp id fun h => h.elim (ha x hx) fun h h' => h (Lib.exposes_append.mpr (.inl h'))

/-- After the condition of a case, which has been run. -/
theorem WatchesBut.settled {skipped : List Expr} {A A' : Finset LocalId}
    (h : WatchesBut f skipped A known (es ++ es')) (hs : Settled A known es A') :
    WatchesBut f skipped A' (after known es) es' := by
  intro x hx
  refine (hs x hx).imp id fun ⟨hA, hk, hno⟩ => ?_
  rcases h x hA with h | h | h
  · exact absurd h hk
  · exact .inl h
  · exact .inr fun h' => h (Lib.exposes_append.mpr (.inr ⟨hno, h'⟩))

/-- After the body of a case, which has been skipped. -/
theorem WatchesBut.skip {skipped : List Expr} {b : Expr} {A : Finset LocalId}
    (h : WatchesBut f skipped A known (visits f b ++ es)) :
    WatchesBut f (skipped ++ [b]) A (after known (visits f b)) es := by
  intro x hx
  by_cases hrev : Revives x (visits f b)
  · exact .inr (.inl ⟨b, by simp, hrev⟩)
  · by_cases hch : Changes x (visits f b)
    · exact .inl (Lib.mem_after_of_changes hch hrev)
    · rcases h x hx with h | ⟨b', hb', h⟩ | h
      · exact .inl (Lib.mem_after_of_kept h hch)
      · exact .inr (.inl ⟨b', by simp [hb'], h⟩)
      · exact .inr (.inr fun h' => h (Lib.exposes_append.mpr (.inr ⟨hch, h'⟩)))

end

theorem Tracked.stays {e : Expr} {known : Finset LocalId}
    (h : Tracked f (visits f e) (escaping f e) e.code) (hp : Passes known (visits f e)) :
    Stays (faults f) (fun A => Watches A known (visits f e)) (escaping f e) e.code :=
  ((h known).stays hp).weaken (fun _ h => ⟨trivial, h⟩) fun _ h => h

/-- The body of an `else` begins after the other one has been skipped. -/
theorem stays_els {body e : Expr} (missed : List Expr) {known : Finset LocalId}
    {P : Finset LocalId → Prop} (he : Tracked f (visits f e) (escaping f e) e.code)
    (hp : Passes (after known (visits f body)) (visits f e))
    (hcov : ∀ A, P A → ∃ before, Watches before known (visits f body ++ visits f e) ∧
      ∀ x ∈ A, x ∈ before ∨ ∃ b ∈ missed, x ∈ escaping f b) :
    Stays (faults f) P (escaping f e) (.seq (.act (.els body missed e)) e.code) := by
  refine .after (neutral_of_effects (by cases f <;> rfl)) (fun A hA ha => ?_) (he.stays hp)
  obtain ⟨before, hbefore, hin⟩ := hcov A hA
  exact hbefore.skip (fun x hx => (hin x hx).imp id fun h => .inr (ha x hx (.inr h)))
    fun x hx hrev => ha x hx (.inl hrev)

theorem moves_eq_nil {e : Expr} (h : ∀ x, e ≠ .name x) : f.moves e = [] := by
  cases e with
  | name x => exact absurd rfl (h x)
  | _ => cases f <;> rfl

theorem tracked_method {kind : Receiver} {hv : Bool} {receiver : Expr} {arguments : List Expr}
    (hr : Tracked f (visits f receiver) (escaping f receiver) receiver.code)
    (ha : Tracked f (visitsOperands f arguments) (escapingOperands f arguments) (operandsCode arguments)) :
    Tracked f (visits f (.method kind hv receiver arguments))
      (escaping f (.method kind hv receiver arguments)) (Expr.code (.method kind hv receiver arguments)) := by
  have hplain := hr.seq (ha.seq ((tracked_done false).value hv))
  cases receiver with
  | name x =>
    cases kind with
    | borrowed => exact hplain
    | consumed => exact tracked_consumed (.inl rfl) hv ha
    | consumedByGeneric => exact tracked_consumed (.inr ⟨rfl, rfl⟩) hv ha
  | _ => cases kind <;> cases f <;> exact hplain

mutual

theorem expr_tracked (f : Fault) : ∀ e : Expr, Tracked f (visits f e) (escaping f e) e.code
  | .literal _ => tracked_done true
  | .name x => (tracked_read x).value true
  | .operator hv operands => (operands_tracked f operands).value hv
  | .isNull operand => (expr_tracked f operand).value true
  | .not operand => (expr_tracked f operand).value true
  | .payload operand =>
    Tracked.value (fun known => (expr_tracked f operand known).mark (neutral_of_effects (by cases f <;> rfl))) true
  | .address operand => by
    have h := (expr_tracked f operand).value true
    cases operand with
    | name x => exact tracked_address x
    | _ => simpa [visits, escaping, moves_eq_nil, tainted, Expr.code] using h
  | .method _ _ receiver arguments =>
    tracked_method (expr_tracked f receiver) (operands_tracked f arguments)
  | .path _ object operands => (expr_tracked f object).seq ((operands_tracked f operands).value true)
  | .assign target value => by
    have ht := expr_tracked f target
    have hv := expr_tracked f value
    cases target with
    | name x => exact tracked_assign hv
    | _ =>
      simpa [visits, assigned, escaping, Expr.code] using ht.seq (hv.seq ((tracked_storeThrough _).value true))
  | .optionalProp operand => by
    have hend : Tracked f [] [] (.either (.done true) (.exit .ret)) := fun _ => .either .done .exit
    simpa [visits, escaping, Expr.code] using (expr_tracked f operand).seq hend
  | .block statements => block_tracked fun _ _ hcov hp =>
    statements_tracked f statements [] rfl (fun _ h => h) hcov hp
  | .ifE cond body tail => by
    intro known
    refine .joined (neutral_joined _) (fun hp => ?_) (fun _ => changes_of_escaping) fun _ ha => ha
    obtain ⟨hpc, hpb, hpt⟩ : Passes known (visits f cond) ∧
        Passes (after known (visits f cond)) (visits f body) ∧
        Passes (after (after known (visits f cond)) (visits f body)) (visitsTail f tail) := by
      simpa [visits] using hp
    have hthen := ((expr_tracked f body).stays hpb).after (neutral_tested cond true)
      (P := fun A => Watches A (after known (visits f cond)) (visits f body ++ visitsTail f tail))
      fun _ hcov _ => hcov.left
    have helse := (tail_stays f body tail hpt).after (neutral_tested cond false) fun _ hcov _ => hcov
    refine ((((expr_tracked f cond known).weaken (fun _ _ => trivial) fun _ h => h).seq_stays hpc
      ((hthen.weaken (fun _ h => h) fun _ => List.mem_append_left _).either
        (helse.weaken (fun _ h => h) fun _ => List.mem_append_right _) |>.weaken
          (fun _ ⟨_, hcov, hset⟩ => hcov.settled hset) fun _ h => h)).weaken
            (fun _ ⟨_, hcov⟩ => ⟨hcov, hcov.left⟩) fun _ h => h)
  | .whenE subject cases => by
    intro known
    refine .joined (neutral_joined _) (fun hp => ?_) (fun _ => changes_of_escaping) fun _ ha => ha
    obtain ⟨hps, hpc⟩ := (Lib.passes_append _ _ _).mp hp
    refine (((expr_tracked f subject known).weaken (fun _ _ => trivial) fun _ h => h).seq_stays hps
      ((cases_stay f [] cases hpc).weaken (fun _ ⟨_, hcov, hset⟩ x hx => ?_) fun _ h => h)).weaken
        (fun _ ⟨_, hcov⟩ => ⟨hcov, hcov.left⟩) fun _ h => h
    exact (hcov.settled hset x hx).imp id .inr
  | .whileE label cond body => by
    have h := tracked_loopCode label (.whileE label cond body) (conditionIsAlwaysLiteralTrue cond)
      (expr_tracked f cond) (expr_tracked f body) (fun _ => stays_done false)
      (fun x hx => by
        simpa [visits] using changes_of_escaping (f := f) (e := .whileE label cond body) (by simpa [escaping] using hx))
      (by simp [repeated, visits, escaping]) (by simp [visits])
    simpa [visits, escaping, Expr.code] using h
  | .forE label cond body step => by
    have h := tracked_loopCode label (.forE label cond body step) (conditionIsAlwaysLiteralTrue cond)
      (expr_tracked f cond) (expr_tracked f body)
      (fun known hp => step_stays f cond body step hp)
      (fun x hx => changes_of_escaping (e := .forE label cond body step) (by simpa [escaping] using hx))
      (by simp [repeated, visits, escaping]) (by simp [visits])
    simpa [visits, escaping, Expr.code] using h
  | .forIn label iterable body => by
    have h := tracked_loopCode label (.forIn label iterable body) false (tracked_done false)
      (expr_tracked f body) (fun _ => stays_done false)
      (fun x hx => by simpa using changes_of_escaping (e := body) (by simpa using hx))
      (by simp [repeated])
      (by simp +contextual [visits, Lib.revives_append])
    simpa [visits, escaping, Expr.code] using (expr_tracked f iterable).seq h
  | .macroCall _ expansion => expr_tracked f expansion
termination_by structural e => e

theorem operands_tracked (f : Fault) : ∀ es : List Expr,
    Tracked f (visitsOperands f es) (escapingOperands f es) (operandsCode es)
  | [] => tracked_done false
  | e :: rest => (expr_tracked f e).seq (operands_tracked f rest)
termination_by structural es => es

theorem tail_stays (f : Fault) (body : Expr) {known : Finset LocalId} : ∀ tail : IfTail,
    Passes (after known (visits f body)) (visitsTail f tail) →
      Stays (faults f) (fun A => Watches A known (visits f body ++ visitsTail f tail))
        (escapingTail f tail) (tailCode body tail)
  | .none, _ => .done
  | .els e, hp => stays_els [] (expr_tracked f e) hp fun A hA => ⟨A, hA, fun _ hx => .inl hx⟩
  | .elsIf c b, hp => by
    obtain ⟨hpb, hpc⟩ := (Lib.passes_append _ _ _).mp hp
    let P := fun A => ∃ before, Watches before known (visits f body ++ (visits f b ++ visits f c)) ∧
      Within before (escaping f c) A
    have hb : Stays (faults f) P (escaping f b)
        (.seq (.act (.tested c true)) (.seq (.act (.els body [c] b)) b.code)) :=
      (stays_els [c] (expr_tracked f b) hpb fun A ⟨before, hcov, hin⟩ =>
        ⟨before, (List.append_assoc _ _ _ ▸ hcov).left, fun x hx => by simpa using hin x hx⟩).after
          (neutral_tested c true) fun _ h _ => h
    have hnone : Stays (faults f) P (escaping f b)
        (.seq (.act (.tested c false)) (.act (.unmatched body b))) :=
      .after (neutral_tested c false) (fun _ h _ => h) (.act (P := P) (neutral_of_effects (by cases f <;> rfl)))
    refine Stays.after (neutral_enter [body, b] c) (fun A hcov ha => ⟨hcov, ?_⟩)
      ((((expr_tracked f c).stays hpc).weaken (fun A (h : _ ∧ _) => h.2) fun _ h => h).seq
        ((hb.either hnone).weaken (fun A ⟨before, h, hin⟩ => ⟨before, h.1, hin⟩) fun _ h => h))
    rw [visitsTail, ← List.append_assoc] at hcov
    have hskip := hcov.skip (fun x hx => .inl hx) fun x hx hrev => ha x hx (by
      rcases Lib.revives_append.mp hrev with h | ⟨h, -⟩
      · exact ⟨b, by simp, h⟩
      · exact ⟨body, by simp, h⟩)
    rwa [Lib.after_append] at hskip
termination_by structural tail => tail

theorem cases_stay (f : Fault) (skipped : List Expr) : ∀ (cases : List WhenCase) {known : Finset LocalId},
    Passes known (visitsCases f cases) → Stays (faults f) (fun A => WatchesBut f skipped A known (visitsCases f cases))
        (escapingCases f cases) (casesCode skipped cases)
  | [], _, _ => .done
  | .case c b :: rest, known, hp => by
    obtain ⟨hpc, hpb, hpr⟩ : Passes known (visits f c) ∧ Passes (after known (visits f c)) (visits f b) ∧
        Passes (after (after known (visits f c)) (visits f b)) (visitsCases f rest) := by
      simpa [visitsCases] using hp
    have hbody := ((expr_tracked f b).stays hpb).after (neutral_enter skipped b) (P := fun A =>
      WatchesBut f skipped A (after known (visits f c)) (visits f b ++ visitsCases f rest))
        fun _ hcov ha => hcov.enter ha
    have hrest : Stays (faults f) (fun A => WatchesBut f skipped A (after known (visits f c))
        (visits f b ++ visitsCases f rest)) _ _ :=
      (cases_stay f (skipped ++ [b]) rest hpr).weaken (fun _ hcov => hcov.skip) fun _ h => h
    refine Stays.after (neutral_enter skipped c) (fun A hcov ha => ⟨hcov, hcov.enter ha⟩)
      (((expr_tracked f c known).weaken (fun _ _ => trivial) fun _ h => h).seq_stays hpc
        (((hbody.weaken (fun _ h => h) fun _ => List.mem_append_left _).either
          (hrest.weaken (fun _ h => h) fun _ => List.mem_append_right _)).weaken
            (fun _ ⟨_, hcov, hset⟩ => hcov.settled hset) fun _ h => h))
  | .default b :: rest, _, _ => by
    have hbody : Stays (faults f) (fun A => Watches A ∅ (visits f b) ∧ escaping f b = [] ∧
        Passes ∅ (visits f b)) (escapingCases f (.default b :: rest)) b.code :=
      fun before ⟨hcov, hnone, hp⟩ => ((expr_tracked f b).stays hp before hcov).conseq
        (fun _ hs => hs) fun _ _ hs => hs.mono (by simp [hnone])
    exact hbody.after (neutral_of_effects (by cases f <;> rfl))
      fun A _ ha => ⟨fun x hx => .inr (ha.2.2 x hx), ha.1, ha.2.1⟩
termination_by structural cases => cases

theorem step_stays (f : Fault) (cond body : Expr) {known : Finset LocalId} : ∀ step : Option Expr,
    Passes (after known (visits f cond ++ visits f body)) (visitsStep f step) → Stays (faults f) (fun A => ∃ before,
        Watches before known (visits f cond ++ (visits f body ++ visitsStep f step)) ∧
          Within before (escaping f cond ++ escaping f body) A) (escapingStep f step) (stepCode cond body step)
  | none, _ => .done
  | some step, hp => by
    refine Stays.after (neutral_enter [cond, body] step) (fun A ⟨before, hcov, hin⟩ ha => ?_)
      ((expr_tracked f step).stays hp)
    rw [← List.append_assoc] at hcov
    refine hcov.skip (fun x hx => (hin x hx).imp id fun h => .inl ?_) fun x hx hrev => ha x hx ?_
    · exact Lib.changes_append.mpr ((List.mem_append.mp h).imp changes_of_escaping changes_of_escaping)
    · rcases Lib.revives_append.mp hrev with h | ⟨h, -⟩
      · exact ⟨body, by simp, h⟩
      · exact ⟨cond, by simp, h⟩
termination_by structural step => step

theorem statements_tracked (f : Fault) {all : List Stmt} {entry start : Finset LocalId} :
    ∀ (statements : List Stmt) (before : List (Effect LocalId)),
      visitsDefers f all = before ++ visitsDefers f statements → (∀ x ∈ blockWs f statements, x ∈ blockWs f all) →
      Watches entry start (visitsStatements f all ++ visitsDefers f all) →
      Passes start (visitsStatements f all ++ visitsDefers f all) → StatementsTracked f all entry statements
  | [], _, _, _, _, _ => fun _ => .done
  | [.expression e false], _, _, _, _, _ => fun known => by
    have h : Tracks (faults f) (Within entry (blockWs f all)) known (visits f e)
        (blockWs f [.expression e false]) True e.code :=
      (expr_tracked f e known).weaken (fun _ _ => trivial) fun x hx => by
        simp [blockWs, escapingStatements, hx]
    simpa [visitsStatements, Stmt.isDefer, statementsCode] using h
  | [.expression e true], _, _, hall, _, _ =>
    statements_step (expr_tracked f e) (by simp [blockWs, escapingStatements, escapingDefers]) hall fun _ _ => .done
  | .expression e _ :: s :: rest, before, hd, hall, hcov, hp => by
    have h := statements_step (expr_tracked f e)
      (fun x => by simp only [blockWs, escapingStatements, escapingDefers, List.mem_append, or_assoc])
      hall fun h => statements_tracked f (s :: rest) before hd h hcov hp
    intro known
    simp only [statementsCode]
    exact h known
  | .discard e :: rest, before, hd, hall, hcov, hp =>
    statements_step (expr_tracked f e)
      (fun x => by simp only [blockWs, escapingStatements, escapingDefers, List.mem_append, or_assoc])
      hall fun h => statements_tracked f rest before hd h hcov hp
  | .declaration :: rest, before, hd, hall, hcov, hp =>
    statements_tracked f rest before hd hall hcov hp
  | .binding x none :: rest, before, hd, hall, hcov, hp =>
    statements_step (tracked_act (a := .declare x) (by cases f <;> rfl) fun _ => mem_tainted.mpr)
      (fun x => by simp only [blockWs, escapingStatements, escapingDefers, List.mem_append, or_assoc])
      hall fun h => statements_tracked f rest before hd h hcov hp
  | .binding x (some e) :: rest, before, hd, hall, hcov, hp =>
    statements_step (expr_tracked f e)
      (fun x => by simp only [blockWs, escapingStatements, escapingDefers, List.mem_append, or_assoc])
      hall fun h => statements_initialise x (statements_tracked f rest before hd h hcov hp)
  | .element x :: rest, before, hd, hall, hcov, hp =>
    statements_initialise x (statements_tracked f rest before hd hall hcov hp)
  | .defer e :: rest, before, hd, hall, hcov, hp =>
    have hrest : ∀ x ∈ blockWs f rest, x ∈ blockWs f all := fun x hx => hall x (by
      simp only [blockWs, escapingStatements, escapingDefers, List.mem_append] at hx ⊢
      tauto)
    statements_defer (expr_tracked f e) hcov hp hd hrest
      (statements_tracked f rest (before ++ visits f e) (by rw [hd, visitsDefers, List.append_assoc]) hrest hcov hp)
  | .ret none :: _, _, _, _, _, _ => fun _ => .exit
  | .ret (some e) :: rest, _, _, hall, _, _ =>
    statements_step (expr_tracked f e)
      (fun x => by simp only [blockWs, escapingStatements, escapingDefers, List.mem_append, or_assoc])
      hall fun _ _ => .exit
  | .brk _ :: _, _, _, _, _, _ => fun _ => .exit
  | .cont _ :: _, _, _, _, _, _ => fun _ => .exit
  | .jump arguments :: rest, _, _, hall, _, _ => fun known => by
    have hexit : ∀ known, Tracks (faults f) (Within entry (blockWs f all)) known [] []
        ((Stmt.jump arguments :: rest).any Stmt.isDefer = false) (.exit .ret) := fun _ => .exit
    have h := statements_cons (operands_tracked f arguments)
      (fun x hx => hall x (List.mem_append_left _ hx)) hexit known
    simpa [visitsStatements, blockWs, escapingStatements, escapingDefers, statementsCode] using h
termination_by structural statements => statements

end

end Zith.Flow
