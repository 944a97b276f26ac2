import Zith.Flow.Returns

/-! The promises of `Ends` hold of every run whose actions are foreseen, by recursion on the tree with one
    lemma for each construct; `definite_return` is what they say of a body. -/

namespace Zith.Flow

open Lib (Command Exit Exec Outcome Monitor Triple)

abbrev Runs (c : Command Action) (terminates value breaks : Bool) : Prop :=
  Triple returns (fun _ => True) c fun o _ => Ends terminates value breaks o

section
variable {c d cond body step : Command Action} {t v b t' v' b' : Bool}

/-- What does not reach its end has any value there. -/
theorem Ends.weaken {o : Outcome} (h : Ends t v b o) (ht : t' = true → t = true)
    (hv : v' = true → v = true ∨ t = true) (hb : b' = false → b = false) : Ends t' v' b' o := by
  refine ⟨fun h' => h.terminates (ht h'), fun h' value hvalue => ?_, fun h' => h.breaks (hb h')⟩
  rcases hv h' with h' | h'
  · exact h.value h' value hvalue
  · exact absurd hvalue (h.terminates h' value)

theorem Runs.weaken (h : Runs c t v b) (ht : t' = true → t = true)
    (hv : v' = true → v = true ∨ t = true) (hb : b' = false → b = false) : Runs c t' v' b' :=
  h.conseq (fun _ hs => hs) fun _ _ ho => ho.weaken ht hv hb

theorem runs_done (value : Bool) : Runs (.done value) false value false :=
  .done fun _ _ => ⟨by simp, fun h v hv => by simpa [h] using hv.symm, by simp⟩

theorem runs_act (a : Action) : Runs (.act a) false false false :=
  .act (fun _ _ _ => trivial) fun _ _ _ => ⟨by simp, by simp, by simp⟩

theorem runs_exit {e : Exit} (he : ∀ label, e ≠ .brk label) : Runs (.exit e) true true false :=
  .exit fun _ _ => ⟨by simp, by simp, fun _ label h => he label (by simpa using h)⟩

/-- A `break` promises everything but that none leads out. -/
theorem runs_break (label : String) : Runs (.exit (.brk label)) true true true :=
  .exit fun _ _ => ⟨by simp, by simp, by simp⟩

theorem Runs.seq (hc : Runs c t v b) (hd : Runs d t' v' b') : Runs (.seq c d) (t || t') (t || v') (b || b') := by
  refine Triple.seq (R := fun _ => t = false) hc ?_ (fun value s h => ?_) fun e s h => ?_
  · intro s u o hs hexec hassume
    obtain ⟨hass, ho⟩ := hd s u o trivial hexec hassume
    exact ⟨hass, ho.weaken (by simp [hs]) (by simp +contextual [hs]) (by simp)⟩
  · cases ht : t with
    | false => rfl
    | true => exact absurd rfl (h.terminates ht value)
  · exact ⟨by simp, by simp, fun hb => h.breaks (by simp at hb; exact hb.1)⟩

theorem Runs.either (hc : Runs c t v b) (hd : Runs d t' v' b') : Runs (.either c d) (t && t') (v && v') (b || b') :=
  Triple.either
    (hc.weaken (fun h => by simp_all) (by simp +contextual) (by simp +contextual))
    (hd.weaken (fun h => by simp_all) (by simp +contextual) (by simp +contextual))

theorem Runs.cleanup (hc : Runs c t v b) (hd : Runs d t' v' b') : Runs (.cleanup c d) t v (b || b') := by
  refine Triple.cleanup hc fun o s u o' hs hexec hassume => ?_
  obtain ⟨hass, ho'⟩ := hd s u o' trivial hexec hassume
  refine ⟨hass, fun value _ => hs.weaken id .inl (by simp +contextual), fun e he => ?_⟩
  subst he
  exact ⟨by simp, by simp, fun hb => ho'.breaks (by simp at hb; exact hb.2)⟩

theorem Runs.mark (hc : Runs c t v b) (a : Action) : Runs (.mark c a) t v b :=
  Triple.mark hc (fun _ _ _ _ => trivial) (fun _ _ h _ => h) fun _ _ h => h

/-- An action that is not foreseen promises anything. -/
theorem runs_act_unforeseen {a : Action} (ht : t = true → ¬ Foreseen a) (hv : v = true → ¬ Foreseen a) :
    Runs (.act a) t v false :=
  .act (fun _ _ _ => trivial) fun _ _ ha =>
    ⟨fun h => absurd ha (ht h), fun h => absurd ha (hv h), by simp⟩

/-- A step that has to be foreseen, and the code behind it. -/
theorem Runs.after {a : Action} (h : Foreseen a → Runs c t v b) : Runs (.seq (.act a) c) t v b := by
  refine Triple.seq (S := fun o _ => (∃ value, o = .normal value) ∧ Foreseen a)
    (R := fun _ => Foreseen a) ?_ ?_ (fun _ _ hs => hs.2) fun e s hs => by simpa using hs.1
  · exact .act (fun _ _ _ => trivial) fun s _ ha => ⟨⟨_, rfl⟩, ha⟩
  · intro s u o hs hexec hassume
    exact h hs s u o trivial hexec hassume

/-- A run of the command leads out by a `break` only of the kind that `R` allows. -/
abbrev BreaksOnly (c : Command Action) (R : String → Prop) : Prop :=
  Triple returns (fun _ => True) c fun o _ => ∀ label, o = .exit (.brk label) → R label

theorem Runs.breaksOnly {R : String → Prop} (h : Runs c t v b) (hR : b = true → ∀ label, R label) : BreaksOnly c R :=
  h.conseq (fun _ hs => hs) fun o _ ho label hl => by
    cases hb : b with
    | false => exact absurd hl (ho.breaks hb label)
    | true => exact hR hb label

theorem BreaksOnly.seq {R : String → Prop} (hc : BreaksOnly c R) (hd : BreaksOnly d R) : BreaksOnly (.seq c d) R :=
  Triple.seq hc hd (fun _ _ _ => trivial) fun _ _ h => h

theorem BreaksOnly.resume {R : String → Prop} {l : String} (hc : BreaksOnly c R) : BreaksOnly (.resume l c) R :=
  Triple.resume hc (fun _ _ _ h => h) fun _ _ _ _ _ hl => by simp at hl

/-- A loop that ends does so by its condition, or by a `break` in it. -/
theorem runs_loopCode (label : String) (e : Expr) (endless : Bool) {bc bb bs : Bool}
    (hcond : Runs cond false false bc) (hbody : Runs body false false bb) (hstep : Runs step false false bs)
    (ht : t = true → Foreseen (.joined e) → endless = true ∧ (bc || bb || bs) = false) :
    Runs (loopCode label e endless cond body step) t false (bc || bb || bs) := by
  let allowed : String → Prop := fun l => (bc || bb || bs) = true ∨ endless = false ∧ l = ""
  have htest : BreaksOnly (if endless then body else .either (.exit (.brk "")) body) allowed := by
    have hbody' : BreaksOnly body allowed := hbody.breaksOnly fun h _ => .inl (by simp [h])
    cases endless with
    | true => exact hbody'
    | false => exact .either (.exit fun _ _ l hl => .inr (by simpa [eq_comm] using hl)) hbody'
  have hiter := BreaksOnly.seq (R := allowed)
    (((hcond.breaksOnly fun h _ => .inl (by simp [h])).seq htest).resume (l := label))
    (((hstep.breaksOnly fun h _ => .inl (by simp [h])).resume (l := label)).seq
      ((runs_act (.again e)).breaksOnly (by simp)))
  have hloop : Triple returns (fun _ => True) (.loop label _) fun o _ =>
      (∀ v, o = .normal v → v = false ∧ ((bc || bb || bs) = true ∨ endless = false)) ∧
        ∀ l, o = .exit (.brk l) → (bc || bb || bs) = true :=
    Triple.loop hiter (fun _ _ _ => trivial)
      (fun x s hx h => ⟨fun v hv => ⟨by simpa using hv.symm, ?_⟩, by simp⟩)
      fun x s hx h => ⟨by simp, fun l hl => ?_⟩
  · refine Triple.mark hloop (fun _ _ _ _ => trivial) (fun v s h ha => ?_) fun x s h => ?_
    · refine ⟨fun htt v' hv' => ?_, by simp, by simp⟩
      obtain ⟨hendless, hno⟩ := ht htt ha
      rcases (h.1 v rfl).2 with hB | hB <;> simp_all
    · exact ⟨by simp, by simp, fun hB l hl => by simpa [hB] using h.2 l hl⟩
  · rcases hx with rfl | rfl
    · exact (h _ rfl).imp id And.left
    · exact (h _ rfl).imp id And.left
  · obtain rfl : x = .brk l := by simpa using hl
    rcases h l rfl with hB | ⟨-, rfl⟩
    · exact hB
    · exact absurd (.inl rfl) hx

end

/-! ### The promises of each construct -/

/-- From the case list on, every body that may be taken has a value. -/
def casesValued (skipped : List Expr) (cases : List WhenCase) : Bool :=
  lastIsDefault cases && bodiesWhensAgree cases &&
    cases.all (·.bodyAgrees true) && skipped.all hasValue &&
    (!skipped.isEmpty || cases.head?.any (fun | .case _ _ => true | .default _ => false))

theorem foreseen_forIn {label : String} {iterable body : Expr} (h : Foreseen (.joined (.forIn label iterable body))) :
    exprAlwaysTerminates (.forIn label iterable body) = false := by
  simpa [Foreseen] using h

mutual

theorem expr_runs : ∀ e : Expr, Runs e.code (exprAlwaysTerminates e) (whensAgree e && hasValue e) (hasBreak e)
  | .literal _ => (runs_done true).weaken (by simp [exprAlwaysTerminates]) (by simp) (by simp)
  | .name x =>
    ((runs_act (.read x)).seq (runs_done true)).weaken (by simp [exprAlwaysTerminates]) (by simp) (by simp)
  | .operator hv operands =>
    ((operands_runs operands).seq (runs_done hv)).weaken (by simp [exprAlwaysTerminates])
      (by simp [hasValue]) (by simp [hasBreak])
  | .isNull operand =>
    ((expr_runs operand).seq (runs_done true)).weaken (by simp [exprAlwaysTerminates]) (by simp) (by simp [hasBreak])
  | .not operand =>
    ((expr_runs operand).seq (runs_done true)).weaken (by simp [exprAlwaysTerminates]) (by simp) (by simp [hasBreak])
  | .payload operand =>
    (((expr_runs operand).mark _).seq (runs_done true)).weaken (by simp [exprAlwaysTerminates])
      (by simp) (by simp [hasBreak])
  | .address operand => by
    have h : Runs (.seq operand.code (.done true)) false true (hasBreak operand) :=
      ((expr_runs operand).seq (runs_done true)).weaken (by simp) (by simp) (by simp)
    cases operand with
    | name x =>
      exact ((runs_act (.read x)).seq ((runs_act (.move x true [])).seq (runs_done true))).weaken
        (by simp [exprAlwaysTerminates]) (by simp) (by simp)
    | _ =>
      simp only [Expr.code]
      exact h.weaken (by simp [exprAlwaysTerminates]) (by simp) (by simp [hasBreak])
  | .method kind hv receiver arguments => by
    have hmove : Runs (moveCode arguments kind receiver) false false false := by
      cases kind <;> cases receiver <;>
        first | exact runs_act _ | exact runs_done false
    exact ((expr_runs receiver).seq
      ((operands_runs arguments).seq (hmove.seq (runs_done hv)))).weaken
        (by simp [exprAlwaysTerminates]) (by simp +contextual [hasValue]) (by simp [hasBreak])
  | .path _ object operands =>
    ((expr_runs object).seq ((operands_runs operands).seq (runs_done true))).weaken
      (by simp [exprAlwaysTerminates]) (by simp) (by simp [hasBreak])
  | .assign target value => by
    have hv := expr_runs value
    have ht := expr_runs target
    cases target with
    | name x =>
      exact ((runs_act (.assigning x value)).seq (hv.seq
        ((runs_act (.store x)).seq (runs_done true)))).weaken (by simp [exprAlwaysTerminates])
          (by simp) (by simp [hasBreak])
    | _ =>
      simp only [Expr.code]
      exact (ht.seq (hv.seq ((runs_act (.storeThrough _)).seq (runs_done true)))).weaken
        (by simp [exprAlwaysTerminates]) (by simp) (by simp [hasBreak])
  | .optionalProp operand =>
    ((expr_runs operand).seq ((runs_done true).either (runs_exit (by simp)))).weaken
      (by simp [exprAlwaysTerminates]) (by simp) (by simp [hasBreak])
  | .block statements => by
    have h := (statements_runs statements statements).cleanup (runs_act (.leave (declared statements)))
    simp only [Expr.code]
    split
    · exact (h.mark _).weaken (by simp [exprAlwaysTerminates]) (by simp +contextual [whensAgree, hasValue])
        (by simp [hasBreak])
    · exact h.weaken (by simp [exprAlwaysTerminates]) (by simp +contextual [whensAgree, hasValue])
        (by simp [hasBreak])
  | .ifE cond body tail => by
    have h := ((expr_runs cond).seq
      (((runs_act (.tested cond true)).seq (expr_runs body)).either
        ((runs_act (.tested cond false)).seq (tail_runs cond body tail)))).mark (.joined (.ifE cond body tail))
    have hvalue : hasValue (.ifE cond body tail) = true → hasValue body = true := by
      cases tail <;> simp [hasValue]
    refine h.weaken (by simp +contextual [exprAlwaysTerminates]) (fun hv => .inl ?_) (by simp +contextual [hasBreak])
    simp only [whensAgree, Bool.and_eq_true] at hv
    simp [hv.1.1, hv.1.2, hv.2, hvalue hv.2]
  | .whenE subject cases => by
    have h := ((expr_runs subject).seq (cases_runs [] cases)).mark (.joined (.whenE subject cases))
    refine h.weaken (by simp +contextual [exprAlwaysTerminates]) (fun hv => .inl ?_) (by simp +contextual [hasBreak])
    rcases cases with _ | ⟨⟨c, b⟩ | b, rest⟩
    · simp [hasValue] at hv
    · simp only [whensAgree, casesAgree, hasValue, Bool.and_eq_true] at hv
      obtain ⟨⟨⟨hall, hlast⟩, hwhens⟩, hfirst⟩ := hv
      rw [hfirst] at hall hlast
      have hcase : (WhenCase.case c b).bodyAgrees true = true := by
        simp [WhenCase.bodyAgrees, hfirst]
      simp only [Bool.not_true, Bool.false_or] at hlast
      have hvalued : casesValued [] (.case c b :: rest) = true := by
        rw [casesValued, List.all_cons, hlast, hwhens, hcase, hall]
        rfl
      simp [hvalued]
    · simp [hasValue] at hv
  | .whileE label cond body => by
    refine (runs_loopCode label (.whileE label cond body) (conditionIsAlwaysLiteralTrue cond)
      (t := exprAlwaysTerminates (.whileE label cond body))
      ((expr_runs cond).weaken (by simp) (by simp) id)
      ((expr_runs body).weaken (by simp) (by simp) id) (runs_done false) ?_).weaken id
        (by simp [hasValue]) (by simp +contextual [hasBreak])
    simp only [exprAlwaysTerminates, Foreseen, Bool.and_eq_true, Bool.not_eq_true']
    rintro ⟨htrue, hnone⟩ hsearch
    have hno := mt (hsearch htrue) (by simp [hnone])
    simp only [not_or, Bool.not_eq_true] at hno
    simp [htrue, hno]
  | .forE label cond body step => by
    refine (runs_loopCode label (.forE label cond body step) (conditionIsAlwaysLiteralTrue cond)
      (t := exprAlwaysTerminates (.forE label cond body step))
      ((expr_runs cond).weaken (by simp) (by simp) id)
      ((expr_runs body).weaken (by simp) (by simp) id) (step_runs cond body step) ?_).weaken id
        (by simp [hasValue]) (by simp +contextual [hasBreak])
    simp only [exprAlwaysTerminates, Foreseen, Bool.and_eq_true, Bool.not_eq_true']
    rintro ⟨htrue, hnone⟩ hsearch
    have hno := mt (hsearch htrue) (by simp [hnone])
    simp only [not_or, Bool.not_eq_true] at hno
    simp [htrue, hno]
  | .forIn label iterable body =>
    ((expr_runs iterable).seq (runs_loopCode label (.forIn label iterable body) false
      (t := exprAlwaysTerminates (.forIn label iterable body)) (runs_done false)
      ((expr_runs body).weaken (by simp) (by simp) id) (runs_done false)
      fun ht hf => absurd ht (by simp [foreseen_forIn hf]))).weaken (by simp +contextual)
        (by simp [hasValue]) (by simp [hasBreak])
  | .macroCall _ expansion =>
    (expr_runs expansion).weaken (by simp [exprAlwaysTerminates]) (by simp +contextual [whensAgree, hasValue])
      (by simp [hasBreak])
termination_by structural e => e

theorem operands_runs : ∀ es : List Expr, Runs (operandsCode es) false false (operandsHaveBreak es)
  | [] => runs_done false
  | e :: rest =>
    ((expr_runs e).seq (operands_runs rest)).weaken (by simp) (by simp) (by simp [operandsHaveBreak])
termination_by structural es => es

theorem tail_runs (cond body : Expr) : ∀ tail : IfTail,
    Runs (tailCode body tail) (exprAlwaysTerminates body && tailTerminates tail)
      (elseWhensAgree tail && hasValue (.ifE cond body tail)) (tailHasBreak tail)
  | .none => (runs_done false).weaken (by simp [tailTerminates]) (by simp [hasValue]) (by simp)
  | .els e => .after fun ha => (expr_runs e).weaken (by simp [tailTerminates])
      (fun hv => by
        simp only [elseWhensAgree, hasValue, Bool.and_eq_true] at hv
        simp only [Foreseen] at ha
        rcases ha hv.2 with h | h <;> simp [h, hv.1])
      (by simp [tailHasBreak])
  | .elsIf c b => by
    have hbody : Runs (.seq (.act (.els body [c] b)) b.code) (exprAlwaysTerminates b)
        (whensAgree b && hasValue body) (hasBreak b) :=
      .after fun ha => (expr_runs b).weaken id (fun hv => by
        simp only [Bool.and_eq_true] at hv
        simp only [Foreseen] at ha
        rcases ha hv.2 with h | h <;> simp [h, hv.1]) id
    have hnone := runs_act_unforeseen (a := .unmatched body b)
      (t := exprAlwaysTerminates body && exprAlwaysTerminates b) (v := hasValue body)
      (by simp +contextual [Foreseen]) (by simp +contextual [Foreseen])
    refine ((runs_act (.enter [body, b] c)).seq ((expr_runs c).seq
      (((runs_act (.tested c true)).seq hbody).either ((runs_act (.tested c false)).seq hnone)))).weaken ?_ ?_ ?_
    · simp +contextual [tailTerminates]
    · simp +contextual [elseWhensAgree, hasValue]
    · simp +contextual [tailHasBreak]
termination_by structural tail => tail

theorem cases_runs : ∀ (skipped : List Expr) (cases : List WhenCase),
    Runs (casesCode skipped cases) (lastIsDefault cases && casesTerminate cases)
      (casesValued skipped cases) (casesHaveBreak cases)
  | _, [] => (runs_done false).weaken (by simp [lastIsDefault]) (by simp [casesValued, lastIsDefault])
      (by simp)
  | skipped, .case c b :: rest => by
    refine ((runs_act (.enter skipped c)).seq ((expr_runs c).seq
      (((runs_act (.enter skipped b)).seq (expr_runs b)).either (cases_runs (skipped ++ [b]) rest)))).weaken ?_ ?_ ?_
    · simp +contextual [lastIsDefault, casesTerminate]
    · simp +contextual [casesValued, lastIsDefault, bodiesWhensAgree, WhenCase.bodyAgrees]
    · simp +contextual [casesHaveBreak]
  | skipped, .default b :: rest => .after fun ha => (expr_runs b).weaken
      (by simp +contextual [casesTerminate])
      (fun hv => by
        simp only [casesValued, bodiesWhensAgree, Bool.and_eq_true] at hv
        rcases skipped with _ | ⟨first, others⟩
        · simp at hv
        · obtain ⟨⟨⟨⟨-, hagree, -⟩, -⟩, hall⟩, -⟩ := hv
          have hfirst : hasValue first = true := List.all_eq_true.mp hall first (by simp)
          rcases ha first rfl hfirst with h | h
          · simp [h, hagree]
          · simp [h])
      (by simp +contextual [casesHaveBreak])
termination_by structural _ cases => cases

theorem step_runs (cond body : Expr) : ∀ step : Option Expr,
    Runs (stepCode cond body step) false false (stepHasBreak step)
  | none => runs_done false
  | some step =>
    ((runs_act (.enter [cond, body] step)).seq (expr_runs step)).weaken (by simp) (by simp) (by simp [stepHasBreak])
termination_by structural step => step

theorem statements_runs (all : List Stmt) : ∀ statements : List Stmt,
    Runs (statementsCode all statements) (statementsTerminate statements)
      (tailWhensAgree statements && blockHasValue statements) (statementsHaveBreak statements)
  | [] => (runs_done false).weaken (by simp [statementsTerminate]) (by simp [blockHasValue]) (by simp)
  | [.expression e false] => (expr_runs e).weaken (by simp [statementsTerminate])
      (by simp +contextual [tailWhensAgree, blockHasValue]) (by simp [statementsHaveBreak])
  | [.expression e true] => ((expr_runs e).seq (runs_done false)).weaken
      (by simp [statementsTerminate]) (by simp [blockHasValue]) (by simp [statementsHaveBreak])
  | .expression e semicolon :: s :: rest => by
    have h := (expr_runs e).seq (statements_runs all (s :: rest))
    simp only [statementsCode]
    exact h.weaken (by simp [statementsTerminate])
      (by simp +contextual [tailWhensAgree, blockHasValue]) (by simp [statementsHaveBreak])
  | .discard e :: rest => ((expr_runs e).seq (statements_runs all rest)).weaken
      (by simp +contextual [statementsTerminate]) (by simp +contextual [tailWhensAgree, blockHasValue])
      (by simp [statementsHaveBreak])
  | .declaration :: rest => (statements_runs all rest).weaken (by simp [statementsTerminate])
      (by simp +contextual [tailWhensAgree, blockHasValue]) (by simp [statementsHaveBreak])
  | .binding x none :: rest => ((runs_act (.declare x)).seq (statements_runs all rest)).weaken
      (by simp [statementsTerminate]) (by simp +contextual [tailWhensAgree, blockHasValue])
      (by simp [statementsHaveBreak])
  | .binding x (some e) :: rest =>
    ((expr_runs e).seq ((runs_act (.initialise x)).seq (statements_runs all rest))).weaken
      (by simp +contextual [statementsTerminate])
      (by simp +contextual [tailWhensAgree, blockHasValue]) (by simp [statementsHaveBreak])
  | .element x :: rest => ((runs_act (.initialise x)).seq (statements_runs all rest)).weaken
      (by simp [statementsTerminate]) (by simp +contextual [tailWhensAgree, blockHasValue])
      (by simp [statementsHaveBreak])
  | .defer e :: rest =>
    ((statements_runs all rest).cleanup ((runs_act (.deferred all e)).seq (expr_runs e))).weaken
      (by simp [statementsTerminate]) (by simp +contextual [tailWhensAgree, blockHasValue])
      (by simp +contextual [statementsHaveBreak])
  | .ret none :: _ => (runs_exit (by simp)).weaken (by simp) (by simp) (by simp)
  | .ret (some e) :: rest => ((expr_runs e).seq (runs_exit (by simp))).weaken (by simp) (by simp)
      (by simp +contextual [statementsHaveBreak])
  | .brk label :: _ => (runs_break label).weaken (by simp) (by simp) (by simp [statementsHaveBreak])
  | .cont label :: _ => (runs_exit (by simp)).weaken (by simp) (by simp) (by simp)
  | .jump arguments :: rest => ((operands_runs arguments).seq (runs_exit (by simp))).weaken (by simp)
      (by simp) (by simp +contextual [statementsHaveBreak])
termination_by structural statements => statements

end

/-! ### Definite return -/

theorem assumes_returns : ∀ {t : List Action}, (∀ a ∈ t, Foreseen a) → ∀ s, returns.Assumes s t
  | [], _, _ => trivial
  | _ :: _, h, s => ⟨h _ (by simp), assumes_returns (fun a ha => h a (by simp [ha])) s⟩

end Zith.Flow
