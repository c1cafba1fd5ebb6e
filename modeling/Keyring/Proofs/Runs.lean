import Mathlib.Data.List.Basic
import Mathlib.Data.List.Induction

/-!
# Runs

A run takes steps one after the other and ends where one of them cannot be taken. Where a step
leaves a log, the run of the states with their logs is again a run.
-/

namespace Keyring

variable {σ α ε : Type}

/-! ## Steps one after the other -/

/-- The state after some steps; nothing if one of them cannot be taken. -/
def runSteps? (step? : σ → α → Option σ) (state : σ) (acts : List α) : Option σ :=
  acts.foldlM step? state

section Steps

variable {step? : σ → α → Option σ} {state between last : σ}

@[simp] theorem runSteps?_nil : runSteps? step? state [] = some state := rfl

@[simp] theorem runSteps?_cons (act : α) (rest : List α) :
    runSteps? step? state (act :: rest) =
      (step? state act).bind fun next => runSteps? step? next rest := rfl

theorem runSteps?_append (acts later : List α) :
    runSteps? step? state (acts ++ later) =
      (runSteps? step? state acts).bind fun next => runSteps? step? next later :=
  List.foldlM_append

theorem runSteps?_concat (acts : List α) (act : α) :
    runSteps? step? state (acts ++ [act]) =
      (runSteps? step? state acts).bind fun next => step? next act := by
  simp only [runSteps?_append, runSteps?_cons, runSteps?_nil, Option.bind_fun_some]

/-- A run goes on from where its first part has led. -/
theorem runSteps?_append_of_run {acts : List α} (h : runSteps? step? state acts = some between)
    (later : List α) :
    runSteps? step? state (acts ++ later) = runSteps? step? between later := by
  rw [runSteps?_append, h, Option.bind_some]

theorem runSteps?_concat_of_run {acts : List α} (h : runSteps? step? state acts = some between)
    (act : α) : runSteps? step? state (acts ++ [act]) = step? between act := by
  rw [runSteps?_concat, h, Option.bind_some]

/-- What holds at the start and is kept by every step holds after every run. -/
theorem runSteps?_induction {P : List α → σ → Prop} (hstart : P [] state)
    (hstep : ∀ acts act before after, runSteps? step? state acts = some before → P acts before →
      step? before act = some after → P (acts ++ [act]) after)
    {acts : List α} (h : runSteps? step? state acts = some last) : P acts last := by
  induction acts using List.reverseRecOn generalizing last with
  | nil => exact Option.some.inj h ▸ hstart
  | append_singleton acts act ih =>
    rw [runSteps?_concat] at h
    obtain ⟨before, hbefore, hlast⟩ := Option.bind_eq_some_iff.1 h
    exact hstep acts act before last hbefore (ih hbefore) hlast

end Steps

/-! ## Steps with a log -/

section Logged

variable {step? : σ → α → Option (σ × List ε)} {state last : σ} {act : α} {acts rest : List α}
  {log : List ε}

/-- A step of a state that carries its log. -/
def loggedStep? (step? : σ → α → Option (σ × List ε)) (now : σ × List ε) (act : α) :
    Option (σ × List ε) :=
  (step? now.1 act).map fun next => (next.1, now.2 ++ next.2)

/-- The state after some steps, with the log that they leave. -/
def runLogged? (step? : σ → α → Option (σ × List ε)) (state : σ) (acts : List α) :
    Option (σ × List ε) :=
  runSteps? (loggedStep? step?) (state, []) acts

/-- An earlier log stays in front. -/
theorem runSteps?_loggedStep? (earlier : List ε) :
    runSteps? (loggedStep? step?) (state, earlier) acts =
      (runLogged? step? state acts).map fun last => (last.1, earlier ++ last.2) := by
  induction acts generalizing state earlier with
  | nil => simp [runLogged?]
  | cons act rest ih =>
    rw [runLogged?, runSteps?_cons, runSteps?_cons, loggedStep?, loggedStep?]
    cases step? state act with
    | none => rfl
    | some next =>
      simp only [Option.map_some, Option.bind_some, List.nil_append, ih (earlier ++ next.2),
        ih next.2, Option.map_map, Function.comp_def, List.append_assoc]

@[simp] theorem runLogged?_nil : runLogged? step? state [] = some (state, []) := rfl

@[simp] theorem runLogged?_cons :
    runLogged? step? state (act :: rest) = (step? state act).bind fun next =>
      (runLogged? step? next.1 rest).map fun last => (last.1, next.2 ++ last.2) := by
  rw [runLogged?, runSteps?_cons, loggedStep?, Option.bind_map]
  exact congrArg _ (funext fun next => runSteps?_loggedStep? next.2)

theorem runLogged?_cons_eq_some_iff :
    runLogged? step? state (act :: rest) = some (last, log) ↔
      ∃ next first later, step? state act = some (next, first) ∧
        runLogged? step? next rest = some (last, later) ∧ log = first ++ later := by
  simp only [runLogged?_cons, Option.bind_eq_some_iff, Option.map_eq_some_iff, Prod.exists,
    Prod.mk.injEq]
  constructor
  · rintro ⟨next, first, hstep, _, later, hrest, rfl, rfl⟩
    exact ⟨next, first, later, hstep, hrest, rfl⟩
  · rintro ⟨next, first, later, hstep, hrest, rfl⟩
    exact ⟨next, first, hstep, last, later, hrest, rfl, rfl⟩

/-- What holds of a state, of the acts that led to it and of their log, and is kept by each act. -/
theorem runLogged?_induction {P : σ → List α → List ε → Prop} {past : List ε}
    (hstep : ∀ {state next acts act log first}, P state acts log →
      step? state act = some (next, first) → P next (acts ++ [act]) (log ++ first))
    (hrun : runLogged? step? state acts = some (last, log)) (h : P state [] past) :
    P last acts (past ++ log) := by
  refine runSteps?_induction (P := fun acts now => P now.1 acts (past ++ now.2))
    (by rwa [List.append_nil]) ?_ hrun
  intro acts act before after _ hbefore hact
  obtain ⟨next, hnext, rfl⟩ := Option.map_eq_some_iff.1 hact
  rw [← List.append_assoc]
  exact hstep hbefore hnext

/-- What holds of a state and of the log that led to it, whatever the acts were. -/
theorem runLogged?_preserves {P : σ → List ε → Prop} {past : List ε}
    (hstep : ∀ {state next act log first}, P state log → step? state act = some (next, first) →
      P next (log ++ first))
    (hrun : runLogged? step? state acts = some (last, log)) (h : P state past) :
    P last (past ++ log) :=
  runLogged?_induction (P := fun state _ log => P state log) (fun h hact => hstep h hact) hrun h

end Logged

end Keyring
