import LispDialects.Eval.Evaluate

/-!
# How an action ends

`action.Ends run result after` says that an action started in `run` ends with `result`, a value
or an error, and leaves `after`. It is the form in which the proofs about evaluation speak of
runs: both outcomes are treated alike, and `ends_bind` takes a sequence of actions apart, so no
later proof opens the state monad.

Main statements:

* `ends_bind`: a sequence ends either in the first action, with its error, or in the second;
* `ends_answer`: the answer of an evaluation is how it ends;
* `ends_evaluate_zero`, `ends_evaluate_symbol`, `ends_evaluate_call`, `ends_evaluate_self`,
  `ends_evaluate_foreign`: an evaluation at its limit, and one level of it.
-/

namespace LispDialects.EvalM

variable {α β : Type}

/-- How an action ends: with a value or an error, and in a state. -/
def Ends (action : EvalM α) (run : Run) (result : Except Error α) (after : Run) : Prop :=
  match result with
  | .ok a => action run = .ok a after
  | .error error => action run = .error error after

/-! ## Every action ends in one way -/

/-- Every action ends. -/
theorem exists_ends (action : EvalM α) (run : Run) :
    ∃ result after, Ends action run result after := by
  cases h : action run with
  | ok a after => exact ⟨.ok a, after, h⟩
  | error error after => exact ⟨.error error, after, h⟩

/-- The result and the state in which an action ends are determined. -/
theorem Ends.unique {action : EvalM α} {run after₁ after₂ : Run} {result₁ result₂ : Except Error α}
    (h₁ : Ends action run result₁ after₁) (h₂ : Ends action run result₂ after₂) :
    result₁ = result₂ ∧ after₁ = after₂ := by
  cases result₁ <;> cases result₂ <;> simp_all [Ends]

/-- The answer of an evaluation is how it ends when nothing has been recorded before. -/
theorem ends_answer (action : EvalM α) (env : Environment) :
    Ends action { env } (action.answer env).result
      ⟨(action.answer env).env, (action.answer env).log⟩ := by
  unfold answer
  cases h : action { env } with
  | ok a after => exact h
  | error error after => exact h

/-- Answers with the same result, environment and record are the same. -/
theorem answer_ext {a b : Answer α} (hresult : a.result = b.result) (henv : a.env = b.env)
    (hlog : a.log = b.log) : a = b := by
  cases a
  cases b
  cases hresult
  cases henv
  cases hlog
  rfl

/-! ## Single steps -/

@[simp] theorem ends_pure {a : α} {run after : Run} {result : Except Error α} :
    Ends (pure a) run result after ↔ result = .ok a ∧ after = run := by
  cases result with
  | ok b =>
    show EStateM.Result.ok a run = .ok b after ↔ _
    simp [eq_comm]
  | error error =>
    show EStateM.Result.ok a run = .error error after ↔ _
    simp

@[simp] theorem ends_throw {error : Error} {run after : Run} {result : Except Error α} :
    Ends (throw error) run result after ↔ result = .error error ∧ after = run := by
  cases result with
  | ok b =>
    show EStateM.Result.error error run = .ok b after ↔ _
    simp
  | error other =>
    show EStateM.Result.error error run = .error other after ↔ _
    simp [eq_comm]

/-- What is computed without effects ends as it was computed. -/
@[simp] theorem ends_ofExcept {x : Except Error α} {run after : Run} {result : Except Error α} :
    Ends (ofExcept x) run result after ↔ result = x ∧ after = run := by
  cases x with
  | ok a => exact ends_pure
  | error error => exact ends_throw

@[simp] theorem ends_getEnv {run after : Run} {result : Except Error Environment} :
    Ends getEnv run result after ↔ result = .ok run.env ∧ after = run :=
  ends_pure

/-- An event is added behind the record. -/
@[simp] theorem ends_record {event : Event} {run after : Run} {result : Except Error Unit} :
    Ends (record event) run result after ↔
      result = .ok () ∧ after = { run with log := run.log.push event } := by
  cases result with
  | ok _ =>
    show EStateM.Result.ok () _ = .ok _ after ↔ _
    simp [eq_comm]
  | error error =>
    show EStateM.Result.ok () _ = .error error after ↔ _
    simp

@[simp] theorem ends_define {name : String} {value : Expr} {run after : Run}
    {result : Except Error Unit} :
    Ends (define name value) run result after ↔
      result = .ok () ∧ after = { run with env := run.env.define name value } := by
  cases result with
  | ok _ =>
    show EStateM.Result.ok () _ = .ok _ after ↔ _
    simp [eq_comm]
  | error error =>
    show EStateM.Result.ok () _ = .error error after ↔ _
    simp

/-! ## Sequences and frames -/

/-- What is done with the environment is done with the one of the run. -/
theorem getEnv_bind (f : Environment → EvalM α) (run : Run) :
    (getEnv >>= f) run = f run.env run := rfl

/-- A sequence ends with the error of its first action, or with the second action started where
the first one has ended. -/
theorem ends_bind {x : EvalM α} {f : α → EvalM β} {run after : Run} {result : Except Error β} :
    Ends (x >>= f) run result after ↔
      (∃ a middle, Ends x run (.ok a) middle ∧ Ends (f a) middle result after) ∨
        ∃ error, Ends x run (.error error) after ∧ result = .error error := by
  cases hx : x run with
  | ok a middle =>
    have hbind : (x >>= f) run = f a middle := by simp only [bind, EStateM.bind, hx]
    cases result <;> simp [Ends, hbind, hx, and_assoc]
  | error error middle =>
    have hbind : (x >>= f) run = .error error middle := by simp only [bind, EStateM.bind, hx]
    cases result <;> simp [Ends, hbind, hx, eq_comm, and_comm]

/-- Where the first action ends with a value, the sequence ends as the second one does. -/
theorem ends_bind_of_ok {x : EvalM α} {f : α → EvalM β} {run middle after : Run} {a : α}
    {result : Except Error β} (hx : Ends x run (.ok a) middle) :
    Ends (x >>= f) run result after ↔ Ends (f a) middle result after := by
  constructor
  · intro h
    rcases ends_bind.1 h with ⟨b, other, hb, hrest⟩ | ⟨error, herror, _⟩
    · obtain ⟨hvalue, rfl⟩ := hx.unique hb
      cases hvalue
      exact hrest
    · obtain ⟨hvalue, _⟩ := hx.unique herror
      cases hvalue
  · intro h
    exact ends_bind.2 (.inl ⟨a, middle, hx, h⟩)

/-- Asking for the environment changes nothing. -/
theorem ends_getEnv_bind {f : Environment → EvalM α} {run after : Run} {result : Except Error α} :
    Ends (getEnv >>= f) run result after ↔ Ends (f run.env) run result after := by
  unfold Ends
  rw [getEnv_bind]

/-- After something was recorded an action starts in the same environment. -/
theorem ends_record_bind {event : Event} {f : Unit → EvalM α} {run after : Run}
    {result : Except Error α} :
    Ends (record event >>= f) run result after ↔
      Ends (f ()) { run with log := run.log.push event } result after :=
  Iff.rfl

/-- An action in a frame ends as it ends in the frame, but with the environment of the call. -/
theorem ends_inFrame {frame : Environment} {action : EvalM α} {run after : Run}
    {result : Except Error α} :
    Ends (inFrame frame action) run result after ↔
      ∃ inner, Ends action { run with env := frame } result inner ∧
        after = { inner with env := run.env } := by
  cases hx : action { run with env := frame } <;> cases result <;>
    simp [Ends, inFrame, hx, and_assoc, eq_comm]

/-- The state after the failure of an evaluation was recorded, if its error is one to record. -/
def reported (e : Expr) (result : Except Error α) (run : Run) : Run :=
  match result with
  | .ok _ => run
  | .error error =>
    if error.isReported then { run with log := run.log.push (.failed e error) } else run

/-- The failure is in the record only. -/
@[simp] theorem env_reported (e : Expr) (result : Except Error α) (run : Run) :
    (reported e result run).env = run.env := by
  unfold reported
  split
  · rfl
  · split <;> rfl

/-- Reporting changes nothing but the record. -/
theorem ends_reporting {e : Expr} {action : EvalM α} {run after : Run} {result : Except Error α} :
    Ends (reporting e action) run result after ↔
      ∃ inner, Ends action run result inner ∧ after = reported e result inner := by
  have hreport : ∀ {result inner}, Ends action run result inner →
      Ends (reporting e action) run result (reported e result inner) := by
    intro result inner hinner
    cases result with
    | ok a =>
      have hrun : action run = .ok a inner := hinner
      simp [Ends, reporting, reported, hrun]
    | error error =>
      have hrun : action run = .error error inner := hinner
      by_cases hreported : error.isReported <;>
        simp [Ends, reporting, reported, hrun, hreported]
  constructor
  · intro h
    -- the action ends in some way, and what is reported of that is the only end
    rcases exists_ends action run with ⟨other, inner, hinner⟩
    rcases Ends.unique (hreport hinner) h with ⟨rfl, rfl⟩
    exact ⟨inner, hinner, rfl⟩
  · rintro ⟨inner, hinner, rfl⟩
    exact hreport hinner

/-! ## Evaluation -/

/-- The state after the evaluation of an expression was recorded. -/
def noted (run : Run) (e : Expr) : Run :=
  { run with log := run.log.push (.evaluating e run.env) }

/-- At the limit nothing is evaluated. -/
@[simp] theorem ends_evaluate_zero {host : Host} {e : Expr} {run after : Run}
    {result : Except Error Expr} :
    Ends (evaluate host 0 e) run result after ↔ result = .error .nestingLimit ∧ after = run :=
  ends_throw

section Step

variable {host : Host} {limit : Nat} {run after : Run} {result : Except Error Expr}

/-- A symbol ends with its binding, or with itself. -/
theorem ends_evaluate_symbol {name : String} :
    Ends (evaluate host (limit + 1) (.symbol name)) run result after ↔
      result = .ok ((run.env.lookup name).getD (.symbol name)) ∧
        after = noted run (.symbol name) :=
  ends_pure

/-- A non-empty list ends as the call does. -/
theorem ends_evaluate_call {head : Expr} {operands : List Expr} :
    Ends (evaluate host (limit + 1) (.list (head :: operands))) run result after ↔
      Ends (call host (evaluate host limit) head operands)
        (noted run (.list (head :: operands))) result after :=
  Iff.rfl

/-- What is its own value ends with itself. -/
theorem ends_evaluate_self {e : Expr} (he : e = .list [] ∨ (∃ n, e = .number n) ∨
    (∃ f, e = .builtin f) ∨ ∃ f, e = .form f) :
    Ends (evaluate host (limit + 1) e) run result after ↔
      result = .ok e ∧ after = noted run e := by
  rcases he with rfl | ⟨n, rfl⟩ | ⟨f, rfl⟩ | ⟨f, rfl⟩ <;> exact ends_pure

/-- Host data has no value. -/
theorem ends_evaluate_foreign {d : Datum Expr} :
    Ends (evaluate host (limit + 1) (.foreign d)) run result after ↔
      result = .error (.notAnExpression d) ∧ after = noted run (.foreign d) :=
  ends_throw

end Step

end LispDialects.EvalM
