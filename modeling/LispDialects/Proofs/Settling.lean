import LispDialects.Interpreter
import LispDialects.Proofs.Completeness

/-!
# Evaluations that settle

An action that may be run under any limit settles in a result if it ends with it under some limit
without being cut off. For expressions of the language this is what the rules say, so what settles
is reasoned about by the rules and needs no limits (`settles_evaluate_iff`,
`settles_arguments_iff`). What the rules give is there under every limit from some limit on, also
for an interpreter that reads the expression from host data (`Interpreter.eval_of_evaluates`).
-/

namespace LispDialects

open EvalM Filter

/-- Under some limit the action ends with the result, without being cut off, and leaves the
environment. -/
def EvalM.Settles {α : Type} (action : Nat → EvalM α) (env : Environment) (result : Except Error α)
    (after : Environment) : Prop :=
  ∃ limit, ((action limit).answer env).result = result ∧
    ((action limit).answer env).env = after ∧ result ≠ .error .nestingLimit

section Settles

variable {α : Type} {action : Nat → EvalM α} {env after : Environment} {result : Except Error α}

/-- What completes under all large limits settles. -/
theorem settles_of_eventually
    (h : ∀ᶠ limit in atTop, Completes (action limit) env result after) :
    Settles action env result after := by
  obtain ⟨limit, hlimit⟩ := h.exists
  obtain ⟨hresult, hafter⟩ := hlimit.answer_eq
  exact ⟨limit, hresult, hafter, hlimit.settled⟩

/-- What settles ends so under some limit. -/
theorem EvalM.Settles.ends (h : Settles action env result after) :
    ∃ limit log, Ends (action limit) { env } result ⟨after, log⟩ := by
  obtain ⟨limit, hresult, hafter, _⟩ := h
  have hends := ends_answer (action limit) env
  rw [hresult, hafter] at hends
  exact ⟨limit, _, hends⟩

theorem EvalM.Settles.settled (h : Settles action env result after) :
    result ≠ .error .nestingLimit := by
  obtain ⟨limit, _, _, hsettled⟩ := h
  exact hsettled

/-- What keeps to a class under every limit keeps to it where it settles. -/
theorem EvalM.Settles.within {P : Expr → Prop} {K : Error → Prop} {names : Set String}
    {good : α → Prop} (h : Settles action env result after)
    (hkeeps : ∀ limit, Keeps P K names good (action limit)) (henv : env.Holds P) :
    after.Holds P ∧ env.GrowsBy names after ∧ Meets good K result := by
  obtain ⟨limit, log, hends⟩ := h.ends
  obtain ⟨hwithin, hresult⟩ := hkeeps limit _ _ _ henv hends
  exact ⟨hwithin.env, hwithin.grows, hresult⟩

end Settles

/-! ## What settles follows the rules -/

section Rules

variable {host : Host} {truth : Truth Expr} {env after : Environment}

/-- An evaluation of a proper expression settles in what the rules give. -/
theorem settles_evaluate_iff (htruth : truth.Proper) {e : Expr} (he : Proper truth e)
    (henv : env.Holds (Proper truth)) {result : Except Error Expr} :
    Settles (evaluate host · e) env result after ↔ Evaluates host e env result after := by
  constructor
  · intro h
    -- it was not cut off, so it has followed the rules
    obtain ⟨limit, log, hends⟩ := h.ends
    exact (follows_evaluate htruth limit).evaluates he henv hends h.settled
  · intro h
    exact settles_of_eventually h.eventually

/-- So do operands. -/
theorem settles_arguments_iff (htruth : truth.Proper) {operands : List Expr}
    (hoperands : ∀ e ∈ operands, Proper truth e) (henv : env.Holds (Proper truth))
    {result : Except Error (List Expr)} :
    Settles (fun limit => arguments (evaluate host limit) operands) env result after ↔
      EvaluatesAll host operands env result after := by
  constructor
  · intro h
    obtain ⟨limit, log, hends⟩ := h.ends
    exact follows_arguments (follows_evaluate htruth limit) hoperands henv hends h.settled
  · intro h
    exact settles_of_eventually h.eventually

/-- The rules give operands one result only. -/
theorem EvaluatesAll.unique {operands : List Expr} {result₁ result₂ : Except Error (List Expr)}
    {after₁ after₂ : Environment} (h₁ : EvaluatesAll host operands env result₁ after₁)
    (h₂ : EvaluatesAll host operands env result₂ after₂) :
    result₁ = result₂ ∧ after₁ = after₂ := by
  -- under one limit that is large enough for both, both are the answer
  have hboth := h₁.eventually.and h₂.eventually
  obtain ⟨limit, hfirst, hsecond⟩ := hboth.exists
  obtain ⟨rfl, rfl⟩ := hfirst.answer_eq
  exact hsecond.answer_eq

end Rules

/-! ## Interpreters -/

/-- An interpreter evaluates what it reads, and reports the result. -/
theorem Interpreter.eval_eq_reported (host : Host) {interpreter : Interpreter} {d : Datum Expr}
    {e : Expr} (hread : interpreter.read d = .ok e) (limit : Nat) :
    let inner := (evaluate host limit e).answer interpreter.env
    (interpreter.eval host limit d).result = inner.result ∧
      (⟨(interpreter.eval host limit d).env, (interpreter.eval host limit d).log⟩ : Run) =
        reported e inner.result ⟨inner.env, inner.log⟩ := by
  intro inner
  have hends : Ends (readAndEvaluate host limit interpreter.read d) { env := interpreter.env }
      (interpreter.eval host limit d).result
      ⟨(interpreter.eval host limit d).env, (interpreter.eval host limit d).log⟩ :=
    ends_answer _ interpreter.env
  rw [readAndEvaluate, hread] at hends
  obtain ⟨run, hinner, hafter⟩ := ends_reporting.1 hends
  obtain ⟨hresult, rfl⟩ := Ends.unique (ends_answer _ interpreter.env) hinner
  refine ⟨hresult.symm, ?_⟩
  rw [hafter, ← hresult]

/-- The result is that of the expression, and so is the environment afterwards, since reporting a
failure writes the record and nothing else. -/
theorem Interpreter.eval_of_read (host : Host) {interpreter : Interpreter} {d : Datum Expr}
    {e : Expr} (hread : interpreter.read d = .ok e) (limit : Nat) :
    (interpreter.eval host limit d).result =
        ((evaluate host limit e).answer interpreter.env).result ∧
      (interpreter.eval host limit d).env =
        ((evaluate host limit e).answer interpreter.env).env := by
  obtain ⟨hresult, hrun⟩ := eval_eq_reported host hread limit
  have henv := congrArg Run.env hrun
  rw [env_reported] at henv
  exact ⟨hresult, henv⟩

/-- What the rules give for the expression that an interpreter reads, it answers under every limit
from some limit on. -/
theorem Interpreter.eval_of_evaluates {host : Host} {interpreter : Interpreter} {e : Expr}
    {result : Except Error Expr} {after : Environment}
    (h : Evaluates host e interpreter.env result after) :
    ∃ bound, ∀ limit, bound ≤ limit → ∀ d, interpreter.read d = .ok e →
      (interpreter.eval host limit d).result = result ∧
        (interpreter.eval host limit d).env = after := by
  obtain ⟨bound, hbound⟩ := eventually_atTop.1 h.eventually
  refine ⟨bound, ?_⟩
  intro limit hle d hread
  obtain ⟨hresult, henv⟩ := eval_of_read host hread limit
  rw [hresult, henv]
  exact (hbound limit hle).answer_eq

end LispDialects
