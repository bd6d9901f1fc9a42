import LispDialects.Proofs.Completeness
import LispDialects.Proofs.Compositional

/-!
# The record is not read

What was recorded before has no influence on an evaluation: from one environment it ends with one
value or error, leaves one environment and records the same events, and these come behind the ones
that are there. So the answer of an evaluation, which starts with an empty record, says how it ends
inside of any other one (`Appends.ends`, `Appends.completes`).

This holds of every expression and every environment. The special forms of the host, which could
look at the record, are asked not to (`host.Respects Appends`); those of the sample host do not.
-/

namespace LispDialects

open EvalM

/-- From an environment the action ends in one way, whatever was recorded before, and adds the same
events to the record. -/
def EvalM.Appends {α : Type} (action : EvalM α) : Prop :=
  ∀ env, ∃ result after events, ∀ log, Ends action ⟨env, log⟩ result ⟨after, log ++ events⟩

namespace EvalM.Appends

variable {α β : Type}

/-! ## Steps of an action -/

/-- An action that leaves the record as it is does not read it either, if it ends in one way from
each environment. -/
theorem of_log_eq {action : EvalM α}
    (h : ∀ env, ∃ result after, ∀ log, Ends action ⟨env, log⟩ result ⟨after, log⟩) :
    Appends action := by
  intro env
  rcases h env with ⟨result, after, hends⟩
  exact ⟨result, after, #[], by simpa using hends⟩

theorem pure (a : α) : Appends (Pure.pure a) := by
  refine of_log_eq ?_
  intro env
  exact ⟨.ok a, env, fun log => ends_pure.2 ⟨rfl, rfl⟩⟩

theorem throw (error : Error) : Appends (throw error : EvalM α) := by
  refine of_log_eq ?_
  intro env
  exact ⟨.error error, env, fun log => ends_throw.2 ⟨rfl, rfl⟩⟩

theorem getEnv : Appends EvalM.getEnv := by
  refine of_log_eq ?_
  intro env
  exact ⟨.ok env, env, fun log => ends_getEnv.2 ⟨rfl, rfl⟩⟩

theorem define (name : String) (value : Expr) : Appends (EvalM.define name value) := by
  refine of_log_eq ?_
  intro env
  exact ⟨.ok (), env.define name value, fun log => ends_define.2 ⟨rfl, rfl⟩⟩

/-- The one step that records: its event comes behind those that are there. -/
theorem record (event : Event) : Appends (EvalM.record event) := by
  intro env
  refine ⟨.ok (), env, #[event], ?_⟩
  intro log
  rw [Array.append_singleton]
  exact ends_record.2 ⟨rfl, rfl⟩

/-- A sequence adds what its first part adds, and then what its second part adds. -/
theorem bind {x : EvalM α} {f : α → EvalM β} (hx : Appends x)
    (hf : ∀ run a after, Ends x run (.ok a) after → Appends (f a)) : Appends (x >>= f) := by
  intro env
  rcases hx env with ⟨result, middle, events, hfirst⟩
  cases result with
  | ok a =>
    rcases hf ⟨env, #[]⟩ a _ (hfirst #[]) middle with ⟨result, after, later, hrest⟩
    refine ⟨result, after, events ++ later, ?_⟩
    intro log
    -- to the second part, all of this was recorded before
    have hbehind : Ends (f a) ⟨middle, log ++ events⟩ result ⟨after, log ++ (events ++ later)⟩ := by
      rw [← Array.append_assoc]
      exact hrest (log ++ events)
    exact ends_bind.2 (.inl ⟨a, _, hfirst log, hbehind⟩)
  | error error =>
    refine ⟨.error error, middle, events, ?_⟩
    intro log
    exact ends_bind.2 (.inr ⟨error, hfirst log, rfl⟩)

/-- In a frame an action records what it records anywhere. -/
theorem inFrame (frame : Environment) {action : EvalM α} (h : Appends action) :
    Appends (inFrame frame action) := by
  intro env
  rcases h frame with ⟨result, inner, events, hends⟩
  refine ⟨result, env, events, ?_⟩
  intro log
  exact ends_inFrame.2 ⟨_, hends log, rfl⟩

/-- An action does not read the record when its parts do not. -/
theorem compositional : Compositional @Appends where
  pure := pure
  throw := throw
  bind := bind
  getEnv := getEnv
  record := record
  define := define
  inFrame := inFrame

/-! ## Answers -/

/-- Wherever the action starts, it ends with its answer, and what it records comes behind what is
there. -/
theorem ends {action : EvalM α} (h : Appends action) (run : Run) :
    Ends action run (action.answer run.env).result
      ⟨(action.answer run.env).env, run.log ++ (action.answer run.env).log⟩ := by
  rcases h run.env with ⟨result, after, events, hends⟩
  -- the answer is how it ends with an empty record
  rcases Ends.unique (ends_answer action run.env) (hends #[]) with ⟨hresult, hrun⟩
  have hafter : (action.answer run.env).env = after := congrArg Run.env hrun
  have hlog : (action.answer run.env).log = events := by
    simpa using congrArg Run.log hrun
  rw [hresult, hafter, hlog]
  exact hends run.log

/-- An action that is not cut off completes with its answer. -/
theorem completes {action : EvalM α} (h : Appends action) {env : Environment}
    (hsettled : (action.answer env).result ≠ .error .nestingLimit) :
    Completes action env (action.answer env).result (action.answer env).env where
  ends log := ⟨_, h.ends ⟨env, log⟩⟩
  settled := hsettled

end EvalM.Appends

end LispDialects
