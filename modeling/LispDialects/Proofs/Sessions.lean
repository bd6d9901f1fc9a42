import LispDialects.Interpreter
import LispDialects.Proofs.Confinement

/-!
# Sessions

An interpreter evaluates one piece of host data after the other, and each call starts in the
environment that the last one left, however that one ended. For a closed class of expressions this
says what a whole session does: when the interpreter begins with expressions of the class, and
everything it is given is read as one, then every answer and every environment on the way has
nothing but expressions of the class, and the table of special forms stays the same
(`answers_within`).
-/

namespace LispDialects

open EvalM

/-- The environments that a call of an interpreter works in: the one it leaves, and those in which
it evaluated anything. -/
def Answer.Reaches (answer : Answer Expr) (env : Environment) : Prop :=
  env = answer.env ∨ ∃ e, Event.evaluating e env ∈ answer.log

/-- What an evaluation gives: its value, and what is bound when it has ended. -/
def Answer.Gives (answer : Answer Expr) (v : Expr) : Prop :=
  answer.result = .ok v ∨ ∃ name, answer.env.values.get? name = some v

/-- What an evaluation that keeps to a class gives belongs to the class. -/
theorem Answer.Gives.mem {P : Expr → Prop} {K : Error → Prop} {answer : Answer Expr} {v : Expr}
    (hv : answer.Gives v) (hresult : Meets P K answer.result) (henv : answer.env.Holds P) :
    P v := by
  rcases hv with hok | ⟨name, hbound⟩
  · rw [hok] at hresult
    exact hresult
  · exact henv.value hbound

namespace Interpreter

/-- The answers of an interpreter that evaluates one piece of host data after the other, each with
a limit of its own. -/
def answers (host : Host) (interpreter : Interpreter) : List (Nat × Datum Expr) → List (Answer Expr)
  | [] => []
  | (limit, d) :: calls =>
    let answer := interpreter.eval host limit d
    answer :: answers host (interpreter.after answer) calls

variable {host : Host} {interpreter : Interpreter} {P : Expr → Prop}

/-- One call of the interpreter keeps to a closed class. -/
theorem eval_within (hP : Closed host P fun _ => True) (henv : interpreter.env.Holds P)
    (limit : Nat) {d : Datum Expr} (hread : ∀ e, interpreter.read d = .ok e → P e) :
    Run.Within P Set.univ { env := interpreter.env }
        ⟨(interpreter.eval host limit d).env, (interpreter.eval host limit d).log⟩ ∧
      Meets P (fun _ => True) (interpreter.eval host limit d).result := by
  have hread : Meets P (fun _ => True) (interpreter.read d) := by
    cases hd : interpreter.read d with
    | ok e => exact hread e hd
    | error error => exact trivial
  have hkeeps : Keeps P (fun _ => True) Set.univ P
      (readAndEvaluate host limit interpreter.read d) := by
    unfold readAndEvaluate
    refine (Keeps.ofExcept hread).bind ?_
    intro e he
    exact .reporting e (hP.keeps_evaluate limit e _ he (Set.subset_univ _))
  exact hkeeps _ _ _ henv (ends_answer _ interpreter.env)

/-- What a call that keeps to a class gives and reaches. -/
theorem reaches_of_within {answer : Answer Expr} {env reached : Environment}
    (h : Run.Within P Set.univ { env } ⟨answer.env, answer.log⟩)
    (hreached : answer.Reaches reached) :
    reached.Holds P ∧ env.GrowsBy Set.univ reached := by
  rcases hreached with rfl | ⟨e, hmem⟩
  · exact ⟨h.env, h.grows⟩
  · rcases h.reached hmem with hold | ⟨hgrows, hholds⟩
    · simp at hold
    · exact ⟨hholds, hgrows⟩

/-- All calls of a session keep to a closed class, and none of them writes the table of special
forms. -/
theorem answers_within (hP : Closed host P fun _ => True) (henv : interpreter.env.Holds P)
    (calls : List (Nat × Datum Expr))
    (hread : ∀ call ∈ calls, ∀ e, interpreter.read call.2 = .ok e → P e) :
    ∀ answer ∈ interpreter.answers host calls, Meets P (fun _ => True) answer.result ∧
      ∀ env, answer.Reaches env → env.Holds P ∧ env.forms = interpreter.env.forms := by
  induction calls generalizing interpreter with
  | nil => simp [answers]
  | cons call calls ih =>
    rcases call with ⟨limit, d⟩
    obtain ⟨hwithin, hresult⟩ := eval_within hP henv limit (hread _ List.mem_cons_self)
    intro answer hanswer
    rw [answers, List.mem_cons] at hanswer
    rcases hanswer with rfl | hanswer
    · refine ⟨hresult, ?_⟩
      intro env hreached
      obtain ⟨hholds, hgrows⟩ := reaches_of_within hwithin hreached
      exact ⟨hholds, hgrows.forms_eq⟩
    · -- the later calls start from the environment that this one left
      have hnext : (interpreter.after (interpreter.eval host limit d)).env.Holds P := hwithin.env
      have hrest : ∀ call ∈ calls, ∀ e, interpreter.read call.2 = .ok e → P e :=
        fun call hcall => hread call (List.mem_cons_of_mem _ hcall)
      obtain ⟨hlater, hreach⟩ := ih hnext hrest answer hanswer
      refine ⟨hlater, ?_⟩
      intro env hreached
      obtain ⟨hholds, hforms⟩ := hreach env hreached
      exact ⟨hholds, hforms.trans hwithin.grows.forms_eq⟩

/-- An interpreter is of the dialect that it was made for, and begins with a new environment of
it. -/
theorem start_eq_ok {dialect : Dialect} {event : Event}
    (hstart : start dialect = .ok (interpreter, event)) :
    interpreter.dialect = dialect ∧ dialect.newEnvironment = .ok interpreter.env := by
  unfold start at hstart
  cases hnew : dialect.newEnvironment with
  | ok env =>
    simp only [hnew, bind, Except.bind, pure, Except.pure, Except.ok.injEq,
      Prod.mk.injEq] at hstart
    rcases hstart with ⟨rfl, _⟩
    exact ⟨rfl, rfl⟩
  | error error => simp [hnew, bind, Except.bind] at hstart

theorem newEnvironment_of_start {dialect : Dialect} {event : Event}
    (hstart : start dialect = .ok (interpreter, event)) :
    dialect.newEnvironment = .ok interpreter.env :=
  (start_eq_ok hstart).2

end Interpreter

end LispDialects
