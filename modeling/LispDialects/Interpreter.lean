import LispDialects.Dialect.Basic
import LispDialects.Eval.Evaluate

/-!
# Interpreters

An interpreter is a dialect with an environment that lasts from one evaluation to the next: what
one evaluation labels, the following ones see, also when it failed afterwards.
-/

namespace LispDialects

/-- Read host data as an expression and evaluate it. A failure of the evaluation is recorded; data
that cannot be read has no effect at all. -/
def readAndEvaluate (host : Host) (limit : Nat) (read : Datum Expr → Except Error Expr)
    (d : Datum Expr) : EvalM Expr := do
  let e ← EvalM.ofExcept (read d)
  EvalM.reporting e (evaluate host limit e)

/-- A dialect and the environment its evaluations share. -/
structure Interpreter where
  dialect : Dialect
  env : Environment

namespace Interpreter

/-- How deeply evaluations may be nested in one another unless the caller says otherwise. -/
def defaultLimit : Nat := 400

/-- A new interpreter of a dialect, and the event of its making. -/
def start (dialect : Dialect) : Except Error (Interpreter × Event) := do
  let env ← dialect.newEnvironment
  return (⟨dialect, env⟩, .built dialect.name env.size)

def read (interpreter : Interpreter) (d : Datum Expr) : Except Error Expr :=
  interpreter.dialect.vocabulary.read d

def readAtom (interpreter : Interpreter) (d : Datum Expr) : Except Error Expr :=
  interpreter.dialect.vocabulary.readAtom d

/-- Read host data and evaluate it. -/
def eval (interpreter : Interpreter) (host : Host) (limit : Nat) (d : Datum Expr) :
    Answer Expr :=
  (readAndEvaluate host limit interpreter.read d).answer interpreter.env

/-- The interpreter after an evaluation. -/
def after {α : Type} (interpreter : Interpreter) (answer : Answer α) : Interpreter :=
  { interpreter with env := answer.env }

end Interpreter

end LispDialects
