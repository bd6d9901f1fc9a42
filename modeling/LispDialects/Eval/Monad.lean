import LispDialects.Environment.Basic

/-!
# Running an evaluation

An evaluation reads and writes one environment, records events and may fail. What it wrote and
recorded before a failure stays. An event says what happened and which part of the interpreter
noticed it; its wording is made only when the event is shown.

A host adds functions of its own to the language. An expression holds only the key of such a
function; the host says what the key does.
-/

namespace LispDialects

/-! ## Events -/

/-- The part of the interpreter that records an event. -/
inductive Channel where
  | evaluator
  | interpreter
  | dialects
deriving DecidableEq, Repr

def Channel.name : Channel → String
  | .evaluator => "evaluator"
  | .interpreter => "interpreter"
  | .dialects => "dialects"

/-- Something that happened. -/
inductive Event where
  /-- An expression is about to be evaluated in an environment. -/
  | evaluating (e : Expr) (env : Environment)
  /-- A special form was found in the table of special forms and is about to be applied. -/
  | formInvoked (name : String)
  /-- The evaluation of an expression that was handed to the interpreter has failed. -/
  | failed (e : Expr) (error : Error)
  /-- The environment of a dialect was built. -/
  | built (dialect : String) (size : Nat)

namespace Event

def channel : Event → Channel
  | .evaluating .. | .formInvoked _ => .evaluator
  | .failed .. => .interpreter
  | .built .. => .dialects

/-- The wording of an event. -/
def message : Event → String
  | .evaluating e _ => "eval " ++ e.text
  | .formInvoked name => "special form " ++ name
  | .failed e error => "evaluation of " ++ e.text ++ " failed: " ++ error.message
  | .built dialect size => s!"built dialect {dialect} with {size} bindings"

end Event

/-! ## State and outcome -/

/-- The state of an evaluation: the environment it runs in and what was recorded so far. -/
structure Run where
  env : Environment
  log : Array Event := #[]

/-- An evaluation that gives an `α`. -/
abbrev EvalM := EStateM Error Run

/-- A way to evaluate expressions, as it is handed to special forms. -/
abbrev Evaluator := Expr → EvalM Expr

/-- What an evaluation leaves: its value or error, the environment and the record. -/
structure Answer (α : Type) where
  result : Except Error α
  env : Environment
  log : Array Event

namespace EvalM

variable {α : Type}

/-- Run an evaluation in an environment. -/
def answer (action : EvalM α) (env : Environment) : Answer α :=
  match action { env } with
  | .ok a run => ⟨.ok a, run.env, run.log⟩
  | .error error run => ⟨.error error, run.env, run.log⟩

/-! ## Steps -/

/-- A result that depends on no state. -/
def ofExcept : Except Error α → EvalM α
  | .ok a => pure a
  | .error error => throw error

def record (event : Event) : EvalM Unit :=
  modify fun run => { run with log := run.log.push event }

def getEnv : EvalM Environment :=
  return (← get).env

/-- Bind a name in the environment. -/
def define (name : String) (value : Expr) : EvalM Unit :=
  modify fun run => { run with env := run.env.define name value }

/-- Run an action in a frame of its own. Whether it fails or not, the environment is afterwards
what it was before. -/
def inFrame (frame : Environment) (action : EvalM α) : EvalM α := fun run =>
  match action { run with env := frame } with
  | .ok a after => .ok a { after with env := run.env }
  | .error error after => .error error { after with env := run.env }

/-- Run an action and record its failure, if the error belongs to the language. -/
def reporting (e : Expr) (action : EvalM α) : EvalM α := fun run =>
  match action run with
  | .ok a after => .ok a after
  | .error error after =>
    if error.isReported then .error error { after with log := after.log.push (.failed e error) }
    else .error error after

end EvalM

/-! ## Hosts -/

/-- The functions that a host adds, by their keys. -/
structure Host where
  /-- A builtin is given its arguments and nothing else. -/
  builtin : String → List Expr → Except Error Expr
  /-- A special form is given a way to evaluate and its operands. -/
  form : String → Evaluator → List Expr → EvalM Expr

end LispDialects
