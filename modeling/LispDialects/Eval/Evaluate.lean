import LispDialects.Eval.Builtin

/-!
# Evaluation

A bound symbol has the value it is bound to. A symbol that is not bound, a number, a function and
the empty list are their own values. Host data has no value. A non-empty list is a call, and its
head decides what happens:

* a symbol that is in the table of special forms applies that form, whatever the symbol is bound
  to; any other symbol stands for its binding, and any other head for its value;
* a special form is applied to the operands as they stand;
* a builtin is called with the values of the operands, evaluated from left to right;
* a lambda literal is applied to the values of the operands;
* nothing else can be called.

A lambda literal is plain data and remembers no environment. Its body is evaluated in a copy of
the environment of the call in which the parameters are bound.

The number of evaluations that may be nested in one another is limited. The limit cuts off
programs that never end, and programs that are nested more deeply than it allows.
-/

namespace LispDialects

/-! ## Special forms

Each is given the way to evaluate, and works in the environment of the call. -/

namespace FormRule

def applyQuote : List Expr → EvalM Expr
  | [e] => pure e
  | _ => throw .quoteOperands

/-- Evaluate the second operand and bind the first, a symbol, to its value. The binding is made in
the environment of the call, so everything evaluated there later sees it. -/
def applyLabel (eval : Evaluator) : List Expr → EvalM Expr
  | [target, e] =>
    match target.symbolName? with
    | none => throw (.labelName target)
    | some name => do
      let value ← eval e
      EvalM.define name value
      return value
  | _ => throw .labelOperands

/-- Evaluate the condition, then only the operand that it selects. Without an operand for the
false case the value is the canonical false one. -/
def applyCond (truth : Truth Expr) (eval : Evaluator) : List Expr → EvalM Expr
  | [condition, whenTrue] => do
    if truth.isFalse (← eval condition) then return truth.no else eval whenTrue
  | [condition, whenTrue, whenFalse] => do
    if truth.isFalse (← eval condition) then eval whenFalse else eval whenTrue
  | _ => throw .condOperands

/-- Apply a special form to its operands. -/
def apply (host : Host) (eval : Evaluator) : FormRule Expr → List Expr → EvalM Expr
  | .quote, operands => applyQuote operands
  | .label, operands => applyLabel eval operands
  | .cond truth, operands => applyCond truth eval operands
  | .host key, operands => host.form key eval operands

end FormRule

/-! ## Calls -/

namespace EvalM

/-- Evaluate operands from left to right; each sees the bindings that the ones before it made. -/
def arguments (eval : Evaluator) : List Expr → EvalM (List Expr)
  | [] => pure []
  | e :: rest => do
    let value ← eval e
    let values ← arguments eval rest
    return value :: values

/-- Bind parameters to values, pairwise and in order, up to the end of the shorter list. Parameters
without a value are not looked at, and values without a parameter are dropped. -/
def bindParameters : List Expr → List Expr → Environment → Except Error Environment
  | formal :: formals, value :: values, env =>
    match formal.symbolName? with
    | none => .error (.parameterName formal)
    | some name => bindParameters formals values (env.define name value)
  | _, _, env => .ok env

/-- Apply a lambda literal to values. -/
def applyLambda (eval : Evaluator) (formals : List Expr) (body : Expr) (values : List Expr) :
    EvalM Expr := do
  let frame ← ofExcept (bindParameters formals values (← getEnv))
  inFrame frame (eval body)

/-- Apply the value of a head to unevaluated operands. -/
def apply (host : Host) (eval : Evaluator) (head : Expr) (operands : List Expr) : EvalM Expr :=
  match head with
  | .form f => f.rule.apply host eval operands
  | .builtin f => do
    let values ← arguments eval operands
    ofExcept (f.op.call host values)
  | _ =>
    match head.lambdaParts? with
    | some (formals, body) => do
      let values ← arguments eval operands
      applyLambda eval formals body values
    | none => throw (.notExecutable head)

/-- Evaluate a call, given its head and its operands. -/
def call (host : Host) (eval : Evaluator) (head : Expr) (operands : List Expr) : EvalM Expr := do
  match head.symbolName? with
  | some name =>
    let env ← getEnv
    match env.form? name with
    | some f =>
      record (.formInvoked name)
      f.rule.apply host eval operands
    | none =>
      match env.lookup name with
      | some value => apply host eval value operands
      | none => throw (.undefinedSymbol name)
  | none =>
    let value ← eval head
    apply host eval value operands

end EvalM

/-! ## Evaluation -/

/-- Evaluate an expression with at most `limit` evaluations nested in one another. -/
def evaluate (host : Host) : Nat → Evaluator
  | 0, _ => throw .nestingLimit
  | limit + 1, e => do
    let env ← EvalM.getEnv
    EvalM.record (.evaluating e env)
    match e with
    | .symbol name => return (env.lookup name).getD e
    | .list (head :: operands) => EvalM.call host (evaluate host limit) head operands
    | .list [] | .number _ | .builtin _ | .form _ => return e
    | .foreign d => throw (.notAnExpression d)

end LispDialects
