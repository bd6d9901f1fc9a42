import LispDialects.Dialect.Basic
import LispDialects.Eval.Monad

/-!
# A sample host, and functions by key

The sample host has a few functions that embedders commonly add: builtins that make lists, count
their arguments, give a fixed symbol, give no value or fail, and special forms that evaluate in
sequence, in a frame of their own, or twice.

A host program picks single functions by their keys and may show them under another name. The
functions of the tables are taken with the symbolic truth coding, whatever dialect they are put
into; the others are those of the sample host.
-/

namespace LispDialects

/-! ## The sample host -/

namespace EvalM

/-- Evaluate expressions in order and give the value of the last one, or the empty list. -/
def sequence (eval : Evaluator) : List Expr → EvalM Expr
  | [] => pure (.list [])
  | [e] => eval e
  | e :: rest => do
    let _ ← eval e
    sequence eval rest

end EvalM

namespace Host

/-- The keys of the builtins of the sample host. -/
def sampleBuiltinKeys : List String := ["list", "count", "override", "none", "raise"]

def sampleFormKeys : List String := ["second", "progn", "scope", "eval", "rawlist", "names"]

def sampleBuiltin (key : String) (args : List Expr) : Except Error Expr :=
  match key with
  | "list" => .ok (.list args)
  | "count" => .ok (.number args.length)
  | "override" => .ok (.symbol "override")
  | "none" => .ok (.foreign .absent)
  | "raise" => .error (.raised .general s!"host failure with {args.length} arguments")
  | _ => .error (.raised .general ("no host function " ++ key))

def sampleForm (key : String) (eval : Evaluator) (operands : List Expr) : EvalM Expr :=
  match key with
  | "second" =>
    match operands with
    | _ :: e :: _ => eval e
    | _ => throw (.raised .argumentMismatch "second needs two operands")
  | "progn" => EvalM.sequence eval operands
  | "scope" => do EvalM.inFrame (← EvalM.getEnv) (EvalM.sequence eval operands)
  | "eval" =>
    match operands with
    | [e] => do eval (← eval e)
    | _ => throw (.raised .argumentMismatch "eval needs one operand")
  | "rawlist" => pure (.list operands)
  | "names" => do return .list ((← EvalM.getEnv).values.sortedNames.map .symbol)
  | _ => throw (.raised .general ("no host function " ++ key))

def sample : Host where
  builtin := sampleBuiltin
  form := sampleForm

end Host

/-! ## Functions by key -/

/-- A function shown under another name; what it does stays. -/
def Expr.shownAs (name : String) : Expr → Expr
  | .builtin f => .builtin { f with name }
  | .form f => .form { f with name }
  | e => e

namespace Table

/-- The functions of the three tables, with the symbolic truth coding. -/
def catalogue : List (Datum Expr × Expr) :=
  base .symbolic ++ boolean .symbolic ++ numeric .symbolic

/-- The functions of the sample host. -/
def sampleCatalogue : List (Datum Expr × Expr) :=
  Host.sampleBuiltinKeys.map (fun key => BuiltinOp.entry (.host key)) ++
    Host.sampleFormKeys.map (fun key => FormRule.entry (.host key))

end Table

/-- The function with the key, shown under the name. -/
def Expr.function? (key name : String) : Option Expr :=
  ((Table.catalogue ++ Table.sampleCatalogue).find? fun (k, _) => k.text? == some key).map
    fun (_, f) => f.shownAs name

end LispDialects
