import LispDialects.Eval.Evaluate

/-!
# The rules of evaluation

What an expression evaluates to, said by rules and without a limit. `Evaluates host e env result
after` relates an expression and an environment to a value or an error and to the environment that
is left. Three relations come with it: `EvaluatesAll` for operands, `Applies` for the value of a
head and the operands as they are written, and `Performs` for what a special form does with them.

A failure leaves the bindings that were made before it, so the rules for failures have an
environment afterwards as well. There is no rule for host data, which is no expression, and none
for the functions of a host: these are outside of the language.
-/

namespace LispDialects

/-- The environment with several names bound, one after the other. -/
def Environment.defineAll (env : Environment) (bindings : List (String × Expr)) : Environment :=
  bindings.foldl (fun env (name, value) => env.define name value) env

/-- Symbols paired with the values they are to be bound to. -/
def asFormals (bindings : List (String × Expr)) : List (Expr × Expr) :=
  bindings.map fun (name, value) => (.symbol name, value)

mutual

/-- An expression evaluates to a value or an error and leaves an environment. -/
inductive Evaluates (host : Host) :
    Expr → Environment → Except Error Expr → Environment → Prop where
  | bound {name : String} {v : Expr} {env : Environment} (hvalue : env.lookup name = some v) :
      Evaluates host (.symbol name) env (.ok v) env
  | unbound {name : String} {env : Environment} (hvalue : env.lookup name = none) :
      Evaluates host (.symbol name) env (.ok (.symbol name)) env
  | number (n : Int) (env : Environment) : Evaluates host (.number n) env (.ok (.number n)) env
  | nil (env : Environment) : Evaluates host (.list []) env (.ok (.list [])) env
  | builtin (f : Builtin Expr) (env : Environment) :
      Evaluates host (.builtin f) env (.ok (.builtin f)) env
  | form (f : SpecialForm Expr) (env : Environment) :
      Evaluates host (.form f) env (.ok (.form f)) env
  /-- A name in the table of special forms at the head: that form, whatever the name is bound to. -/
  | formCall {name : String} {f : SpecialForm Expr} {operands : List Expr}
      {env after : Environment} {result : Except Error Expr} (hform : env.form? name = some f)
      (hperforms : Performs host f.rule operands env result after) :
      Evaluates host (.list (.symbol name :: operands)) env result after
  /-- Any other symbol at the head stands for its binding. -/
  | namedCall {name : String} {head : Expr} {operands : List Expr} {env after : Environment}
      {result : Except Error Expr} (hform : env.form? name = none)
      (hvalue : env.lookup name = some head)
      (happlies : Applies host head operands env result after) :
      Evaluates host (.list (.symbol name :: operands)) env result after
  /-- Without a binding the call fails before any operand is looked at. -/
  | undefinedCall {name : String} {operands : List Expr} {env : Environment}
      (hform : env.form? name = none) (hvalue : env.lookup name = none) :
      Evaluates host (.list (.symbol name :: operands)) env (.error (.undefinedSymbol name)) env
  /-- A head that is no symbol is evaluated. -/
  | computedCall {head value : Expr} {operands : List Expr} {env middle after : Environment}
      {result : Except Error Expr} (hhead : ∀ name, head ≠ .symbol name)
      (hvalue : Evaluates host head env (.ok value) middle)
      (happlies : Applies host value operands middle result after) :
      Evaluates host (.list (head :: operands)) env result after
  | headFails {head : Expr} {operands : List Expr} {env after : Environment} {error : Error}
      (hhead : ∀ name, head ≠ .symbol name)
      (hfails : Evaluates host head env (.error error) after) :
      Evaluates host (.list (head :: operands)) env (.error error) after

/-- Operands are evaluated from left to right, up to the first that fails. -/
inductive EvaluatesAll (host : Host) :
    List Expr → Environment → Except Error (List Expr) → Environment → Prop where
  | nil (env : Environment) : EvaluatesAll host [] env (.ok []) env
  | cons {e v : Expr} {rest vs : List Expr} {env middle after : Environment}
      (hfirst : Evaluates host e env (.ok v) middle)
      (hrest : EvaluatesAll host rest middle (.ok vs) after) :
      EvaluatesAll host (e :: rest) env (.ok (v :: vs)) after
  | firstFails {e : Expr} {rest : List Expr} {env after : Environment} {error : Error}
      (hfirst : Evaluates host e env (.error error) after) :
      EvaluatesAll host (e :: rest) env (.error error) after
  | restFails {e v : Expr} {rest : List Expr} {env middle after : Environment} {error : Error}
      (hfirst : Evaluates host e env (.ok v) middle)
      (hrest : EvaluatesAll host rest middle (.error error) after) :
      EvaluatesAll host (e :: rest) env (.error error) after

/-- The value of a head is applied to operands as they are written. -/
inductive Applies (host : Host) :
    Expr → List Expr → Environment → Except Error Expr → Environment → Prop where
  | form {f : SpecialForm Expr} {operands : List Expr} {env after : Environment}
      {result : Except Error Expr} (hperforms : Performs host f.rule operands env result after) :
      Applies host (.form f) operands env result after
  /-- A builtin of the language is called with the values of the operands. -/
  | builtin {f : Builtin Expr} {operands values : List Expr} {env after : Environment}
      (hop : ∀ key, f.op ≠ .host key)
      (hvalues : EvaluatesAll host operands env (.ok values) after) :
      Applies host (.builtin f) operands env (f.op.call host values) after
  | builtinFails {f : Builtin Expr} {operands : List Expr} {env after : Environment}
      {error : Error} (hfails : EvaluatesAll host operands env (.error error) after) :
      Applies host (.builtin f) operands env (.error error) after
  /-- The body of a lambda literal is evaluated in a copy of the environment with the formals bound
  to the values, up to the end of the shorter list. The copy is dropped afterwards. -/
  | lambda {formals operands values more : List Expr} {body : Expr} {env middle inner : Environment}
      {bindings : List (String × Expr)} {result : Except Error Expr}
      (hvalues : EvaluatesAll host operands env (.ok values) middle)
      (hbindings : formals.zip values = asFormals bindings)
      (hbody : Evaluates host body (middle.defineAll bindings) result inner) :
      Applies host (.list (.symbol "lambda" :: .list formals :: body :: more)) operands env result
        middle
  /-- The first formal with a value that is no symbol ends the call. -/
  | lambdaFormal {formals operands values more : List Expr} {body formal value : Expr}
      {env middle : Environment} {bindings : List (String × Expr)} {rest : List (Expr × Expr)}
      (hvalues : EvaluatesAll host operands env (.ok values) middle)
      (hbindings : formals.zip values = asFormals bindings ++ (formal, value) :: rest)
      (hformal : ∀ name, formal ≠ .symbol name) :
      Applies host (.list (.symbol "lambda" :: .list formals :: body :: more)) operands env
        (.error (.parameterName formal)) middle
  | lambdaFails {formals operands more : List Expr} {body : Expr} {env after : Environment}
      {error : Error} (hfails : EvaluatesAll host operands env (.error error) after) :
      Applies host (.list (.symbol "lambda" :: .list formals :: body :: more)) operands env
        (.error error) after
  | notExecutable {head : Expr} {operands : List Expr} {env : Environment}
      (hform : ∀ f, head ≠ .form f) (hbuiltin : ∀ f, head ≠ .builtin f)
      (hlambda : ∀ formals body more,
        head ≠ .list (.symbol "lambda" :: .list formals :: body :: more)) :
      Applies host head operands env (.error (.notExecutable head)) env

/-- What the special forms of the language do with operands as they are written. -/
inductive Performs (host : Host) :
    FormRule Expr → List Expr → Environment → Except Error Expr → Environment → Prop where
  | quote (e : Expr) (env : Environment) : Performs host .quote [e] env (.ok e) env
  | quoteOperands {operands : List Expr} {env : Environment} (hcount : operands.length ≠ 1) :
      Performs host .quote operands env (.error .quoteOperands) env
  /-- Every value but the canonical false one selects the second of two or three operands. -/
  | condTrue {truth : Truth Expr} {condition whenTrue v : Expr} {others : List Expr}
      {env middle after : Environment} {result : Except Error Expr} (hcount : others.length ≤ 1)
      (hcondition : Evaluates host condition env (.ok v) middle)
      (htrue : truth.isFalse v = false) (hvalue : Evaluates host whenTrue middle result after) :
      Performs host (.cond truth) (condition :: whenTrue :: others) env result after
  | condFalse {truth : Truth Expr} {condition whenTrue whenFalse v : Expr}
      {env middle after : Environment} {result : Except Error Expr}
      (hcondition : Evaluates host condition env (.ok v) middle)
      (hfalse : truth.isFalse v = true) (hvalue : Evaluates host whenFalse middle result after) :
      Performs host (.cond truth) [condition, whenTrue, whenFalse] env result after
  /-- Without a third operand the value is the canonical false one. -/
  | condMissing {truth : Truth Expr} {condition whenTrue v : Expr} {env after : Environment}
      (hcondition : Evaluates host condition env (.ok v) after)
      (hfalse : truth.isFalse v = true) :
      Performs host (.cond truth) [condition, whenTrue] env (.ok truth.no) after
  | condFails {truth : Truth Expr} {condition whenTrue : Expr} {others : List Expr}
      {env after : Environment} {error : Error} (hcount : others.length ≤ 1)
      (hfails : Evaluates host condition env (.error error) after) :
      Performs host (.cond truth) (condition :: whenTrue :: others) env (.error error) after
  | condOperands {truth : Truth Expr} {operands : List Expr} {env : Environment}
      (htwo : operands.length ≠ 2) (hthree : operands.length ≠ 3) :
      Performs host (.cond truth) operands env (.error .condOperands) env
  /-- The binding is made in the environment of the call, after the operand was evaluated there. -/
  | label {name : String} {e v : Expr} {env after : Environment}
      (hvalue : Evaluates host e env (.ok v) after) :
      Performs host .label [.symbol name, e] env (.ok v) (after.define name v)
  | labelFails {name : String} {e : Expr} {env after : Environment} {error : Error}
      (hfails : Evaluates host e env (.error error) after) :
      Performs host .label [.symbol name, e] env (.error error) after
  | labelName {target e : Expr} {env : Environment} (htarget : ∀ name, target ≠ .symbol name) :
      Performs host .label [target, e] env (.error (.labelName target)) env
  | labelOperands {operands : List Expr} {env : Environment} (hcount : operands.length ≠ 2) :
      Performs host .label operands env (.error .labelOperands) env

end

/-! ## Parameters -/

section Parameters

/-- Formals with values are all symbols, or there is a first one that is none. -/
theorem asFormals_or_split (pairs : List (Expr × Expr)) :
    (∃ bindings, pairs = asFormals bindings) ∨
      ∃ bindings formal value rest, pairs = asFormals bindings ++ (formal, value) :: rest ∧
        ∀ name, formal ≠ .symbol name := by
  induction pairs with
  | nil => exact .inl ⟨[], rfl⟩
  | cons pair pairs ih =>
    rcases pair with ⟨formal, value⟩
    cases hname : formal.symbolName? with
    | none => exact .inr ⟨[], formal, value, pairs, rfl, Expr.symbolName?_eq_none.1 hname⟩
    | some name =>
      have hformal : formal = .symbol name := Expr.symbolName?_eq_some.1 hname
      subst hformal
      rcases ih with ⟨bindings, rfl⟩ | ⟨bindings, formal, other, rest, rfl, hformal⟩
      · exact .inl ⟨(name, value) :: bindings, rfl⟩
      · exact .inr ⟨(name, value) :: bindings, formal, other, rest, rfl, hformal⟩

variable {formals values : List Expr} {bindings : List (String × Expr)}

/-- Where all formals with a value are symbols, they are bound in order. -/
theorem bindParameters_asFormals (hzip : formals.zip values = asFormals bindings)
    (env : Environment) :
    EvalM.bindParameters formals values env = .ok (env.defineAll bindings) := by
  induction bindings generalizing formals values env with
  | nil =>
    rcases List.zip_eq_nil_iff.1 hzip with rfl | rfl
    · simp [EvalM.bindParameters, Environment.defineAll]
    · simp [EvalM.bindParameters, Environment.defineAll]
  | cons binding bindings ih =>
    rcases binding with ⟨name, value⟩
    rcases List.zip_eq_cons_iff.1 hzip with ⟨formals, values, rfl, rfl, hrest⟩
    simp only [EvalM.bindParameters, Expr.symbolName?]
    rw [ih hrest.symm (env.define name value)]
    rfl

/-- Otherwise the first that is no symbol is the error. -/
theorem bindParameters_formal {formal value : Expr} {rest : List (Expr × Expr)}
    (hzip : formals.zip values = asFormals bindings ++ (formal, value) :: rest)
    (hformal : ∀ name, formal ≠ .symbol name) (env : Environment) :
    EvalM.bindParameters formals values env = .error (.parameterName formal) := by
  induction bindings generalizing formals values env with
  | nil =>
    rcases List.zip_eq_cons_iff.1 hzip with ⟨formals, values, rfl, rfl, _⟩
    simp only [EvalM.bindParameters, Expr.symbolName?_eq_none.2 hformal]
  | cons binding bindings ih =>
    rcases binding with ⟨name, other⟩
    rcases List.zip_eq_cons_iff.1 hzip with ⟨formals, values, rfl, rfl, hrest⟩
    simp only [EvalM.bindParameters, Expr.symbolName?]
    exact ih hrest.symm (env.define name other)

end Parameters

end LispDialects
