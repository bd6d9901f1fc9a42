import LispDialects.Proofs.CallsByValue

/-!
# Heads of calls

A call first finds out what its head stands for, and then applies it to the operands. The head is a
name in the table of special forms, or it is resolved: a name stands for its binding, and anything
else for its value. Either way the call enters the application of one expression in one state
(`EvalM.Enters`), and it ends as this application does (`EvalM.Enters.ends_iff`).

A special form can be called in three ways: by a name in the table, by another name that is bound
to it, and by itself (`Environment.Invokes`). All three enter its application in the environment of
the call, and they differ in the record only (`EvalM.begun`).

These are statements about single runs under a limit, for expressions of any kind and functions of
any host.
-/

namespace LispDialects

open EvalM

variable {host : Host} {eval : Evaluator} {limit : Nat} {run middle after : Run}
  {head v : Expr} {operands : List Expr} {result : Except Error Expr}

/-! ## Entering an application -/

/-- A call whose head is no name in the table resolves the head and applies its value. -/
theorem ends_call_resolve (hfree : ∀ name, head = .symbol name → run.env.form? name = none) :
    Ends (call host eval head operands) run result after ↔
      Ends (resolve eval head >>= fun v => apply host eval v operands) run result after := by
  cases hname : head.symbolName? with
  | none => simp only [call, resolve, hname]
  | some name =>
    have hform : run.env.form? name = none := hfree name (Expr.symbolName?_eq_some.1 hname)
    simp only [call, resolve, hname, bind_assoc]
    rw [ends_getEnv_bind, ends_getEnv_bind, hform]
    -- both look the name up, and fail in one way where it is not bound
    cases run.env.lookup name <;> exact Iff.rfl

/-- The head of the call stands for the expression, and the call applies it to the operands from
the state on. -/
inductive EvalM.Enters (host : Host) (limit : Nat) (run : Run) (head : Expr)
    (operands : List Expr) : Expr → Run → Prop where
  | listed {name : String} {f : SpecialForm Expr} (hname : head = .symbol name)
      (hform : run.env.form? name = some f) :
      Enters host limit run head operands (.form f)
        { run with
          log := (run.log.push (.evaluating (.list (head :: operands)) run.env)).push
            (.formInvoked name) }
  | resolved {v : Expr} {start : Run}
      (hfree : ∀ name, head = .symbol name → run.env.form? name = none)
      (hv : Ends (resolve (evaluate host limit) head) (noted run (.list (head :: operands)))
        (.ok v) start) :
      Enters host limit run head operands v start

/-- The call ends as the application that it enters. -/
theorem EvalM.Enters.ends_iff {start : Run} (h : Enters host limit run head operands v start) :
    Ends (evaluate host (limit + 1) (.list (head :: operands))) run result after ↔
      Ends (apply host (evaluate host limit) v operands) start result after := by
  rw [ends_evaluate_call]
  cases h with
  | listed hname hform =>
    subst hname
    simp only [call, Expr.symbolName?]
    rw [ends_getEnv_bind]
    simp only [noted, hform]
    exact ends_record_bind
  | resolved hfree hv =>
    have hcall : Ends (call host (evaluate host limit) head operands)
        (noted run (.list (head :: operands))) result after ↔ _ := ends_call_resolve hfree
    rw [hcall, ends_bind_of_ok hv]

/-! ## Special forms -/

/-- The head calls the special form: it is a name of it in the table of special forms, another name
that is bound to it, or the special form itself. -/
inductive Environment.Invokes (env : Environment) (f : SpecialForm Expr) : Expr → Prop where
  | listed {name : String} (hform : env.form? name = some f) : Invokes env f (.symbol name)
  | bound {name : String} (hform : env.form? name = none)
      (hvalue : env.lookup name = some (.form f)) : Invokes env f (.symbol name)
  | self : Invokes env f (.form f)

/-- The state in which a special form begins that a head calls: the call is recorded, and with it
that the name was found in the table, or that the head was evaluated. -/
def EvalM.begun (run : Run) (head : Expr) (operands : List Expr) : Run :=
  let called := noted run (.list (head :: operands))
  match head with
  | .symbol name =>
    if (run.env.form? name).isSome then
      { called with log := called.log.push (.formInvoked name) }
    else called
  | _ => noted called head

/-- A special form begins in the environment of the call. -/
@[simp] theorem env_begun (run : Run) (head : Expr) (operands : List Expr) :
    (begun run head operands).env = run.env := by
  cases head with
  | symbol name =>
    simp only [begun]
    split <;> rfl
  | _ => rfl

/-- In whichever way the head calls it, the special form is applied to the operands as they are
written. -/
theorem Environment.Invokes.enters {f : SpecialForm Expr} (h : run.env.Invokes f head)
    (host : Host) (limit : Nat) (operands : List Expr) :
    Enters host (limit + 1) run head operands (.form f) (begun run head operands) := by
  cases h with
  | listed hform =>
    simp only [begun, hform, Option.isSome_some, if_true]
    exact .listed rfl hform
  | bound hform hvalue =>
    simp only [begun, hform, Option.isSome_none]
    refine .resolved ?_ ?_
    · rintro name ⟨⟩
      exact hform
    simp only [resolve, Expr.symbolName?]
    rw [ends_getEnv_bind]
    simp [noted, hvalue]
  | self =>
    have hself : Ends (evaluate host (limit + 1) (.form f))
        (noted run (.list (.form f :: operands))) (.ok (.form f))
        (begun run (.form f) operands) := (ends_evaluate_self (by simp)).2 ⟨rfl, rfl⟩
    exact .resolved (by simp) hself

/-! ## Conditionals -/

/-- What a conditional does in the false case: it evaluates the operand for it, or gives the
canonical false value if there is none. -/
def FormRule.otherwise (truth : Truth Expr) (eval : Evaluator) : Option Expr → EvalM Expr
  | some e => eval e
  | none => pure truth.no

/-- A conditional evaluates its condition and goes on as the value decides. -/
theorem apply_cond (host : Host) (eval : Evaluator) (shown : String) (truth : Truth Expr)
    (condition whenTrue : Expr) (whenFalse : Option Expr) :
    apply host eval (.form ⟨shown, .cond truth⟩) (condition :: whenTrue :: whenFalse.toList) =
      eval condition >>= fun v =>
        if truth.isFalse v then FormRule.otherwise truth eval whenFalse else eval whenTrue := by
  cases whenFalse <;> rfl

/-! ## Values of operands -/

/-- Operands are evaluated one list after the other. -/
theorem arguments_append (eval : Evaluator) (xs ys : List Expr) :
    arguments eval (xs ++ ys) = do
      let vs ← arguments eval xs
      let ws ← arguments eval ys
      return vs ++ ws := by
  induction xs with
  | nil => simp [arguments]
  | cons x rest ih => simp [arguments, ih]

/-- Apply what takes values to values. -/
def EvalM.applyValues (host : Host) (eval : Evaluator) (v : Expr) (values : List Expr) :
    EvalM Expr :=
  match v with
  | .builtin f => ofExcept (f.op.call host values)
  | _ =>
    match v.lambdaParts? with
    | some (formals, body) => applyLambda eval formals body values
    | none => throw (.notExecutable v)

/-- What takes values evaluates its operands and is applied to their values. -/
theorem apply_eq_bind (hv : v.TakesValues) (host : Host) (eval : Evaluator)
    (operands : List Expr) :
    apply host eval v operands = arguments eval operands >>= applyValues host eval v := by
  rcases hv with ⟨f, rfl⟩ | hparts
  · rfl
  · -- a lambda literal is neither of the functions, so its parts decide
    obtain ⟨⟨formals, body⟩, hparts⟩ := Option.isSome_iff_exists.1 hparts
    obtain ⟨more, rfl⟩ := Expr.lambdaParts?_eq_some.1 hparts
    rfl

end LispDialects
