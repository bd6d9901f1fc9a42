import LispDialects.Dialect.Catalogue
import LispDialects.Proofs.Soundness
import Mathlib.Order.Filter.AtTopBot.Basic

/-!
# The rules are followed

What the rules relate, evaluation reaches: under every limit that is large enough it ends with the
value or error and leaves the environment that the rules give. The induction is on the derivation,
with one lemma for each rule about the action that carries it out.

Together with `follows_evaluate` this makes the rules and evaluation agree (`evaluates_iff`). That
the rules are deterministic comes for free: two derivations are both reached under a common limit.
-/

namespace LispDialects

open Filter

/-! ## Actions that complete -/

/-- Whatever was recorded before, an action started in an environment ends with a result, is not
cut off and leaves an environment. -/
structure EvalM.Completes {α : Type} (action : EvalM α) (env : Environment)
    (result : Except Error α) (after : Environment) : Prop where
  ends : ∀ log, ∃ later, Ends action ⟨env, log⟩ result ⟨after, later⟩
  settled : result ≠ .error .nestingLimit

namespace EvalM.Completes

variable {α β : Type} {env middle after : Environment}

theorem pure (a : α) (env : Environment) : Completes (Pure.pure a) env (.ok a) env where
  ends log := ⟨log, ends_pure.2 ⟨rfl, rfl⟩⟩
  settled := by simp

/-- A result that was computed outside of the evaluation, unless it says that the limit was met. -/
theorem ofExcept {x : Except Error α} (hx : x ≠ .error .nestingLimit) (env : Environment) :
    Completes (ofExcept x) env x env where
  ends log := ⟨log, ends_ofExcept.2 ⟨rfl, rfl⟩⟩
  settled := hx

theorem throw {error : Error} (herror : error ≠ .nestingLimit) (env : Environment) :
    Completes (throw error : EvalM α) env (.error error) env where
  ends log := ⟨log, ends_throw.2 ⟨rfl, rfl⟩⟩
  settled := by simpa using herror

theorem getEnv (env : Environment) : Completes getEnv env (.ok env) env where
  ends log := ⟨log, ends_getEnv.2 ⟨rfl, rfl⟩⟩
  settled := by simp

theorem define (name : String) (value : Expr) (env : Environment) :
    Completes (define name value) env (.ok ()) (env.define name value) where
  ends log := ⟨log, ends_define.2 ⟨rfl, rfl⟩⟩
  settled := by simp

theorem record (event : Event) (env : Environment) : Completes (record event) env (.ok ()) env where
  ends log := ⟨log.push event, ends_record.2 ⟨rfl, rfl⟩⟩
  settled := by simp

/-- A sequence starts its second action where the first one has left the environment. -/
theorem bind {x : EvalM α} {f : α → EvalM β} {a : α} {result : Except Error β}
    (hx : Completes x env (.ok a) middle) (hf : Completes (f a) middle result after) :
    Completes (x >>= f) env result after where
  ends log := by
    rcases hx.ends log with ⟨between, hfirst⟩
    rcases hf.ends between with ⟨later, hrest⟩
    exact ⟨later, ends_bind.2 (.inl ⟨a, _, hfirst, hrest⟩)⟩
  settled := hf.settled

/-- A sequence whose first action fails. -/
theorem bind_error {x : EvalM α} {error : Error} (hx : Completes x env (.error error) after)
    (f : α → EvalM β) : Completes (x >>= f) env (.error error) after where
  ends log := by
    rcases hx.ends log with ⟨later, hfirst⟩
    exact ⟨later, ends_bind.2 (.inr ⟨error, hfirst, rfl⟩)⟩
  settled := by simpa using hx.settled

/-- What is left in a frame is dropped. -/
theorem inFrame {frame inner : Environment} {action : EvalM α} {result : Except Error α}
    (h : Completes action frame result inner) (env : Environment) :
    Completes (inFrame frame action) env result env where
  ends log := by
    rcases h.ends log with ⟨later, hends⟩
    exact ⟨later, ends_inFrame.2 ⟨_, hends, rfl⟩⟩
  settled := h.settled

end EvalM.Completes

open EvalM

variable {host : Host} {eval : Evaluator} {env middle after : Environment}
  {result : Except Error Expr} {operands : List Expr}

/-! ## Calls of lambda literals -/

section Lambda

variable {formals values : List Expr} {bindings : List (String × Expr)}

/-- The body decides the result; the environment of the call is as it was. -/
theorem completes_applyLambda {body : Expr} {inner : Environment}
    (hzip : formals.zip values = asFormals bindings)
    (hbody : Completes (eval body) (env.defineAll bindings) result inner) :
    Completes (applyLambda eval formals body values) env result env := by
  refine (Completes.getEnv env).bind ?_
  have hframe : bindParameters formals values env = .ok (env.defineAll bindings) :=
    bindParameters_asFormals hzip env
  rw [hframe]
  exact (Completes.ofExcept (by simp) env).bind (hbody.inFrame env)

/-- A formal that is no symbol ends the call before the body is evaluated. -/
theorem completes_applyLambda_formal {body formal value : Expr} {rest : List (Expr × Expr)}
    (hzip : formals.zip values = asFormals bindings ++ (formal, value) :: rest)
    (hformal : ∀ name, formal ≠ .symbol name) (env : Environment) :
    Completes (applyLambda eval formals body values) env (.error (.parameterName formal)) env := by
  refine (Completes.getEnv env).bind ?_
  have hframe : bindParameters formals values env = .error (.parameterName formal) :=
    bindParameters_formal hzip hformal env
  rw [hframe]
  exact (Completes.ofExcept (by simp) env).bind_error _

end Lambda

/-! ## Heads that cannot be called -/

/-- What is neither a function nor a lambda literal cannot be called. -/
theorem completes_apply_notExecutable {head : Expr} (hform : ∀ f, head ≠ .form f)
    (hbuiltin : ∀ f, head ≠ .builtin f)
    (hlambda : ∀ formals body more,
      head ≠ .list (.symbol "lambda" :: .list formals :: body :: more)) (env : Environment) :
    Completes (apply host eval head operands) env (.error (.notExecutable head)) env := by
  unfold apply
  split
  · exact absurd rfl (hform _)
  · exact absurd rfl (hbuiltin _)
  · have hparts : head.lambdaParts? = none := Expr.lambdaParts?_eq_none.2 hlambda
    rw [hparts]
    exact .throw (by simp) env

/-! ## Calls by name -/

section Named

variable {name : String}

/-- The table of special forms is asked first. -/
theorem completes_formCall {f : SpecialForm Expr} (hform : env.form? name = some f)
    (hperforms : Completes (f.rule.apply host eval operands) env result after) :
    Completes (call host eval (.symbol name) operands) env result after := by
  refine (Completes.getEnv env).bind ?_
  rw [hform]
  exact (Completes.record (.formInvoked name) env).bind hperforms

/-- A name that has no special form stands for its binding. -/
theorem completes_namedCall {head : Expr} (hform : env.form? name = none)
    (hvalue : env.lookup name = some head)
    (happlies : Completes (apply host eval head operands) env result after) :
    Completes (call host eval (.symbol name) operands) env result after := by
  refine (Completes.getEnv env).bind ?_
  rw [hform, hvalue]
  exact happlies

/-- A name with neither cannot be called, and no operand is evaluated. -/
theorem completes_undefinedCall (hform : env.form? name = none) (hvalue : env.lookup name = none) :
    Completes (call host eval (.symbol name) operands) env (.error (.undefinedSymbol name))
      env := by
  refine (Completes.getEnv env).bind ?_
  rw [hform, hvalue]
  exact .throw (by simp) env

end Named

/-! ## Special forms -/

section Conditional

variable {truth : Truth Expr} {condition whenTrue v : Expr}

/-- A condition that is not false selects the second operand. -/
theorem completes_condTrue {others : List Expr} (hcount : others.length ≤ 1)
    (hcondition : Completes (eval condition) env (.ok v) middle) (htrue : truth.isFalse v = false)
    (hvalue : Completes (eval whenTrue) middle result after) :
    Completes (FormRule.applyCond truth eval (condition :: whenTrue :: others)) env result
      after := by
  -- two operands or three: the third is not looked at
  rcases others with _ | ⟨whenFalse, _ | _⟩
  · refine hcondition.bind ?_
    rw [htrue]
    exact hvalue
  · refine hcondition.bind ?_
    rw [htrue]
    exact hvalue
  · simp at hcount

/-- A condition that fails is the end, however many operands come after it. -/
theorem completes_condFails {others : List Expr} {error : Error} (hcount : others.length ≤ 1)
    (hfails : Completes (eval condition) env (.error error) after) :
    Completes (FormRule.applyCond truth eval (condition :: whenTrue :: others)) env
      (.error error) after := by
  rcases others with _ | ⟨whenFalse, _ | _⟩
  · exact hfails.bind_error _
  · exact hfails.bind_error _
  · simp at hcount

/-- A false condition selects the third operand. -/
theorem completes_condFalse {whenFalse : Expr}
    (hcondition : Completes (eval condition) env (.ok v) middle) (hfalse : truth.isFalse v = true)
    (hvalue : Completes (eval whenFalse) middle result after) :
    Completes (FormRule.applyCond truth eval [condition, whenTrue, whenFalse]) env result
      after := by
  refine hcondition.bind ?_
  rw [hfalse]
  exact hvalue

/-- Where there is none the false value itself is the result. -/
theorem completes_condMissing (hcondition : Completes (eval condition) env (.ok v) after)
    (hfalse : truth.isFalse v = true) :
    Completes (FormRule.applyCond truth eval [condition, whenTrue]) env (.ok truth.no) after := by
  refine hcondition.bind ?_
  rw [hfalse]
  exact .pure _ _

end Conditional

/-! Operands of the wrong number end a special form before any of them is evaluated. -/

section Operands

theorem completes_quoteOperands (hcount : operands.length ≠ 1) (env : Environment) :
    Completes (FormRule.applyQuote operands) env (.error .quoteOperands) env := by
  unfold FormRule.applyQuote
  split
  · exact absurd rfl hcount
  · exact .throw (by simp) env

theorem completes_condOperands {truth : Truth Expr} (htwo : operands.length ≠ 2)
    (hthree : operands.length ≠ 3) (env : Environment) :
    Completes (FormRule.applyCond truth eval operands) env (.error .condOperands) env := by
  unfold FormRule.applyCond
  split
  · exact absurd rfl htwo
  · exact absurd rfl hthree
  · exact .throw (by simp) env

theorem completes_labelOperands (hcount : operands.length ≠ 2) (env : Environment) :
    Completes (FormRule.applyLabel eval operands) env (.error .labelOperands) env := by
  unfold FormRule.applyLabel
  split
  · exact absurd rfl hcount
  · exact .throw (by simp) env

end Operands

/-- Only a symbol can be labelled, and the operand is not evaluated otherwise. -/
theorem completes_labelName {target e : Expr} (htarget : ∀ name, target ≠ .symbol name)
    (env : Environment) :
    Completes (FormRule.applyLabel eval [target, e]) env (.error (.labelName target)) env := by
  have hname : target.symbolName? = none := Expr.symbolName?_eq_none.2 htarget
  simp only [FormRule.applyLabel, hname]
  exact .throw (by simp) env

/-! ## Builtins -/

/-- No builtin of the language is cut off by a limit. -/
theorem call_ne_nestingLimit {op : BuiltinOp Expr} (hop : ∀ key, op ≠ .host key)
    (args : List Expr) : op.call host args ≠ .error .nestingLimit := by
  have hcall : Meets (fun _ => True) (fun error => error ≠ .nestingLimit) (op.call host args) := by
    refine BuiltinOp.meets_call host ?_ (by simp) (fun _ _ _ => trivial)
      (fun _ _ => ⟨trivial, trivial⟩) (fun key hkey => absurd hkey (hop key)) (by simp)
    -- the errors of calls are of other kinds
    rintro error hkind rfl
    simp at hkind
  intro hlimit
  rw [hlimit] at hcall
  exact hcall rfl

/-! ## Limits -/

/-- What holds one level deeper under every large limit holds under every large limit. -/
theorem eventually_succ {p q : Nat → Prop} (h : ∀ᶠ limit in atTop, p limit)
    (hstep : ∀ limit, p limit → q (limit + 1)) : ∀ᶠ limit in atTop, q limit := by
  rcases eventually_atTop.1 h with ⟨bound, hbound⟩
  refine eventually_atTop.2 ⟨bound + 1, ?_⟩
  intro limit hle
  cases limit with
  | zero => omega
  | succ limit => exact hstep limit (hbound limit (by omega))

/-- A non-empty list completes as the call does, one level up. -/
theorem completes_evaluate {limit : Nat} {head : Expr}
    (hcall : Completes (call host (evaluate host limit) head operands) env result after) :
    Completes (evaluate host (limit + 1) (.list (head :: operands))) env result after where
  ends log := hcall.ends (log.push (.evaluating (.list (head :: operands)) env))
  settled := hcall.settled

/-! One level of evaluation, for all large limits at once. -/

theorem eventually_call {head : Expr}
    (h : ∀ᶠ limit in atTop, Completes (call host (evaluate host limit) head operands) env result
      after) :
    ∀ᶠ limit in atTop, Completes (evaluate host limit (.list (head :: operands))) env result
      after := by
  refine eventually_succ h ?_
  intro limit hcall
  exact completes_evaluate hcall

theorem eventually_symbol {name : String} {v : Expr}
    (hvalue : (env.lookup name).getD (.symbol name) = v) :
    ∀ᶠ limit in atTop, Completes (evaluate host limit (.symbol name)) env (.ok v) env := by
  refine eventually_succ (Eventually.of_forall fun _ => trivial) ?_
  intro limit _
  rw [← hvalue]
  constructor
  · intro log
    exact ⟨_, ends_evaluate_symbol.2 ⟨rfl, rfl⟩⟩
  · simp

theorem eventually_self (host : Host) {e : Expr} (he : e = .list [] ∨ (∃ n, e = .number n) ∨
    (∃ f, e = .builtin f) ∨ ∃ f, e = .form f) (env : Environment) :
    ∀ᶠ limit in atTop, Completes (evaluate host limit e) env (.ok e) env := by
  refine eventually_succ (Eventually.of_forall fun _ => trivial) ?_
  intro limit _
  constructor
  · intro log
    exact ⟨_, (ends_evaluate_self he).2 ⟨rfl, rfl⟩⟩
  · simp

/-! ## Derivations -/

mutual

/-- What the rules relate, evaluation reaches under every limit that is large enough. -/
theorem Evaluates.eventually {e : Expr} {env after : Environment} {result : Except Error Expr} :
    Evaluates host e env result after →
      ∀ᶠ limit in atTop, Completes (evaluate host limit e) env result after
  | .bound hvalue => eventually_symbol (by simp [hvalue])
  | .unbound hvalue => eventually_symbol (by simp [hvalue])
  | .number _ _ | .nil _ | .builtin _ _ | .form _ _ => eventually_self host (by simp) _
  | .formCall hform hperforms => by
    refine eventually_call ?_
    filter_upwards [hperforms.eventually] with limit hlimit
    exact completes_formCall hform hlimit
  | .namedCall hform hvalue happlies => by
    refine eventually_call ?_
    filter_upwards [happlies.eventually] with limit hlimit
    exact completes_namedCall hform hvalue hlimit
  | .undefinedCall hform hvalue =>
    eventually_call (Eventually.of_forall fun _ => completes_undefinedCall hform hvalue)
  | .computedCall hhead hvalue happlies => by
    refine eventually_call ?_
    -- one limit has to serve the head and what is done with its value
    filter_upwards [hvalue.eventually, happlies.eventually] with limit hfirst hrest
    have hname := Expr.symbolName?_eq_none.2 hhead
    unfold call
    rw [hname]
    exact hfirst.bind hrest
  | .headFails hhead hfails => by
    refine eventually_call ?_
    filter_upwards [hfails.eventually] with limit hlimit
    have hname := Expr.symbolName?_eq_none.2 hhead
    unfold call
    rw [hname]
    exact hlimit.bind_error _

theorem EvaluatesAll.eventually {es : List Expr} {env after : Environment}
    {result : Except Error (List Expr)} :
    EvaluatesAll host es env result after →
      ∀ᶠ limit in atTop, Completes (arguments (evaluate host limit) es) env result after
  | .nil env => Eventually.of_forall fun _ => .pure [] env
  | .cons hfirst hrest => by
    filter_upwards [hfirst.eventually, hrest.eventually] with limit hv hvs
    refine hv.bind ?_
    -- the values are put together once the rest has been evaluated
    exact hvs.bind (.pure _ _)
  | .firstFails hfirst => by
    filter_upwards [hfirst.eventually] with limit hv
    exact hv.bind_error _
  | .restFails hfirst hrest => by
    filter_upwards [hfirst.eventually, hrest.eventually] with limit hv hvs
    refine hv.bind ?_
    exact hvs.bind_error _

theorem Applies.eventually {head : Expr} {operands : List Expr} {env after : Environment}
    {result : Except Error Expr} :
    Applies host head operands env result after →
      ∀ᶠ limit in atTop, Completes (apply host (evaluate host limit) head operands) env result
        after
  | .form hperforms => hperforms.eventually
  | .builtin hop hvalues => by
    filter_upwards [hvalues.eventually] with limit hlimit
    refine hlimit.bind ?_
    -- what the builtin gives is no answer that a limit has cut off
    exact .ofExcept (call_ne_nestingLimit hop _) _
  | .builtinFails hfails => by
    filter_upwards [hfails.eventually] with limit hlimit
    exact hlimit.bind_error _
  | .lambda hvalues hzip hbody => by
    filter_upwards [hvalues.eventually, hbody.eventually] with limit hlimit hinner
    exact hlimit.bind (completes_applyLambda hzip hinner)
  | .lambdaFormal hvalues hzip hformal => by
    filter_upwards [hvalues.eventually] with limit hlimit
    exact hlimit.bind (completes_applyLambda_formal hzip hformal _)
  | .lambdaFails hfails => by
    filter_upwards [hfails.eventually] with limit hlimit
    exact hlimit.bind_error _
  | .notExecutable hform hbuiltin hlambda =>
    Eventually.of_forall fun _ => completes_apply_notExecutable hform hbuiltin hlambda _

theorem Performs.eventually {rule : FormRule Expr} {operands : List Expr}
    {env after : Environment} {result : Except Error Expr} :
    Performs host rule operands env result after →
      ∀ᶠ limit in atTop, Completes (rule.apply host (evaluate host limit) operands) env result
        after
  | .quote e env => Eventually.of_forall fun _ => .pure e env
  | .quoteOperands hcount =>
    Eventually.of_forall fun _ => completes_quoteOperands hcount _
  | .condTrue hcount hcondition htrue hvalue => by
    filter_upwards [hcondition.eventually, hvalue.eventually] with limit hfirst hrest
    exact completes_condTrue hcount hfirst htrue hrest
  | .condFalse hcondition hfalse hvalue => by
    filter_upwards [hcondition.eventually, hvalue.eventually] with limit hfirst hrest
    exact completes_condFalse hfirst hfalse hrest
  | .condMissing hcondition hfalse => by
    filter_upwards [hcondition.eventually] with limit hlimit
    exact completes_condMissing hlimit hfalse
  | .condFails hcount hfails => by
    filter_upwards [hfails.eventually] with limit hlimit
    exact completes_condFails hcount hlimit
  | .condOperands htwo hthree =>
    Eventually.of_forall fun _ => completes_condOperands htwo hthree _
  | .label hvalue => by
    filter_upwards [hvalue.eventually] with limit hlimit
    refine hlimit.bind ?_
    -- the name is bound after its operand was evaluated
    exact (Completes.define _ _ _).bind (.pure _ _)
  | .labelFails hfails => by
    filter_upwards [hfails.eventually] with limit hlimit
    exact hlimit.bind_error _
  | .labelName htarget => Eventually.of_forall fun _ => completes_labelName htarget _
  | .labelOperands hcount => Eventually.of_forall fun _ => completes_labelOperands hcount _

end

/-! ## Agreement -/

/-- What an action completes with is its answer. -/
theorem EvalM.Completes.answer_eq {α : Type} {action : EvalM α} {result : Except Error α}
    (h : Completes action env result after) :
    (action.answer env).result = result ∧ (action.answer env).env = after := by
  rcases h.ends #[] with ⟨later, hends⟩
  rcases Ends.unique (ends_answer action env) hends with ⟨hresult, hafter⟩
  exact ⟨hresult, congrArg Run.env hafter⟩

/-- The rules give one value or error only, and one environment. -/
theorem Evaluates.unique {e : Expr} {result₁ result₂ : Except Error Expr}
    {after₁ after₂ : Environment} (h₁ : Evaluates host e env result₁ after₁)
    (h₂ : Evaluates host e env result₂ after₂) : result₁ = result₂ ∧ after₁ = after₂ := by
  -- a limit that is large enough for both derivations
  have hboth := h₁.eventually.and h₂.eventually
  rcases hboth.exists with ⟨limit, hfirst, hsecond⟩
  rcases hfirst.answer_eq with ⟨rfl, rfl⟩
  exact hsecond.answer_eq

/-- Evaluation and the rules agree on every proper expression. The rules are deterministic; they
relate an expression and an environment to what some limit gives without cutting the evaluation
off, and to nothing else; and every larger limit gives the same from some limit on. -/
theorem evaluates_iff (host : Host) {truth : Truth Expr} (htruth : truth.Proper) {e : Expr}
    (he : Proper truth e) {env : Environment} (henv : env.Holds (Proper truth)) :
    (∀ result₁ after₁ result₂ after₂, Evaluates host e env result₁ after₁ →
        Evaluates host e env result₂ after₂ → result₁ = result₂ ∧ after₁ = after₂) ∧
      (∀ result after, Evaluates host e env result after ↔
        ∃ limit, ((evaluate host limit e).answer env).result = result ∧
          ((evaluate host limit e).answer env).env = after ∧ result ≠ .error .nestingLimit) ∧
      ∀ result after, Evaluates host e env result after → ∃ bound, ∀ limit, bound ≤ limit →
        ((evaluate host limit e).answer env).result = result ∧
          ((evaluate host limit e).answer env).env = after := by
  refine ⟨?_, ?_, ?_⟩
  · intro result₁ after₁ result₂ after₂ h₁ h₂
    exact h₁.unique h₂
  · intro result after
    constructor
    · intro h
      rcases h.eventually.exists with ⟨limit, hlimit⟩
      rcases hlimit.answer_eq with ⟨hresult, hafter⟩
      exact ⟨limit, hresult, hafter, hlimit.settled⟩
    · rintro ⟨limit, rfl, rfl, hsettled⟩
      exact (follows_evaluate htruth limit).evaluates he henv (ends_answer _ env) hsettled
  · intro result after h
    rcases eventually_atTop.1 h.eventually with ⟨bound, hbound⟩
    exact ⟨bound, fun limit hle => (hbound limit hle).answer_eq⟩

/-- The rules say of a sum whose second operand fails that the label of the first one stays. -/
theorem evaluates_failed_sum : ∃ env after,
    Dialect.numeric.newEnvironment = .ok env ∧
      Evaluates Host.sample (.list [.symbol "+",
        .list [.symbol "label", .symbol "x", .number 1], .list [.symbol "car", .number 2]])
        env (.error (.notAList "car" (.number 2))) after ∧
      after.values.get? "x" = some (.number 1) := by
  have he : Proper .symbolic (.list [.symbol "+",
      .list [.symbol "label", .symbol "x", .number 1], .list [.symbol "car", .number 2]]) := by
    simp [proper_list, proper_symbol, proper_number]
  refine ⟨_, _, rfl, ((evaluates_iff Host.sample Truth.symbolic_proper he
    (Dialect.holds_numeric rfl)).2.1 _ _).2 ⟨10, rfl, rfl, ?_⟩, rfl⟩
  simp

end LispDialects
