import LispDialects.Proofs.Proper
import LispDialects.Proofs.Rules
import Mathlib.Data.List.Basic

/-!
# Evaluation follows the rules

An evaluation of a proper expression that is not cut off by its limit ends as the rules say, with
the value or error and the environment they give (`follows_evaluate`). The induction is on the
limit; for each function of the evaluator there is one lemma about any way to evaluate that
follows the rules itself.

The rules speak of the language only, so what is evaluated in between has to be proper as well.
This is what `Closed.keeps_evaluate` is for.
-/

namespace LispDialects

open EvalM

/-- A way to evaluate that does not lead out of the language and follows the rules wherever it is
not cut off. -/
structure Evaluator.Follows (host : Host) (truth : Truth Expr) (eval : Evaluator) : Prop where
  confined : eval.Confined (Proper truth) OfLanguage
  evaluates : ∀ {e run result after}, Proper truth e → run.env.Holds (Proper truth) →
    Ends (eval e) run result after → result ≠ .error .nestingLimit →
      Evaluates host e run.env result after.env

variable {host : Host} {truth : Truth Expr} {eval : Evaluator}

/-- The value of a proper expression is proper, and so are the bindings afterwards. -/
theorem Evaluator.Follows.proper (heval : eval.Follows host truth) {e v : Expr}
    (he : Proper truth e) {run after : Run} (henv : run.env.Holds (Proper truth))
    (hends : Ends (eval e) run (.ok v) after) :
    Proper truth v ∧ after.env.Holds (Proper truth) := by
  rcases heval.confined e Set.univ he (Set.subset_univ _) run _ after henv hends with
    ⟨hwithin, hv⟩
  exact ⟨hv, hwithin.env⟩

section Steps

variable (heval : eval.Follows host truth) {operands : List Expr}
  (hoperands : ∀ e ∈ operands, Proper truth e) {run after : Run}
  (henv : run.env.Holds (Proper truth))

include heval hoperands henv

/-! ## Operands -/

/-- The values of proper operands are proper. -/
theorem proper_arguments {values : List Expr}
    (hends : Ends (arguments eval operands) run (.ok values) after) :
    (∀ v ∈ values, Proper truth v) ∧ after.env.Holds (Proper truth) := by
  have hkeeps := Closed.keeps_arguments heval.confined operands hoperands
    (fun e _ => Set.subset_univ _)
  rcases hkeeps run _ after henv hends with ⟨hwithin, hvalues⟩
  exact ⟨hvalues, hwithin.env⟩

/-- Operands are evaluated in the order of the rules, up to the first that fails. -/
theorem follows_arguments {result : Except Error (List Expr)}
    (hends : Ends (arguments eval operands) run result after)
    (hlimit : result ≠ .error .nestingLimit) :
    EvaluatesAll host operands run.env result after.env := by
  induction operands generalizing run result with
  | nil =>
    rcases ends_pure.1 hends with ⟨rfl, rfl⟩
    exact .nil _
  | cons e rest ih =>
    have he : Proper truth e := hoperands e List.mem_cons_self
    have hrest : ∀ e ∈ rest, Proper truth e :=
      fun e he => hoperands e (List.mem_cons_of_mem _ he)
    rcases ends_bind.1 hends with ⟨v, middle, hfirst, hlater⟩ | ⟨error, hfirst, rfl⟩
    · have hv := heval.evaluates he henv hfirst (by simp)
      have hmiddle := (heval.proper he henv hfirst).2
      -- the rest starts from what the first operand left
      rcases ends_bind.1 hlater with ⟨vs, last, hvs, hpure⟩ | ⟨error, hvs, rfl⟩
      · rcases ends_pure.1 hpure with ⟨rfl, rfl⟩
        have hvalues := ih hrest hmiddle hvs (by simp)
        exact .cons hv hvalues
      · have hfails := ih hrest hmiddle hvs (by simpa using hlimit)
        exact .restFails hv hfails
    · have hfails := heval.evaluates he henv hfirst (by simpa using hlimit)
      exact .firstFails hfails

/-! ## Special forms -/

/-- A label binds the value of its operand in the environment that the operand has left. -/
theorem follows_label {result : Except Error Expr}
    (hends : Ends (FormRule.applyLabel eval operands) run result after)
    (hlimit : result ≠ .error .nestingLimit) :
    Performs host .label operands run.env result after.env := by
  unfold FormRule.applyLabel at hends
  split at hends
  · rename_i target e
    have he : Proper truth e := hoperands e (by simp)
    cases htarget : target.symbolName? with
    | none =>
      simp only [htarget] at hends
      rcases ends_throw.1 hends with ⟨rfl, rfl⟩
      exact .labelName (Expr.symbolName?_eq_none.1 htarget)
    | some name =>
      simp only [htarget] at hends
      have hsymbol : target = .symbol name := Expr.symbolName?_eq_some.1 htarget
      rw [hsymbol]
      rcases ends_bind.1 hends with ⟨v, middle, hvalue, hrest⟩ | ⟨error, hvalue, rfl⟩
      · have hv := heval.evaluates he henv hvalue (by simp)
        rcases ends_bind.1 hrest with ⟨_, last, hdefine, hpure⟩ | ⟨error, hdefine, rfl⟩
        · rcases ends_define.1 hdefine with ⟨_, rfl⟩
          rcases ends_pure.1 hpure with ⟨rfl, rfl⟩
          exact .label hv
        · simp at hdefine
      · have hfails := heval.evaluates he henv hvalue hlimit
        exact .labelFails hfails
  · -- two operands would have had the shape of the first case
    rename_i hshape
    rcases ends_throw.1 hends with ⟨rfl, rfl⟩
    refine .labelOperands fun hcount => ?_
    rcases List.length_eq_two.1 hcount with ⟨target, e, rfl⟩
    exact hshape target e rfl

/-- The value of the condition decides which operand is evaluated after it. -/
theorem follows_cond {coding : Truth Expr} {result : Except Error Expr}
    (hends : Ends (FormRule.applyCond coding eval operands) run result after)
    (hlimit : result ≠ .error .nestingLimit) :
    Performs host (.cond coding) operands run.env result after.env := by
  unfold FormRule.applyCond at hends
  split at hends
  · -- two operands: the false value stands for the third one
    rename_i condition whenTrue
    have hcondition : Proper truth condition := hoperands _ (by simp)
    rcases ends_bind.1 hends with ⟨v, middle, hfirst, hrest⟩ | ⟨error, hfirst, rfl⟩
    · have hv := heval.evaluates hcondition henv hfirst (by simp)
      have hmiddle := (heval.proper hcondition henv hfirst).2
      split at hrest
      · rename_i hfalse
        rcases ends_pure.1 hrest with ⟨rfl, rfl⟩
        exact .condMissing hv hfalse
      · rename_i htrue
        have hvalue := heval.evaluates (hoperands whenTrue (by simp)) hmiddle hrest hlimit
        exact .condTrue (by simp) hv (by simpa using htrue) hvalue
    · have hfails := heval.evaluates hcondition henv hfirst hlimit
      exact .condFails (by simp) hfails
  · rename_i condition whenTrue whenFalse
    have hcondition : Proper truth condition := hoperands _ (by simp)
    rcases ends_bind.1 hends with ⟨v, middle, hfirst, hrest⟩ | ⟨error, hfirst, rfl⟩
    · have hv := heval.evaluates hcondition henv hfirst (by simp)
      have hmiddle := (heval.proper hcondition henv hfirst).2
      split at hrest
      · rename_i hfalse
        have hvalue := heval.evaluates (hoperands whenFalse (by simp)) hmiddle hrest hlimit
        exact .condFalse hv hfalse hvalue
      · rename_i htrue
        have hvalue := heval.evaluates (hoperands whenTrue (by simp)) hmiddle hrest hlimit
        exact .condTrue (by simp) hv (by simpa using htrue) hvalue
    · have hfails := heval.evaluates hcondition henv hfirst hlimit
      exact .condFails (by simp) hfails
  · -- any other number is an error, and nothing has been evaluated
    rename_i htwo hthree
    rcases ends_throw.1 hends with ⟨rfl, rfl⟩
    refine .condOperands (fun hcount => ?_) (fun hcount => ?_)
    · rcases List.length_eq_two.1 hcount with ⟨condition, whenTrue, rfl⟩
      exact htwo condition whenTrue rfl
    · rcases List.length_eq_three.1 hcount with ⟨condition, whenTrue, whenFalse, rfl⟩
      exact hthree condition whenTrue whenFalse rfl

/-- A special form of the language is one of three, and each follows its rules. -/
theorem follows_form {f : SpecialForm Expr} (hf : Proper truth (.form f))
    {result : Except Error Expr} (hends : Ends (f.rule.apply host eval operands) run result after)
    (hlimit : result ≠ .error .nestingLimit) :
    Performs host f.rule operands run.env result after.env := by
  rcases proper_form hf with rfl | rfl | rfl
  · have hquote : Ends (FormRule.applyQuote operands) run result after := hends
    unfold FormRule.applyQuote at hquote
    split at hquote
    · rcases ends_pure.1 hquote with ⟨rfl, rfl⟩
      exact .quote _ _
    · rename_i hshape
      rcases ends_throw.1 hquote with ⟨rfl, rfl⟩
      refine .quoteOperands fun hcount => ?_
      rcases List.length_eq_one_iff.1 hcount with ⟨e, rfl⟩
      exact hshape e rfl
  · exact follows_label heval hoperands henv hends hlimit
  · exact follows_cond heval hoperands henv hends hlimit

/-! ## Calls -/

/-- A lambda literal is applied to the values of the operands, in the environment they have left. -/
theorem follows_lambda (htruth : truth.Proper) {formals more values : List Expr} {body : Expr}
    (hbody : Proper truth body) {middle : Run}
    (hvalues : Ends (arguments eval operands) run (.ok values) middle)
    {result : Except Error Expr}
    (hends : Ends (applyLambda eval formals body values) middle result after)
    (hlimit : result ≠ .error .nestingLimit) :
    Applies host (.list (.symbol "lambda" :: .list formals :: body :: more)) operands run.env
      result after.env := by
  have hall := follows_arguments heval hoperands henv hvalues (by simp)
  rcases proper_arguments heval hoperands henv hvalues with ⟨hproper, hmiddle⟩
  rw [applyLambda, ends_getEnv_bind] at hends
  -- either all formals with a value are bound, or a first one is no symbol
  rcases asFormals_or_split (formals.zip values) with
    ⟨bindings, hzip⟩ | ⟨bindings, formal, value, rest, hzip, hformal⟩
  · rw [bindParameters_asFormals hzip] at hends
    rcases ends_bind.1 hends with ⟨frame, start, hbound, hinner⟩ | ⟨error, hbound, _⟩
    · rcases ends_ofExcept.1 hbound with ⟨hframe, rfl⟩
      cases hframe
      rcases ends_inFrame.1 hinner with ⟨inner, hbodyEnds, rfl⟩
      -- the body runs in the frame, so the frame has to hold proper values
      have hframe := Closed.meets_bindParameters (closed_proper host htruth).error formals values _
        hproper hmiddle
      rw [bindParameters_asFormals hzip] at hframe
      have hresult := heval.evaluates hbody hframe.1 hbodyEnds hlimit
      exact .lambda hall hzip hresult
    · simp at hbound
  · rw [bindParameters_formal hzip hformal] at hends
    rcases ends_bind.1 hends with ⟨frame, start, hbound, _⟩ | ⟨error, hbound, rfl⟩
    · simp at hbound
    · rcases ends_ofExcept.1 hbound with ⟨herror, rfl⟩
      cases herror
      exact .lambdaFormal hall hzip hformal

/-- The shape of the head says by which rule it is applied. -/
theorem follows_apply (htruth : truth.Proper) {head : Expr} (hhead : Proper truth head)
    {result : Except Error Expr} (hends : Ends (apply host eval head operands) run result after)
    (hlimit : result ≠ .error .nestingLimit) :
    Applies host head operands run.env result after.env := by
  unfold apply at hends
  split at hends
  · have hperforms := follows_form heval hoperands henv hhead hends hlimit
    exact .form hperforms
  · rcases ends_bind.1 hends with ⟨values, middle, hvalues, hcall⟩ | ⟨error, hvalues, rfl⟩
    · rcases ends_ofExcept.1 hcall with ⟨rfl, rfl⟩
      have hall := follows_arguments heval hoperands henv hvalues (by simp)
      exact .builtin (proper_builtin hhead).1 hall
    · have hfails := follows_arguments heval hoperands henv hvalues (by simpa using hlimit)
      exact .builtinFails hfails
  · rename_i hform hbuiltin
    split at hends
    · rename_i formals body hparts
      rcases Expr.lambdaParts?_eq_some.1 hparts with ⟨more, rfl⟩
      have hbody : Proper truth body := proper_list.1 hhead body (by simp)
      rcases ends_bind.1 hends with ⟨values, middle, hvalues, hlambda⟩ | ⟨error, hvalues, rfl⟩
      · exact follows_lambda heval hoperands henv htruth hbody hvalues hlambda hlimit
      · have hfails := follows_arguments heval hoperands henv hvalues (by simpa using hlimit)
        exact .lambdaFails hfails
    · rename_i hparts
      rcases ends_throw.1 hends with ⟨rfl, rfl⟩
      exact .notExecutable hform hbuiltin (Expr.lambdaParts?_eq_none.1 hparts)

/-- A symbol at the head is looked up, first among the special forms; any other head is
evaluated. -/
theorem follows_call (htruth : truth.Proper) {head : Expr} (hhead : Proper truth head)
    {result : Except Error Expr} (hends : Ends (call host eval head operands) run result after)
    (hlimit : result ≠ .error .nestingLimit) :
    Evaluates host (.list (head :: operands)) run.env result after.env := by
  unfold call at hends
  split at hends
  · rename_i name hname
    have hhead : head = .symbol name := Expr.symbolName?_eq_some.1 hname
    rw [hhead]
    have hnamed := ends_getEnv_bind.1 hends
    split at hnamed
    · rename_i f hform
      -- the record has no part in the rules, the environment is the one of the call
      have hperform := ends_record_bind.1 hnamed
      have hrecorded : Environment.Holds (Proper truth)
          ({ run with log := run.log.push (.formInvoked name) } : Run).env := henv
      have hperforms := follows_form heval hoperands hrecorded (henv.form hform) hperform hlimit
      exact .formCall hform hperforms
    · rename_i hform
      split at hnamed
      · rename_i value hvalue
        have hproper : Proper truth value := henv.lookup hvalue
        have happlies := follows_apply heval hoperands henv htruth hproper hnamed hlimit
        exact .namedCall hform hvalue happlies
      · rename_i hvalue
        rcases ends_throw.1 hnamed with ⟨rfl, rfl⟩
        exact .undefinedCall hform hvalue
  · rename_i hname
    have hsymbol := Expr.symbolName?_eq_none.1 hname
    rcases ends_bind.1 hends with ⟨value, middle, hfirst, hrest⟩ | ⟨error, hfirst, rfl⟩
    · rcases heval.proper hhead henv hfirst with ⟨hproper, hmiddle⟩
      have hvalue := heval.evaluates hhead henv hfirst (by simp)
      -- the operands come after the head, in the environment that it has left
      have happlies := follows_apply heval hoperands hmiddle htruth hproper hrest hlimit
      exact .computedCall hsymbol hvalue happlies
    · have hfails := heval.evaluates hhead henv hfirst hlimit
      exact .headFails hsymbol hfails

end Steps

/-! ## Evaluation -/

/-- Under every limit, what is not cut off follows the rules. -/
theorem follows_evaluate (htruth : truth.Proper) (limit : Nat) :
    (evaluate host limit).Follows host truth := by
  induction limit with
  | zero =>
    refine ⟨(closed_proper host htruth).keeps_evaluate 0, ?_⟩
    intro e run result after _ _ hends hlimit
    exact absurd (ends_evaluate_zero.1 hends).1 hlimit
  | succ limit ih =>
    refine ⟨(closed_proper host htruth).keeps_evaluate (limit + 1), ?_⟩
    intro e run result after he henv hends hlimit
    cases e with
    | symbol name =>
      rcases ends_evaluate_symbol.1 hends with ⟨rfl, rfl⟩
      cases hvalue : run.env.lookup name with
      | none => exact .unbound hvalue
      | some v => exact .bound hvalue
    | list items =>
      cases items with
      | nil =>
        rcases (ends_evaluate_self (by simp)).1 hends with ⟨rfl, rfl⟩
        exact .nil _
      | cons head operands =>
        have hitems := proper_list.1 he
        have hoperands : ∀ e ∈ operands, Proper truth e :=
          fun e he => hitems e (List.mem_cons_of_mem _ he)
        have hnoted : (noted run (.list (head :: operands))).env.Holds (Proper truth) := henv
        exact follows_call ih hoperands hnoted htruth (hitems head List.mem_cons_self)
          (ends_evaluate_call.1 hends) hlimit
    | foreign d => exact absurd he (not_proper_foreign d)
    | number n =>
      rcases (ends_evaluate_self (by simp)).1 hends with ⟨rfl, rfl⟩
      exact .number n _
    | builtin f =>
      rcases (ends_evaluate_self (by simp)).1 hends with ⟨rfl, rfl⟩
      exact .builtin f _
    | form f =>
      rcases (ends_evaluate_self (by simp)).1 hends with ⟨rfl, rfl⟩
      exact .form f _

end LispDialects
