import LispDialects.Dialect.Catalogue
import LispDialects.Proofs.Proper

/-!
# Evaluation of proper expressions

Two guarantees for every proper expression and every environment that holds proper expressions
only, whichever way the evaluation ends:

* it ends with a proper expression or with one of five kinds of error, and everything bound is
  proper again (`evaluate_proper`);
* it binds no other names than those the expression labels in the written program
  (`evaluate_confined`). All code that was data before, such as the bodies of lambda literals, runs
  in frames.
-/

namespace LispDialects

open EvalM

variable {truth : Truth Expr} {e : Expr} {env : Environment}

/-! ## Results and bindings -/

/-- What is known of the answer to an expression of a sublanguage, all in one. -/
theorem Sublanguage.answer_within {leaf : Expr → Prop} (h : Sublanguage truth leaf) (host : Host)
    (limit : Nat) (he : Expr.Over leaf e) (henv : env.Holds (Expr.Over leaf)) :
    Run.Within (Expr.Over leaf) e.labels { env }
        ⟨((evaluate host limit e).answer env).env, ((evaluate host limit e).answer env).log⟩ ∧
      Meets (Expr.Over leaf) OfLanguage ((evaluate host limit e).answer env).result := by
  have hlabels : writable (Expr.Over leaf) e ⊆ e.labels := fun _ hname => hname.1
  have hkeeps := (h.closed host).keeps_evaluate limit e e.labels he hlabels
  exact hkeeps _ _ _ henv (ends_answer _ env)

/-- What is known of the answer to a proper expression. -/
theorem answer_within (host : Host) (limit : Nat) (htruth : truth.Proper) (he : Proper truth e)
    (henv : env.Holds (Proper truth)) :
    Run.Within (Proper truth) e.labels { env }
        ⟨((evaluate host limit e).answer env).env, ((evaluate host limit e).answer env).log⟩ ∧
      Meets (Proper truth) OfLanguage ((evaluate host limit e).answer env).result :=
  (Sublanguage.full htruth).answer_within host limit he henv

/-- Evaluation is type sound. It gives a proper expression, or an error for the number or shape of
operands, for an argument that is no list, for an undefined symbol, for a head that cannot be
called or for too deep a nesting. Every binding is proper afterwards, also after an error. -/
theorem evaluate_proper (host : Host) (limit : Nat) (htruth : truth.Proper) (he : Proper truth e)
    (henv : env.Holds (Proper truth)) :
    ((∃ v, ((evaluate host limit e).answer env).result = .ok v ∧ Proper truth v) ∨
        ∃ error, ((evaluate host limit e).answer env).result = .error error ∧
          (error.kind = .argumentMismatch ∨ error.kind = .notAList ∨
            error.kind = .undefinedSymbol ∨ error.kind = .notExecutable ∨
            error = .nestingLimit)) ∧
      ((evaluate host limit e).answer env).env.Holds (Proper truth) := by
  rcases answer_within host limit htruth he henv with ⟨hwithin, hresult⟩
  refine ⟨?_, hwithin.env⟩
  cases h : ((evaluate host limit e).answer env).result with
  | ok v =>
    rw [h] at hresult
    exact .inl ⟨v, rfl, hresult⟩
  | error error =>
    rw [h] at hresult
    simp only [Meets, OfLanguage, ErrorKind.ofCalls, List.mem_cons, List.not_mem_nil, or_false,
      or_assoc] at hresult
    exact .inr ⟨error, rfl, hresult⟩

/-- The sum of a labelled number and of what is no list: the label stays, the sum fails. -/
theorem evaluate_proper_failed_sum : ∃ env after,
    Dialect.numeric.newEnvironment = .ok env ∧
      (let e : Expr := .list [.symbol "+", .list [.symbol "label", .symbol "x", .number 1],
        .list [.symbol "car", .number 2]]
      ((evaluate Host.sample 10 e).answer env).result = .error (.notAList "car" (.number 2)) ∧
        ((evaluate Host.sample 10 e).answer env).env = after ∧
        after.values.get? "x" = some (.number 1) ∧ after.Holds (Proper .symbolic)) := by
  refine ⟨_, _, rfl, rfl, rfl, rfl, ?_⟩
  refine (evaluate_proper Host.sample 10 Truth.symbolic_proper ?_
    (Dialect.holds_numeric rfl)).2
  simp [proper_list, proper_symbol, proper_number]

/-! ## Effects -/

/-- Whatever the body of a lambda literal does, the environment of the call is the same
afterwards. -/
theorem env_applyLambda (eval : Evaluator) (formals values : List Expr) (body : Expr)
    (env : Environment) :
    ((applyLambda eval formals body values).answer env).env = env := by
  have hends := ends_answer (applyLambda eval formals body values) env
  rw [applyLambda, ends_getEnv_bind] at hends
  rcases ends_bind.1 hends with ⟨frame, start, hbound, hbody⟩ | ⟨error, hbound, _⟩
  · rcases ends_ofExcept.1 hbound with ⟨_, rfl⟩
    rcases ends_inFrame.1 hbody with ⟨inner, _, hafter⟩
    exact congrArg Run.env hafter
  · exact congrArg Run.env (ends_ofExcept.1 hbound).2

/-- The effects of an evaluation, failed or not, are confined to the written program. A binding
that differs afterwards is of a name that is the second item of a part with three items; without
such a part nothing at all has changed, and applying a lambda literal never changes anything. -/
theorem evaluate_confined (host : Host) (limit : Nat) (htruth : truth.Proper)
    (he : Proper truth e) (henv : env.Holds (Proper truth)) :
    (∀ name, ((evaluate host limit e).answer env).env.values.get? name ≠ env.values.get? name →
        ∃ head value, e.HasPart (.list [head, .symbol name, value])) ∧
      ((∀ head name value, ¬ e.HasPart (.list [head, .symbol name, value])) →
        ((evaluate host limit e).answer env).env = env) ∧
      ∀ formals body values caller,
        ((applyLambda (evaluate host limit) formals body values).answer caller).env = caller := by
  rcases answer_within host limit htruth he henv with ⟨hwithin, _⟩
  have hgrows : env.GrowsBy e.labels ((evaluate host limit e).answer env).env := hwithin.grows
  refine ⟨?_, ?_, ?_⟩
  · intro name hchanged
    by_contra hpart
    -- a name that no part labels has kept its binding
    exact hchanged (hgrows.get?_eq hpart)
  · intro hnone
    have hempty : e.labels = ∅ := by
      ext name
      simp [Expr.labels, hnone]
    rw [hempty] at hgrows
    exact hgrows.eq_of_empty
  · intro formals body values caller
    exact env_applyLambda _ formals values body caller

/-- A lambda literal whose body labels `q` is applied to an operand that labels `r`: only the label
of the operand is there afterwards. -/
theorem evaluate_confined_labelled_operand : ∃ env after,
    Dialect.numeric.newEnvironment = .ok env ∧
      (let e : Expr := .list [.list [.symbol "quote", .list [.symbol "lambda", .list [.symbol "p"],
          .list [.symbol "label", .symbol "q", .symbol "p"]]],
        .list [.symbol "label", .symbol "r", .number 5]]
      ((evaluate Host.sample 10 e).answer env).result = .ok (.number 5) ∧
        ((evaluate Host.sample 10 e).answer env).env = after ∧
        after.values.get? "r" = some (.number 5) ∧ after.values.get? "q" = none ∧
        ∀ name, after.values.get? name ≠ env.values.get? name →
          ∃ head value, e.HasPart (.list [head, .symbol name, value])) := by
  refine ⟨_, _, rfl, rfl, rfl, rfl, rfl, ?_⟩
  refine (evaluate_confined Host.sample 10 Truth.symbolic_proper ?_ (Dialect.holds_numeric rfl)).1
  simp [proper_list, proper_symbol, proper_number]

end LispDialects
