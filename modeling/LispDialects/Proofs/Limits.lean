import LispDialects.Dialect.Catalogue
import LispDialects.Proofs.Congruence
import LispDialects.Proofs.Proper

/-!
# The nesting limit

The limit on how deeply evaluations may be nested cuts an evaluation off, or it has no part in it:
what is not cut off under one limit ends in the same way under every larger one, with the same
value or error, the same bindings and the same record (`evaluate_of_le`).

Nothing in the language catches an error, so an action that goes on after a part of it was cut off
does not exist. `Truncates P x y` says that `x` is `y` but for being cut off somewhere. It passes
from the parts of an action to the whole (`Truncates.congruence`), as long as what the second part
of a sequence starts from is known. The class `P` has no special form of a host, which could do
anything with the way to evaluate that it is handed.
-/

namespace LispDialects

open EvalM

/-! ## Actions that are cut off -/

/-- Wherever the first action starts in an environment of the class, the second one ends just as
it does, or the first one is cut off. -/
def EvalM.Truncates {α : Type} (P : Expr → Prop) (x y : EvalM α) : Prop :=
  ∀ run result after, run.env.Holds P → Ends x run result after →
    result ≠ .error .nestingLimit → Ends y run result after

namespace EvalM.Truncates

variable {α β : Type} {P : Expr → Prop} {good : α → Prop}

theorem refl (x : EvalM α) : Truncates P x x := by
  intro run result after _ hends _
  exact hends

/-- A sequence is cut off where one of its parts is. -/
theorem bind {x y : EvalM α} {f g : α → EvalM β} (hpreserves : Preserves P good x)
    (hx : Truncates P x y) (hf : ∀ a, good a → Truncates P (f a) (g a)) :
    Truncates P (x >>= f) (y >>= g) := by
  intro run result after henv hends hlimit
  rcases ends_bind.1 hends with ⟨a, middle, hfirst, hrest⟩ | ⟨error, hfirst, rfl⟩
  · obtain ⟨hmiddle, ha⟩ := hpreserves run a middle henv hfirst
    have hfirst' : Ends y run (.ok a) middle := hx run _ middle henv hfirst (by simp)
    -- the second parts start in one state, and its environment is of the class again
    have hrest' : Ends (g a) middle result after :=
      hf a ha middle result after hmiddle hrest hlimit
    exact ends_bind.2 (.inl ⟨a, middle, hfirst', hrest'⟩)
  · have hfirst' : Ends y run (.error error) after :=
      hx run _ after henv hfirst (by simpa using hlimit)
    exact ends_bind.2 (.inr ⟨error, hfirst', rfl⟩)

/-- An action is cut off in a frame as it is anywhere else. -/
theorem inFrame {frame : Environment} {x y : EvalM α} (hframe : frame.Holds P)
    (h : Truncates P x y) : Truncates P (inFrame frame x) (inFrame frame y) := by
  intro run result after _ hends hlimit
  obtain ⟨inner, hinner, rfl⟩ := ends_inFrame.1 hends
  have hinner' : Ends y { run with env := frame } result inner :=
    h _ result inner hframe hinner hlimit
  exact ends_inFrame.2 ⟨inner, hinner', rfl⟩

/-- Being another action but for being cut off passes from the parts of an action to the whole. -/
theorem congruence (hitem : ∀ {items}, P (.list items) → ∀ e ∈ items, P e) :
    Congruence P (EvalM.Truncates P) where
  item := hitem
  pure _ := .refl _
  throw _ := .refl _
  getEnv := .refl _
  record _ := .refl _
  define _ _ := .refl _
  bind := .bind
  inFrame := .inFrame

end EvalM.Truncates

/-- The first way to evaluate keeps to the class, and it is the second one but for being cut off. -/
structure Evaluator.Truncates (P : Expr → Prop) (K : Error → Prop) (eval eval' : Evaluator) :
    Prop where
  confined : eval.Confined P K
  truncates : ∀ {e}, P e → EvalM.Truncates P (eval e) (eval' e)

namespace Closed

variable {host : Host} {P : Expr → Prop} {K : Error → Prop}

/-- Evaluation under a limit is evaluation under any larger one, but for being cut off. -/
theorem truncates_evaluate (hP : Closed host P K) {limit more : Nat} (hle : limit ≤ more) :
    (evaluate host limit).Truncates P K (evaluate host more) := by
  -- the evaluations inside of one have limits that are smaller by one, in both of them
  induction limit generalizing more with
  | zero =>
    refine ⟨hP.keeps_evaluate 0, ?_⟩
    intro e _ run result after _ hends hlimit
    -- a limit of zero cuts everything off
    exact absurd (ends_evaluate_zero.1 hends).1 hlimit
  | succ limit ih =>
    refine ⟨hP.keeps_evaluate (limit + 1), ?_⟩
    obtain ⟨more, rfl⟩ := Nat.exists_eq_add_of_le' (Nat.le_of_add_left_le hle)
    have hsame : (evaluate host limit).Truncates P K (evaluate host more) := ih (by omega)
    intro e he
    exact (Truncates.congruence hP.list.1).evaluate_succ hP.relates
      (fun _ => hP.preserves_evaluate limit) (fun _ => hsame.truncates) he

end Closed

/-! ## Answers -/

/-- The limit only ever cuts an evaluation off. What does not reach it has the same answer under
every larger one: the same value or error, the same environment, with its bindings in the same
order and the same special forms, and the same record of all that was evaluated. -/
theorem evaluate_of_le (host : Host) {truth : Truth Expr} (htruth : truth.Proper) {e : Expr}
    (he : Proper truth e) {env : Environment} (henv : env.Holds (Proper truth))
    {limit more : Nat} (hle : limit ≤ more)
    (hlimit : ((evaluate host limit e).answer env).result ≠ .error .nestingLimit) :
    (evaluate host more e).answer env = (evaluate host limit e).answer env := by
  have htruncates := ((closed_proper host htruth).truncates_evaluate hle).truncates he
  have hmore := htruncates _ _ _ henv (ends_answer (evaluate host limit e) env) hlimit
  obtain ⟨hresult, hafter⟩ := Ends.unique (ends_answer (evaluate host more e) env) hmore
  exact answer_ext hresult (congrArg Run.env hafter) (congrArg Run.log hafter)

/-- A sum that labels its first operand and fails in its second one: the failure takes four
evaluations inside of one another. Under a limit of three the sum is cut off, with the label made
already; under four and under four hundred it fails for the same reason, after the same steps. -/
theorem evaluate_of_le_failed_sum : ∃ env,
    Dialect.numeric.newEnvironment = .ok env ∧
      (let e : Expr := .list [.symbol "+", .list [.symbol "label", .symbol "x", .number 1],
        .list [.symbol "car", .list [.symbol "cdr",
          .list [.symbol "quote", .list [.symbol "a"]]]]]
      ((evaluate Host.sample 3 e).answer env).result = .error .nestingLimit ∧
        ((evaluate Host.sample 4 e).answer env).result = .error (.emptyList "car") ∧
        ((evaluate Host.sample 400 e).answer env).env.values.get? "x" = some (.number 1) ∧
        (evaluate Host.sample 400 e).answer env = (evaluate Host.sample 4 e).answer env) := by
  refine ⟨_, rfl, rfl, rfl, rfl, ?_⟩
  refine evaluate_of_le Host.sample Truth.symbolic_proper ?_ (Dialect.holds_numeric rfl)
    (by decide) ?_
  · simp [proper_list, proper_symbol, proper_number]
  · show (.error (.emptyList "car") : Except Error Expr) ≠ .error .nestingLimit
    simp

end LispDialects
