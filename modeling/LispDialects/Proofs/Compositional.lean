import LispDialects.Dialect.Catalogue
import LispDialects.Proofs.Congruence

/-!
# Properties of actions that pass from the parts to the whole

A property of actions is compositional if the single steps have it, a sequence has it when its two
parts do, and what runs in a frame hands it on. Such a property is a congruence that looks at one
action only and at all expressions, so evaluation under any limit has it
(`Compositional.evaluate`), as long as the special forms of the host hand it on from the way to
evaluate that they are given (`Host.Respects`). Nothing is asked of the expression or of the
environment. What holds of the expressions of a class only is the business of closed classes.

The special forms of the sample host are made of the same steps (`Host.sample_respects`).
-/

namespace LispDialects

open EvalM

/-- The property passes from the parts of an action to the whole. The second part of a sequence is
asked to have it for the values that the first part can give. -/
structure EvalM.Compositional (Q : ∀ {α : Type}, EvalM α → Prop) : Prop where
  pure : ∀ {α : Type} (a : α), Q (pure a)
  throw : ∀ {α : Type} (error : Error), Q (throw error : EvalM α)
  bind : ∀ {α β : Type} {x : EvalM α} {f : α → EvalM β}, Q x →
    (∀ run a after, Ends x run (.ok a) after → Q (f a)) → Q (x >>= f)
  getEnv : Q getEnv
  record : ∀ event, Q (record event)
  define : ∀ name value, Q (define name value)
  inFrame : ∀ {α : Type} (frame : Environment) {x : EvalM α}, Q x → Q (inFrame frame x)

/-- The special forms of the host have the property if the way to evaluate that they are given has
it. -/
def Host.Respects (host : Host) (Q : ∀ {α : Type}, EvalM α → Prop) : Prop :=
  ∀ key eval operands, (∀ e, Q (eval e)) → Q (host.form key eval operands)

/-! ## Evaluation -/

/-- Where nothing is asked of expressions, every environment will do. -/
theorem Environment.Holds.everything (env : Environment) : env.Holds fun _ => True :=
  ⟨fun _ => trivial, fun _ => trivial⟩

theorem EvalM.Preserves.everything {α : Type} (action : EvalM α) :
    Preserves (fun _ => True) (fun _ => True) action := by
  intro run a after _ _
  exact ⟨.everything after.env, trivial⟩

namespace EvalM.Compositional

variable {Q : ∀ {α : Type}, EvalM α → Prop} (hQ : Compositional Q)

include hQ

/-- The property of the first one of two actions passes from the parts to the whole. -/
theorem congruence : Congruence (fun _ => True) fun x _ => Q x where
  item _ _ _ := trivial
  pure := hQ.pure
  throw := hQ.throw
  getEnv := hQ.getEnv
  record {event} _ := hQ.record event
  define := hQ.define
  bind hpreserves hx hf := by
    refine hQ.bind hx ?_
    intro run a after hends
    -- the rest has the property for good values, and a value that is given is good
    have hgood := (hpreserves run a after (.everything run.env) hends).2
    exact hf a hgood
  inFrame _ := hQ.inFrame _

/-- Evaluation has every property of actions that passes from the parts to the whole. -/
theorem evaluate {host : Host} (hhost : host.Respects Q) (limit : Nat) (e : Expr) :
    Q (evaluate host limit e) := by
  have hforms : host.Relates (fun _ => True) fun x _ => Q x := by
    intro f key eval eval' operands _ _ heval _
    exact hhost key eval operands fun e => heval e trivial
  exact hQ.congruence.evaluate hforms (fun _ _ _ => .everything _) limit trivial

end EvalM.Compositional

/-! ## The sample host -/

section Sample

variable {Q : ∀ {α : Type}, EvalM α → Prop} (hQ : Compositional Q)

include hQ

/-- Evaluating one expression after the other is a sequence of evaluations. -/
theorem EvalM.Compositional.sequence {eval : Evaluator} (heval : ∀ e, Q (eval e)) :
    ∀ operands, Q (EvalM.sequence eval operands)
  | [] => hQ.pure _
  | [e] => heval e
  | e :: next :: rest => hQ.bind (heval e) fun _ _ _ _ => sequence heval (next :: rest)

/-- The special forms of the sample host hand on every property that passes from the parts of an
action to the whole. -/
theorem Host.sample_respects : Host.sample.Respects Q := by
  intro key eval operands heval
  show Q (sampleForm key eval operands)
  unfold sampleForm
  split
  · split
    · exact heval _
    · exact hQ.throw _
  · exact hQ.sequence heval operands
  · refine hQ.bind hQ.getEnv ?_
    intro _ env _ _
    exact hQ.inFrame env (hQ.sequence heval operands)
  · split
    · refine hQ.bind (heval _) ?_
      intro _ v _ _
      exact heval v
    · exact hQ.throw _
  · exact hQ.pure _
  · refine hQ.bind hQ.getEnv ?_
    intro _ _ _ _
    exact hQ.pure _
  · exact hQ.throw _

end Sample

end LispDialects
