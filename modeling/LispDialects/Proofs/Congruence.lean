import LispDialects.Proofs.Confinement
import LispDialects.Proofs.Rules

/-!
# Relations of actions that pass from the parts to the whole

Two evaluations of one expression may differ in what they do when a part of it is to be evaluated,
say because one of them has a larger limit. A relation of actions is a congruence if it passes from
the parts of two such evaluations to the whole: single steps are related to themselves, a sequence
is related to another one if the parts are, and what runs in a frame hands the relation on.
Evaluation respects every congruence (`Congruence.evaluate_succ`). A property of single evaluations
is the case of a relation that does not look at the second action (`Congruence.evaluate`).

The relation may be about a class of expressions. Then the second part of a sequence is known to
start in an environment of the class, with a value that the first part can give (`Preserves`), and
operands, heads and bodies belong to the class again.
-/

namespace LispDialects

open EvalM

variable {P : Expr → Prop}

/-! ## Where the second part of a sequence starts -/

/-- From an environment of the class the action leads to one of the class and gives a good value,
unless it fails. -/
def EvalM.Preserves {α : Type} (P : Expr → Prop) (good : α → Prop) (action : EvalM α) : Prop :=
  ∀ run a after, run.env.Holds P → Ends action run (.ok a) after → after.env.Holds P ∧ good a

namespace EvalM.Preserves

variable {α β : Type} {good : α → Prop} {fine : β → Prop}

theorem pure {a : α} (ha : good a) : Preserves P good (Pure.pure a) := by
  intro run b after henv hends
  rcases ends_pure.1 hends with ⟨hvalue, rfl⟩
  cases hvalue
  exact ⟨henv, ha⟩

/-- The values of a result that was computed outside of the evaluation. -/
theorem ofExcept {x : Except Error α} (hx : ∀ a, x = .ok a → good a) :
    Preserves P good (ofExcept x) := by
  intro run a after henv hends
  rcases ends_ofExcept.1 hends with ⟨hvalue, rfl⟩
  exact ⟨henv, hx a hvalue.symm⟩

/-- What an action learns of the environment is that it holds expressions of the class. -/
theorem getEnv : Preserves P (Environment.Holds P) EvalM.getEnv := by
  intro run env after henv hends
  rcases ends_getEnv.1 hends with ⟨hvalue, rfl⟩
  cases hvalue
  exact ⟨henv, henv⟩

theorem record (event : Event) : Preserves P (fun _ => True) (EvalM.record event) := by
  intro run _ after henv hends
  rcases ends_record.1 hends with ⟨_, rfl⟩
  exact ⟨henv, trivial⟩

theorem define (name : String) {value : Expr} (hvalue : P value) :
    Preserves P (fun _ => True) (EvalM.define name value) := by
  intro run _ after henv hends
  rcases ends_define.1 hends with ⟨_, rfl⟩
  exact ⟨henv.define name hvalue, trivial⟩

/-- The second action of a sequence is asked about good values of the first one only. -/
theorem bind {x : EvalM α} {f : α → EvalM β} (hx : Preserves P good x)
    (hf : ∀ a, good a → Preserves P fine (f a)) : Preserves P fine (x >>= f) := by
  intro run b after henv hends
  rcases ends_bind.1 hends with ⟨a, middle, hfirst, hrest⟩ | ⟨_, _, herror⟩
  · rcases hx run a middle henv hfirst with ⟨hmiddle, ha⟩
    exact hf a ha middle b after hmiddle hrest
  · cases herror

/-- What keeps to the class leads from an environment of the class to another one. -/
theorem of_keeps {K : Error → Prop} {names : Set String} {action : EvalM α}
    (h : Keeps P K names good action) : Preserves P good action := by
  intro run a after henv hends
  rcases h run (.ok a) after henv hends with ⟨hwithin, ha⟩
  exact ⟨hwithin.env, ha⟩

/-- Operands of the class have values of the class. -/
theorem arguments {eval : Evaluator} (heval : ∀ e, P e → Preserves P P (eval e))
    {operands : List Expr} (hoperands : ∀ e ∈ operands, P e) :
    Preserves P (fun values => ∀ v ∈ values, P v) (arguments eval operands) := by
  induction operands with
  | nil => exact .pure (by simp)
  | cons e rest ih =>
    rcases List.forall_mem_cons.1 hoperands with ⟨he, hrest⟩
    refine .bind (heval e he) ?_
    intro v hv
    refine .bind (ih hrest) ?_
    intro vs hvs
    have hall : ∀ value ∈ v :: vs, P value := List.forall_mem_cons.2 ⟨hv, hvs⟩
    exact .pure hall

/-- The frame of a lambda literal that is applied to values of the class is one of the class. -/
theorem bindParameters {formals values : List Expr} (hvalues : ∀ v ∈ values, P v)
    {env : Environment} (henv : env.Holds P) :
    Preserves P (Environment.Holds P) (EvalM.ofExcept (bindParameters formals values env)) := by
  refine .ofExcept ?_
  intro frame hframe
  have hmeets := Closed.meets_bindParameters (K := fun _ => True) (fun _ => trivial) formals values
    env hvalues henv
  rw [hframe] at hmeets
  exact hmeets.1

end EvalM.Preserves

/-- Evaluation under any limit leads from an environment of a closed class to another one, and
gives a value of the class. -/
theorem Closed.preserves_evaluate {host : Host} {K : Error → Prop} (hP : Closed host P K)
    (limit : Nat) {e : Expr} (he : P e) : Preserves P P (evaluate host limit e) := by
  -- which names are bound does not matter here
  have hkeeps := hP.keeps_evaluate limit e Set.univ he (Set.subset_univ _)
  exact .of_keeps hkeeps

/-! ## Congruences -/

/-- The relation passes from the parts of actions to the whole, where the first of two actions deals
with a class of expressions. -/
structure EvalM.Congruence (P : Expr → Prop) (R : ∀ {α : Type}, EvalM α → EvalM α → Prop) :
    Prop where
  item : ∀ {items}, P (.list items) → ∀ e ∈ items, P e
  pure : ∀ {α : Type} (a : α), R (pure a) (pure a)
  throw : ∀ {α : Type} (error : Error), R (throw error : EvalM α) (throw error)
  getEnv : R getEnv getEnv
  record : ∀ {event}, event.channel = .evaluator → R (record event) (record event)
  define : ∀ name value, R (define name value) (define name value)
  bind : ∀ {α β : Type} {good : α → Prop} {x y : EvalM α} {f g : α → EvalM β},
    Preserves P good x → R x y → (∀ a, good a → R (f a) (g a)) → R (x >>= f) (y >>= g)
  inFrame : ∀ {α : Type} {frame : Environment} {x y : EvalM α}, frame.Holds P → R x y →
    R (inFrame frame x) (inFrame frame y)

/-- Those special forms of the host that are in the class hand the relation on, from the ways to
evaluate that they are given. -/
def Host.Relates (host : Host) (P : Expr → Prop) (R : ∀ {α : Type}, EvalM α → EvalM α → Prop) :
    Prop :=
  ∀ ⦃f key eval eval' operands⦄, P (.form f) → f.rule = .host key →
    (∀ e, P e → R (eval e) (eval' e)) → (∀ e ∈ operands, P e) →
      R (host.form key eval operands) (host.form key eval' operands)

/-- A closed class has no special form of the host. -/
theorem Closed.relates {host : Host} {K : Error → Prop} (hP : Closed host P K)
    {R : ∀ {α : Type}, EvalM α → EvalM α → Prop} : host.Relates P R := by
  intro f key eval eval' operands hf hrule _ _
  exact absurd hrule (hP.noHostForm hf)

namespace EvalM.Congruence

variable {host : Host} {R : ∀ {α : Type}, EvalM α → EvalM α → Prop} (hR : Congruence P R)

include hR

/-- What was computed outside of the evaluation is the same for both. -/
theorem ofExcept {α : Type} (x : Except Error α) : R (EvalM.ofExcept x) (EvalM.ofExcept x) := by
  cases x with
  | ok a => exact hR.pure a
  | error error => exact hR.throw error

section Functions

variable {eval eval' : Evaluator} (heval : ∀ e, P e → Preserves P P (eval e))
  (hsame : ∀ e, P e → R (eval e) (eval' e)) {operands : List Expr}
  (hoperands : ∀ e ∈ operands, P e)

include heval hsame hoperands

/-! ### Operands -/

/-- Operands are evaluated one after the other, with related evaluations of each. -/
theorem arguments : R (EvalM.arguments eval operands) (EvalM.arguments eval' operands) := by
  induction operands with
  | nil => exact hR.pure []
  | cons e rest ih =>
    rcases List.forall_mem_cons.1 hoperands with ⟨he, hrest⟩
    have hvalues := Preserves.arguments heval hrest
    refine hR.bind (heval e he) (hsame e he) ?_
    intro v _
    refine hR.bind hvalues (ih hrest) ?_
    intro vs _
    exact hR.pure (v :: vs)

/-! ### Special forms -/

/-- A label evaluates its operand and binds the value; the name is the same for both. -/
theorem applyLabel :
    R (FormRule.applyLabel eval operands) (FormRule.applyLabel eval' operands) := by
  unfold FormRule.applyLabel
  split
  · rename_i target e
    have he : P e := hoperands e (by simp)
    split
    · exact hR.throw _
    · rename_i name _
      refine hR.bind (heval e he) (hsame e he) ?_
      intro v hv
      refine hR.bind (.define name hv) (hR.define name v) ?_
      intro _ _
      exact hR.pure v
  · exact hR.throw _

/-- A conditional evaluates the condition, and then the operand that its value selects. -/
theorem applyCond (truth : Truth Expr) :
    R (FormRule.applyCond truth eval operands) (FormRule.applyCond truth eval' operands) := by
  have hoperand : ∀ e ∈ operands, R (eval e) (eval' e) := fun e he => hsame e (hoperands e he)
  unfold FormRule.applyCond
  split
  · refine hR.bind (heval _ (hoperands _ (by simp))) (hoperand _ (by simp)) fun v _ => ?_
    -- the condition has one value, so both actions take the same branch
    split
    · exact hR.pure _
    · exact hoperand _ (by simp)
  · refine hR.bind (heval _ (hoperands _ (by simp))) (hoperand _ (by simp)) fun v _ => ?_
    split <;> exact hoperand _ (by simp)
  · exact hR.throw _

variable (hhost : host.Relates P R)

include hhost

/-- Quoting evaluates nothing; the other special forms of the language hand the relation on, and
those of the host are asked to. -/
theorem form {f : SpecialForm Expr} (hf : P (.form f)) :
    R (f.rule.apply host eval operands) (f.rule.apply host eval' operands) := by
  cases hrule : f.rule with
  | quote =>
    show R (FormRule.applyQuote operands) (FormRule.applyQuote operands)
    unfold FormRule.applyQuote
    split
    · exact hR.pure _
    · exact hR.throw _
  | label => exact hR.applyLabel heval hsame hoperands
  | cond truth => exact hR.applyCond heval hsame hoperands truth
  | host key => exact hhost hf hrule hsame hoperands

/-! ### Calls -/

omit heval hoperands hhost in
/-- A lambda literal has its body evaluated, in a frame of the class. -/
theorem applyLambda {formals values : List Expr} {body : Expr} (hbody : P body)
    (hvalues : ∀ v ∈ values, P v) :
    R (EvalM.applyLambda eval formals body values)
      (EvalM.applyLambda eval' formals body values) := by
  refine hR.bind .getEnv hR.getEnv ?_
  intro env henv
  refine hR.bind (.bindParameters hvalues henv) (hR.ofExcept _) ?_
  intro frame hframe
  exact hR.inFrame hframe (hsame body hbody)

/-- A head of the class is applied to the operands as they are written, or to their values. -/
theorem apply {head : Expr} (hhead : P head) :
    R (apply host eval head operands) (EvalM.apply host eval' head operands) := by
  have hvalues : Preserves P (fun values => ∀ v ∈ values, P v) (EvalM.arguments eval operands) :=
    .arguments heval hoperands
  have harguments : R (EvalM.arguments eval operands) (EvalM.arguments eval' operands) :=
    hR.arguments heval hsame hoperands
  unfold EvalM.apply
  split
  · exact hR.form heval hsame hoperands hhost hhead
  · refine hR.bind hvalues harguments ?_
    intro values _
    exact hR.ofExcept _
  · split
    · rename_i formals body hparts
      -- the body is an item of the head, so it is in the class
      have hbody : P body := by
        obtain ⟨more, rfl⟩ := Expr.lambdaParts?_eq_some.1 hparts
        exact hR.item hhead body (by simp)
      refine hR.bind hvalues harguments ?_
      intro values hv
      exact hR.applyLambda hsame hbody hv
    · exact hR.throw _

/-- Both calls find the same value for a name at the head, and related values for any other. -/
theorem call {head : Expr} (hhead : P head) :
    R (call host eval head operands) (EvalM.call host eval' head operands) := by
  unfold EvalM.call
  split
  · refine hR.bind .getEnv hR.getEnv ?_
    intro env henv
    split
    · rename_i f hform
      have hf : P (.form f) := henv.form hform
      refine hR.bind (.record _) (hR.record rfl) ?_
      intro _ _
      exact hR.form heval hsame hoperands hhost hf
    · split
      · rename_i value hlookup
        have hvalue : P value := henv.lookup hlookup
        exact hR.apply heval hsame hoperands hhost hvalue
      · exact hR.throw _
  · refine hR.bind (heval head hhead) (hsame head hhead) ?_
    intro value hvalue
    exact hR.apply heval hsame hoperands hhost hvalue

end Functions

/-! ### Evaluation -/

/-- Two evaluations of an expression are related if those inside of them are, each of which has a
limit that is smaller by one. -/
theorem evaluate_succ (hhost : host.Relates P R) {limit limit' : Nat}
    (heval : ∀ e, P e → Preserves P P (evaluate host limit e))
    (hsame : ∀ e, P e → R (evaluate host limit e) (evaluate host limit' e)) {e : Expr} (he : P e) :
    R (evaluate host (limit + 1) e) (evaluate host (limit' + 1) e) := by
  refine hR.bind .getEnv hR.getEnv ?_
  intro env _
  refine hR.bind (.record _) (hR.record rfl) ?_
  intro _ _
  cases e with
  | list items =>
    cases items with
    | nil => exact hR.pure _
    | cons head operands =>
      rcases List.forall_mem_cons.1 (hR.item he) with ⟨hhead, hoperands⟩
      exact hR.call heval hsame hoperands hhost hhead
  | foreign d => exact hR.throw _
  | _ => exact hR.pure _

/-- An evaluation is related to itself. -/
theorem evaluate (hhost : host.Relates P R)
    (heval : ∀ limit e, P e → Preserves P P (evaluate host limit e)) (limit : Nat) {e : Expr}
    (he : P e) : R (evaluate host limit e) (evaluate host limit e) := by
  -- every evaluation inside of one has a smaller limit
  induction limit generalizing e with
  | zero => exact hR.throw _
  | succ limit ih => exact hR.evaluate_succ hhost (heval limit) (fun _ => ih) he

end EvalM.Congruence

end LispDialects
