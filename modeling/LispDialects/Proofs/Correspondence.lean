import LispDialects.Proofs.Renaming
import Mathlib.Data.List.Forall2

/-!
# Two runs side by side

A correspondence says how a second run may go along with a first one: the second has renamed
expressions in place of those of the first, in an environment that goes with the one of the first.
`C.Relates good x y` says of two actions that, started in runs that correspond,

* they end in runs that correspond again, with records that agree event by event;
* they end either both with a value, and the values are `good` together, or both with an error, and
  the errors go together.

A correspondence is sound when it takes only a few facts about environments and errors for granted.
Then a step of evaluation relates to the same step of the other run as soon as the evaluations that
it asks for do: one lemma for each function of the evaluator, up to `Sound.relates_step`.

The two runs may have evaluators of their own. With one and the same limit they relate for every
expression (`Sound.relates_evaluate`).
-/

namespace LispDialects

open EvalM

/-- How a second run may go along with a first one. -/
structure Correspondence where
  /-- What the second run has in place of a symbol. -/
  rename : String → String
  /-- The leaves of the expressions that the first run deals with. -/
  leaf : Expr → Prop
  /-- Which environments go together. -/
  env : Environment → Environment → Prop
  /-- Which errors go together. -/
  error : Error → Error → Prop

namespace Correspondence

/-! ## What corresponds -/

/-- An expression of the first run and what the second one has in its place. -/
def Twins (C : Correspondence) (v w : Expr) : Prop :=
  Expr.Over C.leaf v ∧ w = v.rename C.rename

/-- Expressions of the first run and what the second one has in their place. -/
def AllTwins (C : Correspondence) (vs ws : List Expr) : Prop :=
  (∀ v ∈ vs, Expr.Over C.leaf v) ∧ ws = vs.map (Expr.rename C.rename)

/-- What the two runs record. -/
inductive Events (C : Correspondence) : Event → Event → Prop where
  | evaluating (e : Expr) {env other : Environment} (henv : C.env env other) :
      Events C (.evaluating e env) (.evaluating (e.rename C.rename) other)
  | formInvoked (name : String) : Events C (.formInvoked name) (.formInvoked (C.rename name))

/-- The states of the two runs. -/
structure Runs (C : Correspondence) (run other : Run) : Prop where
  env : C.env run.env other.env
  log : List.Forall₂ C.Events run.log.toList other.log.toList

/-- How the two runs end. -/
def Results {α β : Type} (C : Correspondence) (good : α → β → Prop) :
    Except Error α → Except Error β → Prop
  | .ok a, .ok b => good a b
  | .error a, .error b => C.error a b
  | _, _ => False

/-- From states that correspond, both actions end alike and in states that correspond. -/
def Relates {α β : Type} (C : Correspondence) (good : α → β → Prop) (x : EvalM α)
    (y : EvalM β) : Prop :=
  ∀ run other result after, C.Runs run other → Ends x run result after →
    ∃ result' after', Ends y other result' after' ∧ C.Results good result result' ∧
      C.Runs after after'

variable {C : Correspondence} {α β γ δ : Type} {good : α → β → Prop} {fine : γ → δ → Prop}

/-! ## Steps of an action -/

/-- Results that were computed outside of the evaluations. -/
theorem relates_ofExcept {x : Except Error α} {y : Except Error β} (h : C.Results good x y) :
    C.Relates good (EvalM.ofExcept x) (EvalM.ofExcept y) := by
  intro run other result after hruns hends
  obtain ⟨rfl, rfl⟩ := ends_ofExcept.1 hends
  exact ⟨y, other, ends_ofExcept.2 ⟨rfl, rfl⟩, h, hruns⟩

theorem relates_pure {a : α} {b : β} (h : good a b) :
    C.Relates good (pure a) (pure b) :=
  relates_ofExcept (x := .ok a) (y := .ok b) h

theorem relates_throw {a b : Error} (h : C.error a b) :
    C.Relates good (throw a) (throw b) :=
  relates_ofExcept (x := .error a) (y := .error b) h

/-- Sequences relate when their parts do. -/
theorem Relates.bind {x : EvalM α} {y : EvalM β} {f : α → EvalM γ} {g : β → EvalM δ}
    (hx : C.Relates good x y) (hf : ∀ a b, good a b → C.Relates fine (f a) (g b)) :
    C.Relates fine (x >>= f) (y >>= g) := by
  intro run other result after hruns hends
  rcases ends_bind.1 hends with ⟨a, middle, hfirst, hrest⟩ | ⟨error, hfirst, rfl⟩
  · obtain ⟨result', middle', hfirst', hresult, hmiddle⟩ := hx run other _ middle hruns hfirst
    cases result' with
    | ok b =>
      -- the second parts start in states that correspond
      obtain ⟨last, after', hrest', hlast, hafter⟩ :=
        hf a b hresult middle middle' result after hmiddle hrest
      exact ⟨last, after', ends_bind.2 (.inl ⟨b, middle', hfirst', hrest'⟩), hlast, hafter⟩
    | error error => exact hresult.elim
  · obtain ⟨result', after', hfirst', hresult, hafter⟩ := hx run other _ after hruns hfirst
    cases result' with
    | ok b => exact hresult.elim
    | error error' =>
      exact ⟨.error error', after', ends_bind.2 (.inr ⟨error', hfirst', rfl⟩), hresult, hafter⟩

/-- Each run looks at its own environment, and the two go together. -/
theorem relates_getEnv : C.Relates C.env getEnv getEnv := by
  intro run other result after hruns hends
  obtain ⟨rfl, rfl⟩ := ends_getEnv.1 hends
  exact ⟨.ok other.env, other, ends_getEnv.2 ⟨rfl, rfl⟩, hruns.env, hruns⟩

/-- Records that agree do so after one more event each. -/
theorem Runs.record {run other : Run} (hruns : C.Runs run other) {event event' : Event}
    (hevent : C.Events event event') :
    C.Runs { run with log := run.log.push event } { other with log := other.log.push event' } := by
  refine ⟨hruns.env, ?_⟩
  simp only [Array.toList_push]
  exact List.rel_append hruns.log (.cons hevent .nil)

theorem relates_record {event event' : Event} (hevent : C.Events event event') :
    C.Relates (fun _ _ => True) (record event) (record event') := by
  intro run other result after hruns hends
  obtain ⟨rfl, rfl⟩ := ends_record.1 hends
  exact ⟨.ok (), _, ends_record.2 ⟨rfl, rfl⟩, trivial, hruns.record hevent⟩

/-- Actions in frames that go together leave the environments of the calls, which do so too. -/
theorem Relates.inFrame {frame frame' : Environment} {x : EvalM α} {y : EvalM β}
    (h : C.Relates good x y) (hframe : C.env frame frame') :
    C.Relates good (inFrame frame x) (inFrame frame' y) := by
  intro run other result after hruns hends
  obtain ⟨inner, hinner, rfl⟩ := ends_inFrame.1 hends
  obtain ⟨result', inner', hinner', hresult, hafter⟩ :=
    h { run with env := frame } { other with env := frame' } result inner
      ⟨hframe, hruns.log⟩ hinner
  exact ⟨result', _, ends_inFrame.2 ⟨inner', hinner', rfl⟩, hresult, ⟨hruns.env, hafter.log⟩⟩

/-- Both runs end with values that are good together, or with errors that go together. -/
theorem Results.ok_or_error {x : Except Error α} {y : Except Error β} (h : C.Results good x y) :
    (∃ a b, x = .ok a ∧ y = .ok b ∧ good a b) ∨
      ∃ error other, x = .error error ∧ y = .error other ∧ C.error error other := by
  cases x with
  | ok a =>
    cases y with
    | ok b => exact .inl ⟨a, b, rfl, rfl, h⟩
    | error other => exact h.elim
  | error error =>
    cases y with
    | ok b => exact h.elim
    | error other => exact .inr ⟨error, other, rfl, rfl, h⟩

/-- Where only renamed errors go together, the second run ends with the renamed result. -/
theorem Results.eq_renameResult (herror : ∀ a b, C.error a b → b = a.rename C.rename)
    {x y : Except Error Expr} (h : C.Results C.Twins x y) :
    y = renameResult C.rename (Expr.rename C.rename) x := by
  rcases h.ok_or_error with ⟨v, w, rfl, rfl, _, hw⟩ | ⟨error, other, rfl, rfl, hother⟩
  · exact congrArg Except.ok hw
  · exact congrArg Except.error (herror error other hother)

/-- Where nothing is renamed and only equal errors go together, both runs end with the same
result. -/
theorem Results.eq_of_id (hid : C.rename = id) (herror : ∀ a b, C.error a b → b = a)
    {x y : Except Error Expr} (h : C.Results C.Twins x y) : y = x := by
  have herrors : ∀ a b, C.error a b → b = a.rename C.rename := by
    intro a b hab
    rw [herror a b hab, hid, Error.rename_id]
  have hrenamed := h.eq_renameResult herrors
  rwa [hid, renameResult_id] at hrenamed

/-- The answers of two actions that relate. -/
theorem Relates.answer {x : EvalM α} {y : EvalM β} (h : C.Relates good x y)
    {env other : Environment} (henv : C.env env other) :
    C.Results good (x.answer env).result (y.answer other).result ∧
      C.env (x.answer env).env (y.answer other).env ∧
      List.Forall₂ C.Events (x.answer env).log.toList (y.answer other).log.toList := by
  obtain ⟨result, after, hends, hresult, hafter⟩ :=
    h { env } { env := other } _ _ ⟨henv, .nil⟩ (ends_answer x env)
  obtain ⟨rfl, rfl⟩ := Ends.unique (ends_answer y other) hends
  exact ⟨hresult, hafter.env, hafter.log⟩

/-! ## Sound correspondences -/

/-- What a correspondence has to respect: the expressions are those of a sublanguage, the renaming
keeps symbols apart and leaves lambda literals and the truth coding alone, and environments that go
together have the same bindings and special forms for all symbols of the sublanguage. -/
structure Sound (truth : Truth Expr) (C : Correspondence) : Prop where
  language : Sublanguage truth C.leaf
  injective : C.rename.Injective
  lambda : C.rename Expr.lambdaName = Expr.lambdaName
  fixed : truth.FixedBy C.rename
  value : ∀ {env other name v}, C.env env other → C.leaf (.symbol name) →
    env.lookup name = some v → Expr.Over C.leaf v
  lookup : ∀ {env other name}, C.env env other → C.leaf (.symbol name) →
    other.lookup (C.rename name) = (env.lookup name).map (Expr.rename C.rename)
  proper : ∀ {env other name f}, C.env env other → C.leaf (.symbol name) →
    env.form? name = some f → Proper truth (.form f)
  form : ∀ {env other name}, C.env env other → C.leaf (.symbol name) →
    other.form? (C.rename name) = env.form? name
  define : ∀ {env other name v}, C.env env other → C.leaf (.symbol name) → Expr.Over C.leaf v →
    C.env (env.define name v) (other.define (C.rename name) (v.rename C.rename))
  error : ∀ {error}, error.kind ∈ ErrorKind.ofCalls → C.error error (error.rename C.rename)

namespace Sound

variable {truth : Truth Expr} {host : Host} {eval eval' : Evaluator} {operands : List Expr}

/-- A result in the sublanguage that fails like a call goes together with the renamed result. -/
theorem results_rename (hC : C.Sound truth) {x : Except Error Expr}
    (hx : Meets (Expr.Over C.leaf) (fun error => error.kind ∈ ErrorKind.ofCalls) x) :
    C.Results C.Twins x (renameResult C.rename (Expr.rename C.rename) x) := by
  cases x with
  | ok v => exact ⟨hx, rfl⟩
  | error error => exact hC.error hx

/-! ## Operands and frames -/

/-- The twin of a value is bound to the renamed name. -/
theorem relates_define (hC : C.Sound truth) {name : String} {v : Expr}
    (hname : C.leaf (.symbol name)) (hv : Expr.Over C.leaf v) :
    C.Relates (fun _ _ => True) (EvalM.define name v)
      (EvalM.define (C.rename name) (v.rename C.rename)) := by
  intro run other result after hruns hends
  obtain ⟨rfl, rfl⟩ := ends_define.1 hends
  have henv := hC.define hruns.env hname hv
  exact ⟨.ok (), _, ends_define.2 ⟨rfl, rfl⟩, trivial, ⟨henv, hruns.log⟩⟩

/-- Operands are evaluated one after the other, in both runs. -/
theorem relates_arguments {es : List Expr}
    (heval : ∀ e ∈ es, C.Relates C.Twins (eval e) (eval' (e.rename C.rename))) :
    C.Relates C.AllTwins (arguments eval es) (arguments eval' (es.map (Expr.rename C.rename))) := by
  induction es with
  | nil => exact relates_pure ⟨by simp, rfl⟩
  | cons e rest ih =>
    have hrest := ih fun e he => heval e (List.mem_cons_of_mem _ he)
    -- values of the first run come with their twins in the second
    refine (heval e List.mem_cons_self).bind ?_
    rintro v _ ⟨hv, rfl⟩
    refine hrest.bind ?_
    rintro vs _ ⟨hvs, rfl⟩
    exact relates_pure ⟨List.forall_mem_cons.2 ⟨hv, hvs⟩, rfl⟩

/-- The same parameters are bound in both frames, or the same one is no symbol. -/
theorem results_bindParameters (hC : C.Sound truth) {formals values : List Expr}
    (hformals : ∀ e ∈ formals, Expr.Over C.leaf e) (hvalues : ∀ v ∈ values, Expr.Over C.leaf v)
    {env other : Environment} (henv : C.env env other) :
    C.Results C.env (bindParameters formals values env)
      (bindParameters (formals.map (Expr.rename C.rename)) (values.map (Expr.rename C.rename))
        other) := by
  induction formals generalizing values env other with
  | nil => exact henv
  | cons formal formals ih =>
    cases values with
    | nil => exact henv
    | cons value values =>
      have hformal : Expr.Over C.leaf formal := hformals formal List.mem_cons_self
      have hvalue : Expr.Over C.leaf value := hvalues value List.mem_cons_self
      simp only [List.map_cons, bindParameters, Expr.symbolName?_rename]
      cases formal with
      | symbol name =>
        -- the same parameter under its new name, and the rest in the larger frames
        have hname : C.leaf (.symbol name) := Expr.over_symbol.1 hformal
        have hframes := hC.define henv hname hvalue
        exact ih (fun e he => hformals e (List.mem_cons_of_mem _ he))
          (fun v hv => hvalues v (List.mem_cons_of_mem _ hv)) hframes
      | _ => exact hC.error (by simp)

/-- A lambda literal relates to the renamed one, applied to the twins of the values. -/
theorem relates_applyLambda (hC : C.Sound truth) {formals values : List Expr} {body : Expr}
    (hformals : ∀ e ∈ formals, Expr.Over C.leaf e) (hvalues : ∀ v ∈ values, Expr.Over C.leaf v)
    (hbody : C.Relates C.Twins (eval body) (eval' (body.rename C.rename))) :
    C.Relates C.Twins (applyLambda eval formals body values)
      (applyLambda eval' (formals.map (Expr.rename C.rename)) (body.rename C.rename)
        (values.map (Expr.rename C.rename))) := by
  refine relates_getEnv.bind ?_
  intro env other henv
  have hbound := hC.results_bindParameters hformals hvalues henv
  refine (relates_ofExcept hbound).bind ?_
  intro frame frame' hframe
  exact hbody.inFrame hframe

/-! ## Builtins -/

/-- A builtin of the language relates to itself on the renamed operands. -/
theorem relates_builtin (hC : C.Sound truth) {f : Builtin Expr} (hf : Proper truth (.builtin f))
    (heval : ∀ e ∈ operands, C.Relates C.Twins (eval e) (eval' (e.rename C.rename))) :
    C.Relates C.Twins (apply host eval (.builtin f) operands)
      (apply host eval' (.builtin f) (operands.map (Expr.rename C.rename))) := by
  obtain ⟨hhost, hcoding⟩ := proper_builtin hf
  refine (relates_arguments heval).bind ?_
  rintro values _ ⟨hvalues, rfl⟩
  have hfixed : ∀ other, f.op.truth? = some other → other.FixedBy C.rename := by
    intro other hother
    rw [hcoding other hother]
    exact hC.fixed
  have hrename := f.op.call_rename host hC.injective hhost hfixed values
  have hcall := hC.language.meets_call host id hf hvalues
  rw [hrename]
  exact relates_ofExcept (hC.results_rename hcall)

/-! ## Special forms -/

section Operands

variable (hC : C.Sound truth) (hoperands : ∀ e ∈ operands, Expr.Over C.leaf e)
  (heval : ∀ e ∈ operands, C.Relates C.Twins (eval e) (eval' (e.rename C.rename)))

include hC hoperands

/-- Quoting gives the operand in the one run and the renamed operand in the other. -/
theorem relates_applyQuote :
    C.Relates C.Twins (FormRule.applyQuote operands)
      (FormRule.applyQuote (operands.map (Expr.rename C.rename))) := by
  rcases operands with _ | ⟨e, _ | ⟨other, rest⟩⟩
  · exact relates_throw (hC.error (by simp))
  · have he : Expr.Over C.leaf e := hoperands e (by simp)
    exact relates_pure ⟨he, rfl⟩
  · exact relates_throw (hC.error (by simp))

include heval

/-- Labels of the two runs have twins for names and values. -/
theorem relates_applyLabel :
    C.Relates C.Twins (FormRule.applyLabel eval operands)
      (FormRule.applyLabel eval' (operands.map (Expr.rename C.rename))) := by
  rcases operands with _ | ⟨target, _ | ⟨e, _ | ⟨other, rest⟩⟩⟩
  · exact relates_throw (hC.error (by simp))
  · exact relates_throw (hC.error (by simp))
  · have htarget : Expr.Over C.leaf target := hoperands target (by simp)
    cases target with
    | symbol name =>
      refine (heval e (by simp)).bind ?_
      rintro v _ ⟨hv, rfl⟩
      -- the value is bound to the name of the one run and to the new name of the other
      have hname : C.leaf (.symbol name) := Expr.over_symbol.1 htarget
      refine (hC.relates_define hname hv).bind ?_
      intro _ _ _
      exact relates_pure ⟨hv, rfl⟩
    | _ => exact relates_throw (hC.error (by simp))
  · exact relates_throw (hC.error (by simp))

/-- The conditions are false together, because the renaming leaves the truth coding alone. -/
theorem relates_applyCond :
    C.Relates C.Twins (FormRule.applyCond truth eval operands)
      (FormRule.applyCond truth eval' (operands.map (Expr.rename C.rename))) := by
  have hfalse : ∀ v : Expr, truth.isFalse (v.rename C.rename) = truth.isFalse v :=
    fun v => hC.fixed.isFalse_rename hC.injective v
  rcases operands with
    _ | ⟨condition, _ | ⟨whenTrue, _ | ⟨whenFalse, _ | ⟨other, rest⟩⟩⟩⟩
  · exact relates_throw (hC.error (by simp))
  · exact relates_throw (hC.error (by simp))
  · refine (heval condition (by simp)).bind ?_
    rintro v _ ⟨_, rfl⟩
    rw [hfalse v]
    -- both runs take the same branch
    split
    · exact relates_pure ⟨hC.language.no, hC.fixed.no.symm⟩
    · exact heval whenTrue (by simp)
  · refine (heval condition (by simp)).bind ?_
    rintro v _ ⟨_, rfl⟩
    rw [hfalse v]
    split
    · exact heval whenFalse (by simp)
    · exact heval whenTrue (by simp)
  · exact relates_throw (hC.error (by simp))

/-- A special form of the language relates to itself on the renamed operands. -/
theorem relates_form {f : SpecialForm Expr} (hf : Proper truth (.form f)) :
    C.Relates C.Twins (f.rule.apply host eval operands)
      (f.rule.apply host eval' (operands.map (Expr.rename C.rename))) := by
  rcases proper_form hf with rfl | rfl | rfl
  · exact hC.relates_applyQuote hoperands
  · exact hC.relates_applyLabel hoperands heval
  · exact hC.relates_applyCond hoperands heval

/-! ## Calls -/

variable (hbody : ∀ {head formals body}, Expr.Over C.leaf head →
  head.lambdaParts? = some (formals, body) →
    C.Relates C.Twins (eval body) (eval' (body.rename C.rename)))

include hbody

/-- The value of a head relates to its twin, applied to the renamed operands. -/
theorem relates_apply {head : Expr} (hhead : Expr.Over C.leaf head) :
    C.Relates C.Twins (apply host eval head operands)
      (apply host eval' (head.rename C.rename) (operands.map (Expr.rename C.rename))) := by
  cases head with
  | form f => exact hC.relates_form hoperands heval (hC.language.proper hhead)
  | builtin f => exact hC.relates_builtin (hC.language.proper hhead) heval
  | list items =>
    have hparts' := Expr.lambdaParts?_rename hC.injective hC.lambda (.list items)
    have herror : C.error (.notExecutable (.list items))
        (.notExecutable ((Expr.list items).rename C.rename)) := hC.error (by simp)
    -- the renamed head is a lambda literal exactly when the head is one
    rw [Expr.rename_list] at hparts' herror ⊢
    simp only [apply, hparts']
    cases hparts : (Expr.list items).lambdaParts? with
    | none => exact relates_throw herror
    | some parts =>
      obtain ⟨formals, body⟩ := parts
      have hformals := hC.language.over_formals hhead hparts
      refine (relates_arguments heval).bind ?_
      rintro values _ ⟨hvalues, rfl⟩
      exact hC.relates_applyLambda hformals hvalues (hbody hhead hparts)
  | _ => exact relates_throw (hC.error (by simp))

/-- A call relates to the renamed call. -/
theorem relates_call {head : Expr} (hhead : Expr.Over C.leaf head)
    (hevalHead : C.Relates C.Twins (eval head) (eval' (head.rename C.rename))) :
    C.Relates C.Twins (call host eval head operands)
      (call host eval' (head.rename C.rename) (operands.map (Expr.rename C.rename))) := by
  cases head with
  | symbol name =>
    have hname := Expr.over_symbol.1 hhead
    refine relates_getEnv.bind ?_
    intro env other henv
    rw [hC.form henv hname, hC.lookup henv hname]
    cases hform : env.form? name with
    | some f =>
      have hf : Proper truth (.form f) := hC.proper henv hname hform
      refine (relates_record (.formInvoked name)).bind ?_
      intro _ _ _
      exact hC.relates_form hoperands heval hf
    | none =>
      cases hvalue : env.lookup name with
      | some v =>
        have hv : Expr.Over C.leaf v := hC.value henv hname hvalue
        exact hC.relates_apply hoperands heval hbody hv
      | none => exact relates_throw (hC.error (by simp))
  | _ =>
    refine hevalHead.bind ?_
    rintro v _ ⟨hv, rfl⟩
    exact hC.relates_apply hoperands heval hbody hv

end Operands

/-! ## Evaluation -/

variable {limit limit' : Nat}

/-- One level of evaluation relates when the evaluations that it asks for do: those of the items of
a list, and those of the bodies of lambda literals. -/
theorem relates_step (hC : C.Sound truth) {e : Expr} (he : Expr.Over C.leaf e)
    (hitems : ∀ items, e = .list items → ∀ item ∈ items,
      C.Relates C.Twins (evaluate host limit item) (evaluate host limit' (item.rename C.rename)))
    (hbody : ∀ {head formals body}, Expr.Over C.leaf head →
      head.lambdaParts? = some (formals, body) →
        C.Relates C.Twins (evaluate host limit body)
          (evaluate host limit' (body.rename C.rename))) :
    C.Relates C.Twins (evaluate host (limit + 1) e)
      (evaluate host (limit' + 1) (e.rename C.rename)) := by
  refine relates_getEnv.bind ?_
  intro env other henv
  refine (relates_record (.evaluating e henv)).bind ?_
  intro _ _ _
  cases e with
  | symbol name =>
    have hname := Expr.over_symbol.1 he
    simp only [Expr.rename_symbol, hC.lookup henv hname]
    cases hvalue : env.lookup name with
    | some v => exact relates_pure ⟨hC.value henv hname hvalue, rfl⟩
    | none => exact relates_pure ⟨he, rfl⟩
  | list items =>
    rw [Expr.rename_list]
    cases items with
    | nil => exact relates_pure ⟨he, rfl⟩
    | cons head operands =>
      have hover := List.forall_mem_cons.1 (hC.language.over_list.1 he)
      have heval := List.forall_mem_cons.1 (hitems _ rfl)
      exact hC.relates_call hover.2 heval.2 hbody hover.1 heval.1
  | foreign d => exact absurd (hC.language.proper he) (not_proper_foreign d)
  | _ => exact relates_pure ⟨he, rfl⟩

/-- Under one limit evaluation relates to the evaluation of renamed expressions. -/
theorem relates_evaluate (hC : C.Sound truth) (hnesting : C.error .nestingLimit .nestingLimit)
    (host : Host) (limit : Nat) {e : Expr} (he : Expr.Over C.leaf e) :
    C.Relates C.Twins (evaluate host limit e) (evaluate host limit (e.rename C.rename)) := by
  -- every evaluation inside of one has a smaller limit
  induction limit generalizing e with
  | zero => exact relates_throw hnesting
  | succ limit ih =>
    refine hC.relates_step he ?_ ?_
    · rintro items rfl item hitem
      exact ih (hC.language.over_list.1 he item hitem)
    · intro head formals body hhead hparts
      exact ih (hC.language.over_body hhead hparts)

end Sound

end Correspondence

end LispDialects
