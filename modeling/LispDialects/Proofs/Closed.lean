import LispDialects.Proofs.Growth
import LispDialects.Proofs.Outcome

/-!
# Closed classes of expressions

A class of expressions is *closed* when the builtins do not lead out of it, it holds a list exactly
when it holds the items, and every special form in it is one of `quote`, `label` and the
conditional. `Keeps P K names good action` says of an action that, wherever it starts in an
environment that holds only what is in the class `P`,

* it leaves such an environment, with new bindings of the names `names` only;
* it evaluates only in environments that have grown out of the one it started in;
* it ends with a value that is `good`, or with an error in `K`.

The rules `Keeps.pure`, `Keeps.bind` and so on follow the steps an action is made of, so a function
of the evaluator is shown to keep to a class along its own text.
-/

namespace LispDialects

/-! ## Parts and labels -/

/-- The parts of an expression are itself and the parts of its items. -/
inductive Expr.HasPart : Expr → Expr → Prop where
  | self (e : Expr) : HasPart e e
  | item {items : List Expr} {item part : Expr} (hitem : item ∈ items)
      (hpart : HasPart item part) : HasPart (.list items) part

/-- The parts of a list are the list and the parts of its items. -/
theorem Expr.hasPart_list {items : List Expr} {part : Expr} :
    (Expr.list items).HasPart part ↔ part = .list items ∨ ∃ item ∈ items, item.HasPart part := by
  constructor
  · rintro (_ | ⟨hitem, hpart⟩)
    · exact .inl rfl
    · exact .inr ⟨_, hitem, hpart⟩
  · rintro (rfl | ⟨item, hitem, hpart⟩)
    · exact .self _
    · exact .item hitem hpart

/-- What is no list has no part but itself. -/
theorem Expr.hasPart_iff_eq {e part : Expr} (he : ∀ items, e ≠ .list items) :
    e.HasPart part ↔ part = e := by
  constructor
  · rintro (_ | _)
    · rfl
    · exact absurd rfl (he _)
  · rintro rfl
    exact .self part

theorem Expr.hasPart_symbol {name : String} {part : Expr} :
    (Expr.symbol name).HasPart part ↔ part = .symbol name :=
  hasPart_iff_eq (by simp)

theorem Expr.hasPart_number {n : Int} {part : Expr} :
    (Expr.number n).HasPart part ↔ part = .number n :=
  hasPart_iff_eq (by simp)

/-- The names that an expression may label: the second items of its parts with three items. -/
def Expr.labels (e : Expr) : Set String :=
  {name | ∃ head value, e.HasPart (.list [head, .symbol name, value])}

/-- A part of a part is a part of the whole. -/
theorem Expr.HasPart.trans {e middle part : Expr} (h₁ : e.HasPart middle)
    (h₂ : middle.HasPart part) : e.HasPart part := by
  induction h₁ with
  | self => exact h₂
  | item hitem _ ih => exact .item hitem (ih h₂)

/-- A name that an expression may label is a symbol in it. -/
theorem Expr.hasPart_of_mem_labels {e : Expr} {name : String} (h : name ∈ e.labels) :
    e.HasPart (.symbol name) := by
  obtain ⟨head, value, hpart⟩ := h
  have hsymbol : (Expr.list [head, .symbol name, value]).HasPart (.symbol name) :=
    .item (by simp) (.self (.symbol name))
  exact hpart.trans hsymbol

/-- What an item may label, the list may label. -/
theorem Expr.labels_item {items : List Expr} {item : Expr} (hitem : item ∈ items) :
    item.labels ⊆ (Expr.list items).labels := by
  rintro name ⟨head, value, hpart⟩
  exact ⟨head, value, .item hitem hpart⟩

/-- A list of three items labels its second one, whatever its head is. -/
theorem Expr.mem_labels_self (head value : Expr) (name : String) :
    name ∈ (Expr.list [head, .symbol name, value]).labels :=
  ⟨head, value, .self _⟩

/-! ## Results -/

/-- A result is a good value, or an error of the class. -/
def Meets {α : Type} (good : α → Prop) (K : Error → Prop) : Except Error α → Prop
  | .ok a => good a
  | .error error => K error

namespace Meets

variable {α β : Type} {good : α → Prop} {fine : β → Prop} {K : Error → Prop}

/-- What is better than good is good. -/
theorem mono {better : α → Prop} {x : Except Error α} (h : Meets better K x)
    (himp : ∀ a, better a → good a) : Meets good K x := by
  cases x with
  | ok a => exact himp a h
  | error error => exact h

/-- Other errors may be counted in as well. -/
theorem mono_error {L : Error → Prop} {x : Except Error α} (h : Meets good K x)
    (himp : ∀ {error}, K error → L error) : Meets good L x := by
  cases x with
  | ok a => exact h
  | error error => exact himp h

/-- A result that depends on another one may build on the value being good. -/
theorem bind {x : Except Error α} {f : α → Except Error β} (hx : Meets good K x)
    (hf : ∀ a, good a → Meets fine K (f a)) : Meets fine K (x >>= f) := by
  cases x with
  | ok a => exact hf a hx
  | error error => exact hx

end Meets

/-! ## Closed classes -/

attribute [simp] Error.kind

/-- The classes of errors that the calls of the language fail with. -/
@[simp] def ErrorKind.ofCalls : List ErrorKind :=
  [.argumentMismatch, .notAList, .undefinedSymbol, .notExecutable]

/-- A class of expressions that evaluation does not leave, and the errors it may end in. -/
structure Closed (host : Host) (P : Expr → Prop) (K : Error → Prop) : Prop where
  list : ∀ {items}, P (.list items) ↔ ∀ e ∈ items, P e
  foreign : ∀ {d}, P (.foreign d) → K (.notAnExpression d)
  noHostForm : ∀ {f key}, P (.form f) → f.rule ≠ .host key
  cond : ∀ {shown truth}, P (.form ⟨shown, .cond truth⟩) → P truth.no
  builtin : ∀ {f args}, P (.builtin f) → (∀ a ∈ args, P a) → Meets P K (f.op.call host args)
  error : ∀ {error}, error.kind ∈ ErrorKind.ofCalls → K error
  nesting : K .nestingLimit

/-- A closed class stays closed when any error may end an evaluation. -/
theorem Closed.anyError {host : Host} {P : Expr → Prop} {K : Error → Prop} (hP : Closed host P K) :
    Closed host P fun _ => True where
  list := hP.list
  foreign _ := trivial
  noHostForm := hP.noHostForm
  cond := hP.cond
  builtin := by
    intro f args hf hargs
    have hmeets := hP.builtin hf hargs
    cases hcall : f.op.call host args with
    | ok value =>
      rw [hcall] at hmeets
      exact hmeets
    | error error => exact trivial
  error _ := trivial
  nesting := trivial

/-- What an environment holds, as values and as special forms, belongs to the class. -/
structure Environment.Holds (P : Expr → Prop) (env : Environment) : Prop where
  value : ∀ {name v}, env.values.get? name = some v → P v
  form : ∀ {name f}, env.form? name = some f → P (.form f)

namespace Environment.Holds

variable {P : Expr → Prop} {env : Environment}

/-- What holds of everything in an environment may be weakened. -/
theorem mono {Q : Expr → Prop} (h : env.Holds P) (himp : ∀ e, P e → Q e) : env.Holds Q where
  value hv := himp _ (h.value hv)
  form hf := himp _ (h.form hf)

/-- A name that can be looked up is bound to the value that is found. -/
theorem lookup (h : env.Holds P) {name : String} {v : Expr} (hv : env.lookup name = some v) :
    P v := by
  have hbound : env.values.get? name = some v := (Option.filter_eq_some_iff.1 hv).1
  exact h.value hbound

/-- Binding a name to an expression of the class does not lead out of the class. -/
theorem define (h : env.Holds P) (name : String) {value : Expr} (hvalue : P value) :
    (env.define name value).Holds P where
  value := by
    intro other v hv
    rw [define_get?] at hv
    split at hv
    · cases hv
      exact hvalue
    · exact h.value hv
  form := h.form

end Environment.Holds

/-! ## Runs that keep to a class -/

/-- How the state of an evaluation may change: the environment still holds what belongs to the
class and has new bindings of the names only, and nothing was evaluated in an environment that
has not grown out of the one at the start. -/
structure Run.Within (P : Expr → Prop) (names : Set String) (before after : Run) : Prop where
  env : after.env.Holds P
  grows : before.env.GrowsBy names after.env
  reached : ∀ {e env}, Event.evaluating e env ∈ after.log →
    Event.evaluating e env ∈ before.log ∨ before.env.GrowsBy Set.univ env ∧ env.Holds P

namespace Run.Within

variable {P : Expr → Prop} {names : Set String} {before middle after : Run}

/-- Where nothing happens, nothing is bound and nothing is reached. -/
theorem refl (h : before.env.Holds P) : Within P names before before where
  env := h
  grows := .refl before.env
  reached := .inl

/-- What happens in two stretches, one after the other, happens in the whole. -/
theorem trans (h₁ : Within P names before middle) (h₂ : Within P names middle after) :
    Within P names before after := by
  refine ⟨h₂.env, h₁.grows.trans h₂.grows, ?_⟩
  intro e env hmem
  rcases h₂.reached hmem with hold | ⟨hgrows, hholds⟩
  · exact h₁.reached hold
  · -- reached in the second stretch, from an environment that has grown in the first one
    have hfirst : before.env.GrowsBy Set.univ middle.env := h₁.grows.mono (Set.subset_univ names)
    exact .inr ⟨hfirst.trans hgrows, hholds⟩

/-- Recording an evaluation in the environment of the run itself. -/
theorem noted (h : before.env.Holds P) (e : Expr) :
    Within P names before (EvalM.noted before e) := by
  refine ⟨h, .refl _, ?_⟩
  intro other env hmem
  rcases Array.mem_push.1 hmem with hold | hnew
  · exact .inl hold
  · cases hnew
    exact .inr ⟨.refl _, h⟩

theorem mono {more : Set String} (hsub : names ⊆ more) (h : Within P names before after) :
    Within P more before after where
  env := h.env
  grows := h.grows.mono hsub
  reached := h.reached

end Run.Within

/-- Wherever the action starts in an environment of the class, it keeps to the class and to the
names, and its result is good. -/
def EvalM.Keeps {α : Type} (P : Expr → Prop) (K : Error → Prop) (names : Set String)
    (good : α → Prop) (action : EvalM α) : Prop :=
  ∀ run result after, run.env.Holds P → Ends action run result after →
    run.Within P names after ∧ Meets good K result

namespace EvalM.Keeps

variable {α β : Type} {P : Expr → Prop} {K : Error → Prop} {names : Set String}
  {good : α → Prop} {fine : β → Prop}

theorem pure {a : α} (ha : good a) : Keeps P K names good (Pure.pure a) := by
  intro run result after henv hends
  rcases ends_pure.1 hends with ⟨rfl, rfl⟩
  exact ⟨.refl henv, ha⟩

/-- Failing is within the class if the error is. -/
theorem throw {error : Error} (herror : K error) :
    Keeps P K names good (throw error : EvalM α) := by
  intro run result after henv hends
  rcases ends_throw.1 hends with ⟨rfl, rfl⟩
  exact ⟨.refl henv, herror⟩

/-- A sequence keeps to the class when its parts do. -/
theorem bind {x : EvalM α} {f : α → EvalM β} (hx : Keeps P K names good x)
    (hf : ∀ a, good a → Keeps P K names fine (f a)) : Keeps P K names fine (x >>= f) := by
  intro run result after henv hends
  rcases ends_bind.1 hends with ⟨a, middle, hfirst, hrest⟩ | ⟨error, hfirst, rfl⟩
  · rcases hx run _ middle henv hfirst with ⟨hwithin, ha⟩
    -- the second action starts in an environment of the class again
    rcases hf a ha middle result after hwithin.env hrest with ⟨hafter, hresult⟩
    exact ⟨hwithin.trans hafter, hresult⟩
  · exact hx run _ after henv hfirst

/-- A result that was computed outside of the evaluation, if it is good. -/
theorem ofExcept {x : Except Error α} (hx : Meets good K x) :
    Keeps P K names good (ofExcept x) := by
  intro run result after henv hends
  rcases ends_ofExcept.1 hends with ⟨rfl, rfl⟩
  exact ⟨.refl henv, hx⟩

/-- The environment that an action looks at is one of the class. -/
theorem getEnv : Keeps P K names (Environment.Holds P) getEnv := by
  intro run result after henv hends
  rcases ends_getEnv.1 hends with ⟨rfl, rfl⟩
  exact ⟨.refl henv, henv⟩

/-- The one step that binds: its name has to be among the names that may be bound. -/
theorem define {name : String} {value : Expr} (hname : name ∈ names) (hvalue : P value) :
    Keeps P K names (fun _ => True) (define name value) := by
  intro run result after henv hends
  rcases ends_define.1 hends with ⟨rfl, rfl⟩
  have hholds : (run.env.define name value).Holds P := henv.define name hvalue
  have hgrows : run.env.GrowsBy names (run.env.define name value) := .define hname value run.env
  exact ⟨⟨hholds, hgrows, .inl⟩, trivial⟩

theorem mono {more : Set String} {action : EvalM α} (hsub : names ⊆ more)
    (h : Keeps P K names good action) : Keeps P K more good action := by
  intro run result after henv hends
  rcases h run result after henv hends with ⟨hwithin, hresult⟩
  exact ⟨hwithin.mono hsub, hresult⟩

/-- Recording that a special form was found reaches no environment. -/
theorem recordForm (name : String) :
    Keeps P K names (fun _ => True) (record (.formInvoked name)) := by
  intro run result after henv hends
  rcases ends_record.1 hends with ⟨rfl, rfl⟩
  refine ⟨⟨henv, .refl _, ?_⟩, trivial⟩
  intro e env hmem
  exact .inl (by simpa using hmem)

/-- Recording a failure reaches no environment. -/
theorem reporting {action : EvalM α} (e : Expr) (haction : Keeps P K names good action) :
    Keeps P K names good (reporting e action) := by
  intro run result after henv hends
  rcases ends_reporting.1 hends with ⟨inner, hinner, rfl⟩
  rcases haction run result inner henv hinner with ⟨hwithin, hresult⟩
  cases result with
  | ok a => exact ⟨hwithin, hresult⟩
  | error error =>
    unfold reported
    dsimp only
    split
    · -- the new event speaks of no evaluation
      refine ⟨⟨hwithin.env, hwithin.grows, ?_⟩, hresult⟩
      intro other env hmem
      exact hwithin.reached (by simpa using hmem)
    · exact ⟨hwithin, hresult⟩

/-- An action in a frame that has grown out of the environment binds nothing outside of it. -/
theorem inFrame {frame : Environment} {action : EvalM α} {inner : Set String} {run : Run}
    (haction : Keeps P K inner good action) (henv : run.env.Holds P)
    (hframe : frame.Holds P) (hgrows : run.env.GrowsBy Set.univ frame)
    {result : Except Error α} {after : Run} (hends : Ends (inFrame frame action) run result after) :
    run.Within P names after ∧ Meets good K result := by
  rcases ends_inFrame.1 hends with ⟨middle, hinner, rfl⟩
  rcases haction _ result middle hframe hinner with ⟨hwithin, hresult⟩
  -- the environment is the old one, only the record speaks of what grew out of the frame
  refine ⟨⟨henv, .refl _, ?_⟩, hresult⟩
  intro e env hmem
  rcases hwithin.reached hmem with hold | ⟨hreach, hholds⟩
  · exact .inl hold
  · exact .inr ⟨hgrows.trans hreach, hholds⟩

end EvalM.Keeps

end LispDialects
