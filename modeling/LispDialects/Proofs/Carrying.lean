import LispDialects.Dialect.Basic
import LispDialects.Proofs.Compositional
import LispDialects.Proofs.Histories
import Mathlib.Logic.Relation

/-!
# Merging an environment into another one

An environment is merged from by what it binds, and its table of special forms is not looked at. So
the special forms that a merge carries over are those that names are bound to. For a name whose
special form is in step with its binding this is the special form of the name, and for no other
name (`merge_carries_bound_forms`). A copy keeps both tables, so merging into an empty environment
gives a copy but for the names that are out of step.

The environments that are merged into are those that come about in any way (`Reached`): by
operations and by evaluations, in which special forms of a lawful host may take part. All of them
are well-formed, because whatever happens to an environment is made of single bindings and single
writes of a merge (`Environment.Develops`).
-/

namespace LispDialects

open EvalM

namespace Environment

/-! ## Environments that develop -/

/-- One environment is another one with a name bound, or written by a merge. -/
def Changes (before after : Environment) : Prop :=
  ∃ name value, after = before.define name value ∨ after = before.install name value

/-- One environment is another one in which any number of names were bound or written by a merge,
one after the other. -/
def Develops : Environment → Environment → Prop :=
  Relation.ReflTransGen Changes

theorem Develops.define (env : Environment) (name : String) (value : Expr) :
    env.Develops (env.define name value) :=
  .single ⟨name, value, .inl rfl⟩

/-- An environment stays well-formed as it develops. -/
theorem WellFormed.develops {before after : Environment} (h : before.WellFormed)
    (hdevelops : before.Develops after) : after.WellFormed := by
  induction hdevelops with
  | refl => exact h
  | tail _ hlast ih =>
    -- the last change was a binding or a write
    obtain ⟨name, value, rfl | rfl⟩ := hlast
    · exact ih.define name value
    · exact ih.install name value

end Environment

/-! ## Actions under which environments develop -/

/-- Wherever the action starts, the environment has developed when it ends. -/
def EvalM.Develops {α : Type} (action : EvalM α) : Prop :=
  ∀ run result after, Ends action run result after → run.env.Develops after.env

/-- The special forms of the host bind names and merge, and do nothing else with an environment but
what the evaluations do that they ask for. -/
def Host.Lawful (host : Host) : Prop :=
  ∀ key eval operands, (∀ e, (eval e).Develops) → (host.form key eval operands).Develops

namespace EvalM.Develops

variable {α β : Type}

theorem pure (a : α) : Develops (Pure.pure a) := by
  intro run result after hends
  obtain ⟨_, rfl⟩ := ends_pure.1 hends
  exact .refl

theorem throw (error : Error) : Develops (throw error : EvalM α) := by
  intro run result after hends
  obtain ⟨_, rfl⟩ := ends_throw.1 hends
  exact .refl

theorem bind {x : EvalM α} {f : α → EvalM β} (hx : x.Develops)
    (hf : ∀ run a after, Ends x run (.ok a) after → (f a).Develops) : (x >>= f).Develops := by
  intro run result after hends
  rcases ends_bind.1 hends with ⟨a, middle, hfirst, hrest⟩ | ⟨error, hfirst, _⟩
  · have hsecond : (f a).Develops := hf run a middle hfirst
    exact (hx run _ middle hfirst).trans (hsecond middle result after hrest)
  · exact hx run _ after hfirst

theorem getEnv : EvalM.getEnv.Develops := by
  intro run result after hends
  obtain ⟨_, rfl⟩ := ends_getEnv.1 hends
  exact .refl

theorem record (event : Event) : (record event).Develops := by
  intro run result after hends
  obtain ⟨_, rfl⟩ := ends_record.1 hends
  exact .refl

theorem define (name : String) (value : Expr) : (define name value).Develops := by
  intro run result after hends
  obtain ⟨_, rfl⟩ := ends_define.1 hends
  exact .define run.env name value

/-- Whatever is done in a frame, the environment is the old one afterwards. -/
theorem inFrame (frame : Environment) (action : EvalM α) : (inFrame frame action).Develops := by
  intro run result after hends
  obtain ⟨_, _, rfl⟩ := ends_inFrame.1 hends
  exact .refl

/-- Environments develop under an action when they do under its parts. -/
theorem compositional : Compositional @EvalM.Develops where
  pure := pure
  throw := throw
  bind := bind
  getEnv := getEnv
  record := record
  define := define
  inFrame frame action _ := inFrame frame action

/-- An evaluation under any limit makes the environment develop. -/
theorem evaluate {host : Host} (hhost : host.Lawful) (limit : Nat) (e : Expr) :
    (evaluate host limit e).Develops :=
  compositional.evaluate hhost limit e

end EvalM.Develops

/-- The special forms of the sample host keep to what special forms may do. -/
theorem Host.sample_lawful : Host.sample.Lawful :=
  Host.sample_respects EvalM.Develops.compositional

namespace Environment

/-! ## Environments that are reached -/

/-- The environments that come about from an empty one by operations and evaluations, in any
order. An evaluation counts also when it fails. -/
inductive Reached (host : Host) : Environment → Prop where
  | empty : Reached host .empty
  | perform {env : Environment} (henv : Reached host env) (operation : Operation) :
    Reached host (env.perform operation)
  | evaluate {env : Environment} (henv : Reached host env) (limit : Nat) (e : Expr) :
    Reached host ((evaluate host limit e).answer env).env

/-- What is reached is well-formed: an operation keeps it so, and an evaluation is made of changes
that do. -/
theorem Reached.wellFormed {host : Host} (hhost : host.Lawful) {env : Environment}
    (henv : Reached host env) : env.WellFormed := by
  induction henv with
  | empty => exact .empty
  | perform _ operation ih => exact ih.perform operation
  | @evaluate env _ limit e ih =>
    have hdevelops : env.Develops ((LispDialects.evaluate host limit e).answer env).env :=
      EvalM.Develops.evaluate hhost limit e _ _ _ (ends_answer _ env)
    exact ih.develops hdevelops

/-! ## What a merge carries over -/

variable {env other : Environment}

/-- Merging an environment ends. -/
theorem merge_toEntries (env other : Environment) :
    merge .keep other.toEntries env = .ok () (env.mergeNamed .keep other.values.entries) := by
  rw [merge_of_named other.text?_of_mem_toEntries, named_toEntries]

/-- A name that is not bound has afterwards the special form that it is bound to in the environment
that is merged. -/
theorem form?_mergeNamed_entries (henv : env.WellFormed) {name : String}
    (hfree : env.contains name = false) :
    (env.mergeNamed .keep other.values.entries).form? name =
      (other.values.get? name).bind Expr.form? := by
  have hvalue : env.values.get? name = none := by
    simpa [contains, Bindings.contains] using hfree
  -- a name that is not bound is in step, and a merge keeps it so
  have hstep : (env.mergeNamed .keep other.values.entries).InStep name :=
    (henv.inStep hfree).mergeNamed .keep other.values.entries
  rw [hstep, get?_mergeNamed_keep, hvalue, Option.none_or]
  rfl

/-- Merging into an empty environment gives the same bindings, in the same order. -/
theorem values_mergeNamed_empty (other : Environment) :
    (Environment.empty.mergeNamed .keep other.values.entries).values = other.values := by
  have hnames : (Environment.empty.values.names ++ other.values.entries.map (·.1)).Nodup :=
    other.values.nodup_names
  exact Bindings.ext (entries_mergeNamed_keep hnames)

/-- What is carried over when an environment is merged into one that is reached. The merge ends. A
name that only the merged environment binds has afterwards the special form that it is bound to
there, and none if it is bound to anything else. This is the special form that the merged
environment has for the name just where that is in step with the binding.

Merging into an empty environment gives the same bindings in the same order, and the same special
form for just those names that are in step. A call of such a name applies the same value in both
environments. -/
theorem merge_carries_bound_forms {host : Host} (hhost : host.Lawful) {env : Environment}
    (henv : Reached host env) (other : Environment) :
    (∃ after, merge .keep other.toEntries env = .ok () after ∧
      ∀ name, other.contains name = true → env.contains name = false →
        (∀ f, after.form? name = some f ↔ other.values.get? name = some (.form f)) ∧
          (after.form? name = other.form? name ↔ other.InStep name)) ∧
      ∃ fresh, merge .keep other.toEntries .empty = .ok () fresh ∧
        fresh.values = other.values ∧
        ∀ name, (fresh.form? name = other.form? name ↔ other.InStep name) ∧
          (other.InStep name → ∃ callee,
            other.Dispatches host name callee ∧ fresh.Dispatches host name callee) := by
  have hwell : env.WellFormed := henv.wellFormed hhost
  constructor
  · refine ⟨_, merge_toEntries env other, ?_⟩
    intro name _ hfree
    have hform : (env.mergeNamed .keep other.values.entries).form? name =
        (other.values.get? name).bind Expr.form? := form?_mergeNamed_entries hwell hfree
    rw [hform, InStep]
    exact ⟨fun f => Expr.bind_form?_eq_some, eq_comm⟩
  · refine ⟨_, merge_toEntries .empty other, values_mergeNamed_empty other, ?_⟩
    intro name
    have hform : (Environment.empty.mergeNamed .keep other.values.entries).form? name =
        (other.values.get? name).bind Expr.form? := form?_mergeNamed_entries .empty rfl
    constructor
    · rw [hform, InStep]
      exact eq_comm
    · intro hstep
      refine ⟨other.lookup name, hstep.dispatches host, ?_⟩
      -- the bindings are the same, and the merge has put the name in step
      have hfresh := ((InStep.empty name).mergeNamed .keep other.values.entries).dispatches host
      rwa [lookup, values_mergeNamed_empty other] at hfresh

/-- The bindings of the base table after two evaluations. One of them gives a special form another
name, and one binds the name of that special form to something else. -/
def relabelled : Environment :=
  let start := Environment.empty.perform (.merge .keep (Table.base .symbolic))
  let aliased := ((LispDialects.evaluate Host.sample 2
    (.list [.symbol "label", .symbol "same", .symbol "quote"])).answer start).env
  ((LispDialects.evaluate Host.sample 2
    (.list [.symbol "label", .symbol "quote", .symbol "x"])).answer aliased).env

theorem reached_relabelled : Reached Host.sample relabelled := by
  have hstart : Reached Host.sample
      (Environment.empty.perform (.merge .keep (Table.base .symbolic))) := .perform .empty _
  exact .evaluate (.evaluate hstart 2 _) 2 _

/-- Of the names that were not labelled anew the special forms are carried over, into an environment
with names of its own and into an empty one. -/
theorem merge_carries_bound_forms_relabelled :
    let env := Environment.empty.perform (.define (.text "cons") (.number 1))
    (∃ after, merge .keep relabelled.toEntries env = .ok () after ∧
      after.form? "label" = some ⟨"label", .label⟩ ∧
        after.form? "label" = relabelled.form? "label" ∧
        after.form? "quote" ≠ relabelled.form? "quote") ∧
      ∃ fresh, merge .keep relabelled.toEntries .empty = .ok () fresh ∧
        fresh.values = relabelled.values ∧ fresh.form? "car" = relabelled.form? "car" ∧
        ∃ callee, relabelled.Dispatches Host.sample "label" callee ∧
          fresh.Dispatches Host.sample "label" callee := by
  intro env
  have henv : Reached Host.sample env := .perform .empty _
  obtain ⟨⟨after, hmerge, hcarried⟩, fresh, hcopy, hvalues, hforms⟩ :=
    merge_carries_bound_forms Host.sample_lawful henv relabelled
  obtain ⟨hbound, hsame⟩ := hcarried "label" rfl rfl
  refine ⟨⟨after, hmerge, (hbound _).2 rfl, hsame.2 rfl, ?_⟩, fresh, hcopy, hvalues,
    (hforms "car").1.2 rfl, (hforms "label").2 rfl⟩
  -- the special form is not the one that the name is bound to
  intro hquote
  have hstep : relabelled.InStep "quote" := (hcarried "quote" rfl rfl).2.1 hquote
  cases hstep

/-- What is out of step is not carried over. The name of a special form that was labelled anew
loses it, and calls of the name fail; the other name that the special form was given becomes one of
its names. -/
theorem merge_drops_relabelled_form :
    Reached Host.sample relabelled ∧ ∃ fresh,
      merge .keep relabelled.toEntries .empty = .ok () fresh ∧
        relabelled.contains "quote" = true ∧
        relabelled.form? "quote" = some ⟨"quote", .quote⟩ ∧ fresh.form? "quote" = none ∧
        relabelled.contains "same" = true ∧
        relabelled.form? "same" = none ∧ fresh.form? "same" = some ⟨"quote", .quote⟩ ∧
        (let e : Expr := .list [.symbol "quote", .symbol "a"]
        ((LispDialects.evaluate Host.sample 2 e).answer relabelled).result = .ok (.symbol "a") ∧
          ((LispDialects.evaluate Host.sample 2 e).answer fresh).result =
            .error (.notExecutable (.symbol "x"))) := by
  refine ⟨reached_relabelled, _, merge_toEntries .empty relabelled, ?_⟩
  have hcarried : ∀ name,
      (Environment.empty.mergeNamed .keep relabelled.values.entries).form? name =
        (relabelled.values.get? name).bind Expr.form? := by
    intro name
    exact form?_mergeNamed_entries .empty rfl
  -- the one name is bound to a symbol by now, the other one to the special form
  have hquote : relabelled.values.get? "quote" = some (.symbol "x") := rfl
  have hsame : relabelled.values.get? "same" = some (.form ⟨"quote", .quote⟩) := rfl
  refine ⟨rfl, rfl, ?_, rfl, rfl, ?_, rfl, rfl⟩
  · -- a symbol is no special form
    rw [hcarried, hquote]
    rfl
  · rw [hcarried, hsame]
    rfl

end Environment

end LispDialects
