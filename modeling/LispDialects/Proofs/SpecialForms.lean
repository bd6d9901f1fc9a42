import LispDialects.Dialect.Catalogue
import LispDialects.Proofs.Native
import LispDialects.Proofs.Sessions

/-!
# Special forms cannot be shadowed

The table of special forms is written when the environment of a dialect is made, and never again.
Labels and parameters bind names in the values only, so whatever a program binds the name of a
special form to, the name at the head of a call still finds the form, while the bare name has the
value it was bound to last.

This holds for every interpreter whose special forms are those of the language, in every
environment that any sequence of its calls evaluates anything in (`protects_reached`).
-/

namespace LispDialects

open EvalM

/-! ## Protected environments -/

/-- An environment in which the special forms of a table are found at the head of a call, whatever
their names are bound to, while a bare name has the value it is bound to. -/
structure Environment.Protects (host : Host) (forms : Bindings (SpecialForm Expr))
    (env : Environment) : Prop where
  forms_eq : env.forms = forms
  call : ∀ {name f}, forms.get? name = some f → ∀ limit tail log,
    evaluate host (limit + 1) (.list (.symbol name :: tail)) ⟨env, log⟩ =
      f.rule.apply host (evaluate host limit) tail
        ⟨env, (log.push (.evaluating (.list (.symbol name :: tail)) env)).push (.formInvoked name)⟩
  symbol : ∀ {name v}, env.values.get? name = some v → v.isAbsent = false → ∀ limit,
    ((evaluate host (limit + 1) (.symbol name)).answer env).result = .ok v

/-- The head of a call is looked for in the table first, and a bare name is not looked for there. -/
theorem Environment.protects_forms (host : Host) (env : Environment) :
    env.Protects host env.forms where
  forms_eq := rfl
  call := by
    intro name f hf limit tail log
    have hform : env.form? name = some f := hf
    show EvalM.call host (evaluate host limit) (.symbol name) tail
      ⟨env, log.push (.evaluating (.list (.symbol name :: tail)) env)⟩ = _
    simp only [EvalM.call, Expr.symbolName?]
    rw [getEnv_bind, hform]
    rfl
  symbol := by
    intro name v hv habsent limit
    have hlookup : env.lookup name = some v := by
      rw [Environment.lookup, hv]
      simp [habsent]
    rcases exists_ends (evaluate host (limit + 1) (.symbol name)) { env } with ⟨result, after, h⟩
    rcases Ends.unique h (ends_answer _ env) with ⟨hresult, _⟩
    rcases ends_evaluate_symbol.1 h with ⟨hvalue, _⟩
    rw [← hresult, hvalue, hlookup]
    rfl

/-! ## Calls of an interpreter -/

namespace Interpreter

variable {host : Host} {interpreter : Interpreter}

/-- All environments that a sequence of calls works in have the table of special forms that the
interpreter had at first. -/
theorem forms_eq_of_reached (hhost : host.NativeBuiltins) (henv : interpreter.env.Holds Native)
    (calls : List (Nat × Datum Expr))
    (hread : ∀ call ∈ calls, ∀ e, interpreter.read call.2 = .ok e → Native e) :
    ∀ answer ∈ interpreter.answers host calls, ∀ env, answer.Reaches env →
      env.forms = interpreter.env.forms := by
  intro answer hanswer env hreached
  obtain ⟨_, hreach⟩ := answers_within (closed_native hhost) henv calls hread answer hanswer
  exact (hreach env hreached).2

/-- Take a dialect whose special forms are those of the language and an interpreter of it. Whatever
it is called with, and however its calls end, every environment that a call leaves or evaluates
anything in still has the special forms of the new environment, and finds them at the head of a
call under any binding of their names. -/
theorem protects_reached (hhost : host.NativeBuiltins) (draft : Draft)
    (htables : ∀ table ∈ draft.extensions, ∀ entry ∈ table draft.truth, Native entry.2)
    {event : Event} (hstart : start draft.build = .ok (interpreter, event))
    (calls : List (Nat × Datum Expr))
    (hread : ∀ call ∈ calls, ∀ e, interpreter.read call.2 = .ok e → Native e) :
    ∀ answer ∈ interpreter.answers host calls, ∀ env, answer.Reaches env →
      env.Protects host interpreter.env.forms := by
  have henv : interpreter.env.Holds Native := by
    refine Dialect.holds_newEnvironment ?_ (newEnvironment_of_start hstart)
    intro table htable
    rcases List.mem_cons.1 htable with rfl | hextension
    · intro entry hentry
      exact native_base hentry
    · exact htables table hextension
  intro answer hanswer env hreached
  have hforms : env.forms = interpreter.env.forms :=
    forms_eq_of_reached hhost henv calls hread answer hanswer env hreached
  rw [← hforms]
  exact env.protects_forms host

/-! ## Relabelled forms -/

/-- The base table and the conditional, with a builtin of the host that makes lists. -/
def listDraft : Draft :=
  (({} : Draft).extend Table.boolean).extend fun _ => [BuiltinOp.entry (.host "list")]

/-- Calls that bind the name of the quotation, quote all the same, use the name of the conditional
as a parameter and in a conditional, and evaluate the bare name. -/
def relabelling : List (Nat × Datum Expr) :=
  [(10, .list [.text "label", .text "quote", .text "x"]),
    (10, .list [.text "quote", .text "a"]),
    (10, .list [.list [.text "quote", .list [.text "lambda", .list [.text "if"],
      .list [.text "if", .text "nil", .text "b", .text "if"]]], .text "c"]),
    (10, .text "quote")]

/-- The builtins of the sample host make no special forms. -/
theorem nativeBuiltins_sample : Host.sample.NativeBuiltins := by
  intro key args value hargs hcall
  simp only [Host.sample, Host.sampleBuiltin] at hcall
  split at hcall <;> cases hcall
  · exact .list hargs
  · exact .number _
  · exact .symbol _
  · exact .foreign _

/-- The quotation quotes although its name is bound, the conditional is found although its name is a
parameter, and the bare name has the value it was bound to. -/
theorem protects_relabelled : ∃ interpreter event,
    start listDraft.build = .ok (interpreter, event) ∧
      (∀ answer ∈ interpreter.answers Host.sample relabelling, ∀ env, answer.Reaches env →
        env.Protects Host.sample interpreter.env.forms) ∧
      (interpreter.answers Host.sample relabelling).map (·.result) =
        [.ok (.symbol "x"), .ok (.symbol "a"), .ok (.symbol "c"), .ok (.symbol "x")] := by
  refine ⟨_, _, rfl, ?_, rfl⟩
  refine protects_reached nativeBuiltins_sample listDraft ?_ rfl relabelling ?_
  · intro table htable entry hentry
    simp only [listDraft, Draft.extend, List.nil_append, List.cons_append, List.mem_cons,
      List.not_mem_nil, or_false] at htable
    rcases htable with rfl | rfl
    · -- an entry of the standard library
      have hmem : entry ∈ Table.standard .symbolic := by
        simp only [Table.standard, List.mem_append]
        exact .inl (.inr hentry)
      exact native_standard (.symbol _) (.symbol _) hmem
    · -- the builtin of the host
      rw [List.mem_singleton.1 hentry]
      exact .builtin (by simp [BuiltinOp.truth?]) (by simp [BuiltinOp.truth?])
  · intro call hcall e hread
    refine native_read ?_ hread
    simp only [relabelling, List.mem_cons, List.not_mem_nil, or_false] at hcall
    rcases hcall with rfl | rfl | rfl | rfl <;> simp [literal_list, Datum.Literal.text]

end Interpreter

end LispDialects
