import LispDialects.Proofs.DerivedRules

/-!
# Calls by value

A call of a builtin or of a lambda literal depends on its head and its operands through their values
only: once these are known, so is the call, and it is the same as the call in which all of them are
quoted. A call of a special form depends on the special form and on the operands as they are
written, and not on how the head names the special form. Both are stated for all that settles
(`call_by_values`).
-/

namespace LispDialects

open EvalM

/-! ## Heads -/

/-- The value of a head that is no name of a special form: a symbol stands for its binding and has
to have one, and anything else is evaluated. -/
def EvalM.resolve (eval : Evaluator) (head : Expr) : EvalM Expr :=
  match head.symbolName? with
  | some name => do
    let env ← getEnv
    match env.lookup name with
    | some value => pure value
    | none => throw (.undefinedSymbol name)
  | none => eval head

/-- A value that is called with the values of operands: a builtin or a lambda literal. -/
def Expr.TakesValues (head : Expr) : Prop :=
  (∃ f, head = .builtin f) ∨ head.lambdaParts?.isSome = true

/-- Finding the value of a head keeps to a closed class. -/
theorem Closed.keeps_resolve {host : Host} {P : Expr → Prop} {K : Error → Prop} {eval : Evaluator}
    (hP : Closed host P K) (heval : eval.Confined P K) {head : Expr} (hhead : P head) :
    Keeps P K Set.univ P (resolve eval head) := by
  unfold resolve
  split
  · -- a name of the bindings
    refine Keeps.getEnv.bind ?_
    intro env henv
    split
    · rename_i value hvalue
      exact .pure (henv.lookup hvalue)
    · exact .throw (hP.error (by simp))
  · exact heval head Set.univ hhead (Set.subset_univ _)

section Heads

variable {host : Host} {env middle after : Environment} {head v : Expr} {name : String}
  {f : SpecialForm Expr} {operands : List Expr} {result : Except Error Expr}

/-- A symbol that settles as a head is bound. -/
theorem lookup_of_settles_resolve
    (h : Settles (fun limit => resolve (evaluate host limit) (.symbol name)) env (.ok v) middle) :
    env.lookup name = some v ∧ middle = env := by
  obtain ⟨limit, log, hends⟩ := h.ends
  simp only [resolve, Expr.symbolName?] at hends
  rw [ends_getEnv_bind] at hends
  cases hlookup : env.lookup name with
  | none => simp [hlookup] at hends
  | some value =>
    simp only [hlookup, ends_pure, Except.ok.injEq, Run.mk.injEq] at hends
    obtain ⟨rfl, rfl, _⟩ := hends
    exact ⟨rfl, rfl⟩

/-- A call of a name that is bound, and that of no special form, applies the binding. -/
theorem evaluates_named_iff (hform : env.form? name = none) (hvalue : env.lookup name = some v) :
    Evaluates host (.list (.symbol name :: operands)) env result after ↔
      Applies host v operands env result after := by
  constructor
  · intro h
    cases h with
    | formCall hother _ => simp [hform] at hother
    | namedCall _ hother happlies =>
      rw [hvalue, Option.some.injEq] at hother
      rw [hother]
      exact happlies
    | undefinedCall _ hother => simp [hvalue] at hother
    | computedCall hhead _ _ => exact absurd rfl (hhead name)
    | headFails hhead _ => exact absurd rfl (hhead name)
  · intro h
    exact .namedCall hform hvalue h

/-- A call with any other head applies the value of the head, from where evaluating it has led. -/
theorem evaluates_computed_iff (hhead : ∀ name, head ≠ .symbol name)
    (hvalue : Evaluates host head env (.ok v) middle) :
    Evaluates host (.list (head :: operands)) env result after ↔
      Applies host v operands middle result after := by
  constructor
  · intro h
    cases h with
    | formCall _ _ => exact absurd rfl (hhead _)
    | namedCall _ _ _ => exact absurd rfl (hhead _)
    | undefinedCall _ _ => exact absurd rfl (hhead _)
    | computedCall _ hother happlies =>
      obtain ⟨hv, rfl⟩ := hvalue.unique hother
      cases hv
      exact happlies
    | headFails _ hfails =>
      obtain ⟨herror, _⟩ := hvalue.unique hfails
      cases herror
  · intro h
    exact .computedCall hhead hvalue h

/-- A call of a name of a special form does what the special form does. -/
theorem evaluates_formCall_iff (hform : env.form? name = some f) :
    Evaluates host (.list (.symbol name :: operands)) env result after ↔
      Performs host f.rule operands env result after := by
  constructor
  · intro h
    cases h with
    | formCall hother hperforms =>
      rw [hform, Option.some.injEq] at hother
      rw [hother]
      exact hperforms
    | namedCall hother _ _ => simp [hform] at hother
    | undefinedCall hother _ => simp [hform] at hother
    | computedCall hhead _ _ => exact absurd rfl (hhead name)
    | headFails hhead _ => exact absurd rfl (hhead name)
  · intro h
    exact .formCall hform h

/-- So does a special form that is the value of a head. -/
theorem applies_form_iff :
    Applies host (.form f) operands env result after ↔
      Performs host f.rule operands env result after := by
  constructor
  · intro h
    cases h with
    | form hperforms => exact hperforms
    | notExecutable hform _ _ => exact absurd rfl (hform f)
  · intro h
    exact .form h

end Heads

/-! ## Operands -/

section Operands

variable {host : Host} {env next middle last after : Environment} {head v : Expr}
  {operands : List Expr} {result : Except Error Expr}

/-- Whatever takes values is applied in the same way to operands that evaluate to the same. -/
theorem Applies.congr (hv : v.TakesValues) {others : List Expr}
    (hsame : ∀ values last, EvaluatesAll host operands env values last →
      EvaluatesAll host others next values last)
    (h : Applies host v operands env result after) : Applies host v others next result after := by
  cases h with
  | form _ => simp [Expr.TakesValues, Expr.lambdaParts?] at hv
  | builtin hop hvalues => exact .builtin hop (hsame _ _ hvalues)
  | builtinFails hfails => exact .builtinFails (hsame _ _ hfails)
  | lambda hvalues hzip hbody => exact .lambda (hsame _ _ hvalues) hzip hbody
  | lambdaFormal hvalues hzip hformal => exact .lambdaFormal (hsame _ _ hvalues) hzip hformal
  | lambdaFails hfails => exact .lambdaFails (hsame _ _ hfails)
  | notExecutable hform hbuiltin hlambda =>
    rcases hv with ⟨f, rfl⟩ | hparts
    · exact absurd rfl (hbuiltin f)
    · rw [Expr.lambdaParts?_eq_none.2 hlambda] at hparts
      cases hparts

/-- Where the operands fail, so does the call. -/
theorem applies_of_fails (hv : v.TakesValues) {error : Error}
    (hfails : EvaluatesAll host operands env (.error error) after) :
    Applies host v operands env (.error error) after := by
  rcases hv with ⟨f, rfl⟩ | hparts
  · exact .builtinFails hfails
  · obtain ⟨⟨formals, body⟩, hparts⟩ := Option.isSome_iff_exists.1 hparts
    obtain ⟨more, rfl⟩ := Expr.lambdaParts?_eq_some.1 hparts
    exact .lambdaFails hfails

/-- Operands fail where the first of them does. -/
theorem evaluatesAll_of_fails {before later values : List Expr} {e : Expr} {error : Error}
    (hbefore : EvaluatesAll host before env (.ok values) middle)
    (hfails : Evaluates host e middle (.error error) last) :
    EvaluatesAll host (before ++ e :: later) env (.error error) last := by
  induction before generalizing env values with
  | nil =>
    cases hbefore
    exact .firstFails hfails
  | cons first rest ih =>
    -- the first operand has a value, so the failing one is among the rest
    cases hbefore with
    | cons hfirst hrest => exact .restFails hfirst (ih hrest)

/-- Quoted expressions have themselves as values, and evaluating them changes nothing. -/
theorem evaluatesAll_quoted (hquote : env.form? "quote" = some ⟨"quote", .quote⟩)
    (values : List Expr) : EvaluatesAll host (values.map .quoted) env (.ok values) env := by
  induction values with
  | nil => exact .nil env
  | cons v rest ih => exact .cons (.quoted hquote v) ih

/-- Applying to operands is applying to their quoted values, from where evaluating the operands has
led. -/
theorem applies_quoted_iff (hv : v.TakesValues) {values : List Expr}
    (hvalues : EvaluatesAll host operands env (.ok values) last)
    (hquote : last.form? "quote" = some ⟨"quote", .quote⟩) :
    Applies host v operands env result after ↔
      Applies host v (values.map .quoted) last result after := by
  have hquoted : EvaluatesAll host (values.map .quoted) last (.ok values) last :=
    evaluatesAll_quoted hquote values
  constructor
  · refine Applies.congr hv ?_
    intro others final hothers
    obtain ⟨rfl, rfl⟩ := hvalues.unique hothers
    exact hquoted
  · refine Applies.congr hv ?_
    intro others final hothers
    obtain ⟨rfl, rfl⟩ := hquoted.unique hothers
    exact hvalues

end Operands

/-! ## Calls -/

/-- Two evaluations settle alike: one of them settles in a value or an error and leaves an
environment just when the other one does. -/
def SettleAlike (host : Host) (e : Expr) (env : Environment) (other : Expr)
    (start : Environment) : Prop :=
  ∀ result after, Settles (evaluate host · e) env result after ↔
    Settles (evaluate host · other) start result after

section Calls

variable {host : Host} {truth : Truth Expr} {env middle : Environment} {head v : Expr}

/-- A call applies what its head settles in. -/
theorem evaluates_call_iff (htruth : truth.Proper) (hhead : Proper truth head)
    (henv : env.Holds (Proper truth)) (hname : ∀ name, head = .symbol name → env.form? name = none)
    (hresolve : Settles (fun limit => resolve (evaluate host limit) head) env (.ok v) middle)
    (operands : List Expr) (result : Except Error Expr) (after : Environment) :
    Evaluates host (.list (head :: operands)) env result after ↔
      Applies host v operands middle result after := by
  cases hsymbol : head.symbolName? with
  | some name =>
    have heq : head = .symbol name := Expr.symbolName?_eq_some.1 hsymbol
    subst heq
    obtain ⟨hlookup, rfl⟩ := lookup_of_settles_resolve hresolve
    exact evaluates_named_iff (hname name rfl) hlookup
  | none =>
    simp only [resolve, hsymbol] at hresolve
    have hvalue := (settles_evaluate_iff htruth hhead henv).1 hresolve
    exact evaluates_computed_iff (Expr.symbolName?_eq_none.1 hsymbol) hvalue

/-- Operands keep to a closed class under every limit. -/
theorem Closed.keeps_values {P : Expr → Prop} {K : Error → Prop} (hP : Closed host P K)
    {operands : List Expr} (hoperands : ∀ e ∈ operands, P e) (limit : Nat) :
    Keeps P K Set.univ (fun values => ∀ value ∈ values, P value)
      (arguments (evaluate host limit) operands) :=
  keeps_arguments (hP.keeps_evaluate limit) operands hoperands fun _ _ => Set.subset_univ _

theorem proper_quoted (hv : Proper truth v) : Proper truth v.quoted := by
  refine proper_list.2 ?_
  simp [proper_symbol, hv]

theorem proper_quotedCall {values : List Expr} (hv : Proper truth v)
    (hvalues : ∀ value ∈ values, Proper truth value) :
    Proper truth (.list (v.quoted :: values.map .quoted)) := by
  refine proper_list.2 (List.forall_mem_cons.2 ⟨proper_quoted hv, ?_⟩)
  intro quotation hquotation
  obtain ⟨value, hvalue, rfl⟩ := List.mem_map.1 hquotation
  exact proper_quoted (hvalues value hvalue)

end Calls

/-- A call depends on its head and its operands through their values. Take a call whose head is no
name of a special form and settles in a builtin or a lambda literal.

* If the operands, from where the head has led, settle in values, the call settles like the call in
  which the value of the head and these values are quoted, from where the operands have led.
* If an operand fails, from where the head and the operands before it have led, the call fails with
  the same error and leaves what the operand has left.

A special form does the same under every name that the table of special forms has it under, under
every other name that is bound to it, and when it is the head itself. -/
theorem call_by_values (host : Host) {truth : Truth Expr} (htruth : truth.Proper)
    {env : Environment} (henv : env.Holds (Proper truth))
    (hquote : env.form? "quote" = some ⟨"quote", .quote⟩) :
    (∀ head operands v middle, Proper truth (.list (head :: operands)) →
        (∀ name, head = .symbol name → env.form? name = none) →
        Settles (fun limit => resolve (evaluate host limit) head) env (.ok v) middle →
        v.TakesValues →
          (∀ values last,
            Settles (fun limit => arguments (evaluate host limit) operands) middle (.ok values)
                last →
              SettleAlike host (.list (head :: operands)) env
                (.list (v.quoted :: values.map .quoted)) last) ∧
          ∀ before e later values next error last, operands = before ++ e :: later →
            Settles (fun limit => arguments (evaluate host limit) before) middle (.ok values)
                next →
            Settles (evaluate host · e) next (.error error) last →
              Settles (evaluate host · (.list (head :: operands))) env (.error error) last) ∧
      ∀ f operands, Proper truth (.list (.form f :: operands)) →
        (∀ name, env.form? name = some f →
          SettleAlike host (.list (.symbol name :: operands)) env
            (.list (.form f :: operands)) env) ∧
        ∀ name, env.form? name = none → env.lookup name = some (.form f) →
          SettleAlike host (.list (.symbol name :: operands)) env
            (.list (.form f :: operands)) env := by
  have hP : Closed host (Proper truth) OfLanguage := closed_proper host htruth
  constructor
  · intro head operands v middle hlist hname hresolve hv
    have hhead : Proper truth head := proper_list.1 hlist head List.mem_cons_self
    have hoperands : ∀ e ∈ operands, Proper truth e := by
      intro e he
      exact proper_list.1 hlist e (List.mem_cons_of_mem _ he)
    obtain ⟨hmiddle, hgrows, hproper⟩ :=
      hresolve.within (fun limit => hP.keeps_resolve (hP.keeps_evaluate limit) hhead) henv
    have hcall := evaluates_call_iff htruth hhead henv hname hresolve operands
    constructor
    · -- the operands have values, and so have their quotations
      intro values last hvalues result after
      obtain ⟨hlast, hgrows', hvaluesProper⟩ := hvalues.within (hP.keeps_values hoperands) hmiddle
      have hquoted : Proper truth (.list (v.quoted :: values.map .quoted)) :=
        proper_quotedCall hproper hvaluesProper
      have hquote' : last.form? "quote" = some ⟨"quote", .quote⟩ := by
        rw [Environment.form?, hgrows'.forms_eq, hgrows.forms_eq]
        exact hquote
      have hall := (settles_arguments_iff htruth hoperands hmiddle).1 hvalues
      rw [settles_evaluate_iff htruth hlist henv, hcall, applies_quoted_iff hv hall hquote',
        settles_evaluate_iff htruth hquoted hlast,
        evaluates_computed_iff (by simp) (.quoted hquote' v)]
    · -- one of the operands fails
      rintro before e later values next error last rfl hvalues hfails
      have hbefore : ∀ e ∈ before, Proper truth e :=
        fun e he => hoperands e (List.mem_append_left _ he)
      have he : Proper truth e := hoperands e (by simp)
      obtain ⟨hnext, _, _⟩ := hvalues.within (hP.keeps_values hbefore) hmiddle
      have hall := (settles_arguments_iff htruth hbefore hmiddle).1 hvalues
      have hoperand := (settles_evaluate_iff htruth he hnext).1 hfails
      rw [settles_evaluate_iff htruth hlist henv, hcall]
      exact applies_of_fails hv (evaluatesAll_of_fails hall hoperand)
  · intro f operands hlist
    have hoperands : ∀ e ∈ operands, Proper truth e := by
      intro e he
      exact proper_list.1 hlist e (List.mem_cons_of_mem _ he)
    have hnamed : ∀ name, Proper truth (.list (.symbol name :: operands)) := by
      intro name
      exact proper_list.2 (List.forall_mem_cons.2 ⟨proper_symbol name, hoperands⟩)
    -- all three do what the special form does with the operands as they are written
    have hself : ∀ result after, Settles (evaluate host · (.list (.form f :: operands))) env
        result after ↔ Performs host f.rule operands env result after := by
      intro result after
      rw [settles_evaluate_iff htruth hlist henv,
        evaluates_computed_iff (by simp) (.form f env), applies_form_iff]
    constructor
    · intro name hform result after
      rw [hself, settles_evaluate_iff htruth (hnamed name) henv, evaluates_formCall_iff hform]
    · intro name hform hlookup result after
      rw [hself, settles_evaluate_iff htruth (hnamed name) henv,
        evaluates_named_iff hform hlookup, applies_form_iff]

/-- A call of a lambda literal whose operand labels a name that the body mentions: the call of the
quoted literal with the quoted value sees the label as well. A failing operand ends a call of a
builtin, with the label of the operand before it; and the special form itself may be the head of a
quotation. -/
theorem call_by_values_labelled_operand : ∃ env last,
    Dialect.numeric.newEnvironment = .ok env ∧ env.define "z" (.list [.symbol "b"]) = last ∧
      SettleAlike Host.sample
        (.list [Expr.quoted (.lambda ["x"] (.call "cons" [.symbol "x", .symbol "z"])),
          .call "label" [.symbol "z", .quoted (.list [.symbol "b"])]]) env
        (.list [Expr.quoted (.lambda ["x"] (.call "cons" [.symbol "x", .symbol "z"])),
          Expr.quoted (.list [.symbol "b"])]) last ∧
      Settles (evaluate Host.sample · (.call "cons"
        [.call "label" [.symbol "z", .quoted (.list [.symbol "b"])], .call "car" [.number 2]]))
        env (.error (.notAList "car" (.number 2))) last ∧
      SettleAlike Host.sample (.call "quote" [.symbol "a"]) env
        (.list [.form ⟨"quote", .quote⟩, .symbol "a"]) env := by
  obtain ⟨hcalls, hforms⟩ :=
    call_by_values Host.sample Truth.symbolic_proper (Dialect.holds_numeric rfl) rfl
  refine ⟨_, _, rfl, rfl, ?_, ?_, ?_⟩
  · -- the values are those of the head and of the label
    have hproper : Proper .symbolic (.list
        [Expr.quoted (.lambda ["x"] (.call "cons" [.symbol "x", .symbol "z"])),
          .call "label" [.symbol "z", .quoted (.list [.symbol "b"])]]) := by
      simp [proper_list, proper_symbol]
    have hcall := hcalls _ _ _ _ hproper (by simp) ⟨10, rfl, rfl, by simp⟩ (.inr rfl)
    exact hcall.1 [.list [.symbol "b"]] _ ⟨10, rfl, rfl, by simp⟩
  · -- the first operand has a value, the second one fails
    have hproper : Proper .symbolic (.call "cons"
        [.call "label" [.symbol "z", .quoted (.list [.symbol "b"])],
          .call "car" [.number 2]]) := by
      simp [proper_list, proper_symbol, proper_number]
    refine (hcalls _ _ _ _ hproper ?_ ⟨10, rfl, rfl, by simp⟩ (.inl ⟨_, rfl⟩)).2
      [.call "label" [.symbol "z", .quoted (.list [.symbol "b"])]] _ [] [.list [.symbol "b"]] _ _ _
      rfl ⟨10, rfl, rfl, by simp⟩ ⟨10, rfl, rfl, by simp⟩
    intro name hname
    cases hname
    rfl
  · have hform : Proper .symbolic (.form ⟨"quote", .quote⟩) :=
      .leaf (.function (Table.base_subset List.mem_cons_self))
    have hproper : Proper .symbolic (.list [.form ⟨"quote", .quote⟩, .symbol "a"]) := by
      simp [proper_list, proper_symbol, hform]
    exact (hforms _ _ hproper).1 "quote" rfl

end LispDialects
