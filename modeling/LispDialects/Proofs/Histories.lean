import LispDialects.Dialect.Catalogue
import LispDialects.Proofs.Merging
import LispDialects.Proofs.Outcome

/-!
# The table of special forms over a history

An environment is made by binding names, which leaves the table of special forms alone, and by
merging, which puts it in step with what it writes. So the table may come out of step with the
bindings, but it always tells what merging wrote: what is found under a name is the special form
that a merge wrote for the name last, if that was one (`history_tracks_merges`).

The table decides what a call of a name does (`Dispatches`): the special form in it is applied,
whatever the name is bound to, and without one the binding is.
-/

namespace LispDialects.Environment

variable {env : Environment} {name : String}

/-! ## Calls of a name -/

/-- A call of the name applies the callee to the operands as they stand, whatever they are and
however they are evaluated; without a callee the name is undefined. Whether the callee was found in
the table of special forms shows in the record only. -/
def Dispatches (host : Host) (env : Environment) (name : String) (callee : Option Expr) : Prop :=
  ∀ eval operands log, ∃ noted, (noted = log ∨ noted = log.push (.formInvoked name)) ∧
    EvalM.call host eval (.symbol name) operands ⟨env, log⟩ =
      match callee with
      | some v => EvalM.apply host eval v operands ⟨env, noted⟩
      | none => .error (.undefinedSymbol name) ⟨env, noted⟩

/-- A special form in the table is applied. -/
theorem dispatches_form {f : SpecialForm Expr} (hform : env.form? name = some f) (host : Host) :
    env.Dispatches host name (some (.form f)) := by
  intro eval operands log
  refine ⟨log.push (.formInvoked name), .inr rfl, ?_⟩
  simp only [EvalM.call, Expr.symbolName?]
  rw [EvalM.getEnv_bind, hform]
  rfl

/-- Where the table has no special form, the binding is applied. -/
theorem dispatches_lookup (hform : env.form? name = none) (host : Host) :
    env.Dispatches host name (env.lookup name) := by
  intro eval operands log
  refine ⟨log, .inl rfl, ?_⟩
  simp only [EvalM.call, Expr.symbolName?]
  rw [EvalM.getEnv_bind, hform]
  cases env.lookup name <;> rfl

/-- Where the table is in step with the binding of a name, a call applies the binding. -/
theorem InStep.dispatches (h : env.InStep name) (host : Host) :
    env.Dispatches host name (env.lookup name) := by
  cases hform : env.form? name with
  | none => exact dispatches_lookup hform host
  | some f =>
    have hlookup : env.lookup name = some (.form f) := by
      simp [lookup, h.form?_eq_some.1 hform, Expr.isAbsent]
    rw [hlookup]
    exact dispatches_form hform host

/-! ## Well-formed environments -/

/-- The table has special forms for bound names only. -/
structure WellFormed (env : Environment) : Prop where
  registered : ∀ {name f}, env.form? name = some f → env.contains name = true

namespace WellFormed

theorem empty : Environment.empty.WellFormed where
  registered := by
    intro name f hf
    cases hf

/-- Binding a name leaves the table as it is, and every name that is bound stays bound. -/
theorem define (h : env.WellFormed) (name : String) (value : Expr) :
    (env.define name value).WellFormed where
  registered := by
    intro other f hf
    have hother : env.values.contains other = true := h.registered hf
    simp [contains, Environment.define, hother]

/-- A special form is entered for a name that is bound at the same time. -/
theorem install (h : env.WellFormed) (name : String) (value : Expr) :
    (env.install name value).WellFormed where
  registered := by
    intro other f hf
    rw [form?_install] at hf
    rw [contains, values_install, Bindings.contains_insert]
    split at hf
    · rename_i heq
      simp [heq]
    · have hother : env.values.contains other = true := h.registered hf
      simp [hother]

/-- So a merge keeps an environment well-formed, write by write. -/
theorem mergeNamed (h : env.WellFormed) (policy : MergePolicy) (items : List (String × Expr)) :
    (env.mergeNamed policy items).WellFormed := by
  refine mergeNamed_preserves (p := WellFormed) ?_ h policy items
  intro env key value hwell
  exact hwell.install key value

/-- A name that is not bound has no special form either. -/
theorem inStep (h : env.WellFormed) (hname : env.contains name = false) : env.InStep name := by
  have hvalue : env.values.get? name = none := by
    simpa [contains, Bindings.contains] using hname
  have hform : env.form? name = none := by
    refine Option.eq_none_iff_forall_ne_some.2 ?_
    intro f hf
    rw [h.registered hf] at hname
    cases hname
  rw [InStep, hvalue, hform]
  rfl

end WellFormed

/-! ## Operations -/

/-- What is done with an environment from outside. -/
inductive Operation where
  /-- What host data names is bound to a value; this fails for data that is no text. -/
  | define (key : Datum Expr) (value : Expr)
  /-- Named values are merged; this fails at the first key that is no text. -/
  | merge (policy : MergePolicy) (entries : List (Datum Expr × Expr))
  /-- The bindings of another environment are merged. -/
  | mergeFrom (policy : MergePolicy) (other : Environment)
  /-- A copy is made, and taken from here on. -/
  | copy

/-- The environment that an operation leaves, also when it fails. -/
def perform (env : Environment) : Operation → Environment
  | .define key value =>
    match env.defineKey key value with
    | .ok after => after
    | .error _ => env
  | .merge policy entries => env.merged policy entries
  | .mergeFrom policy other => env.merged policy other.toEntries
  | .copy => env

/-- The named values that an operation merges into an environment, in order, but for those that it
passes over. -/
def writes (env : Environment) : Operation → List (String × Expr)
  | .merge policy entries => written policy (named entries) env
  | .mergeFrom policy other => written policy (named other.toEntries) env
  | .define _ _ | .copy => []

/-- The environment that a sequence of operations leaves. -/
def performAll (env : Environment) (operations : List Operation) : Environment :=
  operations.foldl perform env

/-- The named values that a sequence of operations merges into an environment. -/
def allWrites (env : Environment) : List Operation → List (String × Expr)
  | [] => []
  | operation :: rest => env.writes operation ++ (env.perform operation).allWrites rest

/-- An operation keeps an environment well-formed, also one that fails half-way. -/
theorem WellFormed.perform (h : env.WellFormed) (operation : Operation) :
    (env.perform operation).WellFormed := by
  cases operation with
  | define key value =>
    cases key with
    | text name => exact h.define name value
    | _ => exact h
  | merge policy entries =>
    have hmerged := h.mergeNamed policy (named entries)
    rwa [← merged_eq_mergeNamed] at hmerged
  | mergeFrom policy other =>
    have hmerged := h.mergeNamed policy (named other.toEntries)
    rwa [← merged_eq_mergeNamed] at hmerged
  | copy => exact h

/-- So does a sequence of operations. -/
theorem WellFormed.performAll (h : env.WellFormed) (operations : List Operation) :
    (env.performAll operations).WellFormed := by
  induction operations generalizing env with
  | nil => exact h
  | cons operation rest ih => exact ih (h.perform operation)

/-- After one operation the special form of a name is what the operation merged for it last, or the
same as before. -/
theorem form?_perform (env : Environment) (operation : Operation) (name : String) :
    (env.perform operation).form? name =
      (lastWritten name (env.writes operation)).elim (env.form? name) Expr.form? := by
  cases operation with
  | define key value => cases key <;> rfl
  | merge policy entries =>
    rw [perform, merged_eq_mergeNamed]
    exact form?_mergeNamed policy _ env name
  | mergeFrom policy other =>
    rw [perform, merged_eq_mergeNamed]
    exact form?_mergeNamed policy _ env name
  | copy => rfl

/-- After any number of operations it is what was merged for the name last, over all of them. -/
theorem form?_performAll (env : Environment) (operations : List Operation) (name : String) :
    (env.performAll operations).form? name =
      (lastWritten name (env.allWrites operations)).elim (env.form? name) Expr.form? := by
  induction operations generalizing env with
  | nil => rfl
  | cons operation rest ih =>
    have hrest : (env.performAll (operation :: rest)).form? name =
        (lastWritten name ((env.perform operation).allWrites rest)).elim
          ((env.perform operation).form? name) Expr.form? := ih (env.perform operation)
    rw [hrest, allWrites, lastWritten_append, form?_perform]
    -- what the later operations have written comes before what the first one has
    cases lastWritten name ((env.perform operation).allWrites rest) <;> rfl

/-- Binding a name again and again leaves the table as it is. -/
theorem form?_defines (env : Environment) (key : Datum Expr) (values : List Expr)
    (name : String) :
    (env.performAll (values.map (.define key ·))).form? name = env.form? name := by
  rw [form?_performAll]
  have hwrites : env.allWrites (values.map (.define key ·)) = [] := by
    induction values generalizing env with
    | nil => rfl
    | cons value rest ih => exact ih (env.perform (.define key value))
  rw [hwrites]
  rfl

/-! ## Histories -/

/-- The special form of a name after any history of an environment that was empty at first. Only
bound names have one, and it is the value that a merge wrote for the name last, where that value is
a special form; what a merge passes over does not count, nor does what is bound without a merge.

Merging one value for a name makes calls of the name apply its binding. Binding the name
afterwards, any number of times, has no part in it when that value was a special form: it is
applied all the same. Any other value gives way to the new binding. -/
theorem history_tracks_merges (host : Host) (operations : List Operation) :
    let env := Environment.empty.performAll operations
    (∀ name f, env.form? name = some f → env.contains name = true) ∧
      (∀ name f, env.form? name = some f ↔
        lastWritten name (Environment.empty.allWrites operations) = some (.form f)) ∧
      ∀ policy name value, ¬(policy = .keep ∧ env.contains name = true) →
        let next := env.perform (.merge policy [(.text name, value)])
        next.Dispatches host name (next.lookup name) ∧
          ∀ values : List Expr,
            let later := next.performAll (values.map (.define (.text name) ·))
            (∀ f, value = .form f → later.Dispatches host name (some value)) ∧
              (value.form? = none → later.Dispatches host name (later.lookup name)) := by
  intro env
  have hwell : env.WellFormed := WellFormed.empty.performAll operations
  refine ⟨?_, ?_, ?_⟩
  · intro name f hf
    exact hwell.registered hf
  · intro name f
    rw [form?_performAll]
    cases lastWritten name (Environment.empty.allWrites operations) with
    | none =>
      -- the empty environment has no special form
      constructor <;> intro hf <;> cases hf
    | some v => simp
  · intro policy name value hwrites next
    have hnext : next = env.install name value := if_neg hwrites
    constructor
    · have hstep : next.InStep name := by
        rw [hnext]
        exact InStep.install_self env name value
      exact hstep.dispatches host
    · intro values later
      -- binding the name leaves the table as the merge has left it
      have hform : later.form? name = value.form? := by
        rw [form?_defines, hnext, form?_install, if_pos rfl]
      constructor
      · rintro f rfl
        exact dispatches_form hform host
      · intro hvalue
        exact dispatches_lookup (hform.trans hvalue) host

/-- A history with all operations in it, among them a merge that ends at a key that is no text. The
special form that it merged for a name stays when the name is bound and a merge passes over it; what
stands behind the failing key is not written. When the name is overwritten, calls follow the new
special form, whatever is bound afterwards. -/
theorem history_tracks_merges_failing :
    let quote : SpecialForm Expr := ⟨"quote", .quote⟩
    let label : SpecialForm Expr := ⟨"label", .label⟩
    let operations : List Operation :=
      [.merge .keep [(.text "quote", .form quote), (.text "car", .builtin ⟨"car", .car⟩)],
        .define (.text "quote") (.symbol "x"),
        .merge .keep [(.text "quote", .number 1), (.text "same", .form quote),
          (.integer 1, .number 1), (.text "late", .form quote)],
        .mergeFrom .overwrite (Environment.empty.install "car" (.form quote)), .copy]
    let env := Environment.empty.performAll operations
    env.form? "quote" = some quote ∧ env.lookup "quote" = some (.symbol "x") ∧
      env.form? "car" = some quote ∧ env.form? "late" = none ∧ env.contains "same" = true ∧
      ((env.perform (.merge .overwrite [(.text "quote", .form label)])).performAll
        [.define (.text "quote") (.number 1), .define (.text "quote") (.number 2)]).Dispatches
          Host.sample "quote" (some (.form label)) := by
  intro quote label operations env
  obtain ⟨hregistered, hform, hnext⟩ := history_tracks_merges Host.sample operations
  have hquote : env.form? "quote" = some quote := (hform "quote" quote).2 rfl
  have hcar : env.form? "car" = some quote := (hform "car" quote).2 rfl
  have hsame : env.contains "same" = true := hregistered "same" quote rfl
  refine ⟨hquote, rfl, hcar, rfl, hsame, ?_⟩
  have hlater := (hnext .overwrite "quote" (.form label) (by simp)).2 [.number 1, .number 2]
  exact hlater.1 label rfl

/-- Only special forms outlast a binding of their name. When a builtin is merged and the name is
bound to another one, a call of the name applies the second one. -/
theorem history_rebound_builtin :
    let operations : List Operation := [.merge .keep [(.text "f", .builtin ⟨"car", .car⟩)],
      .define (.text "f") (.builtin ⟨"cdr", .cdr⟩)]
    let env := Environment.empty.performAll operations
    lastWritten "f" (Environment.empty.allWrites operations) = some (.builtin ⟨"car", .car⟩) ∧
      ¬ env.Dispatches Host.sample "f" (some (.builtin ⟨"car", .car⟩)) ∧
      env.Dispatches Host.sample "f" (some (.builtin ⟨"cdr", .cdr⟩)) := by
  intro operations env
  refine ⟨rfl, ?_, dispatches_lookup rfl Host.sample⟩
  intro hfirst
  -- the empty list has a rest and no first item
  obtain ⟨noted, _, hcall⟩ := hfirst pure [.list []] #[]
  cases hcall

end LispDialects.Environment
