import LispDialects.Dialect.Basic
import LispDialects.Proofs.Merging
import LispDialects.Proofs.Tables

/-!
# Composition of dialects

A draft is extended by one table after the other and may be built in between, any number of times.
A dialect that was built keeps the tables that the draft had then, and its new environments are
decided by these tables alone: each name has the value that the first table with the name gives
it, the names are listed in the order of their first appearance, and the special forms are those
that are bound (`Dialect.Composed`).

So further tables only ever append names (`Dialect.extends_of_named`). All this is
`composed_of_builds`, for every sequence of steps.
-/

namespace LispDialects

/-! ## Tables -/

namespace Table

/-- All keys of a table are texts, under the truth coding. -/
def IsNamed (table : Table) (truth : Truth Expr) : Prop :=
  ∀ entry ∈ table truth, entry.1.text?.isSome = true

/-- The value that a table gives a name, under the truth coding. -/
def value? (table : Table) (truth : Truth Expr) (name : String) : Option Expr :=
  (Environment.named (table truth)).lookup name

def names (table : Table) (truth : Truth Expr) : List String :=
  (Environment.named (table truth)).map (·.1)

theorem base_isNamed (truth : Truth Expr) : base.IsNamed truth := by
  intro entry hentry
  simp only [base, List.mem_cons, List.not_mem_nil, or_false] at hentry
  rcases hentry with rfl | rfl | rfl | rfl | rfl <;> rfl

theorem boolean_isNamed (truth : Truth Expr) : boolean.IsNamed truth := by
  intro entry hentry
  simp only [boolean, List.mem_cons, List.not_mem_nil, or_false] at hentry
  rcases hentry with rfl | rfl | rfl <;> rfl

theorem numeric_isNamed (truth : Truth Expr) : numeric.IsNamed truth := by
  intro entry hentry
  simp only [numeric, List.mem_cons, List.not_mem_nil, or_false] at hentry
  rcases hentry with rfl | rfl | rfl | rfl | rfl <;> rfl

end Table

/-! ## Steps of a draft -/

namespace Draft

/-- What is done with a draft: it is extended, or a dialect is built of it. -/
inductive Step where
  | extend (table : Table)
  | build

def Step.table? : Step → Option Table
  | .extend table => some table
  | .build => none

def Step.isBuild : Step → Bool
  | .extend _ => false
  | .build => true

/-- The dialects that the steps build of a draft, in order. -/
def builds : Draft → List Step → List Dialect
  | _, [] => []
  | draft, .extend table :: steps => builds (draft.extend table) steps
  | draft, .build :: steps => draft.build :: builds draft steps

variable {draft : Draft}

/-- There are as many dialects as steps that build one. -/
theorem length_builds (draft : Draft) (steps : List Step) :
    (draft.builds steps).length = steps.countP Step.isBuild := by
  induction steps generalizing draft with
  | nil => rfl
  | cons step steps ih =>
    cases step with
    | extend table =>
      rw [builds, ih, List.countP_cons_of_neg (by simp [Step.isBuild])]
    | build =>
      rw [builds, List.length_cons, ih, List.countP_cons_of_pos (by simp [Step.isBuild])]

/-- Further steps build of the draft as it has been extended before, and leave the dialects that
were built. -/
theorem builds_append (draft : Draft) (before after : List Step) :
    draft.builds (before ++ after) =
      draft.builds before ++
        ((before.filterMap Step.table?).foldl extend draft).builds after := by
  induction before generalizing draft with
  | nil => rfl
  | cons step before ih =>
    cases step with
    | extend table => exact ih (draft.extend table)
    | build => exact congrArg (draft.build :: ·) (ih draft)

/-- The dialect that a step builds is that of the draft with the tables that the steps before it
have extended the draft by. -/
theorem builds_getElem? (draft : Draft) (before after : List Step) :
    (draft.builds (before ++ .build :: after))[before.countP Step.isBuild]? =
      some ((before.filterMap Step.table?).foldl extend draft).build := by
  rw [builds_append, ← length_builds draft before, List.getElem?_append_right le_rfl]
  simp [builds]

end Draft

/-! ## New environments -/

namespace Dialect

/-- An environment as the tables of a dialect compose it. -/
structure Composed (dialect : Dialect) (env : Environment) : Prop where
  /-- A name has the value that the first table with the name gives it. -/
  value : ∀ name, env.values.get? name =
    dialect.tables.findSome? fun table => table.value? dialect.truth name
  /-- The names are listed in the order of their first appearance. -/
  order : env.values.names =
    (dialect.tables.flatMap fun table => table.names dialect.truth).eraseDups
  /-- The special forms are those that are bound. -/
  form : ∀ name f, env.form? name = some f ↔ env.values.get? name = some (.form f)

/-- The named values of tables, one table after the other. -/
def items (truth : Truth Expr) (tables : List Table) : List (String × Expr) :=
  tables.flatMap fun table => Environment.named (table truth)

/-- The value of a name among all of them is the one that the first table with the name gives. -/
theorem lookup_items (truth : Truth Expr) (tables : List Table) (name : String) :
    (items truth tables).lookup name =
      tables.findSome? fun table => table.value? truth name := by
  induction tables with
  | nil => rfl
  | cons table rest ih =>
    have hcons : items truth (table :: rest) =
      Environment.named (table truth) ++ items truth rest := rfl
    rw [hcons, List.lookup_append, ih, List.findSome?_cons]
    show (table.value? truth name).or _ = _
    cases table.value? truth name <;> rfl

theorem names_items (truth : Truth Expr) (tables : List Table) :
    (items truth tables).map (·.1) = tables.flatMap fun table => table.names truth :=
  List.map_flatMap

/-- Merging tables is merging their named values, one after the other. -/
theorem mergeTables_of_named {truth : Truth Expr} {tables : List Table}
    (h : ∀ table ∈ tables, table.IsNamed truth) (env : Environment) :
    mergeTables truth tables env = .ok () (env.mergeNamed .keep (items truth tables)) := by
  induction tables generalizing env with
  | nil => rfl
  | cons table rest ih =>
    have hfirst := Environment.merge_of_named (h table List.mem_cons_self) .keep env
    have hrest := ih (fun table htable => h table (List.mem_cons_of_mem _ htable))
      (env.mergeNamed .keep (Environment.named (table truth)))
    -- the rest is merged into what the first table has left
    refine mergeTables_cons.2 ⟨_, hfirst, hrest.trans ?_⟩
    simp only [Environment.mergeNamed, items, List.flatMap_cons, List.foldl_append]

/-- A new environment is the merge of everything that the tables name. -/
theorem newEnvironment_of_named {dialect : Dialect}
    (h : ∀ table ∈ dialect.tables, table.IsNamed dialect.truth) :
    dialect.newEnvironment =
      .ok (Environment.empty.mergeNamed .keep (items dialect.truth dialect.tables)) := by
  have hmerge := mergeTables_of_named h .empty
  exact newEnvironment_eq_ok.2 hmerge

/-- A dialect whose tables have texts for keys makes the environment that they compose. -/
theorem composed_of_named {dialect : Dialect}
    (h : ∀ table ∈ dialect.tables, table.IsNamed dialect.truth) :
    ∃ env, dialect.newEnvironment = .ok env ∧ dialect.Composed env := by
  refine ⟨_, newEnvironment_of_named h, ?_, ?_, ?_⟩
  · intro name
    rw [Environment.get?_mergeNamed_keep, lookup_items]
    rfl
  · have hempty : Environment.empty.values.names = ([] : List String).eraseDups := rfl
    rw [Environment.names_mergeNamed_keep _ hempty, List.nil_append, names_items]
  · intro name f
    -- nothing is bound at first, and merging takes no name out of step
    have hstep := (Environment.InStep.empty name).mergeNamed .keep
      (items dialect.truth dialect.tables)
    exact hstep.form?_eq_some

/-- So a new environment of such a dialect is composed by its tables. -/
theorem composed_of_new {dialect : Dialect}
    (h : ∀ table ∈ dialect.tables, table.IsNamed dialect.truth) {env : Environment}
    (hnew : dialect.newEnvironment = .ok env) : dialect.Composed env := by
  obtain ⟨other, hother, hcomposed⟩ := composed_of_named h
  rw [hnew, Except.ok.injEq] at hother
  rw [hother]
  exact hcomposed

/-- The registered dialects are such dialects. -/
theorem isNamed_registered {dialect : Dialect} (h : dialect ∈ registered) :
    ∀ table ∈ dialect.tables, table.IsNamed dialect.truth := by
  intro table htable
  have hstandard : table = Table.base ∨ table = Table.boolean ∨ table = Table.numeric := by
    simp only [registered, List.mem_cons, List.not_mem_nil, or_false] at h
    rcases h with rfl | rfl | rfl
    all_goals
      simp only [minimal, boolean, numeric, Draft.build, Draft.extend, List.nil_append,
        List.cons_append, List.mem_cons, List.not_mem_nil, or_false] at htable
      grind
  rcases hstandard with rfl | rfl | rfl
  · exact Table.base_isNamed _
  · exact Table.boolean_isNamed _
  · exact Table.numeric_isNamed _

/-- The dialect with further tables behind its own. -/
def extend (dialect : Dialect) (further : List Table) : Dialect :=
  { dialect with tables := dialect.tables ++ further }

/-- With further tables, a dialect makes an environment that adds names behind those there are and
changes nothing else. -/
theorem extends_of_named {dialect : Dialect} {further : List Table} {env : Environment}
    (hnew : dialect.newEnvironment = .ok env)
    (h : ∀ table ∈ further, table.IsNamed dialect.truth) :
    ∃ more, (dialect.extend further).newEnvironment = .ok more ∧ env.Extends more ∧
      env.values.entries <+: more.values.entries := by
  have hmerge := mergeTables_of_named h env
  refine ⟨_, ?_, extends_mergeTables hmerge, Environment.entries_prefix_mergeNamed_keep _ env⟩
  rw [newEnvironment_eq_ok] at hnew ⊢
  show mergeTables dialect.truth (dialect.tables ++ further) .empty = _
  rw [mergeTables_append]
  simpa only [bind, EStateM.bind, hnew] using hmerge

end Dialect

/-! ## Histories -/

/-- Composition over a whole history of extending and building. There is one dialect for every step
that builds one, and it has the base table and then exactly the tables that the steps before have
extended the draft by, whatever steps come later. Its new environments are composed by these
tables: the first table with a name gives its value, the names stand in the order of their first
appearance, and the special forms are those that are bound.

Further tables keep every value, special form and place, and append what names they add. -/
theorem composed_of_builds (name : String) (vocabulary : Vocabulary) (truth : Truth Expr)
    (steps : List Draft.Step)
    (hnamed : ∀ table, .extend table ∈ steps → table.IsNamed truth) :
    let built := Draft.builds { name, vocabulary, truth } steps
    built.length = steps.countP Draft.Step.isBuild ∧
      ∀ before after, steps = before ++ .build :: after →
        let dialect : Dialect :=
          { name, vocabulary, truth, tables := Table.base :: before.filterMap Draft.Step.table? }
        built[before.countP Draft.Step.isBuild]? = some dialect ∧
          ∃ env, dialect.newEnvironment = .ok env ∧ dialect.Composed env ∧
            ∀ further : List Table, (∀ table ∈ further, table.IsNamed truth) →
              ∃ more, (dialect.extend further).newEnvironment = .ok more ∧ env.Extends more ∧
                env.values.entries <+: more.values.entries := by
  intro built
  refine ⟨Draft.length_builds _ steps, ?_⟩
  rintro before after rfl
  intro dialect
  have hdialect : ((before.filterMap Draft.Step.table?).foldl Draft.extend
      { name, vocabulary, truth }).build = dialect := by
    rw [Draft.foldl_extend]
    rfl
  -- the base table is named, and every other table came with a step
  have htables : ∀ table ∈ dialect.tables, table.IsNamed truth := by
    intro table htable
    rcases List.mem_cons.1 htable with rfl | hextension
    · exact Table.base_isNamed truth
    · obtain ⟨step, hstep, htable⟩ := List.mem_filterMap.1 hextension
      cases step with
      | extend extension =>
        cases htable
        exact hnamed _ (List.mem_append_left _ hstep)
      | build => cases htable
  constructor
  · rw [← hdialect]
    exact Draft.builds_getElem? _ before after
  · obtain ⟨env, hnew, hcomposed⟩ := Dialect.composed_of_named htables
    refine ⟨env, hnew, hcomposed, ?_⟩
    intro further hfurther
    exact Dialect.extends_of_named hnew hfurther

/-- A table that is made for the truth coding names the conditional again, as a builtin, and a
special form of its own. It comes too late for the name of the conditional, and too late for the
dialect that was built before. -/
theorem composed_of_builds_overlapping :
    let table : Table := fun truth =>
      [(.text "if", .builtin ⟨"if", .host "override"⟩), (.text "yes", truth.yes),
        (.text "second", .form ⟨"second", .host "second"⟩)]
    let built := Draft.builds { name := "layered" }
      [.extend Table.boolean, .build, .extend table, .build]
    built.map (·.tables.length) = [2, 3] ∧
      ∃ dialect env, built[1]? = some dialect ∧ dialect.newEnvironment = .ok env ∧
        env.values.get? "if" = some (.form ⟨"if", .cond .symbolic⟩) ∧
        env.values.get? "yes" = some (.symbol "T") ∧
        env.form? "second" = some ⟨"second", .host "second"⟩ ∧
        env.values.names =
          ["quote", "label", "car", "cdr", "cons", "if", "eq", "atom", "yes", "second"] := by
  intro table built
  have hnamed : ∀ extension, Draft.Step.extend extension ∈
      [.extend Table.boolean, .build, .extend table, .build] →
        extension.IsNamed Truth.symbolic := by
    intro extension hextension entry hentry
    simp only [List.mem_cons, List.not_mem_nil, or_false, Draft.Step.extend.injEq,
      reduceCtorEq, false_or] at hextension
    rcases hextension with rfl | rfl
    · simp only [Table.boolean, List.mem_cons, List.not_mem_nil, or_false] at hentry
      rcases hentry with rfl | rfl | rfl <;> rfl
    · simp only [table, List.mem_cons, List.not_mem_nil, or_false] at hentry
      rcases hentry with rfl | rfl | rfl <;> rfl
  obtain ⟨_, hbuilt⟩ := composed_of_builds "layered" .text .symbolic _ hnamed
  obtain ⟨hdialect, env, hnew, hcomposed, _⟩ :=
    hbuilt [.extend Table.boolean, .build, .extend table] [] rfl
  refine ⟨rfl, _, env, hdialect, hnew, ?_, ?_, ?_, ?_⟩
  · exact hcomposed.value "if"
  · exact hcomposed.value "yes"
  · rw [hcomposed.form]
    exact hcomposed.value "second"
  · rw [hcomposed.order]
    rfl

end LispDialects
