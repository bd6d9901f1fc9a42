import LispDialects.Dialect.Catalogue
import LispDialects.Proofs.Correspondence
import Mathlib.Data.Set.Insert

/-!
# Bindings that a program does not mention

A run looks up the symbols that it comes by, and it comes by no others than those of the program, of
what is bound to such symbols, and of the truth coding. What any other name is bound to makes no
difference: two environments that agree for all but such names give the same result, and they agree
again afterwards (`evaluate_unaffected`).

So it is safe to extend a dialect. A further table adds names, and a program that mentions none of
them means what it meant before.
-/

namespace LispDialects

variable {truth : Truth Expr} {names : Set String}

/-! ## Environments that agree in part -/

namespace Environment

/-- Two environments that have the same values and special forms for every name outside of a set,
in whatever order. -/
structure AgreeOutside (names : Set String) (env other : Environment) : Prop where
  lookup : ∀ name ∉ names, other.lookup name = env.lookup name
  form : ∀ name ∉ names, other.form? name = env.form? name

/-- An environment with the same entries as another one for every name of a set. -/
structure SameOn (names : Set String) (before env : Environment) : Prop where
  value : ∀ name ∈ names, env.values.get? name = before.values.get? name
  form : ∀ name ∈ names, env.form? name = before.form? name

/-- The names that are bound in another environment and not in this one. -/
def added (env other : Environment) : Set String :=
  {name | env.contains name = false ∧ other.contains name = true}

variable {before env other : Environment}

/-- Environments that agree do so after the same binding. -/
theorem AgreeOutside.define (h : env.AgreeOutside names other) (name : String) (value : Expr) :
    (env.define name value).AgreeOutside names (other.define name value) where
  lookup := by
    intro asked hasked
    rw [lookup_define, lookup_define, h.lookup asked hasked]
  form := h.form

theorem SameOn.refl (names : Set String) (env : Environment) : env.SameOn names env where
  value _ _ := rfl
  form _ _ := rfl

/-- Binding a name outside of a set leaves the entries of the set as they are. -/
theorem SameOn.define (h : before.SameOn names env) {name : String} (hname : name ∉ names)
    (value : Expr) : before.SameOn names (env.define name value) where
  value := by
    intro asked hasked
    have hne : name ≠ asked := by
      rintro rfl
      exact hname hasked
    rw [define_get?, if_neg hne]
    exact h.value asked hasked
  form := h.form

/-- What is the same but for the names of a set agrees outside of the set. -/
theorem SameOn.agreeOutside (h : env.SameOn namesᶜ other) : env.AgreeOutside names other where
  lookup := by
    intro name hname
    rw [lookup, lookup, h.value name hname]
  form := h.form

/-- What extends an environment has the same entries but for the names that it adds. -/
theorem Extends.sameOn (h : env.Extends other) : env.SameOn (env.added other)ᶜ other := by
  have hsame : ∀ name ∉ env.added other,
      other.values.get? name = env.values.get? name ∧ other.form? name = env.form? name := by
    intro name hname
    refine h name ?_
    by_cases hbound : env.contains name = true
    · exact .inl hbound
    · -- a name that is in neither environment has no entry in either
      have hfree : env.contains name = false := by simpa using hbound
      by_contra hother
      simp only [not_or, Bool.not_eq_false] at hother
      exact hname ⟨hfree, hother.2⟩
  constructor
  · intro name hname
    exact (hsame name hname).1
  · intro name hname
    exact (hsame name hname).2

/-! ## Merging the same tables into both -/

/-- Writing an entry makes a difference for its own name only. -/
theorem sameOn_install (env : Environment) (name : String) (value : Expr) :
    env.SameOn {name}ᶜ (env.install name value) where
  value := by
    intro asked hasked
    have hne : name ≠ asked := Ne.symm hasked
    simp [install, hne]
  form := by
    intro asked hasked
    have hne : name ≠ asked := Ne.symm hasked
    cases value <;> simp [form?, install, hne]

/-- Entries that are the same stay so when one is written to both environments. -/
theorem SameOn.install (h : env.SameOn names other) (name : String) (value : Expr) :
    (env.install name value).SameOn names (other.install name value) where
  value := by
    intro asked hasked
    have hvalue := h.value asked hasked
    simp only [Environment.install, Bindings.get?_insert, hvalue]
  form := by
    intro asked hasked
    have hform : other.forms.get? asked = env.forms.get? asked := h.form asked hasked
    cases value <;>
      simp only [form?, Environment.install, Bindings.get?_insert, Bindings.get?_erase, hform]

theorem SameOn.mono {fewer : Set String} (h : env.SameOn names other) (hsub : fewer ⊆ names) :
    env.SameOn fewer other where
  value name hname := h.value name (hsub hname)
  form name hname := h.form name (hsub hname)

theorem SameOn.symm (h : env.SameOn names other) : other.SameOn names env where
  value name hname := (h.value name hname).symm
  form name hname := (h.form name hname).symm

theorem SameOn.trans (h₁ : before.SameOn names env) (h₂ : env.SameOn names other) :
    before.SameOn names other where
  value name hname := (h₂.value name hname).trans (h₁.value name hname)
  form name hname := (h₂.form name hname).trans (h₁.form name hname)

/-- A name outside of a set can be written or passed over without a difference for the set. -/
theorem sameOn_mergeEntry {name : String} (hname : name ∉ names) (env : Environment)
    (value : Expr) : env.SameOn names (env.mergeEntry .keep name value) := by
  unfold mergeEntry
  split
  · exact .refl names env
  · refine (sameOn_install env name value).mono ?_
    rintro asked hasked rfl
    exact hname hasked

/-- Whether an entry is written or passed over is decided by entries that are the same. -/
theorem SameOn.mergeEntry (h : env.SameOn names other) (name : String) (value : Expr) :
    (env.mergeEntry .keep name value).SameOn names (other.mergeEntry .keep name value) := by
  by_cases hname : name ∈ names
  · have hcontains : other.contains name = env.contains name := by
      rw [contains, contains, Bindings.contains, Bindings.contains, h.value name hname]
    unfold Environment.mergeEntry
    rw [hcontains]
    -- both environments have the name already, or it is written to both
    split
    · exact h
    · exact h.install name value
  · -- what is done to either environment makes no difference for the set
    have hleft := sameOn_mergeEntry hname env value
    have hright := sameOn_mergeEntry hname other value
    exact (hleft.symm.trans h).trans hright

/-- Two merges of the same entries keep what is the same. -/
theorem SameOn.merge {entries : List (Datum Expr × Expr)} {after after' : Environment}
    (h : env.SameOn names other) (hmerge : Environment.merge .keep entries env = .ok () after)
    (hmerge' : Environment.merge .keep entries other = .ok () after') :
    after.SameOn names after' := by
  induction entries generalizing env other with
  | nil =>
    cases hmerge
    cases hmerge'
    exact h
  | cons entry rest ih =>
    rcases entry with ⟨key, value⟩
    cases key with
    | text name => exact ih (h.mergeEntry name value) hmerge hmerge'
    | _ => cases hmerge

/-- So do two merges of the same tables. -/
theorem SameOn.mergeTables {tables : List Table} {after after' : Environment}
    (h : env.SameOn names other) (hmerge : Dialect.mergeTables truth tables env = .ok () after)
    (hmerge' : Dialect.mergeTables truth tables other = .ok () after') :
    after.SameOn names after' := by
  induction tables generalizing env other with
  | nil =>
    cases hmerge
    cases hmerge'
    exact h
  | cons table rest ih =>
    obtain ⟨middle, hfirst, hlater⟩ := Dialect.mergeTables_cons.1 hmerge
    obtain ⟨middle', hfirst', hlater'⟩ := Dialect.mergeTables_cons.1 hmerge'
    have hmiddle : middle.SameOn names middle' := h.merge hfirst hfirst'
    exact ih hmiddle hlater hlater'

end Environment

/-! ## The two runs -/

/-- How the environments of the two runs go together: they agree but for the names of the set, they
have only what is made without these names for all others, and each of them still has the entries
that it began with for the names of the set. -/
structure Apart (truth : Truth Expr) (names : Set String) (start start' env other : Environment) :
    Prop where
  agree : env.AgreeOutside names other
  value : ∀ name ∉ names, ∀ v, env.lookup name = some v → Expr.Over (LeafOutside truth names) v
  form : ∀ name ∉ names, ∀ f, env.form? name = some f → Proper truth (.form f)
  own : start.SameOn names env
  own' : start'.SameOn names other

/-- Both runs bind a name outside of the set to the same value. -/
theorem Apart.define {start start' env other : Environment}
    (h : Apart truth names start start' env other) {name : String} (hname : name ∉ names)
    {v : Expr} (hv : Expr.Over (LeafOutside truth names) v) :
    Apart truth names start start' (env.define name v) (other.define name v) where
  agree := h.agree.define name v
  value := by
    intro asked hasked w hw
    rw [Environment.lookup_define] at hw
    split at hw
    · have hwv := (Option.filter_eq_some_iff.1 hw).1
      cases hwv
      exact hv
    · exact h.value asked hasked w hw
  form := h.form
  own := h.own.define hname v
  own' := h.own'.define hname v

/-- A run, and the same run among other bindings of the names. -/
def apart (truth : Truth Expr) (names : Set String) (start start' : Environment) :
    Correspondence where
  rename := id
  leaf := LeafOutside truth names
  env := Apart truth names start start'
  error a b := b = a

/-- Neither run asks for a name of the set, so the two go along with each other. -/
theorem apart_sound (htruth : truth.Proper) (hnames : ∀ name ∈ names, ¬ truth.Mentions name)
    (start start' : Environment) : (apart truth names start start').Sound truth where
  language := .outside htruth hnames
  injective := Function.injective_id
  lambda := rfl
  fixed := .id truth
  value henv hname hvalue := henv.value _ (leafOutside_symbol.1 hname) _ hvalue
  lookup := by
    intro env other name henv hname
    have hlookup := henv.agree.lookup name (leafOutside_symbol.1 hname)
    exact hlookup.trans (Expr.map_rename_id _).symm
  proper henv hname hform := henv.form _ (leafOutside_symbol.1 hname) _ hform
  form henv hname := henv.agree.form _ (leafOutside_symbol.1 hname)
  define := by
    intro env other name v henv hname hv
    have hdefined := henv.define (leafOutside_symbol.1 hname) hv
    have hsame : v.rename id = v := v.rename_id
    show Apart truth names start start' (env.define name v) (other.define name (v.rename id))
    rwa [hsame]
  error _ := (Error.rename_id _)

/-! ## Answers -/

/-- An expression means the same in two environments: under the limit it has the same result, a
value or an error, the environments agree for all other names afterwards, and each of them has
its own entries for the names of the set. -/
structure Unaffected (host : Host) (limit : Nat) (e : Expr) (names : Set String)
    (env other : Environment) : Prop where
  result : ((evaluate host limit e).answer other).result =
    ((evaluate host limit e).answer env).result
  outside : ((evaluate host limit e).answer env).env.AgreeOutside names
    ((evaluate host limit e).answer other).env
  own : env.SameOn names ((evaluate host limit e).answer env).env
  own' : other.SameOn names ((evaluate host limit e).answer other).env

/-- Names that occur neither in the program nor in what is bound to other names nor in the truth
coding make no difference. -/
theorem unaffected (host : Host) (limit : Nat) (htruth : truth.Proper) {e : Expr}
    (he : Proper truth e) (hprogram : e.Avoids names) {env other : Environment}
    (henv : env.Holds (Proper truth))
    (hvalues : ∀ name ∉ names, ∀ v, env.lookup name = some v → v.Avoids names)
    (hnames : ∀ name ∈ names, ¬ truth.Mentions name) (hagree : env.AgreeOutside names other) :
    Unaffected host limit e names env other := by
  have hsound := apart_sound htruth hnames env other
  have hrelates := hsound.relates_evaluate rfl host limit (over_leafOutside he hprogram)
  have hstart : Apart truth names env other env other := by
    refine ⟨hagree, ?_, ?_, .refl names env, .refl names other⟩
    · intro name hname v hv
      exact over_leafOutside (henv.lookup hv) (hvalues name hname v hv)
    · intro name _ f hf
      exact henv.form hf
  have hsame : e.rename (apart truth names env other).rename = e := e.rename_id
  rw [hsame] at hrelates
  obtain ⟨hresult, hafter, _⟩ := hrelates.answer hstart
  exact ⟨hresult.eq_of_id rfl fun _ _ => id, hafter.agree, hafter.own, hafter.own'⟩

/-- Bindings that a program does not mention do not influence it. Let no name of a set occur in the
program, in what is bound to a name outside of the set, or in the truth coding. Then the program
means the same in all environments that agree outside of the set, whatever they have for its names.

So the extension of a dialect by a table is conservative, also when further tables follow. A program
that mentions none of the names that the table adds means the same in the new environment of either
dialect, with the table or without it. -/
theorem evaluate_unaffected (host : Host) (limit : Nat) (htruth : truth.Proper) {e : Expr}
    (he : Proper truth e) :
    (∀ (names : Set String) (env other : Environment), env.Holds (Proper truth) →
        e.Avoids names → (∀ name ∉ names, ∀ v, env.lookup name = some v → v.Avoids names) →
        (∀ name ∈ names, ¬ truth.Mentions name) → env.AgreeOutside names other →
        Unaffected host limit e names env other) ∧
      ∀ (draft : Draft) (table : Table) (later : List Table) (plain more env other : Environment),
        draft.truth = truth → draft.build.newEnvironment = .ok plain →
        (draft.extend table).build.newEnvironment = .ok more →
        (later.foldl Draft.extend draft).build.newEnvironment = .ok env →
        (later.foldl Draft.extend (draft.extend table)).build.newEnvironment = .ok other →
        (∀ further ∈ draft.extensions ++ later, ∀ entry ∈ further truth,
          Proper truth entry.2 ∧ entry.2.Avoids (plain.added more)) →
        e.Avoids (plain.added more) → (∀ name ∈ plain.added more, ¬ truth.Mentions name) →
        Unaffected host limit e (plain.added more) env other := by
  constructor
  · intro names env other henv hprogram hvalues hnames hagree
    exact unaffected host limit htruth he hprogram henv hvalues hnames hagree
  · intro draft table later plain more env other hdraft hplain hmore henv hother htables hprogram
      hnames
    subst hdraft
    have hholds : env.Holds fun v => Proper draft.truth v ∧ v.Avoids (plain.added more) := by
      rw [Draft.foldl_extend] at henv
      refine Dialect.holds_newEnvironment ?_ henv
      intro further hfurther
      rcases List.mem_cons.1 hfurther with rfl | hextension
      · intro entry hentry
        have hmem : entry ∈ Table.standard draft.truth := Table.base_subset hentry
        exact ⟨.leaf (.function hmem), fun name _ => not_hasPart_standard hmem rfl⟩
      · exact htables further hextension
    have hproper : env.Holds (Proper draft.truth) := hholds.mono fun v hv => hv.1
    have hvalues : ∀ name ∉ plain.added more, ∀ v, env.lookup name = some v →
        v.Avoids (plain.added more) := fun _ _ _ hv => (hholds.lookup hv).2
    have hextends : plain.Extends more :=
      Dialect.extends_mergeTables (Dialect.mergeTables_later draft [table] hplain hmore)
    -- the same further tables are merged into an environment without the names and one with them
    have hleft := Dialect.mergeTables_later draft later hplain henv
    have hright := Dialect.mergeTables_later (draft.extend table) later hmore hother
    have hsame : env.SameOn (plain.added more)ᶜ other := hextends.sameOn.mergeTables hleft hright
    exact unaffected host limit htruth he hprogram hproper hvalues hnames hsame.agreeOutside

/-- A conditional that mentions no name of arithmetic means the same in a dialect with the boolean
table and in one that has arithmetic before that table. Nor does it matter that a name it does not
mention becomes a special form. -/
theorem evaluate_unaffected_arithmetic : ∃ plain more env other,
    (Draft.build {}).newEnvironment = .ok plain ∧
      (Draft.extend {} Table.numeric).build.newEnvironment = .ok more ∧
      (Draft.extend {} Table.boolean).build.newEnvironment = .ok env ∧
      ((Draft.extend {} Table.numeric).extend Table.boolean).build.newEnvironment = .ok other ∧
      (let e : Expr := .list [.symbol "if", .list [.symbol "eq", .symbol "x", .symbol "x"],
        .list [.symbol "label", .symbol "x", .symbol "eq"]]
      "+" ∈ plain.added more ∧ Unaffected Host.sample 10 e (plain.added more) env other ∧
        Unaffected Host.sample 10 e {"+"} env (env.install "+" (.form ⟨"quote", .quote⟩)) ∧
        ((evaluate Host.sample 10 e).answer env).result =
          .ok (.builtin ⟨"eq", .eq .symbolic⟩)) := by
  have he : Proper .symbolic (.list [.symbol "if", .list [.symbol "eq", .symbol "x", .symbol "x"],
      .list [.symbol "label", .symbol "x", .symbol "eq"]]) := by
    simp [proper_list, proper_symbol]
  have havoids : ∀ names : Set String, "if" ∉ names → "eq" ∉ names → "x" ∉ names →
      "label" ∉ names → Expr.Avoids names (.list [.symbol "if",
        .list [.symbol "eq", .symbol "x", .symbol "x"],
        .list [.symbol "label", .symbol "x", .symbol "eq"]]) := by
    intro names hif heq hx hlabel
    simp [Expr.avoids_list, Expr.avoids_symbol, hif, heq, hx, hlabel]
  have hboolean : ∀ table ∈ Dialect.boolean.tables, ∀ entry ∈ table .symbolic,
      entry ∈ Table.standard .symbolic := by
    intro table htable
    exact Dialect.mem_standard_numeric table (List.mem_append_left [Table.numeric] htable)
  refine ⟨_, _, _, _, rfl, rfl, rfl, rfl, ⟨rfl, rfl⟩, ?_, ?_, rfl⟩
  · refine (evaluate_unaffected Host.sample 10 Truth.symbolic_proper he).2 {} Table.numeric
      [Table.boolean] _ _ _ _ rfl rfl rfl rfl rfl ?_ ?_ ?_
    · intro further hfurther entry hentry
      have hmem := hboolean further (List.mem_cons_of_mem _ hfurther) entry hentry
      exact ⟨.leaf (.function hmem), fun name _ => not_hasPart_standard hmem rfl⟩
    · -- what the program mentions is not bound by the table of arithmetic, or it was before
      refine havoids _ ?_ ?_ ?_ ?_
      · rintro ⟨_, hbound⟩
        cases hbound
      · rintro ⟨_, hbound⟩
        cases hbound
      · rintro ⟨_, hbound⟩
        cases hbound
      · rintro ⟨hfree, _⟩
        cases hfree
    · rintro name ⟨_, hbound⟩ hname
      rcases Truth.symbolic_mentions.1 hname with rfl | rfl <;> cases hbound
  · refine (evaluate_unaffected Host.sample 10 Truth.symbolic_proper he).1 _ _ _
      (Dialect.holds_proper hboolean rfl) (havoids _ ?_ ?_ ?_ ?_) ?_ ?_
      (Environment.sameOn_install _ _ _).agreeOutside
    · simp
    · simp
    · simp
    · simp
    · intro name _ v hv symbol _
      exact Dialect.not_hasPart_atom hboolean rfl (Option.filter_eq_some_iff.1 hv).1 rfl
    · rintro _ rfl hname
      simp [Truth.symbolic_mentions] at hname

end LispDialects
