import LispDialects.Dialect.Basic
import LispDialects.Proofs.Closed

/-!
# Environments made of tables

An environment that is merged from tables holds nothing but values of the tables, and its special
forms are such values too. So a class of expressions that has every value of the tables of a
dialect has everything that a new environment of the dialect holds (`holds_newEnvironment`).

Where the first writer of a name wins, a merge adds names and changes nothing else. So further
tables at the end of a dialect extend its environment (`extends_mergeTables`).
-/

namespace LispDialects

variable {P : Expr → Prop} {env after : Environment}

namespace Environment.Holds

theorem empty : Environment.empty.Holds P where
  value := by
    intro name v hv
    simp [Environment.empty, Bindings.empty, Bindings.get?] at hv
  form := by
    intro name f hf
    simp [Environment.empty, Bindings.empty, form?, Bindings.get?] at hf

/-! ## Merging -/

/-- Writing a value together with its special form. -/
theorem install (h : env.Holds P) (name : String) {value : Expr} (hvalue : P value) :
    (env.install name value).Holds P where
  value := (h.define name hvalue).value
  form := by
    intro other f hf
    -- a special form is entered under the name, any other value removes what was there
    cases value with
    | form g =>
      simp only [form?, Environment.install, Bindings.get?_insert] at hf
      split at hf
      · cases hf
        exact hvalue
      · exact h.form hf
    | _ =>
      simp only [form?, Environment.install, Bindings.get?_erase] at hf
      split at hf
      · cases hf
      · exact h.form hf

/-- A named value is written or passed over. -/
theorem mergeEntry (h : env.Holds P) (policy : MergePolicy) (name : String) {value : Expr}
    (hvalue : P value) : (env.mergeEntry policy name value).Holds P := by
  unfold Environment.mergeEntry
  split
  · exact h
  · exact h.install name hvalue

/-- Merging values of the class does not lead out of it. -/
theorem merge {policy : MergePolicy} {entries : List (Datum Expr × Expr)} (h : env.Holds P)
    (hentries : ∀ entry ∈ entries, P entry.2)
    (hmerge : Environment.merge policy entries env = .ok () after) : after.Holds P := by
  induction entries generalizing env with
  | nil =>
    cases hmerge
    exact h
  | cons entry rest ih =>
    rcases entry with ⟨key, value⟩
    have hvalue : P value := hentries (key, value) List.mem_cons_self
    have hrest : ∀ entry ∈ rest, P entry.2 :=
      fun entry hentry => hentries entry (List.mem_cons_of_mem _ hentry)
    cases key with
    | text name => exact ih (h.mergeEntry policy name hvalue) hrest hmerge
    | _ => cases hmerge

end Environment.Holds

/-! ## Extensions -/

/-- Another environment adds names and changes nothing else: a name that is bound before, or not
bound afterwards, has the value and the special form that it had. -/
def Environment.Extends (env after : Environment) : Prop :=
  ∀ name, (env.contains name = true ∨ after.contains name = false) →
    after.values.get? name = env.values.get? name ∧ after.form? name = env.form? name

namespace Environment.Extends

variable {middle : Environment}

theorem refl (env : Environment) : env.Extends env := by
  intro name _
  exact ⟨rfl, rfl⟩

/-- What is bound stays bound. -/
theorem contains (h : env.Extends after) {name : String} (hname : env.contains name = true) :
    after.contains name = true := by
  obtain ⟨hvalue, _⟩ := h name (.inl hname)
  simpa [Environment.contains, Bindings.contains, hvalue] using hname

/-- What is added to what was added is added to the first environment. -/
theorem trans (h₁ : env.Extends middle) (h₂ : middle.Extends after) : env.Extends after := by
  intro name hname
  have hmiddle : middle.contains name = true ∨ after.contains name = false :=
    hname.imp_left h₁.contains
  have hfirst : env.contains name = true ∨ middle.contains name = false := by
    refine hname.imp_right ?_
    intro hafter
    -- a name that was bound in between would be bound in the end
    by_contra hbound
    have hlast := h₂.contains (by simpa using hbound)
    rw [hafter] at hlast
    cases hlast
  obtain ⟨hvalue₁, hform₁⟩ := h₁ name hfirst
  obtain ⟨hvalue₂, hform₂⟩ := h₂ name hmiddle
  exact ⟨hvalue₂.trans hvalue₁, hform₂.trans hform₁⟩

/-- Where the first writer wins, an entry adds its name or changes nothing. -/
theorem mergeEntry (env : Environment) (name : String) (value : Expr) :
    env.Extends (env.mergeEntry .keep name value) := by
  unfold Environment.mergeEntry
  split
  · exact refl env
  · rename_i hkeep
    intro other hother
    have hnew : env.contains name = false := by simpa using hkeep
    have hne : name ≠ other := by
      rintro rfl
      -- the name of the entry was not bound, and is bound afterwards
      rcases hother with hbound | hfree
      · rw [hnew] at hbound
        cases hbound
      · simp [Environment.contains, Bindings.contains, Environment.install] at hfree
    constructor
    · simp [Environment.install, hne]
    · cases value <;> simp [Environment.install, Environment.form?, hne]

/-- A merge in which the first writer wins extends the environment, one entry after the other. -/
theorem merge {entries : List (Datum Expr × Expr)}
    (hmerge : Environment.merge .keep entries env = .ok () after) : env.Extends after := by
  induction entries generalizing env with
  | nil =>
    cases hmerge
    exact refl _
  | cons entry rest ih =>
    rcases entry with ⟨key, value⟩
    cases key with
    | text name => exact (mergeEntry env name value).trans (ih hmerge)
    | _ => cases hmerge

end Environment.Extends

/-! ## Dialects -/

/-- Extending a draft by one table after the other puts them behind those it has. -/
theorem Draft.foldl_extend (draft : Draft) (later : List Table) :
    later.foldl extend draft = { draft with extensions := draft.extensions ++ later } := by
  induction later generalizing draft with
  | nil => simp
  | cons table rest ih => simp [ih, extend]

namespace Dialect

/-- Further tables are merged after those in front of them. -/
theorem mergeTables_append (truth : Truth Expr) (tables later : List Table) :
    mergeTables truth (tables ++ later) =
      mergeTables truth tables >>= fun _ => mergeTables truth later := by
  induction tables with
  | nil => simp [mergeTables]
  | cons first rest ih => simp only [List.cons_append, mergeTables, ih, bind_assoc]

/-- Merging tables comes down to merging the first one and then the rest. -/
theorem mergeTables_cons {truth : Truth Expr} {table : Table} {rest : List Table} :
    mergeTables truth (table :: rest) env = .ok () after ↔
      ∃ middle, Environment.merge .keep (table truth) env = .ok () middle ∧
        mergeTables truth rest middle = .ok () after := by
  simp only [mergeTables, bind, EStateM.bind]
  cases h : Environment.merge .keep (table truth) env <;> simp

/-- Merging tables whose values are in the class does not lead out of it. -/
theorem holds_mergeTables {truth : Truth Expr} {tables : List Table} (h : env.Holds P)
    (hvalues : ∀ table ∈ tables, ∀ entry ∈ table truth, P entry.2)
    (hmerge : mergeTables truth tables env = .ok () after) : after.Holds P := by
  induction tables generalizing env with
  | nil =>
    cases hmerge
    exact h
  | cons table rest ih =>
    have hrest : ∀ table ∈ rest, ∀ entry ∈ table truth, P entry.2 :=
      fun table htable => hvalues table (List.mem_cons_of_mem _ htable)
    obtain ⟨middle, hfirst, hlater⟩ := mergeTables_cons.1 hmerge
    have hmiddle : middle.Holds P := h.merge (hvalues table List.mem_cons_self) hfirst
    exact ih hmiddle hrest hlater

/-- Merging tables adds names and changes nothing else. -/
theorem extends_mergeTables {truth : Truth Expr} {tables : List Table}
    (hmerge : mergeTables truth tables env = .ok () after) : env.Extends after := by
  induction tables generalizing env with
  | nil =>
    cases hmerge
    exact .refl _
  | cons table rest ih =>
    obtain ⟨middle, hfirst, hlater⟩ := mergeTables_cons.1 hmerge
    have hmiddle : env.Extends middle := .merge hfirst
    exact hmiddle.trans (ih hlater)

/-- A new environment holds what the tables of its dialect hold. -/
theorem holds_newEnvironment {dialect : Dialect}
    (hvalues : ∀ table ∈ dialect.tables, ∀ entry ∈ table dialect.truth, P entry.2)
    (hnew : dialect.newEnvironment = .ok env) : env.Holds P := by
  unfold newEnvironment at hnew
  split at hnew
  · rename_i merged hmerge
    cases hnew
    exact holds_mergeTables .empty hvalues hmerge
  · cases hnew

/-- A dialect makes an environment when its tables can be merged, and it is the merged one. -/
theorem newEnvironment_eq_ok {dialect : Dialect} : dialect.newEnvironment = .ok env ↔
    mergeTables dialect.truth dialect.tables .empty = .ok () env := by
  unfold newEnvironment
  split <;> simp_all

/-- A dialect with further tables makes its environment by merging them into the one without. -/
theorem mergeTables_later (draft : Draft) (later : List Table)
    (hnew : draft.build.newEnvironment = .ok env)
    (hmore : (later.foldl Draft.extend draft).build.newEnvironment = .ok after) :
    mergeTables draft.truth later env = .ok () after := by
  have hbuilt : mergeTables draft.truth (Table.base :: draft.extensions) .empty = .ok () env :=
    newEnvironment_eq_ok.1 hnew
  have hextended : mergeTables draft.truth (Table.base :: draft.extensions ++ later) .empty =
      .ok () after := by
    rw [Draft.foldl_extend] at hmore
    exact newEnvironment_eq_ok.1 hmore
  -- the tables of both are merged first, and the further ones into what they make
  rw [mergeTables_append] at hextended
  simpa only [bind, EStateM.bind, hbuilt] using hextended

end Dialect

end LispDialects
