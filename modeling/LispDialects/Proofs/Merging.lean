import LispDialects.Environment.Basic
import Mathlib.Data.List.Basic

/-!
# What merging writes

A merge goes through named values up to the first key that is no text. What it leaves, whether it
ends there or fails, is `merged`; it is made by writing one named value after the other
(`merged_eq_mergeNamed`).

* Where the first writer wins, a name that is not bound has afterwards the first value that is
  given for it, and every other name is left alone (`get?_mergeNamed_keep`); the names are listed
  in the order of their first appearance (`names_mergeNamed_keep`).
* Whatever a merge writes, it puts the table of special forms in step with: `InStep` says so of one
  name. No merge takes a name out of step (`InStep.mergeNamed`).
* `written` are the named values that are written, and not passed over. The last one of a name
  decides what is found under it at the head of a call (`form?_mergeNamed`).
-/

namespace LispDialects

def Expr.form? : Expr → Option (SpecialForm Expr)
  | .form f => some f
  | _ => none

@[simp] theorem Expr.form?_eq_some {e : Expr} {f : SpecialForm Expr} :
    e.form? = some f ↔ e = .form f := by
  cases e <;> simp [form?]

/-- What a name is bound to, if anything, is one special form only. -/
theorem Expr.bind_form?_eq_some {v : Option Expr} {f : SpecialForm Expr} :
    v.bind Expr.form? = some f ↔ v = some (.form f) := by
  cases v <;> simp

namespace Environment

variable {policy : MergePolicy} {env : Environment} {name other : String}

/-! ## One named value -/

@[simp] theorem values_install (env : Environment) (name : String) (value : Expr) :
    (env.install name value).values = env.values.insert name value := rfl

@[simp] theorem form?_install (env : Environment) (name other : String) (value : Expr) :
    (env.install name value).form? other =
      if name = other then value.form? else env.form? other := by
  cases value <;> simp [form?, install, Expr.form?]

/-- A name that is bound is passed over where the first writer wins. -/
theorem mergeEntry_of_contains (h : env.contains name = true) (value : Expr) :
    env.mergeEntry .keep name value = env := by
  simp [mergeEntry, h]

/-- A name that is not bound is written under either policy. -/
theorem mergeEntry_of_not_contains (h : env.contains name = false) (policy : MergePolicy)
    (value : Expr) : env.mergeEntry policy name value = env.install name value := by
  simp [mergeEntry, h]

/-! ## All named values -/

/-- The named values before the first key that is no text. -/
def named : List (Datum Expr × Expr) → List (String × Expr)
  | (.text name, value) :: rest => (name, value) :: named rest
  | _ => []

def mergeNamed (policy : MergePolicy) (items : List (String × Expr)) (env : Environment) :
    Environment :=
  items.foldl (fun env item => env.mergeEntry policy item.1 item.2) env

@[simp] theorem mergeNamed_nil (policy : MergePolicy) (env : Environment) :
    env.mergeNamed policy [] = env := rfl

theorem mergeNamed_cons (policy : MergePolicy) (name : String) (value : Expr)
    (rest : List (String × Expr)) (env : Environment) :
    env.mergeNamed policy ((name, value) :: rest) =
      (env.mergeEntry policy name value).mergeNamed policy rest := rfl

/-- Named values are passed over or written, so what every write keeps, all of them keep. -/
theorem mergeNamed_preserves {p : Environment → Prop}
    (hinstall : ∀ {env : Environment} (name : String) (value : Expr), p env →
      p (env.install name value))
    (h : p env) (policy : MergePolicy) (items : List (String × Expr)) :
    p (env.mergeNamed policy items) := by
  induction items generalizing env with
  | nil => exact h
  | cons item rest ih =>
    obtain ⟨key, value⟩ := item
    rw [mergeNamed_cons]
    refine ih ?_
    unfold mergeEntry
    split
    · exact h
    · exact hinstall key value h

/-- The environment that a merge leaves, whether it ends or fails. -/
def merged (policy : MergePolicy) (entries : List (Datum Expr × Expr)) (env : Environment) :
    Environment :=
  match merge policy entries env with
  | .ok _ after | .error _ after => after

/-- What a merge leaves is made of the named values before the first key that is no text. -/
theorem merged_eq_mergeNamed (policy : MergePolicy) (entries : List (Datum Expr × Expr))
    (env : Environment) : env.merged policy entries = env.mergeNamed policy (named entries) := by
  induction entries generalizing env with
  | nil => rfl
  | cons entry rest ih =>
    rcases entry with ⟨key, value⟩
    cases key with
    | text name => exact ih (env.mergeEntry policy name value)
    | _ => rfl

/-- A merge in which all keys are texts ends. -/
theorem merge_of_named {entries : List (Datum Expr × Expr)}
    (h : ∀ entry ∈ entries, entry.1.text?.isSome = true) (policy : MergePolicy)
    (env : Environment) :
    merge policy entries env = .ok () (env.mergeNamed policy (named entries)) := by
  induction entries generalizing env with
  | nil => rfl
  | cons entry rest ih =>
    have hkey := h entry List.mem_cons_self
    have hrest : ∀ later ∈ rest, later.1.text?.isSome = true :=
      fun later hlater => h later (List.mem_cons_of_mem _ hlater)
    rcases entry with ⟨key, value⟩
    cases key with
    | text name => exact ih hrest (env.mergeEntry policy name value)
    | _ => simp [Datum.text?] at hkey

/-- An environment is merged from by what it binds, in order. -/
theorem named_toEntries (env : Environment) : named env.toEntries = env.values.entries := by
  unfold toEntries
  induction env.values.entries with
  | nil => rfl
  | cons entry rest ih => simp [named, ih]

/-- No key of an environment can stop a merge from it. -/
theorem text?_of_mem_toEntries (env : Environment) :
    ∀ entry ∈ env.toEntries, entry.1.text?.isSome = true := by
  intro entry hentry
  obtain ⟨item, _, rfl⟩ := List.mem_map.1 hentry
  rfl

/-! ## The first writer wins -/

section Keep

variable (items : List (String × Expr))

/-- Where the first writer wins, a name has the value that it had before, or else the first one
that is given for it. -/
theorem get?_mergeNamed_keep (env : Environment) (name : String) :
    (env.mergeNamed .keep items).values.get? name =
      (env.values.get? name).or (items.lookup name) := by
  induction items generalizing env with
  | nil => simp
  | cons item rest ih =>
    obtain ⟨key, value⟩ := item
    rw [mergeNamed_cons, ih, lookup_entry]
    cases hkey : env.contains key with
    | true =>
      rw [mergeEntry_of_contains hkey]
      -- the item is passed over: its name has a value already
      by_cases heq : key = name
      · subst heq
        obtain ⟨v, hv⟩ := Option.isSome_iff_exists.1 hkey
        simp [hv]
      · simp [heq]
    | false =>
      rw [mergeEntry_of_not_contains hkey, values_install, Bindings.get?_insert]
      -- the item is written, and whatever comes later for its name is passed over
      by_cases heq : key = name
      · subst heq
        have hfree : env.values.get? key = none := by
          simpa [contains, Bindings.contains] using hkey
        simp [hfree]
      · simp [heq]

/-- What is bound stays where it is, and new names go to the end. -/
theorem entries_prefix_mergeNamed_keep (env : Environment) :
    env.values.entries <+: (env.mergeNamed .keep items).values.entries := by
  induction items generalizing env with
  | nil => exact List.prefix_rfl
  | cons item rest ih =>
    obtain ⟨key, value⟩ := item
    have hstep : env.values.entries <+: (env.mergeEntry .keep key value).values.entries := by
      cases hkey : env.contains key with
      | true => simp [mergeEntry_of_contains hkey]
      | false =>
        rw [mergeEntry_of_not_contains hkey, values_install, Bindings.entries_insert hkey]
        exact List.prefix_append _ _
    exact hstep.trans (ih (env.mergeEntry .keep key value))

/-- Where the names of an environment are those of a list, in the order of their first appearance,
they are so again after a merge, with the names that were merged at the end of the list. -/
theorem names_mergeNamed_keep {names : List String} (h : env.values.names = names.eraseDups) :
    (env.mergeNamed .keep items).values.names = (names ++ items.map (·.1)).eraseDups := by
  induction items generalizing env names with
  | nil =>
    rw [mergeNamed_nil, List.map_nil, List.append_nil]
    exact h
  | cons item rest ih =>
    obtain ⟨key, value⟩ := item
    have hstep : (env.mergeEntry .keep key value).values.names = (names ++ [key]).eraseDups := by
      -- a name is bound exactly when it has appeared
      have hmem : env.contains key = true ↔ key ∈ names := by
        rw [contains, Bindings.contains_iff_mem_names, h, List.mem_eraseDups]
      rw [List.eraseDups_append, ← h]
      cases hkey : env.contains key with
      | true => simp [mergeEntry_of_contains hkey, List.removeAll, hmem.1 hkey]
      | false =>
        have hnew : key ∉ names := by
          rw [← hmem, hkey]
          exact Bool.false_ne_true
        have hfree : env.values.contains key = false := hkey
        simp [mergeEntry_of_not_contains hkey, Bindings.names_insert, hfree, List.removeAll,
          hnew, List.eraseDups_cons]
    rw [mergeNamed_cons, ih hstep, List.append_assoc]
    rfl

end Keep

/-- Merging new names, none of them twice, puts them behind those that are there. -/
theorem entries_mergeNamed_keep {items : List (String × Expr)}
    (h : (env.values.names ++ items.map (·.1)).Nodup) :
    (env.mergeNamed .keep items).values.entries = env.values.entries ++ items := by
  induction items generalizing env with
  | nil => simp
  | cons item rest ih =>
    obtain ⟨key, value⟩ := item
    have hdisjoint := (List.nodup_append.1 h).2.2
    have hkey : env.values.contains key = false := by
      rw [Bool.eq_false_iff, ne_eq, Bindings.contains_iff_mem_names]
      intro hmem
      exact hdisjoint key hmem key (by simp) rfl
    rw [mergeNamed_cons, mergeEntry_of_not_contains hkey, ih]
    · simp [Bindings.entries_insert hkey]
    · simpa [Bindings.names_insert, hkey] using h

/-! ## The table of special forms -/

/-- The table of special forms is in step with the binding of a name: it has for the name the
special form that the name is bound to, if it is bound to one. -/
def InStep (env : Environment) (name : String) : Prop :=
  env.form? name = (env.values.get? name).bind Expr.form?

namespace InStep

/-- What is found at the head of a call is what the name is bound to. -/
theorem form?_eq_some (h : env.InStep name) {f : SpecialForm Expr} :
    env.form? name = some f ↔ env.values.get? name = some (.form f) := by
  rw [h, Expr.bind_form?_eq_some]

/-- Where nothing is bound there is no special form either. -/
theorem empty (name : String) : Environment.empty.InStep name := rfl

/-- Writing a name puts it in step. -/
theorem install_self (env : Environment) (name : String) (value : Expr) :
    (env.install name value).InStep name := by
  simp [InStep]

/-- Writing another name leaves both tables as they are for this one. -/
theorem install (h : env.InStep name) (key : String) (value : Expr) :
    (env.install key value).InStep name := by
  by_cases heq : key = name
  · subst heq
    exact install_self env key value
  · simpa [InStep, heq] using h

theorem mergeNamed (h : env.InStep name) (policy : MergePolicy) (items : List (String × Expr)) :
    (env.mergeNamed policy items).InStep name := by
  refine mergeNamed_preserves (p := (InStep · name)) ?_ h policy items
  intro env key value hstep
  exact hstep.install key value

end InStep

/-! ## What is written -/

/-- The named values that a merge writes, in order. Where the first writer wins, those of names
that are bound already are passed over. -/
def written (policy : MergePolicy) : List (String × Expr) → Environment → List (String × Expr)
  | [], _ => []
  | (name, value) :: rest, env =>
    if policy = .keep ∧ env.contains name then written policy rest env
    else (name, value) :: written policy rest (env.install name value)

/-- The value of a name that was written last. -/
def lastWritten (name : String) (writes : List (String × Expr)) : Option Expr :=
  writes.reverse.lookup name

/-- Later writes come first. -/
theorem lastWritten_append (name : String) (writes later : List (String × Expr)) :
    lastWritten name (writes ++ later) =
      (lastWritten name later).or (lastWritten name writes) := by
  simp [lastWritten, List.lookup_append]

theorem lastWritten_cons (name key : String) (value : Expr) (writes : List (String × Expr)) :
    lastWritten name ((key, value) :: writes) =
      (lastWritten name writes).or (if key = name then some value else none) := by
  rw [← List.singleton_append, lastWritten_append]
  simp [lastWritten, lookup_entry]

/-- The special form of a name is the one that was written last, if the name was written. -/
theorem form?_mergeNamed (policy : MergePolicy) (items : List (String × Expr))
    (env : Environment) (name : String) :
    (env.mergeNamed policy items).form? name =
      (lastWritten name (written policy items env)).elim (env.form? name) Expr.form? := by
  induction items generalizing env with
  | nil => rfl
  | cons item rest ih =>
    obtain ⟨key, value⟩ := item
    rw [mergeNamed_cons]
    unfold mergeEntry written
    split
    · exact ih env
    · rw [ih, lastWritten_cons, form?_install]
      -- a later write of the name decides, and this one if there is none
      cases lastWritten name (written policy rest (env.install key value)) with
      | some v => rfl
      | none => by_cases heq : key = name <;> simp [heq]

end Environment

end LispDialects
