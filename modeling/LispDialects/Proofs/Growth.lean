import LispDialects.Environment.Basic
import Mathlib.Data.List.Nodup
import Mathlib.Data.Set.Basic
import Mathlib.Logic.Relation

/-!
# Environments that grow

Evaluation changes an environment in one way only: it binds names, one after the other.
`before.GrowsBy names after` says that `after` is `before` with any number of such bindings, all
of names in `names`. What an evaluation leaves alone is then read off the set of names:

* `GrowsBy.get?_eq`: a name outside the set keeps its binding;
* `GrowsBy.forms_eq`: the table of special forms is the same, whatever the names are;
* `GrowsBy.names_eq_append`: the names that are bound keep their places, and new ones come after
  them;
* `GrowsBy.eq_of_empty`: without names nothing at all has changed.
-/

namespace LispDialects.Environment

/-- One environment is another one with a name of the set bound, perhaps not for the first time. -/
def Binds (names : Set String) (before after : Environment) : Prop :=
  ∃ name ∈ names, ∃ value, after = before.define name value

/-- One environment is another one with any number of names of the set bound, in some order. -/
def GrowsBy (names : Set String) : Environment → Environment → Prop :=
  Relation.ReflTransGen (Binds names)

@[simp] theorem define_forms (env : Environment) (name : String) (value : Expr) :
    (env.define name value).forms = env.forms := rfl

@[simp] theorem define_get? (env : Environment) (name other : String) (value : Expr) :
    (env.define name value).values.get? other =
      if name = other then some value else env.values.get? other :=
  Bindings.get?_insert env.values name other value

/-- A bound name is looked up as its new value, unless that is an absent one. -/
theorem lookup_define (env : Environment) (name other : String) (value : Expr) :
    (env.define name value).lookup other =
      if name = other then (some value).filter (!·.isAbsent) else env.lookup other := by
  rw [lookup, define_get?]
  split
  · rfl
  · rfl

namespace GrowsBy

variable {names more : Set String} {before middle after : Environment}

theorem refl (env : Environment) : GrowsBy names env env := Relation.ReflTransGen.refl

theorem trans (h₁ : GrowsBy names before middle) (h₂ : GrowsBy names middle after) :
    GrowsBy names before after :=
  Relation.ReflTransGen.trans h₁ h₂

theorem define {name : String} (hname : name ∈ names) (value : Expr) (env : Environment) :
    GrowsBy names env (env.define name value) :=
  Relation.ReflTransGen.single ⟨name, hname, value, rfl⟩

theorem mono (hsub : names ⊆ more) (h : GrowsBy names before after) :
    GrowsBy more before after := by
  refine Relation.ReflTransGen.mono ?_ before after h
  rintro env next ⟨name, hname, value, rfl⟩
  exact ⟨name, hsub hname, value, rfl⟩

/-- The table of special forms does not grow with the bindings. -/
theorem forms_eq (h : GrowsBy names before after) : after.forms = before.forms := by
  induction h with
  | refl => rfl
  | tail _ hlast ih =>
    rcases hlast with ⟨name, _, value, rfl⟩
    rw [define_forms]
    exact ih

/-- A name outside the set keeps its binding. -/
theorem get?_eq (h : GrowsBy names before after) {name : String} (hname : name ∉ names) :
    after.values.get? name = before.values.get? name := by
  induction h with
  | refl => rfl
  | tail _ hlast ih =>
    rcases hlast with ⟨other, hother, value, rfl⟩
    -- the last binding was of a name of the set, so of another one
    have hne : other ≠ name := by
      rintro rfl
      exact hname hother
    rw [define_get?, if_neg hne, ih]

/-- No name is removed or moved; the new ones, each of them once, go to the end. -/
theorem names_eq_append (h : GrowsBy names before after) :
    ∃ added, after.values.names = before.values.names ++ added ∧ added.Nodup ∧
      ∀ name ∈ added, before.contains name = false := by
  induction h with
  | refl => exact ⟨[], by simp⟩
  | @tail middle _ _ hlast ih =>
    rcases hlast with ⟨name, _, value, rfl⟩
    obtain ⟨added, hnames, hnodup, hnew⟩ := ih
    rw [Environment.define, Bindings.names_insert]
    by_cases hbound : middle.values.contains name = true
    · refine ⟨added, ?_, hnodup, hnew⟩
      rw [if_pos hbound, hnames]
    · -- a name that is not among those of the environment is neither an old nor an added one
      have hfresh : name ∉ before.values.names ++ added := by
        rw [← hnames, ← Bindings.contains_iff_mem_names]
        exact hbound
      obtain ⟨hold, hadded⟩ := not_or.1 (mt List.mem_append.2 hfresh)
      refine ⟨added ++ [name], ?_, ?_, ?_⟩
      · rw [if_neg hbound, hnames, List.append_assoc]
      · exact hnodup.append (List.nodup_singleton name) (List.disjoint_singleton.2 hadded)
      · intro other hother
        rcases List.mem_append.1 hother with hother | hother
        · exact hnew other hother
        · cases List.mem_singleton.1 hother
          rw [contains, ← Bool.not_eq_true, Bindings.contains_iff_mem_names]
          exact hold

/-- What is bound stays bound. -/
theorem contains (h : GrowsBy names before after) {name : String}
    (hname : before.contains name = true) : after.contains name = true := by
  obtain ⟨added, hnames, _⟩ := h.names_eq_append
  have hold : name ∈ before.values.names := (before.values.contains_iff_mem_names name).1 hname
  have hmem : name ∈ after.values.names := by
    rw [hnames]
    exact List.mem_append_left added hold
  exact (after.values.contains_iff_mem_names name).2 hmem

/-- Where no name may be bound, the environment is the same. -/
theorem eq_of_empty (h : GrowsBy ∅ before after) : after = before := by
  induction h with
  | refl => rfl
  | tail _ hlast _ =>
    rcases hlast with ⟨name, hname, _⟩
    exact absurd hname (Set.notMem_empty name)

end GrowsBy

end LispDialects.Environment
