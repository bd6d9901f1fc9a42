import LispDialects.Dialect.Catalogue
import LispDialects.Proofs.DerivedRules

/-!
# Programs without the special form that labels

Only one function of the language changes an environment. Where it occurs neither in an expression,
nor in an environment, nor in the truth coding, no value that is ever computed has it in it either,
so the environment stays as it is (`evaluate_unlabelled`). The truth coding counts, since the
predicates answer with its values: a program can get the special form from them and call it
(`predicate_supplies_label`).
-/

namespace LispDialects

open EvalM

/-- The special form that labels does not occur in the expression, whatever it is shown as. -/
def Expr.Labelless (e : Expr) : Prop :=
  ∀ shown, ¬ e.HasPart (.form ⟨shown, .label⟩)

theorem Expr.labelless_list {items : List Expr} :
    (Expr.list items).Labelless ↔ ∀ item ∈ items, item.Labelless := by
  constructor
  · intro h item hitem shown hpart
    exact h shown (.item hitem hpart)
  · intro h shown hpart
    rcases hasPart_list.1 hpart with heq | ⟨item, hitem, hpart⟩
    · cases heq
    · exact h item hitem shown hpart

/-- What is no list is without it unless it is the special form itself. -/
theorem Expr.labelless_iff {e : Expr} (he : ∀ items, e ≠ .list items) :
    e.Labelless ↔ ∀ shown, e ≠ .form ⟨shown, .label⟩ := by
  simp only [Labelless, hasPart_iff_eq he, ne_eq, eq_comm]

/-! ## The language without labels -/

/-- The leaves of the language but for the special form that labels. -/
def LeafLabelless (truth : Truth Expr) (e : Expr) : Prop :=
  Leaf truth e ∧ ∀ shown, e ≠ .form ⟨shown, .label⟩

section Labelless

variable {truth : Truth Expr} {e : Expr}

/-- A proper expression in which it does not occur is made of these leaves. -/
theorem over_leafLabelless (he : Proper truth e) (hlabel : e.Labelless) :
    Expr.Over (LeafLabelless truth) e := by
  refine he.refine ?_
  intro part hpart hleaf
  refine ⟨hleaf, ?_⟩
  rintro shown rfl
  exact hlabel shown hpart

/-- It does not occur in what is made of them. -/
theorem labelless_of_over (he : Expr.Over (LeafLabelless truth) e) : e.Labelless := by
  intro shown hpart
  have hleaf := he.leaf_of_part (fun items h => leaf_list items h.1) hpart (by simp)
  exact hleaf.2 shown rfl

/-- The expressions without the special form are a sublanguage, if the truth coding is without it
as well. -/
theorem Sublanguage.labelless (htruth : truth.Proper) (hyes : truth.yes.Labelless)
    (hno : truth.no.Labelless) : Sublanguage truth (LeafLabelless truth) where
  sub h := h.1
  number _ b := ⟨.number b, by simp⟩
  yes := over_leafLabelless htruth.yes hyes
  no := over_leafLabelless htruth.no hno

/-- Nothing in this sublanguage can bind a name. -/
theorem writable_labelless (e : Expr) :
    writable (Expr.Over (LeafLabelless truth)) e ⊆ ∅ := by
  rintro name ⟨_, shown, hform⟩
  exact labelless_of_over hform shown (.self _)

end Labelless

/-! ## Evaluation -/

/-- Only the special form that labels changes environments. Where it occurs neither in the
expression, nor in what the environment holds, nor in the truth coding, evaluation leaves the
environment as it was, whichever way it ends, and the special form does not occur in the value. -/
theorem evaluate_unlabelled (host : Host) (limit : Nat) {truth : Truth Expr}
    (htruth : truth.Proper) (hyes : truth.yes.Labelless) (hno : truth.no.Labelless) {e : Expr}
    (he : Proper truth e) (hlabelless : e.Labelless) {env : Environment}
    (henv : env.Holds (Proper truth)) (hheld : env.Holds Expr.Labelless) :
    ((evaluate host limit e).answer env).env = env ∧
      ∀ v, ((evaluate host limit e).answer env).result = .ok v → v.Labelless := by
  have hsub : Sublanguage truth (LeafLabelless truth) := .labelless htruth hyes hno
  have hholds : env.Holds (Expr.Over (LeafLabelless truth)) :=
    { value := fun hv => over_leafLabelless (henv.value hv) (hheld.value hv)
      form := fun hf => over_leafLabelless (henv.form hf) (hheld.form hf) }
  have hover : Expr.Over (LeafLabelless truth) e := over_leafLabelless he hlabelless
  -- evaluation keeps to this sublanguage, and no name can be bound in it
  have hkeeps := (hsub.closed host).keeps_evaluate limit e ∅ hover (writable_labelless e)
  obtain ⟨hwithin, hresult⟩ := hkeeps _ _ _ hholds (ends_answer _ env)
  refine ⟨hwithin.grows.eq_of_empty, ?_⟩
  intro v hv
  rw [hv] at hresult
  exact labelless_of_over hresult

/-- The conditional and the predicates are functions of the language, none of which labels. -/
theorem Table.holds_boolean (truth : Truth Expr) {env : Environment}
    (hmerge : Environment.merge .keep (Table.boolean truth) .empty = .ok () env) :
    env.Holds (Proper truth) ∧ env.Holds Expr.Labelless := by
  refine ⟨Environment.Holds.empty.merge ?_ hmerge, Environment.Holds.empty.merge ?_ hmerge⟩
  · intro entry hentry
    exact .leaf (.function (List.mem_append_left _ (List.mem_append_right _ hentry)))
  · simp [Table.boolean, FormRule.entry, BuiltinOp.entry, Expr.labelless_iff]

/-- A lambda literal that is applied to itself binds nothing until the limit is reached. -/
theorem evaluate_unlabelled_endless : ∃ env,
    Environment.merge .keep (Table.boolean .symbolic) .empty = .ok () env ∧
      (let omega : Expr := .list [.form ⟨"quote", .quote⟩, .lambda ["f"] (.call "f" [.symbol "f"])]
      ((evaluate Host.sample 4 (.list [omega, omega])).answer env).result =
          .error .nestingLimit ∧
        ((evaluate Host.sample 4 (.list [omega, omega])).answer env).env = env) := by
  have hquote : Proper .symbolic (.form ⟨"quote", .quote⟩) :=
    .leaf (.function (Table.base_subset List.mem_cons_self))
  obtain ⟨henv, hheld⟩ := Table.holds_boolean .symbolic rfl
  refine ⟨_, rfl, rfl, ?_⟩
  refine (evaluate_unlabelled Host.sample 4 Truth.symbolic_proper ?_ ?_ ?_ ?_ henv hheld).1
  · simp [Truth.symbolic, Expr.labelless_iff]
  · simp [Truth.symbolic, Expr.labelless_iff]
  · simp [proper_list, proper_symbol, hquote]
  · simp [Expr.labelless_list, Expr.labelless_iff]

/-- The truth coding may supply the special form: a predicate that holds answers with it. -/
theorem predicate_supplies_label : ∃ env,
    let truth : Truth Expr := ⟨.form ⟨"label", .label⟩, .symbol "nil"⟩
    let e : Expr := .list [.call "eq" [.symbol "a", .symbol "a"], .symbol "x", .symbol "b"]
    Environment.merge .keep (Table.boolean truth) .empty = .ok () env ∧ truth.Proper ∧
      Proper truth e ∧ e.Labelless ∧ env.Holds (Proper truth) ∧ env.Holds Expr.Labelless ∧
      env.contains "x" = false ∧
      ((evaluate Host.sample 10 e).answer env).env.contains "x" = true := by
  have hlabel : ∀ truth, Proper truth (.form ⟨"label", .label⟩) :=
    fun truth => .leaf (.function (Table.base_subset (List.mem_cons_of_mem _ List.mem_cons_self)))
  obtain ⟨henv, hheld⟩ := Table.holds_boolean ⟨.form ⟨"label", .label⟩, .symbol "nil"⟩ rfl
  refine ⟨_, rfl, ⟨hlabel _, proper_symbol "nil"⟩, ?_, ?_, henv, hheld, rfl, rfl⟩
  · simp [proper_list, proper_symbol]
  · simp [Expr.labelless_list, Expr.labelless_iff]

end LispDialects
