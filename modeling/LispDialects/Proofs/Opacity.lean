import LispDialects.Dialect.Catalogue
import LispDialects.Proofs.Correspondence

/-!
# Symbols are opaque names

Evaluation asks of a symbol only which symbol it is: it commutes with every permutation of the
symbols that fixes the mark of lambda literals and the symbols of the truth coding
(`evaluate_rename`). The names of the builtins and of the special forms are no exception; what is
fixed is what the language itself writes.
-/

namespace LispDialects

variable {truth : Truth Expr}

/-! ## Fixed expressions -/

/-- A renaming that fixes the symbols in an expression of the language changes nothing in it. -/
theorem Proper.rename_eq_self {r : String → String} {e : Expr} (he : Proper truth e)
    (hfixed : ∀ name, e.HasPart (.symbol name) → r name = name) : e.rename r = e := by
  have hleaves : Expr.Over (fun part => part.rename r = part) e := by
    refine he.refine ?_
    intro part hpart hleaf
    -- among the leaves only symbols can change
    cases part with
    | symbol name => exact congrArg Expr.symbol (hfixed name hpart)
    | list items => exact absurd hleaf (leaf_list items)
    | _ => rfl
  exact hleaves.rename_eq_self fun _ h => h

/-- Fixing the symbols of a truth coding fixes both of its values. -/
theorem Truth.Proper.fixedBy {r : String → String} (htruth : truth.Proper)
    (hfixed : ∀ name, truth.Mentions name → r name = name) : truth.FixedBy r where
  yes := htruth.yes.rename_eq_self fun name hname => hfixed name (.inl hname)
  no := htruth.no.rename_eq_self fun name hname => hfixed name (.inr hname)

/-! ## The two runs -/

/-- A run and the run with all symbols permuted, the names of the bindings among them. -/
def permuted (truth : Truth Expr) (r : Equiv.Perm String) : Correspondence where
  rename := r
  leaf := Leaf truth
  env env other := other = env.rename r ∧ env.Holds (Proper truth)
  error a b := b = a.rename r

/-- Every step of the language takes permuted runs to permuted runs. -/
theorem permuted_sound (htruth : truth.Proper) {r : Equiv.Perm String}
    (hlambda : r Expr.lambdaName = Expr.lambdaName)
    (hfixed : ∀ name, truth.Mentions name → r name = name) :
    (permuted truth r).Sound truth where
  language := .full htruth
  injective := r.injective
  lambda := hlambda
  fixed := htruth.fixedBy hfixed
  value := by
    rintro env _ name v ⟨rfl, hholds⟩ _ hvalue
    exact hholds.lookup hvalue
  lookup := by
    rintro env _ name ⟨rfl, _⟩ _
    exact env.lookup_rename r name
  proper := by
    rintro env _ name f ⟨rfl, hholds⟩ _ hform
    exact hholds.form hform
  form := by
    rintro env _ name ⟨rfl, _⟩ _
    exact env.form?_rename r name
  define := by
    rintro env _ name v ⟨rfl, hholds⟩ _ hv
    exact ⟨(env.define_rename r name v).symm, hholds.define name hv⟩
  error _ := rfl

/-- Evaluation commutes with every permutation of the symbols that fixes the mark of lambda literals
and the symbols of the truth coding. The renamed program, run in the renamed environment under the
same limit, ends with the renamed value exactly when the program ends with the value, or with an
error of the same class, and it leaves the renamed environment. -/
theorem evaluate_rename (host : Host) (limit : Nat) (htruth : truth.Proper)
    (r : Equiv.Perm String) (hlambda : r Expr.lambdaName = Expr.lambdaName)
    (hfixed : ∀ name, truth.Mentions name → r name = name) {e : Expr} (he : Proper truth e)
    {env : Environment} (henv : env.Holds (Proper truth)) :
    let answer := (evaluate host limit e).answer env
    let renamed := (evaluate host limit (e.rename r)).answer (env.rename r)
    (∀ v, renamed.result = .ok (v.rename r) ↔ answer.result = .ok v) ∧
      (∀ error, answer.result = .error error →
        renamed.result = .error (error.rename r) ∧ (error.rename r).kind = error.kind) ∧
      (renamed.result = .error .nestingLimit ↔ answer.result = .error .nestingLimit) ∧
      renamed.env = answer.env.rename r := by
  intro answer renamed
  have hsound := permuted_sound htruth hlambda hfixed
  have hrelates := hsound.relates_evaluate rfl host limit he
  obtain ⟨hresult, ⟨hafter, _⟩, _⟩ := hrelates.answer ⟨rfl, henv⟩
  have hrenamed : renamed.result = renameResult r (Expr.rename r) answer.result :=
    hresult.eq_renameResult fun _ _ herror => herror
  -- the permutation can be undone, so a value is known by what it is renamed to
  have hinj : ∀ v w : Expr, v.rename r = w.rename r ↔ v = w := by
    intro v w
    exact Expr.rename_inj r.left_inv
  refine ⟨?_, ?_, ?_, hafter⟩
  · intro v
    rw [hrenamed]
    cases answer.result with
    | ok w => simp [renameResult, hinj]
    | error error => simp [renameResult]
  · intro error herror
    rw [hrenamed, herror]
    exact ⟨rfl, error.kind_rename⟩
  · rw [hrenamed]
    cases answer.result with
    | ok w => simp [renameResult]
    | error error => cases error <;> simp [renameResult, Error.rename]

/-- Two names are exchanged, one of them that of a builtin. The builtin is still found, under the
other name, and the label stays. -/
theorem evaluate_rename_exchanged : ∃ env,
    Dialect.numeric.newEnvironment = .ok env ∧
      (let r := Equiv.swap "car" "first"
      let e : Expr := .list [.symbol "label", .symbol "x", .list [.symbol "car",
        .list [.symbol "quote", .list [.symbol "car", .symbol "first"]]]]
      e.rename r = .list [.symbol "label", .symbol "x", .list [.symbol "first",
          .list [.symbol "quote", .list [.symbol "first", .symbol "car"]]]] ∧
        ((evaluate Host.sample 10 e).answer env).result = .ok (.symbol "car") ∧
        ((evaluate Host.sample 10 (e.rename r)).answer (env.rename r)).result =
          .ok (.symbol "first") ∧
        ((evaluate Host.sample 10 (e.rename r)).answer (env.rename r)).env =
          ((evaluate Host.sample 10 e).answer env).env.rename r) := by
  have hlambda : Equiv.swap "car" "first" Expr.lambdaName = Expr.lambdaName := by decide
  have hfixed : ∀ name, Truth.symbolic.Mentions name → Equiv.swap "car" "first" name = name := by
    intro name hname
    rcases Truth.symbolic_mentions.1 hname with rfl | rfl <;> decide
  have he : Proper .symbolic (.list [.symbol "label", .symbol "x", .list [.symbol "car",
      .list [.symbol "quote", .list [.symbol "car", .symbol "first"]]]]) := by
    simp [proper_list, proper_symbol]
  refine ⟨_, rfl, ?_⟩
  obtain ⟨hvalue, _, _, hafter⟩ := evaluate_rename Host.sample 10 Truth.symbolic_proper
    (Equiv.swap "car" "first") hlambda hfixed he (Dialect.holds_numeric rfl)
  exact ⟨rfl, rfl, (hvalue (.symbol "car")).2 rfl, hafter⟩

end LispDialects
