import LispDialects.Proofs.DerivedRules
import LispDialects.Proofs.UnreadRecord

/-!
# Taking lists apart and putting them together

`cons` undoes `car` and `cdr`, and these undo `cons`. In programs this takes more than the same
facts about the builtins, since operands are evaluated and may bind names, those of the builtins
included. It is no obstacle: the head of a call is found before any operand is evaluated, so `car`,
`cdr` and `cons` mean in a whole expression what they mean where it begins (`Environment.HasLists`),
and what the operands have bound is there afterwards.

The statement (`evaluate_car_cdr_cons`) says which values come out, item by item. Equality in the
language would not do, as a list with a function in it is not even equal to itself. It asks nothing
of the expressions and nothing of what else is bound.
-/

namespace LispDialects

open EvalM BuiltinOp

/-! ## Environments with the names for lists -/

/-- The names for quoting and for lists stand for what the base table has them for. -/
structure Environment.HasLists (env : Environment) : Prop where
  quote : env.form? "quote" = some ⟨"quote", .quote⟩
  car : env.Calls "car" (.builtin ⟨"car", .car⟩)
  cdr : env.Calls "cdr" (.builtin ⟨"cdr", .cdr⟩)
  cons : env.Calls "cons" (.builtin ⟨"cons", .cons⟩)

/-- The registered dialects begin so. -/
theorem Dialect.Composed.hasLists {dialect : Dialect} {env : Environment}
    (h : dialect.Composed env) (hdialect : dialect ∈ registered) : env.HasLists := by
  have hquote : env.form? "quote" = some ⟨"quote", .quote⟩ := (h.base_forms hdialect).1
  simp only [registered, List.mem_cons, List.not_mem_nil, or_false] at hdialect
  rcases hdialect with rfl | rfl | rfl
  all_goals exact ⟨hquote, h.calls rfl rfl rfl, h.calls rfl rfl rfl, h.calls rfl rfl rfl⟩

/-! ## Calls of builtins -/

section Calls

variable {host : Host} {env middle after : Environment} {name : String} {f : Builtin Expr}
  {limit : Nat}

/-- A call of a builtin with one operand is what the builtin makes of its value, or fails as the
operand does. -/
theorem completes_call_one (hcalls : env.Calls name (.builtin f)) (hop : ∀ key, f.op ≠ .host key)
    {e : Expr} {result : Except Error Expr}
    (he : Completes (evaluate host limit e) env result after) :
    Completes (evaluate host (limit + 1) (.call name [e])) env
      (result >>= fun v => f.op.call host [v]) after := by
  refine completes_evaluate (completes_namedCall hcalls.form hcalls.lookup ?_)
  cases result with
  | ok v =>
    have hvalues : Completes (arguments (evaluate host limit) [e]) env (.ok [v]) after :=
      he.bind ((Completes.pure [] after).bind (.pure [v] after))
    exact hvalues.bind (.ofExcept (call_ne_nestingLimit hop [v]) after)
  | error error =>
    have hfails : Completes (arguments (evaluate host limit) [e]) env (.error error) after :=
      he.bind_error _
    exact hfails.bind_error _

/-- A call of a builtin with two operands is what the builtin makes of their values. The second one
is evaluated where the first one has led. -/
theorem completes_call_two (hcalls : env.Calls name (.builtin f)) (hop : ∀ key, f.op ≠ .host key)
    {e₁ e₂ v₁ v₂ : Expr} (h₁ : Completes (evaluate host limit e₁) env (.ok v₁) middle)
    (h₂ : Completes (evaluate host limit e₂) middle (.ok v₂) after) :
    Completes (evaluate host (limit + 1) (.call name [e₁, e₂])) env (f.op.call host [v₁, v₂])
      after := by
  refine completes_evaluate (completes_namedCall hcalls.form hcalls.lookup ?_)
  have hsecond : Completes (arguments (evaluate host limit) [e₂]) middle (.ok [v₂]) after :=
    h₂.bind ((Completes.pure [] after).bind (.pure [v₂] after))
  have hvalues : Completes (arguments (evaluate host limit) [e₁, e₂]) env (.ok [v₁, v₂]) after :=
    h₁.bind (hsecond.bind (.pure [v₁, v₂] after))
  exact hvalues.bind (.ofExcept (call_ne_nestingLimit hop [v₁, v₂]) after)

end Calls

/-! ## Lists -/

/-- Only to lists an item can be added. -/
theorem callCons_of_not_list {v u : Expr} (hu : ∀ w, u ≠ .list w) :
    callCons [v, u] = .error (.notAList "cons" u) := by
  cases u with
  | list w => exact absurd rfl (hu w)
  | _ => rfl

section Lists

variable {host : Host} {env middle after : Environment} {h t v u : Expr} {limit : Nat}

/-- The items of a quoted list, put together from the first one and the others. -/
theorem completes_cons_car_cdr (henv : env.HasLists) {items : List Expr} (hitems : items ≠ [])
    (limit : Nat) :
    Completes (evaluate host (limit + 3) (.call "cons"
        [.call "car" [.quoted (.list items)], .call "cdr" [.quoted (.list items)]]))
      env (.ok (.list items)) env := by
  rcases List.exists_cons_of_ne_nil hitems with ⟨first, rest, rfl⟩
  have hquoted : Completes (evaluate host (limit + 1) (.quoted (.list (first :: rest)))) env
      (.ok (.list (first :: rest))) env := completes_quoted henv.quote _ limit
  have hcar : Completes (evaluate host (limit + 2) (.call "car" [.quoted (.list (first :: rest))]))
      env (.ok first) env := completes_call_one henv.car (by simp) hquoted
  have hcdr : Completes (evaluate host (limit + 2) (.call "cdr" [.quoted (.list (first :: rest))]))
      env (.ok (.list rest)) env := completes_call_one henv.cdr (by simp) hquoted
  exact completes_call_two henv.cons (by simp) hcar hcdr

/-- What is put together from two operands can be handed to a builtin with one argument, whatever
the two operands have bound. -/
theorem completes_call_cons (henv : env.HasLists)
    (hh : Completes (evaluate host limit h) env (.ok v) middle)
    (ht : Completes (evaluate host limit t) middle (.ok u) after) {name : String}
    {f : Builtin Expr} (hcalls : env.Calls name (.builtin f)) (hop : ∀ key, f.op ≠ .host key) :
    Completes (evaluate host (limit + 2) (.call name [.call "cons" [h, t]])) env
      (callCons [v, u] >>= fun l => f.op.call host [l]) after := by
  have hcons : Completes (evaluate host (limit + 1) (.call "cons" [h, t])) env (callCons [v, u])
      after := completes_call_two henv.cons (by simp) hh ht
  exact completes_call_one hcalls hop hcons

end Lists

/-- Lists are put together from what they are taken apart into, and taken apart into what they were
put together from.

* `(cons (car l) (cdr l))`, with a list quoted for `l` that is not empty, has the value of `l`, and
  nothing is bound by it.
* Let `h` have the value `v` and let `t`, from where `h` has led, have the value `u`, both under one
  limit. Under a limit that is larger by two, `(car (cons h t))` has the value `v` and
  `(cdr (cons h t))` has the items of `u`, if `u` is a list. If it is anything else, both fail, as
  no item can be added to it. Either way the environment is the one that `t` has left. -/
theorem evaluate_car_cdr_cons {host : Host} (hhost : host.Respects @Appends) {env : Environment}
    (henv : env.HasLists) (limit : Nat) :
    (∀ items, items ≠ [] →
      let answer := (evaluate host (limit + 3) (.call "cons"
        [.call "car" [.quoted (.list items)], .call "cdr" [.quoted (.list items)]])).answer env
      answer.result = .ok (.list items) ∧ answer.env = env) ∧
    ∀ h t v u,
      let first := (evaluate host limit h).answer env
      let second := (evaluate host limit t).answer first.env
      first.result = .ok v → second.result = .ok u →
        let car := (evaluate host (limit + 2) (.call "car" [.call "cons" [h, t]])).answer env
        let cdr := (evaluate host (limit + 2) (.call "cdr" [.call "cons" [h, t]])).answer env
        (∀ w, u = .list w → car.result = .ok v ∧ cdr.result = .ok (.list w)) ∧
          ((∀ w, u ≠ .list w) → car.result = .error (.notAList "cons" u) ∧
            cdr.result = .error (.notAList "cons" u)) ∧
          car.env = second.env ∧ cdr.env = second.env := by
  constructor
  · intro items hitems
    exact (completes_cons_car_cdr henv hitems limit).answer_eq
  · intro h t v u first second hfirst hsecond car cdr
    have happends : ∀ e, Appends (evaluate host limit e) :=
      Appends.compositional.evaluate hhost limit
    -- the operands were run on their own, and inside of a call they end as they did there
    have hh : Completes (evaluate host limit h) env (.ok v) first.env := by
      rw [← hfirst]
      refine (happends h).completes ?_
      simp [first, hfirst]
    have ht : Completes (evaluate host limit t) first.env (.ok u) second.env := by
      rw [← hsecond]
      refine (happends t).completes ?_
      simp [second, hsecond]
    rcases (completes_call_cons henv hh ht henv.car (by simp)).answer_eq with ⟨hcar, hcarEnv⟩
    rcases (completes_call_cons henv hh ht henv.cdr (by simp)).answer_eq with ⟨hcdr, hcdrEnv⟩
    refine ⟨?_, ?_, hcarEnv, hcdrEnv⟩
    · rintro w rfl
      exact ⟨hcar, hcdr⟩
    · intro hu
      rw [callCons_of_not_list hu] at hcar hcdr
      exact ⟨hcar, hcdr⟩

/-- An operand that binds the name `car` to something else, in front of a list that begins with a
function: the first item and the others are found all the same, and the name stays bound. Without
a list behind it the operand has bound the name as well. -/
theorem evaluate_car_cdr_cons_relabelled : ∃ env,
    Dialect.numeric.newEnvironment = .ok env ∧ env.HasLists ∧
      (let h : Expr := .call "label" [.symbol "car", .quoted (.symbol "cdr")]
      let t : Expr := .call "cons" [.symbol "+", .quoted (.list [.symbol "x"])]
      let answer := fun e => (evaluate Host.sample 5 e).answer env
      let sum : Expr := .builtin ⟨"+", .add⟩
      (answer (.call "cons" [.call "car" [.quoted (.list [sum])],
          .call "cdr" [.quoted (.list [sum])]])).result = .ok (.list [sum]) ∧
        (answer (.call "car" [.call "cons" [h, t]])).result = .ok (.symbol "cdr") ∧
        (answer (.call "cdr" [.call "cons" [h, t]])).result = .ok (.list [sum, .symbol "x"]) ∧
        (answer (.call "cdr" [.call "cons" [h, t]])).env = env.define "car" (.symbol "cdr") ∧
        (answer (.call "car" [.call "cons" [h, .number 5]])).result =
          .error (.notAList "cons" (.number 5)) ∧
        (answer (.call "car" [.call "cons" [h, .number 5]])).env =
          env.define "car" (.symbol "cdr")) := by
  have hdialect : Dialect.numeric ∈ Dialect.registered := by simp [Dialect.registered]
  have hlists : ∀ env, Dialect.numeric.newEnvironment = .ok env → env.HasLists := fun env hnew =>
    (Dialect.composed_of_new (Dialect.isNamed_registered hdialect) hnew).hasLists hdialect
  have hhost : Host.sample.Respects @Appends := Host.sample_respects Appends.compositional
  refine ⟨_, rfl, hlists _ rfl, ?_⟩
  intro h t answer sum
  rcases (evaluate_car_cdr_cons hhost (hlists _ rfl) 3).2 h t _ _ rfl rfl with
    ⟨hlist, _, _, hafter⟩
  rcases (evaluate_car_cdr_cons hhost (hlists _ rfl) 3).2 h (.number 5) _ _ rfl rfl with
    ⟨_, hfails, hafter', _⟩
  rcases hlist _ rfl with ⟨hcar, hcdr⟩
  rcases hfails (by simp) with ⟨hfail, _⟩
  obtain ⟨hsum, _⟩ := (evaluate_car_cdr_cons hhost (hlists _ rfl) 2).1 [sum] (by simp)
  exact ⟨hsum, hcar, hcdr, hafter, hfail, hafter'⟩

end LispDialects
