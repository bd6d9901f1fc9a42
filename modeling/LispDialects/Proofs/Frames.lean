import LispDialects.Proofs.Growth
import LispDialects.Proofs.Outcome
import LispDialects.Proofs.Rules

/-!
# Frames of lambda literals

A lambda literal is applied in a frame: an environment with the special forms of the caller, in
which the formals are bound to the values of the operands. Formals and values are paired up to the
end of the shorter list, and a formal that stands there twice has the value of its last position
(`Environment.IsFrame`).

`applyLambda_binds_formals` says all that applying does, for any way to evaluate the body. A paired
formal that is no symbol ends it before the body is evaluated; otherwise it ends just as the body
does in the frame. Either way the caller has the environment that it had.
-/

namespace LispDialects

open EvalM

/-- A frame for a call: the special forms are those of the caller, a formal with a value is bound to
the value at its last position, and every other name is bound as it is for the caller. -/
structure Environment.IsFrame (caller : Environment) (formals values : List Expr)
    (frame : Environment) : Prop where
  forms : frame.forms = caller.forms
  bound : ∀ (name : String) (i : Nat) (v : Expr), formals[i]? = some (.symbol name) →
    values[i]? = some v →
    (∀ j, i < j → j < min formals.length values.length → formals[j]? ≠ some (.symbol name)) →
      frame.values.get? name = some v
  kept : ∀ name : String,
    (∀ i < min formals.length values.length, formals[i]? ≠ some (.symbol name)) →
      frame.values.get? name = caller.values.get? name

/-! ## Binding several names -/

section DefineAll

variable {bindings : List (String × Expr)} {name : String}

/-- The table of special forms does not change with the bindings. -/
theorem forms_defineAll (env : Environment) (bindings : List (String × Expr)) :
    (env.defineAll bindings).forms = env.forms := by
  induction bindings generalizing env with
  | nil => rfl
  | cons binding rest ih => exact ih (env.define binding.1 binding.2)

/-- A name that is not among them keeps its binding. -/
theorem get?_defineAll_of_absent (env : Environment)
    (habsent : ∀ (i : Nat) (v : Expr), bindings[i]? ≠ some (name, v)) :
    (env.defineAll bindings).values.get? name = env.values.get? name := by
  induction bindings generalizing env with
  | nil => rfl
  | cons binding rest ih =>
    obtain ⟨key, value⟩ := binding
    have hkey : key ≠ name := by
      intro heq
      subst heq
      exact habsent 0 value rfl
    have hrest : ∀ (i : Nat) (v : Expr), rest[i]? ≠ some (name, v) := by
      intro i v
      exact habsent (i + 1) v
    have hlater := ih (env.define key value) hrest
    rw [Environment.define_get?, if_neg hkey] at hlater
    exact hlater

/-- The last binding of a name decides. -/
theorem get?_defineAll_of_last (env : Environment) {i : Nat} {v : Expr}
    (hbound : bindings[i]? = some (name, v))
    (hlast : ∀ (j : Nat) (w : Expr), i < j → bindings[j]? ≠ some (name, w)) :
    (env.defineAll bindings).values.get? name = some v := by
  induction bindings generalizing env i with
  | nil => simp at hbound
  | cons binding rest ih =>
    cases i with
    | zero =>
      have hbinding : binding = (name, v) := by simpa using hbound
      subst hbinding
      have habsent : ∀ (j : Nat) (w : Expr), rest[j]? ≠ some (name, w) := by
        intro j w
        exact hlast (j + 1) w (by omega)
      have hkept := get?_defineAll_of_absent (env.define name v) habsent
      rw [Environment.define_get?, if_pos rfl] at hkept
      exact hkept
    | succ i =>
      have hrest : ∀ (j : Nat) (w : Expr), i < j → rest[j]? ≠ some (name, w) := by
        intro j w hj
        exact hlast (j + 1) w (by omega)
      exact ih (env.define binding.1 binding.2) hbound hrest

end DefineAll

/-! ## Formals and their positions -/

section Positions

variable {formals values : List Expr} {bindings : List (String × Expr)}

/-- A binding that the pairs of formals and values begin with, and what stands at its position. -/
theorem positions_of_binding (hstart : asFormals bindings <+: formals.zip values) {i : Nat}
    {name : String} {v : Expr} (hbinding : bindings[i]? = some (name, v)) :
    formals[i]? = some (.symbol name) ∧ values[i]? = some v := by
  have hpair : (asFormals bindings)[i]? = some (.symbol name, v) := by
    simp [asFormals, hbinding]
  obtain ⟨rest, hrest⟩ := hstart
  have hlt : i < (asFormals bindings).length := (List.getElem?_eq_some_iff.1 hpair).1
  rw [← List.getElem?_append_left hlt, hrest] at hpair
  exact List.getElem?_zip_eq_some.1 hpair

/-- So the formals of these bindings are symbols. -/
theorem symbols_of_bindings (hstart : asFormals bindings <+: formals.zip values) :
    ∀ i < bindings.length, ∃ name, formals[i]? = some (.symbol name) := by
  intro i hi
  have hbinding : bindings[i]? = some (bindings[i].1, bindings[i].2) :=
    List.getElem?_eq_getElem hi
  obtain ⟨hformal, _⟩ := positions_of_binding hstart hbinding
  exact ⟨bindings[i].1, hformal⟩

/-- The pair after them has a position in both lists. -/
theorem position_of_split {formal value : Expr} {rest : List (Expr × Expr)}
    (hzip : formals.zip values = asFormals bindings ++ (formal, value) :: rest) :
    bindings.length < min formals.length values.length ∧
      formals[bindings.length]? = some formal := by
  have hpair : (formals.zip values)[bindings.length]? = some (formal, value) := by
    rw [hzip, List.getElem?_append_right (by simp [asFormals])]
    simp [asFormals]
  obtain ⟨hformal, hvalue⟩ := List.getElem?_zip_eq_some.1 hpair
  have hlt : bindings.length < formals.length := (List.getElem?_eq_some_iff.1 hformal).1
  have hlt' : bindings.length < values.length := (List.getElem?_eq_some_iff.1 hvalue).1
  exact ⟨by omega, hformal⟩

/-- Where all pairs are bindings, what stands at a position is the binding there. -/
theorem binding_of_positions (hzip : formals.zip values = asFormals bindings) {i : Nat}
    {name : String} {v : Expr} (hformal : formals[i]? = some (.symbol name))
    (hvalue : values[i]? = some v) : bindings[i]? = some (name, v) := by
  have hpair : (formals.zip values)[i]? = some (.symbol name, v) :=
    List.getElem?_zip_eq_some.2 ⟨hformal, hvalue⟩
  rw [hzip] at hpair
  simp only [asFormals, List.getElem?_map, Option.map_eq_some_iff, Prod.mk.injEq,
    Expr.symbol.injEq] at hpair
  obtain ⟨⟨key, value⟩, hbinding, rfl, rfl⟩ := hpair
  exact hbinding

/-- There are as many pairs as the shorter list has items. -/
theorem length_of_zip (hzip : formals.zip values = asFormals bindings) :
    bindings.length = min formals.length values.length := by
  have hlength := congrArg List.length hzip
  simpa [asFormals] using hlength.symm

/-- A binding of a frame stands at a position of both lists, where its name is the formal. -/
theorem positions_of_frame (hzip : formals.zip values = asFormals bindings) {i : Nat}
    {name : String} {v : Expr} (hbinding : bindings[i]? = some (name, v)) :
    i < min formals.length values.length ∧ formals[i]? = some (.symbol name) := by
  have hlt : i < bindings.length := (List.getElem?_eq_some_iff.1 hbinding).1
  have hstart : asFormals bindings <+: formals.zip values := by simp [hzip]
  rw [length_of_zip hzip] at hlt
  exact ⟨hlt, (positions_of_binding hstart hbinding).1⟩

/-- Formals that are all symbols make a frame for the call. -/
theorem isFrame_defineAll (hzip : formals.zip values = asFormals bindings) (caller : Environment) :
    caller.IsFrame formals values (caller.defineAll bindings) where
  forms := forms_defineAll caller bindings
  bound := by
    intro name i v hformal hvalue hlast
    have hbinding := binding_of_positions hzip hformal hvalue
    refine get?_defineAll_of_last caller hbinding ?_
    -- a later binding of the name would be at a later position of the formal
    intro j w hj hlater
    obtain ⟨hlt, hsymbol⟩ := positions_of_frame hzip hlater
    exact hlast j hj hlt hsymbol
  kept := by
    intro name hother
    refine get?_defineAll_of_absent caller ?_
    intro i v hbinding
    obtain ⟨hlt, hsymbol⟩ := positions_of_frame hzip hbinding
    exact hother i hlt hsymbol

/-- Parameters past the end of the shorter list are not looked at. -/
theorem bindParameters_take (formals values : List Expr) (env : Environment) :
    bindParameters (formals.take (min formals.length values.length))
      (values.take (min formals.length values.length)) env =
        bindParameters formals values env := by
  induction formals generalizing values env with
  | nil => simp [bindParameters]
  | cons formal formals ih =>
    cases values with
    | nil => simp [bindParameters]
    | cons value values =>
      have hmin : min (formal :: formals).length (value :: values).length =
          min formals.length values.length + 1 := by
        simp only [List.length_cons]
        omega
      rw [hmin, List.take_succ_cons, List.take_succ_cons]
      simp only [bindParameters]
      split
      · rfl
      · rename_i name _
        exact ih values (env.define name value)

end Positions

/-! ## Applying -/

section Applying

variable {eval : Evaluator} {formals values : List Expr} {body : Expr}
  {bindings : List (String × Expr)} {run after : Run} {result : Except Error Expr}

/-- Where all formals with a value are symbols, applying is evaluating the body in a frame. -/
theorem ends_applyLambda (hzip : formals.zip values = asFormals bindings) :
    Ends (applyLambda eval formals body values) run result after ↔
      ∃ inner, Ends (eval body) { run with env := run.env.defineAll bindings } result inner ∧
        after = { inner with env := run.env } := by
  rw [applyLambda, ends_getEnv_bind, bindParameters_asFormals hzip]
  exact ends_inFrame

/-- A formal that is no symbol is the error, and nothing is evaluated. -/
theorem ends_applyLambda_formal {formal value : Expr} {rest : List (Expr × Expr)}
    (hzip : formals.zip values = asFormals bindings ++ (formal, value) :: rest)
    (hformal : ∀ name, formal ≠ .symbol name) :
    Ends (applyLambda eval formals body values) run result after ↔
      result = .error (.parameterName formal) ∧ after = run := by
  rw [applyLambda, ends_getEnv_bind, bindParameters_formal hzip hformal]
  exact ends_throw

/-- However it ends, the environment of the caller is the same afterwards. -/
theorem env_of_ends_applyLambda
    (hends : Ends (applyLambda eval formals body values) run result after) :
    after.env = run.env := by
  rcases asFormals_or_split (formals.zip values) with
    ⟨bindings, hzip⟩ | ⟨bindings, formal, value, rest, hzip, hformal⟩
  · obtain ⟨inner, _, hafter⟩ := (ends_applyLambda hzip).1 hends
    rw [hafter]
  · have hafter := ((ends_applyLambda_formal hzip hformal).1 hends).2
    rw [hafter]

end Applying

/-- What applying a lambda literal to values does. Let `k` be the length of the shorter of the
lists of formals and of values.

* If one of the first `k` formals is no symbol, the first such is the error that applying ends in,
  at once: no state has changed, so nothing was evaluated.
* If all of them are symbols, the body is evaluated, once and in a frame, and applying ends as this
  evaluation does.
* What stands past position `k` has no part in it.
* In every case the environment of the caller is the same afterwards. -/
theorem applyLambda_binds_formals (eval : Evaluator) (formals values : List Expr) (body : Expr)
    (run : Run) :
    let k := min formals.length values.length
    ((∃ i < k, ∀ name, formals[i]? ≠ some (.symbol name)) →
        ∃ i < k, ∃ formal, formals[i]? = some formal ∧ (∀ name, formal ≠ .symbol name) ∧
          (∀ j < i, ∃ name, formals[j]? = some (.symbol name)) ∧
          (Error.parameterName formal).kind = .argumentMismatch ∧
          (Error.parameterName formal).message =
            "lambda parameter " ++ formal.text ++ " is not a symbol" ∧
          ∀ result after, Ends (applyLambda eval formals body values) run result after ↔
            result = .error (.parameterName formal) ∧ after = run) ∧
      ((∀ i < k, ∃ name, formals[i]? = some (.symbol name)) →
        ∃ frame, run.env.IsFrame formals values frame ∧
          ∀ result after, Ends (applyLambda eval formals body values) run result after ↔
            ∃ inner, Ends (eval body) { run with env := frame } result inner ∧
              after = { inner with env := run.env }) ∧
      applyLambda eval (formals.take k) body (values.take k) =
        applyLambda eval formals body values ∧
      ∀ result after, Ends (applyLambda eval formals body values) run result after →
        after.env = run.env := by
  intro k
  refine ⟨?_, ?_, ?_, ?_⟩
  · intro hnone
    rcases asFormals_or_split (formals.zip values) with
      ⟨bindings, hzip⟩ | ⟨bindings, formal, value, rest, hzip, hformal⟩
    · -- all paired formals are symbols, so none of them is missing
      obtain ⟨i, hi, hother⟩ := hnone
      have hstart : asFormals bindings <+: formals.zip values := by simp [hzip]
      have hlt : i < bindings.length := by
        rw [length_of_zip hzip]
        exact hi
      obtain ⟨name, hname⟩ := symbols_of_bindings hstart i hlt
      exact absurd hname (hother name)
    · obtain ⟨hlt, hposition⟩ := position_of_split hzip
      have hstart : asFormals bindings <+: formals.zip values := by simp [hzip]
      have hbefore := symbols_of_bindings hstart
      refine ⟨bindings.length, hlt, formal, hposition, hformal, hbefore, rfl, rfl, ?_⟩
      intro result after
      exact ends_applyLambda_formal hzip hformal
  · intro hsymbols
    rcases asFormals_or_split (formals.zip values) with
      ⟨bindings, hzip⟩ | ⟨bindings, formal, value, rest, hzip, hformal⟩
    · refine ⟨run.env.defineAll bindings, isFrame_defineAll hzip run.env, ?_⟩
      intro result after
      exact ends_applyLambda hzip
    · -- the first formal that is no symbol would be one of those that are
      obtain ⟨hlt, hposition⟩ := position_of_split hzip
      obtain ⟨name, hname⟩ := hsymbols bindings.length hlt
      rw [hposition, Option.some.injEq] at hname
      exact absurd hname (hformal name)
  · unfold applyLambda
    simp only [k, bindParameters_take]
  · intro result after hends
    exact env_of_ends_applyLambda hends

end LispDialects
