import LispDialects.Proofs.Closed

/-!
# What evaluation keeps to

Evaluating an expression of a closed class in an environment that holds only such expressions

* gives an expression of the class, or fails with an error of the kinds that calls fail with;
* leaves an environment that holds only expressions of the class;
* binds only names that a part of the expression labels: a part that is a list of three items
  with the name as the second one. Bodies of lambda literals run in frames and bind nothing here;
* runs sub-expressions only in environments that have grown out of the one of the call.

All this is `Closed.keeps_evaluate`. It is proved for one function of the evaluator after the other,
each time from the same statement about the way to evaluate that the function is given.
-/

namespace LispDialects

open EvalM

/-- The names that evaluating an expression may bind: those it labels, if the class has the special
form that binds. -/
def writable (P : Expr → Prop) (e : Expr) : Set String :=
  {name | name ∈ e.labels ∧ ∃ shown, P (.form ⟨shown, .label⟩)}

theorem writable_item {P : Expr → Prop} {items : List Expr} {item : Expr} (hitem : item ∈ items) :
    writable P item ⊆ writable P (.list items) := by
  rintro name ⟨hlabels, hform⟩
  exact ⟨Expr.labels_item hitem hlabels, hform⟩

/-- A way to evaluate that keeps to a class and to the names each expression may bind. -/
def Evaluator.Confined (P : Expr → Prop) (K : Error → Prop) (eval : Evaluator) : Prop :=
  ∀ e names, P e → writable P e ⊆ names → Keeps P K names P (eval e)

/-- Operands whose evaluation, also by the special form that binds, is confined to the names. -/
structure Operands (P : Expr → Prop) (names : Set String) (operands : List Expr) : Prop where
  mem : ∀ e ∈ operands, P e
  item : ∀ e ∈ operands, writable P e ⊆ names
  target : ∀ {name value shown}, operands = [.symbol name, value] →
    P (.form ⟨shown, .label⟩) → name ∈ names

namespace Closed

variable {host : Host} {P : Expr → Prop} {K : Error → Prop} {names : Set String}
  {eval : Evaluator}

/-- The operands of a call are confined to the names that the call may bind. -/
theorem operands (hP : Closed host P K) {head : Expr} {operands : List Expr}
    (hlist : P (.list (head :: operands)))
    (hnames : writable P (.list (head :: operands)) ⊆ names) : Operands P names operands where
  mem e he := hP.list.1 hlist e (List.mem_cons_of_mem _ he)
  item e he := (writable_item (List.mem_cons_of_mem _ he)).trans hnames
  target := by
    rintro name value shown rfl hlabel
    exact hnames ⟨Expr.mem_labels_self head value name, shown, hlabel⟩

/-! ## Operands and frames -/

/-- Operands are evaluated one after the other, and each keeps to the class and the names. -/
theorem keeps_arguments (heval : eval.Confined P K) (es : List Expr) (hes : ∀ e ∈ es, P e)
    (hnames : ∀ e ∈ es, writable P e ⊆ names) :
    Keeps P K names (fun values => ∀ v ∈ values, P v) (arguments eval es) := by
  induction es with
  | nil =>
    refine .pure ?_
    simp
  | cons e rest ih =>
    have hfirst : Keeps P K names P (eval e) :=
      heval e names (hes e List.mem_cons_self) (hnames e List.mem_cons_self)
    have hrest := ih (fun e he => hes e (List.mem_cons_of_mem _ he))
      (fun e he => hnames e (List.mem_cons_of_mem _ he))
    -- what the first operand has bound is there for the rest
    refine hfirst.bind ?_
    intro v hv
    refine hrest.bind ?_
    intro vs hvs
    have hall : ∀ value ∈ v :: vs, P value := List.forall_mem_cons.2 ⟨hv, hvs⟩
    exact .pure hall

/-- Binding parameters makes a frame that has grown out of the environment and holds values of the
class only, or finds a parameter that is no symbol. -/
theorem meets_bindParameters (herror : ∀ {error : Error}, error.kind ∈ ErrorKind.ofCalls → K error)
    (formals values : List Expr) (env : Environment) (hvalues : ∀ v ∈ values, P v)
    (henv : env.Holds P) :
    Meets (fun frame => frame.Holds P ∧ env.GrowsBy Set.univ frame) K
      (bindParameters formals values env) := by
  induction formals generalizing values env with
  | nil =>
    simp only [bindParameters]
    exact ⟨henv, .refl env⟩
  | cons formal formals ih =>
    cases values with
    | nil =>
      simp only [bindParameters]
      exact ⟨henv, .refl env⟩
    | cons value values =>
      simp only [bindParameters]
      cases formal.symbolName? with
      | none => exact herror (by simp)
      | some name =>
        have hvalue : P value := hvalues value List.mem_cons_self
        have hrest : ∀ v ∈ values, P v := fun v hv => hvalues v (List.mem_cons_of_mem _ hv)
        have hfirst : env.GrowsBy Set.univ (env.define name value) :=
          .define (Set.mem_univ name) value env
        have hframe := ih values (env.define name value) hrest (henv.define name hvalue)
        -- the first binding comes before those of the remaining parameters
        refine hframe.mono ?_
        rintro frame ⟨hholds, hgrows⟩
        exact ⟨hholds, hfirst.trans hgrows⟩

/-- A lambda literal that is applied to values binds nothing outside of its frame. -/
theorem keeps_applyLambda (hP : Closed host P K) (heval : eval.Confined P K)
    {formals values : List Expr} {body : Expr} (hbody : P body) (hvalues : ∀ v ∈ values, P v) :
    Keeps P K ∅ P (applyLambda eval formals body values) := by
  intro run result after henv hends
  have hframe := meets_bindParameters hP.error formals values run.env hvalues henv
  rw [applyLambda, ends_getEnv_bind] at hends
  rcases ends_bind.1 hends with ⟨frame, start, hbound, hbodyEnds⟩ | ⟨error, hbound, rfl⟩
  · rcases ends_ofExcept.1 hbound with ⟨hok, rfl⟩
    rw [← hok] at hframe
    rcases hframe with ⟨hholds, hgrows⟩
    -- the body binds what it labels, all of it in the frame
    have hkeeps := heval body (writable P body) hbody (Set.Subset.refl _)
    exact Keeps.inFrame hkeeps henv hholds hgrows hbodyEnds
  · rcases ends_ofExcept.1 hbound with ⟨herror, rfl⟩
    rw [← herror] at hframe
    exact ⟨.refl henv, hframe⟩

/-! ## Special forms -/

/-- A label binds the one name that its call has as second item. -/
theorem keeps_applyLabel (hP : Closed host P K) (heval : eval.Confined P K)
    {operands : List Expr} (hoperands : Operands P names operands) {shown : String}
    (hform : P (.form ⟨shown, .label⟩)) :
    Keeps P K names P (FormRule.applyLabel eval operands) := by
  unfold FormRule.applyLabel
  split
  · rename_i target e
    cases htarget : target.symbolName? with
    | none => exact .throw (hP.error (by simp))
    | some name =>
      have hsymbol : target = .symbol name := Expr.symbolName?_eq_some.1 htarget
      subst hsymbol
      -- the name is the second of the three items of the call, so the call may bind it
      have hname : name ∈ names := hoperands.target rfl hform
      have hvalue := heval e names (hoperands.mem e (by simp)) (hoperands.item e (by simp))
      refine hvalue.bind ?_
      intro v hv
      refine (Keeps.define hname hv).bind ?_
      intro _ _
      exact .pure hv
  · exact .throw (hP.error (by simp))

/-- A conditional gives what one of its operands gives, or the false value of its coding. -/
theorem keeps_applyCond (hP : Closed host P K) (heval : eval.Confined P K)
    {operands : List Expr} (hoperands : Operands P names operands) {shown : String}
    {truth : Truth Expr} (hform : P (.form ⟨shown, .cond truth⟩)) :
    Keeps P K names P (FormRule.applyCond truth eval operands) := by
  have hoperand : ∀ e ∈ operands, Keeps P K names P (eval e) :=
    fun e he => heval e names (hoperands.mem e he) (hoperands.item e he)
  unfold FormRule.applyCond
  split
  · refine (hoperand _ (by simp)).bind ?_
    intro v _
    split
    · exact .pure (hP.cond hform)
    · exact hoperand _ (by simp)
  · refine (hoperand _ (by simp)).bind ?_
    intro v _
    split
    · exact hoperand _ (by simp)
    · exact hoperand _ (by simp)
  · exact .throw (hP.error (by simp))

/-- A special form of the class, applied to operands of a call. -/
theorem keeps_form (hP : Closed host P K) (heval : eval.Confined P K) {f : SpecialForm Expr}
    (hf : P (.form f)) {operands : List Expr} (hoperands : Operands P names operands) :
    Keeps P K names P (f.rule.apply host eval operands) := by
  rcases f with ⟨shown, rule⟩
  cases rule with
  | quote =>
    show Keeps P K names P (FormRule.applyQuote operands)
    unfold FormRule.applyQuote
    split
    · exact .pure (hoperands.mem _ (by simp))
    · exact .throw (hP.error (by simp))
  | label => exact hP.keeps_applyLabel heval hoperands hf
  | cond truth => exact hP.keeps_applyCond heval hoperands hf
  | host key => exact absurd rfl (hP.noHostForm hf)

/-! ## Calls -/

/-- The body of a lambda literal of the class is in the class. -/
theorem lambdaParts?_mem (hP : Closed host P K) {head body : Expr} {formals : List Expr}
    (hhead : P head) (hparts : head.lambdaParts? = some (formals, body)) : P body := by
  obtain ⟨more, rfl⟩ := Expr.lambdaParts?_eq_some.1 hparts
  exact hP.list.1 hhead body (by simp)

/-- The value of a head, applied to the operands of a call. -/
theorem keeps_apply (hP : Closed host P K) (heval : eval.Confined P K) {head : Expr}
    (hhead : P head) {operands : List Expr} (hoperands : Operands P names operands) :
    Keeps P K names P (apply host eval head operands) := by
  have harguments := keeps_arguments heval operands hoperands.mem hoperands.item
  unfold apply
  split
  · exact hP.keeps_form heval hhead hoperands
  · refine harguments.bind ?_
    intro values hvalues
    exact .ofExcept (hP.builtin hhead hvalues)
  · split
    · rename_i formals body hparts
      refine harguments.bind ?_
      intro values hvalues
      have hbody : P body := hP.lambdaParts?_mem hhead hparts
      -- the body may label anything, but none of it outside of the frame
      have hlambda : Keeps P K ∅ P (applyLambda eval formals body values) :=
        hP.keeps_applyLambda heval hbody hvalues
      exact hlambda.mono (Set.empty_subset names)
    · exact .throw (hP.error (by simp))

/-- A call keeps to the class and the names, whatever its head turns out to be. -/
theorem keeps_call (hP : Closed host P K) (heval : eval.Confined P K) {head : Expr}
    {operands : List Expr} (hlist : P (.list (head :: operands)))
    (hnames : writable P (.list (head :: operands)) ⊆ names) :
    Keeps P K names P (call host eval head operands) := by
  have hoperands := hP.operands hlist hnames
  unfold call
  split
  · refine Keeps.getEnv.bind ?_
    intro env henv
    split
    · rename_i f hform
      have hf : P (.form f) := henv.form hform
      refine (Keeps.recordForm _).bind ?_
      intro _ _
      exact hP.keeps_form heval hf hoperands
    · split
      · rename_i value hlookup
        have hvalue : P value := henv.lookup hlookup
        exact hP.keeps_apply heval hvalue hoperands
      · exact .throw (hP.error (by simp))
  · have hmem : head ∈ head :: operands := List.mem_cons_self
    have hhead : P head := hP.list.1 hlist head hmem
    have hkeeps := heval head names hhead ((writable_item hmem).trans hnames)
    refine hkeeps.bind ?_
    intro value hvalue
    exact hP.keeps_apply heval hvalue hoperands

/-! ## Evaluation -/

/-- Evaluation under any limit keeps to a closed class: what it gives, what it binds, where it
evaluates and how it fails. -/
theorem keeps_evaluate (hP : Closed host P K) (limit : Nat) :
    Evaluator.Confined P K (evaluate host limit) := by
  -- every evaluation inside of one has a smaller limit
  induction limit with
  | zero =>
    intro e names _ _
    exact .throw hP.nesting
  | succ limit ih =>
    intro e names he hnames run result after henv hends
    have hnoted : run.Within P names (noted run e) := .noted henv e
    cases e with
    | symbol name =>
      rcases ends_evaluate_symbol.1 hends with ⟨rfl, rfl⟩
      refine ⟨hnoted, ?_⟩
      cases hlookup : run.env.lookup name with
      | none => exact he
      | some v => exact henv.lookup hlookup
    | list items =>
      cases items with
      | nil =>
        rcases (ends_evaluate_self (by simp)).1 hends with ⟨rfl, rfl⟩
        exact ⟨hnoted, he⟩
      | cons head operands =>
        have hcall := ends_evaluate_call.1 hends
        rcases hP.keeps_call ih he hnames _ result after hnoted.env hcall with ⟨hwithin, hresult⟩
        exact ⟨hnoted.trans hwithin, hresult⟩
    | foreign d =>
      rcases ends_evaluate_foreign.1 hends with ⟨rfl, rfl⟩
      exact ⟨hnoted, hP.foreign he⟩
    | _ =>
      rcases (ends_evaluate_self (by simp)).1 hends with ⟨rfl, rfl⟩
      exact ⟨hnoted, he⟩

end Closed

end LispDialects
