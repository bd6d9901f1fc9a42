import LispDialects.Proofs.Evaluation
import LispDialects.Proofs.Heads

/-!
# What stays bound

Evaluation removes nothing: what was bound is still bound afterwards, in the same order, whichever
way the evaluation ends. What it has bound itself stays as well, also if it fails later on. To say
this of labels at any depth, `EvalM.Visits` relates an evaluation to the parts that it evaluates in
the environment of its own: heads, operands, the condition and the chosen operand of a conditional,
and what a label is to bind. The bodies of lambda literals are no such parts, since they run in
frames that are dropped.

`EvalM.Visits.retains` is the statement about one evaluation and one part of it,
`Environment.Later.grows` the one about all the evaluations that come after it, and
`environments_persist` puts them together.
-/

namespace LispDialects

open EvalM

variable {host : Host} {P : Expr → Prop} {K : Error → Prop} {names : Set String}

/-! ## What an action retains -/

/-- However the action ends, the part has ended before, and what it has led to is still there, but
for new bindings of the names. -/
def EvalM.Retains {α : Type} (names : Set String) (part : EvalM Expr) (inner : Run)
    (action : EvalM α) (run : Run) : Prop :=
  ∀ result after, Ends action run result after →
    ∃ between middle, Ends part inner between middle ∧ middle.env.GrowsBy names after.env

namespace EvalM.Retains

variable {α β : Type} {part : EvalM Expr} {inner run start : Run}

theorem self (part : EvalM Expr) (run : Run) : Retains names part run part run := by
  intro result after hends
  exact ⟨result, after, hends, .refl _⟩

/-- What is retained by an action is retained by one that ends in the same ways. -/
theorem of_ends_iff {action other : EvalM α}
    (hends : ∀ result after, Ends action run result after ↔ Ends other start result after)
    (h : Retains names part inner other start) : Retains names part inner action run := by
  intro result after haction
  exact h result after ((hends result after).1 haction)

/-- What the second of two actions retains, both of them retain. -/
theorem bind_of_ok {x : EvalM α} {f : α → EvalM β} {a : α} (hx : Ends x run (.ok a) start)
    (h : Retains names part inner (f a) start) : Retains names part inner (x >>= f) run :=
  h.of_ends_iff fun _ _ => ends_bind_of_ok hx

/-- What the application retains that a call enters, the call retains. -/
theorem of_enters {limit : Nat} {head v : Expr} {operands : List Expr}
    (henters : Enters host limit run head operands v start)
    (h : Retains names part inner (apply host (evaluate host limit) v operands) start) :
    Retains names part inner (evaluate host (limit + 1) (.list (head :: operands))) run :=
  h.of_ends_iff fun _ _ => henters.ends_iff

end EvalM.Retains

namespace Closed

variable {limit : Nat} {run start : Run} {head v : Expr} {operands : List Expr}

/-- The application that a call enters is one of an expression of the class, in an environment of
the class. -/
theorem entered (hP : Closed host P K) (hhead : P head) (henv : run.env.Holds P)
    (h : Enters host limit run head operands v start) : P v ∧ start.env.Holds P := by
  cases h with
  | listed _ hform => exact ⟨henv.form hform, henv⟩
  | resolved _ hv =>
    have hnoted : (noted run (.list (head :: operands))).env.Holds P := henv
    obtain ⟨hwithin, hmeets⟩ :=
      hP.keeps_resolve (hP.keeps_evaluate limit) hhead _ _ _ hnoted hv
    exact ⟨hmeets, hwithin.env⟩

/-- Applying what takes values to values binds nothing. -/
theorem keeps_applyValues (hP : Closed host P K) {eval : Evaluator} (heval : eval.Confined P K)
    (hv : P v) {values : List Expr} (hvalues : ∀ value ∈ values, P value) :
    Keeps P K names P (applyValues host eval v values) := by
  unfold applyValues
  split
  · exact .ofExcept (hP.builtin hv hvalues)
  · split
    · rename_i formals body hparts
      have hbody : P body := hP.lambdaParts?_mem hv hparts
      exact (hP.keeps_applyLambda heval hbody hvalues).mono (Set.empty_subset names)
    · exact .throw (hP.error (by simp))

end Closed

/-! ## Parts of an evaluation -/

/-- Evaluating the first expression from the first state, under the first limit, evaluates the
second one from the second state, under the second limit and in the same environment. All that may
be evaluated after it labels names of the set only. -/
inductive EvalM.Visits (host : Host) (names : Set String) :
    Nat → Expr → Run → Nat → Expr → Run → Prop where
  | here (limit : Nat) (e : Expr) (run : Run) : Visits host names limit e run limit e run
  | head {limit inside : Nat} {head part : Expr} {operands : List Expr} {run inner : Run}
      (hhead : ∀ name, head ≠ .symbol name) (hlater : ∀ y ∈ operands, y.labels ⊆ names)
      (htarget : ∀ name value, operands = [.symbol name, value] → name ∈ names)
      (h : Visits host names limit head (noted run (.list (head :: operands))) inside part inner) :
      Visits host names (limit + 1) (.list (head :: operands)) run inside part inner
  | operand {limit inside : Nat} {head v x part : Expr} {before later values : List Expr}
      {run start next inner : Run}
      (henters : Enters host limit run head (before ++ x :: later) v start) (hv : v.TakesValues)
      (hbefore : Ends (arguments (evaluate host limit) before) start (.ok values) next)
      (hlater : ∀ y ∈ later, y.labels ⊆ names)
      (h : Visits host names limit x next inside part inner) :
      Visits host names (limit + 1) (.list (head :: (before ++ x :: later))) run inside part inner
  | labelled {limit inside : Nat} {head x part : Expr} {name shown : String}
      {run start inner : Run}
      (henters : Enters host limit run head [.symbol name, x] (.form ⟨shown, .label⟩) start)
      (hname : name ∈ names) (h : Visits host names limit x start inside part inner) :
      Visits host names (limit + 1) (.list [head, .symbol name, x]) run inside part inner
  | condition {limit inside : Nat} {head x whenTrue part : Expr} {whenFalse : Option Expr}
      {shown : String} {truth : Truth Expr} {run start inner : Run}
      (henters : Enters host limit run head (x :: whenTrue :: whenFalse.toList)
        (.form ⟨shown, .cond truth⟩) start)
      (hlater : ∀ y ∈ whenTrue :: whenFalse.toList, y.labels ⊆ names)
      (h : Visits host names limit x start inside part inner) :
      Visits host names (limit + 1) (.list (head :: x :: whenTrue :: whenFalse.toList)) run inside
        part inner
  | chosen {limit inside : Nat} {head condition whenTrue v x part : Expr}
      {whenFalse : Option Expr} {shown : String} {truth : Truth Expr} {run start next inner : Run}
      (henters : Enters host limit run head (condition :: whenTrue :: whenFalse.toList)
        (.form ⟨shown, .cond truth⟩) start)
      (hcondition : Ends (evaluate host limit condition) start (.ok v) next)
      (hchosen : (if truth.isFalse v then whenFalse else some whenTrue) = some x)
      (h : Visits host names limit x next inside part inner) :
      Visits host names (limit + 1) (.list (head :: condition :: whenTrue :: whenFalse.toList))
        run inside part inner

/-! ## What a call does after a part -/

namespace Closed

variable {limit : Nat}

/-- Evaluating an expression keeps to the names if it labels no others. -/
theorem keeps_labels (hP : Closed host P K) (limit : Nat) {e : Expr} (he : P e)
    (hlabels : e.labels ⊆ names) : Keeps P K names P (evaluate host limit e) :=
  hP.keeps_evaluate limit e names he fun _ hname => hlabels hname.1

/-- What an evaluation retains is retained by all that comes after it and keeps to the names. -/
theorem retains_bind (hP : Closed host P K) {x : Expr} {f : Expr → EvalM Expr}
    {part : EvalM Expr} {inner run : Run} (hx : P x) (henv : run.env.Holds P)
    (hf : ∀ v, P v → Keeps P K names P (f v))
    (h : Retains names part inner (evaluate host limit x) run) :
    Retains names part inner (evaluate host limit x >>= f) run := by
  intro result after hends
  rcases ends_bind.1 hends with ⟨v, middle, hfirst, hrest⟩ | ⟨error, hfirst, rfl⟩
  · obtain ⟨between, reached, hpart, hgrows⟩ := h _ _ hfirst
    obtain ⟨hwithin, hv⟩ :=
      hP.keeps_evaluate limit x _ hx (Set.subset_univ _) _ _ _ henv hfirst
    obtain ⟨hafter, _⟩ := hf v hv _ _ _ hwithin.env hrest
    exact ⟨between, reached, hpart, hgrows.trans hafter.grows⟩
  · -- the second action has not run
    exact h _ _ hfirst

/-- After one operand the later ones are evaluated, and the values applied. -/
theorem retains_operand (hP : Closed host P K) {v x : Expr} {before later values : List Expr}
    {part : EvalM Expr} {inner start next : Run} (hv : P v) (htakes : v.TakesValues) (hx : P x)
    (hlater : ∀ y ∈ later, P y ∧ y.labels ⊆ names)
    (hbefore : Ends (arguments (evaluate host limit) before) start (.ok values) next)
    (hvalues : ∀ value ∈ values, P value) (hnext : next.env.Holds P)
    (h : Retains names part inner (evaluate host limit x) next) :
    Retains names part inner (apply host (evaluate host limit) v (before ++ x :: later)) start := by
  have hrest : Keeps P K names (fun ws => ∀ w ∈ ws, P w)
      (arguments (evaluate host limit) later) := by
    refine keeps_arguments (hP.keeps_evaluate limit) later (fun y hy => (hlater y hy).1) ?_
    intro y hy name hname
    exact (hlater y hy).2 hname.1
  rw [apply_eq_bind htakes, arguments_append]
  simp only [bind_assoc, arguments, pure_bind]
  -- the operands before it are done; after it come the later ones and then the values
  refine .bind_of_ok hbefore ?_
  refine hP.retains_bind hx hnext ?_ h
  intro w hw
  refine hrest.bind ?_
  intro ws hws
  refine hP.keeps_applyValues (hP.keeps_evaluate limit) hv ?_
  intro value hvalue
  rcases List.mem_append.1 hvalue with hold | hnew
  · exact hvalues value hold
  · rcases List.mem_cons.1 hnew with rfl | hlast
    · exact hw
    · exact hws value hlast

/-- After the head the operands are evaluated as its value has it. -/
theorem retains_head (hP : Closed host P K) {head : Expr} {operands : List Expr}
    {part : EvalM Expr} {inner run : Run} (hhead : ∀ name, head ≠ .symbol name)
    (hlist : P (.list (head :: operands))) (hlater : ∀ y ∈ operands, y.labels ⊆ names)
    (htarget : ∀ name value, operands = [.symbol name, value] → name ∈ names)
    (henv : run.env.Holds P)
    (h : Retains names part inner (evaluate host limit head)
      (noted run (.list (head :: operands)))) :
    Retains names part inner (evaluate host (limit + 1) (.list (head :: operands))) run := by
  have hmem := hP.list.1 hlist
  have hoperands : Operands P names operands := by
    refine ⟨fun y hy => hmem y (List.mem_cons_of_mem _ hy), ?_, ?_⟩
    · intro y hy name hname
      exact hlater y hy hname.1
    · intro name value shown hpair _
      exact htarget name value hpair
  have hcall : call host (evaluate host limit) head operands =
      evaluate host limit head >>= fun v => apply host (evaluate host limit) v operands := by
    simp only [call, Expr.symbolName?_eq_none.2 hhead]
  refine .of_ends_iff (fun _ _ => ends_evaluate_call) ?_
  rw [hcall]
  refine hP.retains_bind (hmem head List.mem_cons_self) henv ?_ h
  intro v hv
  exact hP.keeps_apply (hP.keeps_evaluate limit) hv hoperands

/-- After the value of a label its name is bound. -/
theorem retains_labelled (hP : Closed host P K) {name shown : String} {x : Expr}
    {part : EvalM Expr} {inner start : Run} (hname : name ∈ names) (hx : P x)
    (hstart : start.env.Holds P) (h : Retains names part inner (evaluate host limit x) start) :
    Retains names part inner
      (apply host (evaluate host limit) (.form ⟨shown, .label⟩) [.symbol name, x]) start := by
  refine hP.retains_bind hx hstart ?_ h
  intro v hv
  exact (Keeps.define hname hv).bind fun _ _ => .pure hv

/-- After the condition one of the operands may be evaluated. -/
theorem retains_condition (hP : Closed host P K) {shown : String} {truth : Truth Expr}
    {x whenTrue : Expr} {whenFalse : Option Expr} {part : EvalM Expr} {inner start : Run}
    (hform : P (.form ⟨shown, .cond truth⟩)) (hx : P x)
    (hlater : ∀ y ∈ whenTrue :: whenFalse.toList, P y ∧ y.labels ⊆ names)
    (hstart : start.env.Holds P) (h : Retains names part inner (evaluate host limit x) start) :
    Retains names part inner (apply host (evaluate host limit) (.form ⟨shown, .cond truth⟩)
      (x :: whenTrue :: whenFalse.toList)) start := by
  have hoperand : ∀ y ∈ whenTrue :: whenFalse.toList,
      Keeps P K names P (evaluate host limit y) :=
    fun y hy => hP.keeps_labels limit (hlater y hy).1 (hlater y hy).2
  rw [apply_cond]
  refine hP.retains_bind hx hstart ?_ h
  intro v _
  split
  · cases whenFalse with
    | none => exact .pure (hP.cond hform)
    | some y => exact hoperand y (by simp)
  · exact hoperand whenTrue (by simp)

end Closed

/-- The chosen operand is the last thing that a conditional evaluates. -/
theorem retains_chosen {limit : Nat} {shown : String} {truth : Truth Expr}
    {condition whenTrue v x : Expr} {whenFalse : Option Expr} {part : EvalM Expr}
    {inner start next : Run} (hcondition : Ends (evaluate host limit condition) start (.ok v) next)
    (hchosen : (if truth.isFalse v then whenFalse else some whenTrue) = some x)
    (h : Retains names part inner (evaluate host limit x) next) :
    Retains names part inner (apply host (evaluate host limit) (.form ⟨shown, .cond truth⟩)
      (condition :: whenTrue :: whenFalse.toList)) start := by
  rw [apply_cond]
  refine .bind_of_ok hcondition ?_
  split
  · rename_i hfalse
    rw [if_pos hfalse] at hchosen
    rw [hchosen]
    exact h
  · rename_i htrue
    rw [if_neg htrue] at hchosen
    cases hchosen
    exact h

/-- What a part has bound when it has ended is there when the evaluation around it has ended, but
for new bindings of the names that are labelled later. -/
theorem EvalM.Visits.retains (hP : Closed host P K) {limit inside : Nat} {e part : Expr}
    {run inner : Run} (h : Visits host names limit e run inside part inner) (he : P e)
    (henv : run.env.Holds P) :
    P part ∧ inner.env.Holds P ∧
      Retains names (evaluate host inside part) inner (evaluate host limit e) run := by
  induction h with
  | here limit e run => exact ⟨he, henv, .self _ _⟩
  | @head limit inside head part operands run inner hhead hlater htarget h ih =>
    obtain ⟨hpart, hinner, hretains⟩ := ih (hP.list.1 he head List.mem_cons_self) henv
    exact ⟨hpart, hinner, hP.retains_head hhead he hlater htarget henv hretains⟩
  | @operand limit inside head v x part before later values run start next inner henters hv
      hbefore hlater h ih =>
    have hmem := hP.list.1 he
    have hbeforeMem : ∀ y ∈ before, P y := fun y hy => hmem y (by simp [hy])
    have hlaterMem : ∀ y ∈ later, P y ∧ y.labels ⊆ names :=
      fun y hy => ⟨hmem y (by simp [hy]), hlater y hy⟩
    have hx : P x := hmem x (by simp)
    obtain ⟨hvMem, hstart⟩ := hP.entered (hmem head List.mem_cons_self) henv henters
    obtain ⟨hwithin, hvalues⟩ := hP.keeps_values hbeforeMem limit _ _ _ hstart hbefore
    obtain ⟨hpart, hinner, hretains⟩ := ih hx hwithin.env
    have happly : Retains names (evaluate host inside part) inner
        (apply host (evaluate host limit) v (before ++ x :: later)) start :=
      hP.retains_operand hvMem hv hx hlaterMem hbefore hvalues hwithin.env hretains
    exact ⟨hpart, hinner, happly.of_enters henters⟩
  | @labelled limit inside head x part name shown run start inner henters hname h ih =>
    have hmem := hP.list.1 he
    have hx : P x := hmem x (by simp)
    obtain ⟨_, hstart⟩ := hP.entered (hmem head List.mem_cons_self) henv henters
    obtain ⟨hpart, hinner, hretains⟩ := ih hx hstart
    have happly : Retains names (evaluate host inside part) inner
        (apply host (evaluate host limit) (.form ⟨shown, .label⟩) [.symbol name, x]) start :=
      hP.retains_labelled hname hx hstart hretains
    exact ⟨hpart, hinner, happly.of_enters henters⟩
  | @condition limit inside head x whenTrue part whenFalse shown truth run start inner henters
      hlater h ih =>
    have hmem := hP.list.1 he
    have hlaterMem : ∀ y ∈ whenTrue :: whenFalse.toList, P y ∧ y.labels ⊆ names :=
      fun y hy => ⟨hmem y (List.mem_cons_of_mem _ (List.mem_cons_of_mem _ hy)), hlater y hy⟩
    have hx : P x := hmem x (by simp)
    obtain ⟨hform, hstart⟩ := hP.entered (hmem head List.mem_cons_self) henv henters
    obtain ⟨hpart, hinner, hretains⟩ := ih hx hstart
    have happly := hP.retains_condition hform hx hlaterMem hstart hretains
    exact ⟨hpart, hinner, happly.of_enters henters⟩
  | @chosen limit inside head condition whenTrue v x part whenFalse shown truth run start next inner
      henters hcondition hchosen h ih =>
    have hmem := hP.list.1 he
    -- what was chosen is one of the operands
    have hx : P x := by
      split at hchosen
      · exact hmem x (by simp [hchosen])
      · cases hchosen
        exact hmem whenTrue (by simp)
    obtain ⟨_, hstart⟩ := hP.entered (hmem head List.mem_cons_self) henv henters
    obtain ⟨hwithin, _⟩ := hP.keeps_evaluate limit condition _ (hmem condition (by simp))
      (Set.subset_univ _) _ _ _ hstart hcondition
    obtain ⟨hpart, hinner, hretains⟩ := ih hx hwithin.env
    have happly : Retains names (evaluate host inside part) inner
        (apply host (evaluate host limit) (.form ⟨shown, .cond truth⟩)
          (condition :: whenTrue :: whenFalse.toList)) start :=
      retains_chosen hcondition hchosen hretains
    exact ⟨hpart, hinner, happly.of_enters henters⟩

/-! ## Labels -/

section Labels

variable {limit : Nat} {run start : Run} {head e : Expr} {name shown : String}

/-- A label ends with the error of its value, in the state that this has led to, or it binds its
name to the value. -/
theorem ends_label_iff
    (h : Enters host limit run head [.symbol name, e] (.form ⟨shown, .label⟩) start)
    (result : Except Error Expr) (after : Run) :
    Ends (evaluate host (limit + 1) (.list [head, .symbol name, e])) run result after ↔
      (∃ w middle, Ends (evaluate host limit e) start (.ok w) middle ∧ result = .ok w ∧
        after = { middle with env := middle.env.define name w }) ∨
      ∃ error, Ends (evaluate host limit e) start (.error error) after ∧
        result = .error error := by
  have happly : Ends (apply host (evaluate host limit) (.form ⟨shown, .label⟩) [.symbol name, e])
      start result after ↔ _ := ends_bind
  rw [h.ends_iff, happly]
  refine or_congr ?_ Iff.rfl
  refine exists_congr fun w => exists_congr fun middle => and_congr_right fun _ => ?_
  rw [ends_bind]
  simp

end Labels

/-- On its way the evaluation completes a label that binds the name to the value. -/
def EvalM.Labels (host : Host) (names : Set String) (limit : Nat) (e : Expr) (run : Run)
    (name : String) (w : Expr) : Prop :=
  ∃ inside head value shown inner start middle,
    Visits host names limit e run (inside + 1) (.list [head, .symbol name, value]) inner ∧
      Enters host inside inner head [.symbol name, value] (.form ⟨shown, .label⟩) start ∧
      Ends (evaluate host (inside + 1) (.list [head, .symbol name, value])) inner (.ok w) middle

/-! ## Visible names -/

section Visible

variable {truth : Truth Expr} {env after : Environment} {name : String} {v : Expr}

/-- A proper value is no foreign object, so none that counts as absent. -/
theorem isAbsent_of_proper (hv : Proper truth v) : v.isAbsent = false := by
  cases v with
  | foreign d => exact absurd hv (not_proper_foreign d)
  | _ => rfl

/-- Among proper bindings a name is looked up as what it is bound to. -/
theorem Environment.Holds.lookup_eq (henv : env.Holds (Proper truth)) (name : String) :
    env.lookup name = env.values.get? name := by
  rw [Environment.lookup]
  cases hvalue : env.values.get? name with
  | none => rfl
  | some v => simp [isAbsent_of_proper (henv.value hvalue)]

/-- What was visible once is visible in an environment that has grown out of this one, and it is
the same if the name was not bound again. -/
theorem Environment.GrowsBy.visible (hgrows : env.GrowsBy names after)
    (hholds : after.Holds (Proper truth)) (hname : env.values.get? name = some v) :
    ∃ w, after.lookup name = some w ∧ (name ∉ names → w = v) := by
  have hbound : env.contains name = true := by
    simp [Environment.contains, Bindings.contains, hname]
  have hafter : (after.values.get? name).isSome = true := hgrows.contains hbound
  obtain ⟨w, hw⟩ := Option.isSome_iff_exists.1 hafter
  refine ⟨w, (hholds.lookup_eq name).trans hw, ?_⟩
  intro hnot
  rw [hgrows.get?_eq hnot, hname, Option.some.injEq] at hw
  exact hw.symm

end Visible

/-! ## Later evaluations -/

/-- One evaluation of a proper expression that labels names of the set only, in the environment
that the last one has left. -/
def Environment.Next (host : Host) (truth : Truth Expr) (names : Set String)
    (before after : Environment) : Prop :=
  ∃ limit e, Proper truth e ∧ e.labels ⊆ names ∧
    after = ((evaluate host limit e).answer before).env

/-- Any number of such evaluations, one after the other. -/
def Environment.Later (host : Host) (truth : Truth Expr) (names : Set String) :
    Environment → Environment → Prop :=
  Relation.ReflTransGen (Next host truth names)

namespace Environment

variable {truth : Truth Expr} {before after : Environment}

/-- One evaluation leaves proper bindings, and it has bound names of the set only. -/
theorem Next.grows (htruth : truth.Proper) (hbefore : before.Holds (Proper truth))
    (h : Next host truth names before after) :
    after.Holds (Proper truth) ∧ before.GrowsBy names after := by
  obtain ⟨limit, e, he, hlabels, rfl⟩ := h
  obtain ⟨hwithin, _⟩ := answer_within host limit htruth he hbefore
  exact ⟨hwithin.env, hwithin.grows.mono hlabels⟩

/-- So do any number of them. -/
theorem Later.grows (htruth : truth.Proper) (hbefore : before.Holds (Proper truth))
    (h : Later host truth names before after) :
    after.Holds (Proper truth) ∧ before.GrowsBy names after := by
  induction h with
  | refl => exact ⟨hbefore, .refl before⟩
  | tail _ hlast ih =>
    obtain ⟨hmiddle, hgrows⟩ := ih
    obtain ⟨hafter, hnext⟩ := hlast.grows htruth hmiddle
    exact ⟨hafter, hgrows.trans hnext⟩

end Environment

/-! ## Persistence -/

/-- Environments only grow, whichever way an evaluation ends.

* What was bound stays bound. The list of names begins with the names that were bound before, and
  those that were not come after them, each of them once.
* A label whose value fails leaves what evaluating the value has left. So it does not bind its
  name: unless the value labels the name as well, the name is bound to what it was bound to before.
* A label that was completed on the way, at whatever depth, stays visible. After the evaluation
  around it has ended, with an error or not, and after any later evaluations, the name has a value,
  which is the one it was bound to if nothing that came after the label has labelled it again. -/
theorem environments_persist (host : Host) {truth : Truth Expr} (htruth : truth.Proper) :
    (∀ limit e env, Proper truth e → env.Holds (Proper truth) →
      (∀ name, env.contains name = true →
          ((evaluate host limit e).answer env).env.contains name = true) ∧
        ∃ added, ((evaluate host limit e).answer env).env.values.names =
            env.values.names ++ added ∧
          added.Nodup ∧ ∀ name ∈ added, env.contains name = false) ∧
    (∀ limit run head name e shown start,
      Enters host limit run head [.symbol name, e] (.form ⟨shown, .label⟩) start →
        ∀ error after,
          (Ends (evaluate host (limit + 1) (.list [head, .symbol name, e])) run (.error error)
              after ↔ Ends (evaluate host limit e) start (.error error) after) ∧
            (Proper truth e → start.env.Holds (Proper truth) →
              Ends (evaluate host limit e) start (.error error) after → name ∉ e.labels →
                after.env.values.get? name = start.env.values.get? name)) ∧
    ∀ names limit e run name w, Labels host names limit e run name w →
      Proper truth e → run.env.Holds (Proper truth) →
        ∀ result after, Ends (evaluate host limit e) run result after →
          ∀ more env, Environment.Later host truth more after.env env →
            ∃ v, (∀ limit,
                ((evaluate host (limit + 1) (.symbol name)).answer env).result = .ok v) ∧
              (name ∉ names → name ∉ more → v = w) := by
  have hP : Closed host (Proper truth) OfLanguage := closed_proper host htruth
  refine ⟨?_, ?_, ?_⟩
  · intro limit e env he henv
    obtain ⟨hwithin, _⟩ := answer_within host limit htruth he henv
    have hgrows : env.GrowsBy e.labels ((evaluate host limit e).answer env).env := hwithin.grows
    refine ⟨?_, hgrows.names_eq_append⟩
    intro name hname
    exact hgrows.contains hname
  · intro limit run head name e shown start henters error after
    refine ⟨?_, ?_⟩
    · rw [ends_label_iff henters]
      simp
    · intro he hstart hends hname
      obtain ⟨hwithin, _⟩ := hP.keeps_labels limit he subset_rfl _ _ _ hstart hends
      exact hwithin.grows.get?_eq hname
  · rintro names limit e run name w ⟨inside, head, value, shown, inner, start, middle, hvisits,
      henters, hends⟩ he henv result after hresult more env hlater
    obtain ⟨hpart, hinner, hretains⟩ := hvisits.retains hP he henv
    obtain ⟨between, reached, hreached, hgrows⟩ := hretains result after hresult
    obtain ⟨-, rfl⟩ := hends.unique hreached
    -- the label has bound its name
    have hbound : middle.env.values.get? name = some w := by
      rcases (ends_label_iff henters _ _).1 hends with ⟨v, last, _, hv, rfl⟩ | ⟨error, _, herror⟩
      · cases hv
        simp
      · cases herror
    have hafter : after.env.Holds (Proper truth) :=
      (hP.keeps_labels limit he subset_rfl _ _ _ henv hresult).1.env
    obtain ⟨hholds, hlast⟩ := hlater.grows htruth hafter
    have hmore : middle.env.GrowsBy (names ∪ more) env :=
      (hgrows.mono Set.subset_union_left).trans (hlast.mono Set.subset_union_right)
    obtain ⟨v, hv, hsame⟩ := hmore.visible hholds hbound
    refine ⟨v, ?_, ?_⟩
    · intro limit
      show Except.ok ((env.lookup name).getD (.symbol name)) = .ok v
      rw [hv, Option.getD_some]
    · intro hnames hlaterNames
      exact hsame (by simp [hnames, hlaterNames])

/-- The label in the first operand of a failing call is there for a later evaluation. -/
theorem environments_persist_failing_sibling : ∃ env after later,
    Dialect.numeric.newEnvironment = .ok env ∧
      Labels Host.sample ∅ 10 (.call "cons"
        [.call "label" [.symbol "y", .number 5], .call "car" [.number 2]]) { env } "y"
        (.number 5) ∧
      Ends (evaluate Host.sample 10 (.call "cons"
          [.call "label" [.symbol "y", .number 5], .call "car" [.number 2]])) { env }
        (.error (.notAList "car" (.number 2))) after ∧
      Environment.Later Host.sample .symbolic {"z"} after.env later ∧
      later.values.get? "z" = some (.number 6) ∧
      ((evaluate Host.sample 1 (.symbol "y")).answer later).result = .ok (.number 5) := by
  have hz : (Expr.call "label" [.symbol "z", .number 6]).labels ⊆ {"z"} := by
    rintro name ⟨head, value, hpart⟩
    simp [Expr.hasPart_list, Expr.hasPart_symbol, Expr.hasPart_number] at hpart
    exact hpart.2.1
  have hnone : ∀ e ∈ [Expr.call "car" [.number 2]], e.labels ⊆ ∅ := by
    simp [Expr.labels, Expr.hasPart_list, Expr.hasPart_symbol, Expr.hasPart_number]
  have hlabels : ∀ env, Dialect.numeric.newEnvironment = .ok env →
      Labels Host.sample ∅ 10 (.list (.symbol "cons" ::
        ([] ++ .call "label" [.symbol "y", .number 5] :: [.call "car" [.number 2]]))) { env } "y"
        (.number 5) := by
    intro env hnew
    obtain rfl := Except.ok.inj (hnew.symm.trans rfl)
    refine ⟨8, .symbol "label", .number 5, "label", _, _, _, .operand (.resolved ?_ rfl)
      (.inl ⟨_, rfl⟩) rfl hnone (.here _ _ _), .listed rfl rfl, rfl⟩
    rintro name ⟨⟩
    rfl
  have hlater : ∀ env, Environment.Later Host.sample .symbolic {"z"} env
      ((evaluate Host.sample 10 (.call "label" [.symbol "z", .number 6])).answer env).env := by
    intro env
    refine .single ⟨10, _, ?_, hz, rfl⟩
    simp [proper_list, proper_symbol, proper_number]
  refine ⟨_, _, _, rfl, hlabels _ rfl, rfl, hlater _, rfl, ?_⟩
  have hproper : Proper .symbolic (.call "cons"
      [.call "label" [.symbol "y", .number 5], .call "car" [.number 2]]) := by
    simp [proper_list, proper_symbol, proper_number]
  have hstays := (environments_persist Host.sample Truth.symbolic_proper).2.2 ∅ 10 _ _ _ _
    (hlabels _ rfl) hproper (Dialect.holds_numeric rfl)
  obtain ⟨v, hv, hsame⟩ :=
    hstays (.error (.notAList "car" (.number 2))) _ rfl {"z"} _ (hlater _)
  have hvalue : v = .number 5 := hsame (by simp) (by simp)
  exact (hv 0).trans (congrArg Except.ok hvalue)

end LispDialects
