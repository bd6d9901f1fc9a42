import LispDialects.Proofs.Equality
import LispDialects.Proofs.Heads

/-!
# Predicates and the conditional

A predicate answers with one of the two values of the truth coding it was made for, and the
conditional compares a value with the false one of them. Neither evaluates the symbols that the
coding is made of, so the two agree in every environment, whatever these symbols are bound to
(`evaluate_cond_of_predicate`). All they need is that the coding can tell its values apart: that no
function occurs in the false one, and that the true one is not equal to it
(`Truth.isFalse_coerce`).
-/

namespace LispDialects

open EvalM

/-! ## What predicates say -/

/-- A predicate holds of its arguments: two expressions are the same, an expression is an atom, or
one number is less than another. -/
inductive BuiltinOp.Holds : BuiltinOp Expr → List Expr → Prop where
  | eq {truth : Truth Expr} {a b : Expr} (h : (a == b) = true) : Holds (.eq truth) [a, b]
  | atom {truth : Truth Expr} {a : Expr} (h : a.isAtom = true) : Holds (.atom truth) [a]
  | less {truth : Truth Expr} {m n : Int} (h : m < n) :
    Holds (.less truth) [.number m, .number n]

namespace BuiltinOp

/-- `eq` holds of two expressions that are the same, whatever truth coding it answers in. -/
theorem holds_eq_iff {truth : Truth Expr} {a b : Expr} :
    (eq truth).Holds [a, b] ↔ (a == b) = true := by
  constructor
  · intro hholds
    cases hholds with
    | eq hsame => exact hsame
  · intro hsame
    exact .eq hsame

theorem holds_atom_iff {truth : Truth Expr} {a : Expr} :
    (atom truth).Holds [a] ↔ a.isAtom = true := by
  constructor
  · intro hholds
    cases hholds with
    | atom hatom => exact hatom
  · intro hatom
    exact .atom hatom

theorem holds_less_iff {truth : Truth Expr} {m n : Int} :
    (less truth).Holds [.number m, .number n] ↔ m < n := by
  constructor
  · intro hholds
    cases hholds with
    | less hless => exact hless
  · intro hless
    exact .less hless

/-! ## What predicates answer -/

/-- The answer of a predicate is the value of its truth coding that says whether it holds. -/
def Answers (op : BuiltinOp Expr) (truth : Truth Expr) (args : List Expr) (v : Expr) : Prop :=
  ∃ flag : Bool, (flag = true ↔ op.Holds args) ∧ v = truth.coerce flag

/-- A predicate that does not fail for its arguments answers whether it holds of them. -/
theorem answers_of_call (host : Host) {op : BuiltinOp Expr} {truth : Truth Expr}
    (htruth : op.truth? = some truth) (args : List Expr) :
    Meets (op.Answers truth args) (fun error => error.kind ∈ ErrorKind.ofCalls)
      (op.call host args) := by
  -- a predicate that does not fail has the arguments it asks for, and computes the answer from them
  cases op with
  | eq other =>
    cases htruth
    refine (meets_twoArguments "eq" args).bind ?_
    rintro ⟨a, b⟩ rfl
    have hflag : (a == b) = true ↔ (eq truth).Holds [a, b] := holds_eq_iff.symm
    exact ⟨a == b, hflag, rfl⟩
  | atom other =>
    cases htruth
    refine (meets_oneArgument "atom" args).bind ?_
    rintro a rfl
    have hflag : a.isAtom = true ↔ (atom truth).Holds [a] := holds_atom_iff.symm
    exact ⟨a.isAtom, hflag, rfl⟩
  | less other =>
    cases htruth
    refine (meets_twoNumbers "<" args).bind ?_
    rintro ⟨m, n⟩ rfl
    have hflag : decide (m < n) = true ↔ (less truth).Holds [.number m, .number n] := by
      rw [decide_eq_true_iff, holds_less_iff]
    exact ⟨decide (m < n), hflag, rfl⟩
  | _ =>
    -- nothing else was made for a truth coding
    cases htruth

end BuiltinOp

/-- A truth coding that can tell its values apart takes as false what says so, and nothing that
says true. -/
theorem Truth.isFalse_coerce {truth : Truth Expr} (hno : truth.no.Plain)
    (hyes : (truth.yes == truth.no) = false) (flag : Bool) :
    truth.isFalse (truth.coerce flag) = !flag := by
  cases flag with
  | true => exact hyes
  | false => exact (isFalse_iff hno).2 rfl

/-! ## Conditions -/

section Conditions

variable {host : Host} {truth : Truth Expr} {limit : Nat} {run middle after : Run} {shown : String}
  {head condition whenTrue v : Expr} {result : Except Error Expr}

/-- Once the condition has a value, the conditional goes on from there as the value decides. -/
theorem ends_cond (hhead : run.env.Invokes ⟨shown, .cond truth⟩ head) (whenFalse : Option Expr)
    (hcondition : Ends (evaluate host (limit + 1) condition)
      (begun run head (condition :: whenTrue :: whenFalse.toList)) (.ok v) middle) :
    Ends (evaluate host (limit + 2) (.list (head :: condition :: whenTrue :: whenFalse.toList)))
        run result after ↔
      Ends (if truth.isFalse v then FormRule.otherwise truth (evaluate host (limit + 1)) whenFalse
        else evaluate host (limit + 1) whenTrue) middle result after := by
  rw [(hhead.enters host limit _).ends_iff, apply_cond, ends_bind_of_ok hcondition]

end Conditions

/-- The condition is a call of a predicate: its head stands for a builtin of the truth coding,
its operands evaluate to arguments that the builtin accepts, and evaluating them leaves the
state. -/
structure CallsPredicate (host : Host) (truth : Truth Expr) (limit : Nat) (condition : Expr)
    (run : Run) (f : Builtin Expr) (args : List Expr) (after : Run) : Prop where
  coding : f.op.truth? = some truth
  accepted : ∃ v, f.op.call host args = .ok v
  evaluated : ∃ callee operands start, condition = .list (callee :: operands) ∧
    Enters host limit run callee operands (.builtin f) start ∧
    Ends (arguments (evaluate host limit) operands) start (.ok args) after

section Predicates

variable {host : Host} {truth : Truth Expr} {limit : Nat} {run middle after : Run} {shown : String}
  {head condition whenTrue : Expr} {f : Builtin Expr} {args : List Expr}
  {result : Except Error Expr}

/-- Such a condition ends with the answer of the predicate. -/
theorem CallsPredicate.ends (h : CallsPredicate host truth limit condition run f args after) :
    ∃ v, f.op.Answers truth args v ∧
      Ends (evaluate host (limit + 1) condition) run (.ok v) after := by
  obtain ⟨v, hcall⟩ := h.accepted
  have hanswers := BuiltinOp.answers_of_call host h.coding args
  rw [hcall] at hanswers
  obtain ⟨callee, operands, start, rfl, henters, hargs⟩ := h.evaluated
  have happly : Ends (apply host (evaluate host limit) (.builtin f) operands) start (.ok v)
      after := (ends_bind_of_ok hargs).2 (ends_ofExcept.2 ⟨hcall.symm, rfl⟩)
  exact ⟨v, hanswers, henters.ends_iff.2 happly⟩

/-- A conditional goes on as the predicate in its condition says. -/
theorem CallsPredicate.ends_cond (hno : truth.no.Plain) (hyes : (truth.yes == truth.no) = false)
    (hhead : run.env.Invokes ⟨shown, .cond truth⟩ head) (whenFalse : Option Expr)
    (h : CallsPredicate host truth limit condition
      (begun run head (condition :: whenTrue :: whenFalse.toList)) f args middle) :
    Ends (evaluate host (limit + 2) (.list (head :: condition :: whenTrue :: whenFalse.toList)))
        run result after ↔
      (f.op.Holds args ∧ Ends (evaluate host (limit + 1) whenTrue) middle result after) ∨
        (¬ f.op.Holds args ∧
          Ends (FormRule.otherwise truth (evaluate host (limit + 1)) whenFalse) middle result
            after) := by
  obtain ⟨_, ⟨flag, hflag, rfl⟩, hends⟩ := h.ends
  rw [LispDialects.ends_cond hhead whenFalse hends, Truth.isFalse_coerce hno hyes, ← hflag]
  cases flag <;> simp

end Predicates

/-! ## Agreement -/

/-- Predicates and the conditional of one truth coding agree on truth. Suppose no function occurs
in the false value, and the true one is not equal to it. In every environment,

* a conditional whose condition is a call of a predicate goes on, from where the condition has led,
  with the second operand if the predicate holds of its arguments, and with the third one if not;
* it gives the canonical false value if there is no third one;
* where a condition gives the canonical false value, as such a conditional does, the conditional
  around it goes on with the third operand, or gives this value as well.

If a function does occur in the false value, nothing is taken as false, this value included. -/
theorem evaluate_cond_of_predicate (host : Host) (truth : Truth Expr) :
    (truth.no.Plain → (truth.yes == truth.no) = false →
      ∀ limit run shown head, run.env.Invokes ⟨shown, .cond truth⟩ head →
        (∀ c a b f args middle,
          CallsPredicate host truth limit c (begun run head [c, a, b]) f args middle →
            ∀ result after,
              Ends (evaluate host (limit + 2) (.list [head, c, a, b])) run result after ↔
                (f.op.Holds args ∧ Ends (evaluate host (limit + 1) a) middle result after) ∨
                  (¬ f.op.Holds args ∧
                    Ends (evaluate host (limit + 1) b) middle result after)) ∧
        (∀ c a f args middle,
          CallsPredicate host truth limit c (begun run head [c, a]) f args middle →
            ∀ result after,
              Ends (evaluate host (limit + 2) (.list [head, c, a])) run result after ↔
                (f.op.Holds args ∧ Ends (evaluate host (limit + 1) a) middle result after) ∨
                  (¬ f.op.Holds args ∧ result = .ok truth.no ∧ after = middle)) ∧
        (∀ c a b middle,
          Ends (evaluate host (limit + 1) c) (begun run head [c, a, b]) (.ok truth.no) middle →
            ∀ result after,
              Ends (evaluate host (limit + 2) (.list [head, c, a, b])) run result after ↔
                Ends (evaluate host (limit + 1) b) middle result after) ∧
        ∀ c a middle,
          Ends (evaluate host (limit + 1) c) (begun run head [c, a]) (.ok truth.no) middle →
            Ends (evaluate host (limit + 2) (.list [head, c, a])) run (.ok truth.no) middle) ∧
      (truth.no.HasFunction → ∀ e, truth.isFalse e = false) := by
  refine ⟨?_, Truth.isFalse_eq_false⟩
  intro hno hyes limit run shown head hhead
  have hfalse : truth.isFalse truth.no = true := (Truth.isFalse_iff hno).2 rfl
  refine ⟨?_, ?_, ?_, ?_⟩
  · intro c a b f args middle hc result after
    exact hc.ends_cond hno hyes hhead (some b)
  · intro c a f args middle hc result after
    -- without a third operand the false value is given, and nothing else is done
    rw [← ends_pure]
    exact hc.ends_cond hno hyes hhead none
  · intro c a b middle hc result after
    have hcond : Ends (evaluate host (limit + 2) (.list [head, c, a, b])) run result after ↔ _ :=
      ends_cond hhead (some b) hc
    rw [hcond, if_pos hfalse, FormRule.otherwise]
  · intro c a middle hc
    refine (ends_cond hhead none hc).2 ?_
    rw [if_pos hfalse]
    exact ends_pure.2 ⟨rfl, rfl⟩

/-- A truth coding with lists for values. Evaluating either of them would call its first item. -/
def Truth.listed : Truth Expr :=
  ⟨.list [.builtin ⟨"car", .car⟩], .list [.symbol "no"]⟩

/-- The condition labels the symbol that the false value is made of, and does not hold: the third
operand is evaluated, which is that symbol. -/
theorem evaluate_cond_of_predicate_relabelled : ∃ env,
    (({ truth := .listed } : Draft).extend .boolean |>.extend .numeric).build.newEnvironment =
        .ok env ∧
      (∃ middle,
        CallsPredicate Host.sample .listed 3
            (.call "<" [.number 2, .call "label" [.symbol "no", .number 1]])
            (begun { env } (.symbol "if")
              [.call "<" [.number 2, .call "label" [.symbol "no", .number 1]],
                .call "car" [.number 3], .symbol "no"])
            ⟨"<", .less .listed⟩ [.number 2, .number 1] middle ∧
          middle.env = env.define "no" (.number 1) ∧
          Ends (evaluate Host.sample 5 (.call "if"
              [.call "<" [.number 2, .call "label" [.symbol "no", .number 1]],
                .call "car" [.number 3], .symbol "no"])) { env } (.ok (.number 1))
            (noted middle (.symbol "no"))) ∧
      Truth.isFalse ⟨.symbol "T", .builtin ⟨"car", .car⟩⟩ (.builtin ⟨"car", .car⟩) = false := by
  refine ⟨_, rfl, ?_, ?_⟩
  · have hno : Truth.listed.no.Plain := .list (by simp [Expr.over_symbol, Expr.isAtom])
    have hfails : ¬ (BuiltinOp.less .listed).Holds [.number 2, .number 1] := by
      rw [BuiltinOp.holds_less_iff]
      decide
    have hagree := (evaluate_cond_of_predicate Host.sample .listed).1 hno rfl 3
    refine ⟨_, ⟨rfl, ⟨_, rfl⟩, _, _, _, rfl, .resolved ?_ rfl, rfl⟩, rfl, ?_⟩
    · rintro name ⟨⟩
      rfl
    · apply Iff.mpr ((hagree _ "if" (.symbol "if") ?head).1 _ _ _ ⟨"<", .less .listed⟩
        [.number 2, .number 1] _ ?calls _ _) (.inr ⟨hfails, ?value⟩)
      case head => exact .listed rfl
      case calls =>
        refine ⟨rfl, ⟨_, rfl⟩, _, _, _, rfl, .resolved ?_ rfl, rfl⟩
        rintro name ⟨⟩
        rfl
      case value => rfl
  · exact (evaluate_cond_of_predicate Host.sample ⟨.symbol "T", .builtin ⟨"car", .car⟩⟩).2
      (.inl ⟨_, .self _⟩) _

end LispDialects
