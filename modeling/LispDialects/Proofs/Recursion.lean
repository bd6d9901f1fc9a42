import LispDialects.Proofs.DerivedRules

/-!
# Recursive programs

A lambda literal that is labelled calls itself by its name. Every call works in a frame of its own,
which is the frame of its caller with the formal bound anew. So what is said about a program is said
for every frame in which the program and what it calls keep their meaning, and the frames of the
recursive calls are such frames again.

Two programs are treated: one with two calls of itself, which computes the Fibonacci numbers
(`Interpreter.eval_fib`), and one that walks along a list to the last item
(`Interpreter.eval_last`).
-/

namespace LispDialects

variable {host : Host} {env : Environment} {operand : Expr}

/-! ## Fibonacci numbers -/

/-- The Fibonacci numbers, where every number below two stands for itself. -/
def fibonacci (n : Int) : Int :=
  if n < 2 then n else fibonacci (n - 1) + fibonacci (n - 2)
termination_by n.toNat
decreasing_by all_goals omega

theorem fibonacci_of_lt {n : Int} (h : n < 2) : fibonacci n = n := by
  rw [fibonacci, if_pos h]

theorem fibonacci_of_not_lt {n : Int} (h : ¬ n < 2) :
    fibonacci n = fibonacci (n - 1) + fibonacci (n - 2) := by
  rw [fibonacci, if_neg h]

/-- The sum that the program makes of two calls of itself. -/
def Expr.fibSum : Expr :=
  .call "+" [.call "fib" [.call "-" [.symbol "n", .number 1]],
    .call "fib" [.call "-" [.symbol "n", .number 2]]]

def Expr.fib : Expr :=
  .lambda ["n"] (.call "if" [.call "<" [.symbol "n", .number 2], .symbol "n", .fibSum])

/-- The program is labelled, and what it calls has its meaning. -/
structure Environment.DefinesFib (env : Environment) : Prop where
  cond : env.form? "if" = some ⟨"if", .cond .symbolic⟩
  less : env.Calls "<" (.builtin ⟨"<", .less .symbolic⟩)
  add : env.Calls "+" (.builtin ⟨"+", .add⟩)
  sub : env.Calls "-" (.builtin ⟨"-", .sub⟩)
  fib : env.Calls "fib" .fib

namespace Environment.DefinesFib

/-- Labelling the program in a new numeric environment. -/
theorem label (h : Dialect.numeric.Composed env) : (env.define "fib" .fib).DefinesFib where
  cond := h.form?_eq
  less := (h.calls rfl rfl rfl).define (by simp) .fib
  add := (h.calls rfl rfl rfl).define (by simp) .fib
  sub := (h.calls rfl rfl rfl).define (by simp) .fib
  fib := .define_self h.form?_eq rfl

/-- The frame of a call has the program as well. -/
theorem frame (h : env.DefinesFib) (v : Expr) : (env.define "n" v).DefinesFib where
  cond := h.cond
  less := h.less.define (by simp) v
  add := h.add.define (by simp) v
  sub := h.sub.define (by simp) v
  fib := h.fib.define (by simp) v

variable {n : Int}

/-- A call evaluates, in its frame, the formal or the sum. -/
theorem hasValue_body (h : env.DefinesFib) {v : Expr}
    (hoperand : HasValue host env operand (.number n))
    (hselected : HasValue host (env.define "n" (.number n))
      (if n < 2 then .symbol "n" else .fibSum) v) :
    HasValue host env (.call "fib" [operand]) v := by
  have hframe : (env.define "n" (.number n)).DefinesFib := h.frame (.number n)
  have hn : HasValue host (env.define "n" (.number n)) (.symbol "n") (.number n) :=
    .defined rfl "n" env
  have hoperands : EvaluatesAll host [.symbol "n", .number 2] (env.define "n" (.number n))
      (.ok [.number n, .number 2]) (env.define "n" (.number n)) :=
    .cons hn (.cons (.number 2 _) (.nil _))
  have hless : HasValue host (env.define "n" (.number n)) (.call "<" [.symbol "n", .number 2])
      (Truth.symbolic.coerce (decide (n < 2))) :=
    .call_builtin hframe.less (by simp) hoperands
  have hbody : HasValue host (env.define "n" (.number n))
      (if decide (n < 2) then .symbol "n" else .fibSum) v := by
    simpa only [decide_eq_true_eq] using hselected
  exact .call_lambda h.fib hoperand (.call_cond hframe.cond hless hbody)

/-- A difference of the formal and a number. -/
theorem hasValue_sub (h : env.DefinesFib) (hn : HasValue host env (.symbol "n") (.number n))
    (k : Int) : HasValue host env (.call "-" [.symbol "n", .number k]) (.number (n - k)) := by
  have hoperands : EvaluatesAll host [.symbol "n", .number k] env (.ok [.number n, .number k])
      env := .cons hn (.cons (.number k env) (.nil env))
  exact .call_builtin h.sub (by simp) hoperands

/-- A call of the program computes the Fibonacci number of its operand. -/
theorem hasValue_fib (n : Int) (h : env.DefinesFib)
    (hoperand : HasValue host env operand (.number n)) :
    HasValue host env (.call "fib" [operand]) (.number (fibonacci n)) := by
  -- for all frames at once: the calls that the program makes of itself start in its own frame
  induction n using fibonacci.induct generalizing env operand with
  | case1 n hlt =>
    refine h.hasValue_body hoperand ?_
    rw [if_pos hlt, fibonacci_of_lt hlt]
    exact .defined rfl "n" env
  | case2 n hlt ih₁ ih₂ =>
    refine h.hasValue_body hoperand ?_
    rw [if_neg hlt, fibonacci_of_not_lt hlt]
    have hframe : (env.define "n" (.number n)).DefinesFib := h.frame (.number n)
    have hn : HasValue host (env.define "n" (.number n)) (.symbol "n") (.number n) :=
      .defined rfl "n" env
    have hfirst := ih₁ hframe (hframe.hasValue_sub hn 1)
    have hsecond := ih₂ hframe (hframe.hasValue_sub hn 2)
    -- neither of the two calls leaves anything behind in the frame
    have hoperands := EvaluatesAll.cons hfirst (.cons hsecond (.nil _))
    exact .call_builtin hframe.add (by simp) hoperands

end Environment.DefinesFib

/-! ## The last item of a list -/

/-- Only the empty list is the same as the empty list, whatever the items are. -/
theorem Expr.list_beq_nil (xs : List Expr) : (Expr.list xs == Expr.list []) = xs.isEmpty := by
  cases xs with
  | nil => rfl
  | cons x xs => rfl

def Expr.last : Expr :=
  .lambda ["l"] (.call "if" [.call "eq" [.call "cdr" [.symbol "l"], .quoted (.list [])],
    .call "car" [.symbol "l"], .call "last" [.call "cdr" [.symbol "l"]]])

/-- The program is labelled, and what it calls has its meaning. -/
structure Environment.DefinesLast (env : Environment) : Prop where
  quote : env.form? "quote" = some ⟨"quote", .quote⟩
  cond : env.form? "if" = some ⟨"if", .cond .symbolic⟩
  eq : env.Calls "eq" (.builtin ⟨"eq", .eq .symbolic⟩)
  car : env.Calls "car" (.builtin ⟨"car", .car⟩)
  cdr : env.Calls "cdr" (.builtin ⟨"cdr", .cdr⟩)
  last : env.Calls "last" .last

namespace Environment.DefinesLast

/-- Labelling the program in a new environment with lists and predicates. -/
theorem label {dialect : Dialect} (hdialect : dialect = .boolean ∨ dialect = .numeric)
    (h : dialect.Composed env) : (env.define "last" .last).DefinesLast := by
  rcases hdialect with rfl | rfl
  all_goals exact {
    quote := h.form?_eq
    cond := h.form?_eq
    eq := (h.calls rfl rfl rfl).define (by simp) .last
    car := (h.calls rfl rfl rfl).define (by simp) .last
    cdr := (h.calls rfl rfl rfl).define (by simp) .last
    last := .define_self h.form?_eq rfl }

/-- The frame of a call has the program as well. -/
theorem frame (h : env.DefinesLast) (v : Expr) : (env.define "l" v).DefinesLast where
  quote := h.quote
  cond := h.cond
  eq := h.eq.define (by simp) v
  car := h.car.define (by simp) v
  cdr := h.cdr.define (by simp) v
  last := h.last.define (by simp) v

variable {x : Expr} {xs : List Expr}

/-- Taking a list apart, whatever the program for the list is. -/
theorem hasValue_car (h : env.DefinesLast) (hl : HasValue host env operand (.list (x :: xs))) :
    HasValue host env (.call "car" [operand]) x :=
  .call_builtin h.car (by simp) (.cons hl (.nil env))

theorem hasValue_cdr (h : env.DefinesLast) (hl : HasValue host env operand (.list (x :: xs))) :
    HasValue host env (.call "cdr" [operand]) (.list xs) :=
  .call_builtin h.cdr (by simp) (.cons hl (.nil env))

/-- A call evaluates, in its frame, the first item or the call for the other items. -/
theorem hasValue_body (h : env.DefinesLast) {v : Expr}
    (hoperand : HasValue host env operand (.list (x :: xs)))
    (hselected : HasValue host (env.define "l" (.list (x :: xs)))
      (if xs.isEmpty then .call "car" [.symbol "l"] else .call "last" [.call "cdr" [.symbol "l"]])
      v) :
    HasValue host env (.call "last" [operand]) v := by
  have hframe : (env.define "l" (.list (x :: xs))).DefinesLast := h.frame (.list (x :: xs))
  have hrest : HasValue host (env.define "l" (.list (x :: xs))) (.call "cdr" [.symbol "l"])
      (.list xs) := hframe.hasValue_cdr (.defined rfl "l" env)
  have heq : HasValue host (env.define "l" (.list (x :: xs)))
      (.call "eq" [.call "cdr" [.symbol "l"], .quoted (.list [])])
      (Truth.symbolic.coerce xs.isEmpty) := by
    have hnil : HasValue host (env.define "l" (.list (x :: xs))) (.quoted (.list [])) (.list []) :=
      .quoted hframe.quote (.list [])
    rw [← Expr.list_beq_nil]
    exact .call_builtin hframe.eq (by simp) (.cons hrest (.cons hnil (.nil _)))
  exact .call_lambda h.last hoperand (.call_cond hframe.cond heq hselected)

/-- A call of the program gives the last item of its operand, as it is. -/
theorem hasValue_last (h : env.DefinesLast) (x : Expr) (xs : List Expr)
    (hoperand : HasValue host env operand (.list (x :: xs))) :
    HasValue host env (.call "last" [operand]) ((x :: xs).getLast (List.cons_ne_nil x xs)) := by
  -- for all frames at once, as before
  induction xs generalizing env operand x with
  | nil =>
    have hframe : (env.define "l" (.list [x])).DefinesLast := h.frame (.list [x])
    exact h.hasValue_body hoperand (hframe.hasValue_car (.defined rfl "l" env))
  | cons y ys ih =>
    have hframe : (env.define "l" (.list (x :: y :: ys))).DefinesLast :=
      h.frame (.list (x :: y :: ys))
    have hrest : HasValue host (env.define "l" (.list (x :: y :: ys)))
        (.call "cdr" [.symbol "l"]) (.list (y :: ys)) :=
      hframe.hasValue_cdr (.defined rfl "l" env)
    have hlast := ih hframe y hrest
    rw [List.getLast_cons_cons]
    exact h.hasValue_body hoperand hlast

end Environment.DefinesLast

/-! ## Interpreters that run the programs -/

namespace Interpreter

variable {interpreter : Interpreter} {event : Event} {limit : Nat} {d : Datum Expr}

/-- An interpreter for numbers that labels the program computes the Fibonacci numbers by it: under
every limit from some limit on, a call with a number gives the Fibonacci number and leaves the
environment as it is. -/
theorem eval_fib (host : Host) (hstart : start .numeric = .ok (interpreter, event))
    (hlimit : 2 ≤ limit)
    (hread : interpreter.read d = .ok (.call "label" [.symbol "fib", .quoted .fib])) :
    (interpreter.eval host limit d).result = .ok .fib ∧
      let labelled := interpreter.after (interpreter.eval host limit d)
      ∀ n, ∃ bound, ∀ limit, bound ≤ limit →
        ∀ d, labelled.read d = .ok (.call "fib" [.number n]) →
          (labelled.eval host limit d).result = .ok (.number (fibonacci n)) ∧
            (labelled.eval host limit d).env = labelled.env := by
  obtain ⟨hcomposed, hresult, henv⟩ :=
    eval_label_new host (by simp [Dialect.registered]) hstart hread hlimit
  refine ⟨hresult, ?_⟩
  intro labelled n
  have hlabelled : labelled.env.DefinesFib := by
    show (interpreter.eval host limit d).env.DefinesFib
    rw [henv]
    exact .label hcomposed
  exact eval_of_evaluates (hlabelled.hasValue_fib n (.number n labelled.env))

/-- The program given as nested texts and numbers, and the tenth number. -/
theorem eval_fib_ten : ∃ interpreter event, start .numeric = .ok (interpreter, event) ∧
    let program : Datum Expr := .list [.text "lambda", .list [.text "n"],
      .list [.text "if", .list [.text "<", .text "n", .integer 2], .text "n",
        .list [.text "+", .list [.text "fib", .list [.text "-", .text "n", .integer 1]],
          .list [.text "fib", .list [.text "-", .text "n", .integer 2]]]]]
    let labelled := interpreter.after (interpreter.eval Host.sample 400
      (.list [.text "label", .text "fib", .list [.text "quote", program]]))
    ∃ bound, ∀ limit, bound ≤ limit →
      (labelled.eval Host.sample limit (.list [.text "fib", .integer 10])).result =
        .ok (.number 55) := by
  obtain ⟨interpreter, event, hstart⟩ :
      ∃ interpreter event, start .numeric = .ok (interpreter, event) := ⟨_, _, rfl⟩
  have hdialect : interpreter.dialect = .numeric := (start_eq_ok hstart).1
  refine ⟨interpreter, event, hstart, ?_⟩
  intro program labelled
  have hread : interpreter.read
      (.list [.text "label", .text "fib", .list [.text "quote", program]]) =
        .ok (.call "label" [.symbol "fib", .quoted .fib]) := by
    rw [read, hdialect]
    rfl
  have hcall : labelled.read (.list [.text "fib", .integer 10]) =
      .ok (.call "fib" [.number 10]) := by
    show interpreter.read _ = _
    rw [read, hdialect]
    rfl
  have hten : fibonacci 10 = 55 := by simp [fibonacci]
  obtain ⟨bound, hbound⟩ := (eval_fib Host.sample hstart (by simp : 2 ≤ 400) hread).2 10
  refine ⟨bound, ?_⟩
  intro limit hle
  rw [← hten]
  exact (hbound limit hle _ hcall).1

/-- An interpreter that labels the program finds the last items of lists by it: under every limit
from some limit on, a call with a quoted list that is not empty gives the last item as it is and
leaves the environment as it is. -/
theorem eval_last (host : Host) {dialect : Dialect}
    (hdialect : dialect = .boolean ∨ dialect = .numeric)
    (hstart : start dialect = .ok (interpreter, event)) (hlimit : 2 ≤ limit)
    (hread : interpreter.read d = .ok (.call "label" [.symbol "last", .quoted .last])) :
    (interpreter.eval host limit d).result = .ok .last ∧
      let labelled := interpreter.after (interpreter.eval host limit d)
      ∀ xs (hxs : xs ≠ []), ∃ bound, ∀ limit, bound ≤ limit →
        ∀ d, labelled.read d = .ok (.call "last" [.quoted (.list xs)]) →
          (labelled.eval host limit d).result = .ok (xs.getLast hxs) ∧
            (labelled.eval host limit d).env = labelled.env := by
  have hregistered : dialect ∈ Dialect.registered := by
    rcases hdialect with rfl | rfl
    all_goals simp [Dialect.registered]
  obtain ⟨hcomposed, hresult, henv⟩ := eval_label_new host hregistered hstart hread hlimit
  refine ⟨hresult, ?_⟩
  intro labelled xs hxs
  have hlabelled : labelled.env.DefinesLast := by
    show (interpreter.eval host limit d).env.DefinesLast
    rw [henv]
    exact .label hdialect hcomposed
  cases xs with
  | nil => exact absurd rfl hxs
  | cons x xs =>
    exact eval_of_evaluates (hlabelled.hasValue_last x xs (.quoted hlabelled.quote _))

/-- Items that are a symbol with a binding, a function and, at the end, a call. The call is not
made. -/
theorem eval_last_call : ∃ interpreter event, start .boolean = .ok (interpreter, event) ∧
    let program : Datum Expr := .list [.text "lambda", .list [.text "l"],
      .list [.text "if",
        .list [.text "eq", .list [.text "cdr", .text "l"], .list [.text "quote", .list []]],
        .list [.text "car", .text "l"], .list [.text "last", .list [.text "cdr", .text "l"]]]]
    let items : Datum Expr := .list [.text "last", .expr (.builtin ⟨"car", .car⟩),
      .list [.text "label", .text "l", .list []]]
    let labelled := interpreter.after (interpreter.eval Host.sample 400
      (.list [.text "label", .text "last", .list [.text "quote", program]]))
    ∃ bound, ∀ limit, bound ≤ limit →
      (labelled.eval Host.sample limit
        (.list [.text "last", .list [.text "quote", items]])).result =
          .ok (.call "label" [.symbol "l", .list []]) := by
  obtain ⟨interpreter, event, hstart⟩ :
      ∃ interpreter event, start .boolean = .ok (interpreter, event) := ⟨_, _, rfl⟩
  have hdialect : interpreter.dialect = .boolean := (start_eq_ok hstart).1
  refine ⟨interpreter, event, hstart, ?_⟩
  intro program items labelled
  have hread : interpreter.read
      (.list [.text "label", .text "last", .list [.text "quote", program]]) =
        .ok (.call "label" [.symbol "last", .quoted .last]) := by
    rw [read, hdialect]
    rfl
  have hcall : labelled.read (.list [.text "last", .list [.text "quote", items]]) =
      .ok (.call "last" [.quoted (.list [.symbol "last", .builtin ⟨"car", .car⟩,
        .call "label" [.symbol "l", .list []]])]) := by
    show interpreter.read _ = _
    rw [read, hdialect]
    rfl
  obtain ⟨bound, hbound⟩ :=
    (eval_last Host.sample (.inl rfl) hstart (by simp : 2 ≤ 400) hread).2 _ (List.cons_ne_nil _ _)
  refine ⟨bound, ?_⟩
  intro limit hle
  exact (hbound limit hle _ hcall).1

end Interpreter

end LispDialects
