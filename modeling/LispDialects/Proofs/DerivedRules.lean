import LispDialects.Proofs.Composition
import LispDialects.Proofs.Growth
import LispDialects.Proofs.Sessions
import LispDialects.Proofs.Settling

/-!
# Rules for programs

The rules of evaluation, put together for what programs are mostly made of: quotations, and calls
of names for builtins and lambda literals. What a name is called for does not change as other names
are bound (`Environment.Calls.growsBy`), so facts about the environment that a program starts in
hold in all frames that its calls make. For a new environment these facts are read off the tables of
the dialect (`Dialect.Composed.calls`, `Dialect.Composed.form?_eq`).
-/

namespace LispDialects

open EvalM

/-! ## Expressions -/

/-- A call of a name. -/
abbrev Expr.call (name : String) (operands : List Expr) : Expr :=
  .list (.symbol name :: operands)

abbrev Expr.quoted (e : Expr) : Expr :=
  .call "quote" [e]

abbrev Expr.lambda (formals : List String) (body : Expr) : Expr :=
  .list [.symbol "lambda", .list (formals.map .symbol), body]

/-! ## What a name is called for -/

/-- A call of the name applies the value: the name is that of no special form, and it is bound to
the value. -/
structure Environment.Calls (env : Environment) (name : String) (v : Expr) : Prop where
  form : env.form? name = none
  lookup : env.lookup name = some v

section Calls

variable {env after : Environment} {name : String} {v : Expr}

/-- Binding other names does not change what a name is called for. -/
theorem Environment.Calls.growsBy {names : Set String} (h : env.Calls name v)
    (hgrows : env.GrowsBy names after) (hname : name ∉ names) : after.Calls name v where
  form := by
    rw [Environment.form?, hgrows.forms_eq]
    exact h.form
  lookup := by
    rw [Environment.lookup, hgrows.get?_eq hname]
    exact h.lookup

/-- A name that is bound anew is called for its new value. -/
theorem Environment.Calls.define_self (hform : env.form? name = none) (hv : v.isAbsent = false) :
    (env.define name v).Calls name v where
  form := hform
  lookup := by
    rw [Environment.lookup_define, if_pos rfl]
    simp [hv]

/-- Binding one other name is growing by it. -/
theorem Environment.Calls.define (h : env.Calls name v) {other : String} (hne : name ≠ other)
    (value : Expr) : (env.define other value).Calls name v :=
  h.growsBy (.define (Set.mem_singleton other) value env) hne

/-! ### New environments -/

variable {dialect : Dialect}

/-- The special form of a name in a new environment is the value that the tables give the name, if
that is one. -/
theorem Dialect.Composed.form?_eq (h : dialect.Composed env) : env.form? name =
    (dialect.tables.findSome? fun table => table.value? dialect.truth name).bind Expr.form? := by
  ext f
  rw [h.form, h.value, Expr.bind_form?_eq_some]

/-- Every other value is what the name is called for. -/
theorem Dialect.Composed.calls (h : dialect.Composed env)
    (hvalue : (dialect.tables.findSome? fun table => table.value? dialect.truth name) = some v)
    (hform : v.form? = none) (habsent : v.isAbsent = false) : env.Calls name v where
  form := by
    rw [h.form?_eq, hvalue]
    exact hform
  lookup := by
    rw [Environment.lookup, h.value, hvalue]
    simp [habsent]

/-- All registered dialects quote and label. -/
theorem Dialect.Composed.base_forms (h : dialect.Composed env) (hdialect : dialect ∈ registered) :
    env.form? "quote" = some ⟨"quote", .quote⟩ ∧ env.form? "label" = some ⟨"label", .label⟩ := by
  rw [h.form?_eq, h.form?_eq]
  simp only [registered, List.mem_cons, List.not_mem_nil, or_false] at hdialect
  rcases hdialect with rfl | rfl | rfl
  all_goals exact ⟨rfl, rfl⟩

end Calls

/-! ## Calls -/

/-- An expression has the value, and evaluating it changes nothing. -/
abbrev HasValue (host : Host) (env : Environment) (e v : Expr) : Prop :=
  Evaluates host e env (.ok v) env

section Rules

variable {host : Host} {env middle after inner : Environment} {name : String}
  {result : Except Error Expr}

/-- A quotation gives the quoted expression, whatever its name is bound to. -/
theorem Evaluates.quoted (hquote : env.form? "quote" = some ⟨"quote", .quote⟩) (e : Expr) :
    HasValue host env e.quoted e :=
  .formCall hquote (.quote e env)

/-- A symbol that was just bound gives its value. -/
theorem Evaluates.defined {v : Expr} (hv : v.isAbsent = false) (name : String)
    (env : Environment) : HasValue host (env.define name v) (.symbol name) v := by
  refine .bound ?_
  rw [Environment.lookup_define, if_pos rfl]
  simp [hv]

/-- The conditional of the symbolic truth coding, with a canonical truth value for its condition,
evaluates one of the other two operands. -/
theorem Evaluates.call_cond {shown : String} {b : Bool} {condition whenTrue whenFalse : Expr}
    (hform : env.form? name = some ⟨shown, .cond .symbolic⟩)
    (hcondition : Evaluates host condition env (.ok (Truth.symbolic.coerce b)) middle)
    (hvalue : Evaluates host (if b then whenTrue else whenFalse) middle result after) :
    Evaluates host (.call name [condition, whenTrue, whenFalse]) env result after := by
  cases b with
  | true => exact .formCall hform (.condTrue le_rfl hcondition rfl hvalue)
  | false => exact .formCall hform (.condFalse hcondition rfl hvalue)

/-- A builtin of the language is called with the values of the operands. -/
theorem Evaluates.call_builtin {f : Builtin Expr} {operands values : List Expr}
    (hcalls : env.Calls name (.builtin f)) (hop : ∀ key, f.op ≠ .host key)
    (hoperands : EvaluatesAll host operands env (.ok values) after) :
    Evaluates host (.call name operands) env (f.op.call host values) after := by
  have happlies : Applies host (.builtin f) operands env (f.op.call host values) after :=
    .builtin hop hoperands
  exact .namedCall hcalls.form hcalls.lookup happlies

/-- The body of a lambda literal with one formal is evaluated where the formal is bound to the
value of the operand. -/
theorem Evaluates.call_lambda {formal : String} {body operand v : Expr}
    (hcalls : env.Calls name (.lambda [formal] body))
    (hoperand : Evaluates host operand env (.ok v) middle)
    (hbody : Evaluates host body (middle.define formal v) result inner) :
    Evaluates host (.call name [operand]) env result middle := by
  have hvalues : EvaluatesAll host [operand] env (.ok [v]) middle := .cons hoperand (.nil middle)
  have hzip : [Expr.symbol formal].zip [v] = asFormals [(formal, v)] := rfl
  have happlies : Applies host (.lambda [formal] body) [operand] env result middle :=
    .lambda hvalues hzip hbody
  exact .namedCall hcalls.form hcalls.lookup happlies

end Rules

/-! ## Quotations and labels -/

/-- One evaluation is enough for a quotation. -/
theorem completes_quoted {host : Host} {env : Environment}
    (hquote : env.form? "quote" = some ⟨"quote", .quote⟩) (e : Expr) (limit : Nat) :
    Completes (evaluate host (limit + 1) e.quoted) env (.ok e) env := by
  refine completes_evaluate (completes_formCall hquote ?_)
  exact .pure e env

/-- Labelling a quoted expression binds it. Two evaluations inside of one another are enough. -/
theorem completes_label_quoted {host : Host} {env : Environment}
    (hlabel : env.form? "label" = some ⟨"label", .label⟩)
    (hquote : env.form? "quote" = some ⟨"quote", .quote⟩) (name : String) (e : Expr)
    (limit : Nat) :
    Completes (evaluate host (limit + 2) (.call "label" [.symbol name, e.quoted])) env (.ok e)
      (env.define name e) := by
  refine completes_evaluate (completes_formCall hlabel ?_)
  -- the quotation is the first of the two, and the binding asks for none
  have hoperand : Completes (evaluate host (limit + 1) e.quoted) env (.ok e) env :=
    completes_quoted hquote e limit
  exact hoperand.bind ((Completes.define name e env).bind (.pure e _))

/-- An interpreter that is given such a label has the name bound afterwards. -/
theorem Interpreter.eval_label_quoted (host : Host) {interpreter : Interpreter}
    (hlabel : interpreter.env.form? "label" = some ⟨"label", .label⟩)
    (hquote : interpreter.env.form? "quote" = some ⟨"quote", .quote⟩) {d : Datum Expr}
    {name : String} {e : Expr}
    (hread : interpreter.read d = .ok (.call "label" [.symbol name, e.quoted])) {limit : Nat}
    (hlimit : 2 ≤ limit) :
    (interpreter.eval host limit d).result = .ok e ∧
      (interpreter.eval host limit d).env = interpreter.env.define name e := by
  obtain ⟨more, rfl⟩ := Nat.exists_eq_add_of_le' hlimit
  obtain ⟨hresult, henv⟩ := eval_of_read host hread (more + 2)
  rw [hresult, henv]
  exact (completes_label_quoted hlabel hquote name e more).answer_eq

/-- So does a new interpreter of a registered dialect. -/
theorem Interpreter.eval_label_new (host : Host) {dialect : Dialect}
    (hdialect : dialect ∈ Dialect.registered) {interpreter : Interpreter} {event : Event}
    (hstart : start dialect = .ok (interpreter, event)) {d : Datum Expr} {name : String} {e : Expr}
    (hread : interpreter.read d = .ok (.call "label" [.symbol name, e.quoted])) {limit : Nat}
    (hlimit : 2 ≤ limit) :
    dialect.Composed interpreter.env ∧ (interpreter.eval host limit d).result = .ok e ∧
      (interpreter.eval host limit d).env = interpreter.env.define name e := by
  have hcomposed : dialect.Composed interpreter.env :=
    Dialect.composed_of_new (Dialect.isNamed_registered hdialect) (newEnvironment_of_start hstart)
  obtain ⟨hquote, hlabel⟩ := hcomposed.base_forms hdialect
  exact ⟨hcomposed, eval_label_quoted host hlabel hquote hread hlimit⟩

end LispDialects
