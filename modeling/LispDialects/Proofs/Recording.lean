import LispDialects.Proofs.Congruence
import LispDialects.Proofs.Reading
import LispDialects.Proofs.Settling
import LispDialects.Proofs.Termination

/-!
# What is recorded, and when

Evaluation records what it evaluates and which special forms it finds, and nothing else: however
deep it fails, only the interpreter that was asked records the failure, and only once. This is said
of closed classes of expressions, since a special form of the host could record anything.
`Records P action` says of an action that, wherever it starts in an environment of the class, it
adds events of the evaluator to the record. There is one lemma for each step that an action is made
of, and evaluation has the property since its parts hand it on (`Closed.records_evaluate`).

The main statement is about the expressions over the functions of the three tables, for any truth
codings and with any host data in them (`OfTables`). An interpreter that begins with nothing else
(`Dialect.holds_ofTables`) never comes to hold anything else, so the statement is about every state
that it can reach (`Interpreter.eval_reports_once`).
-/

namespace LispDialects

open EvalM

/-! ## Actions that record what the evaluator notices -/

/-- Wherever the action starts in an environment of the class, it adds events of the evaluator to
the record and leaves what is there. -/
def EvalM.Records {α : Type} (P : Expr → Prop) (action : EvalM α) : Prop :=
  ∀ run result after, run.env.Holds P → Ends action run result after →
    ∃ events, after.log.toList = run.log.toList ++ events ∧
      ∀ event ∈ events, event.channel = .evaluator

namespace EvalM.Records

variable {α β : Type} {P : Expr → Prop}

/-- An action that leaves the record as it is adds nothing to it. -/
theorem of_log_eq {action : EvalM α}
    (h : ∀ run result after, Ends action run result after → after.log = run.log) :
    Records P action := by
  intro run result after _ hends
  have hlog : after.log = run.log := h run result after hends
  refine ⟨[], ?_, by simp⟩
  rw [hlog, List.append_nil]

theorem pure (a : α) : Records P (Pure.pure a) := by
  refine of_log_eq ?_
  intro run result after hends
  rw [(ends_pure.1 hends).2]

theorem throw (error : Error) : Records P (throw error : EvalM α) := by
  refine of_log_eq ?_
  intro run result after hends
  rw [(ends_throw.1 hends).2]

theorem getEnv : Records P EvalM.getEnv := by
  refine of_log_eq ?_
  intro run result after hends
  rw [(ends_getEnv.1 hends).2]

theorem define (name : String) (value : Expr) : Records P (EvalM.define name value) := by
  refine of_log_eq ?_
  intro run result after hends
  rw [(ends_define.1 hends).2]

/-- The one step that records has to record an event of the evaluator. -/
theorem record {event : Event} (hevent : event.channel = .evaluator) :
    Records P (EvalM.record event) := by
  intro run result after _ hends
  obtain ⟨_, rfl⟩ := ends_record.1 hends
  exact ⟨[event], Array.toList_push, by simpa using hevent⟩

/-- A sequence records what its parts record. The first part leaves an environment of the class, in
which the second one starts. -/
theorem bind {x : EvalM α} {f : α → EvalM β} {good : α → Prop}
    (hpreserves : Preserves P good x) (hx : Records P x)
    (hf : ∀ a, good a → Records P (f a)) : Records P (x >>= f) := by
  intro run result after henv hends
  rcases ends_bind.1 hends with ⟨a, middle, hfirst, hrest⟩ | ⟨error, hfirst, _⟩
  · obtain ⟨hholds, ha⟩ := hpreserves run a middle henv hfirst
    obtain ⟨events, hmiddle, hevents⟩ := hx run _ middle henv hfirst
    obtain ⟨later, hafter, hlater⟩ := hf a ha middle result after hholds hrest
    refine ⟨events ++ later, ?_, List.forall_mem_append.2 ⟨hevents, hlater⟩⟩
    rw [hafter, hmiddle, List.append_assoc]
  · exact hx run _ after henv hfirst

/-- What is recorded in a frame is recorded outside of it. -/
theorem inFrame {frame : Environment} {action : EvalM α} (hframe : frame.Holds P)
    (haction : Records P action) : Records P (EvalM.inFrame frame action) := by
  intro run result after _ hends
  obtain ⟨inner, hinner, rfl⟩ := ends_inFrame.1 hends
  exact haction { run with env := frame } result inner hframe hinner

/-- An action records what the evaluator notices when its parts do. -/
theorem congruence (hitem : ∀ {items}, P (.list items) → ∀ e ∈ items, P e) :
    Congruence P fun action _ => Records P action where
  item := hitem
  pure := pure
  throw := throw
  getEnv := getEnv
  record := record
  define := define
  bind := bind
  inFrame := inFrame

end EvalM.Records

/-! ## The evaluator -/

namespace Closed

variable {host : Host} {P : Expr → Prop} {K : Error → Prop}

/-- One level of evaluation records the expression first, and then events of the evaluator. -/
theorem records_level (hP : Closed host P K) {limit : Nat}
    (hrecords : ∀ e, P e → Records P (evaluate host limit e)) {e : Expr} (he : P e)
    {run after : Run} {result : Except Error Expr} (henv : run.env.Holds P)
    (hends : Ends (evaluate host (limit + 1) e) run result after) :
    ∃ events, after.log.toList = run.log.toList ++ .evaluating e run.env :: events ∧
      ∀ event ∈ events, event.channel = .evaluator := by
  have hnoted : (noted run e).log.toList = run.log.toList ++ [.evaluating e run.env] :=
    Array.toList_push
  -- only a call records anything more
  have hself : after = noted run e →
      ∃ events, after.log.toList = run.log.toList ++ .evaluating e run.env :: events ∧
        ∀ event ∈ events, event.channel = .evaluator := by
    rintro rfl
    exact ⟨[], hnoted, by simp⟩
  cases e with
  | symbol name => exact hself (ends_evaluate_symbol.1 hends).2
  | list items =>
    cases items with
    | nil => exact hself ((ends_evaluate_self (by simp)).1 hends).2
    | cons head operands =>
      obtain ⟨hhead, hoperands⟩ := List.forall_mem_cons.1 (hP.list.1 he)
      have hcall : Records P (call host (evaluate host limit) head operands) :=
        @Congruence.call P host _ (Records.congruence hP.list.1) (evaluate host limit)
          (evaluate host limit) (fun _ => hP.preserves_evaluate limit) hrecords operands hoperands
          hP.relates head hhead
      obtain ⟨events, hafter, hevents⟩ := hcall (noted run _) result after henv
        (ends_evaluate_call.1 hends)
      refine ⟨events, ?_, hevents⟩
      rw [hafter, hnoted, List.append_assoc, List.singleton_append]
  | foreign d => exact hself (ends_evaluate_foreign.1 hends).2
  | _ => exact hself ((ends_evaluate_self (by simp)).1 hends).2

/-- Whatever the evaluation of an expression of a closed class ends in, it adds events of the
evaluator to the record and no others. -/
theorem records_evaluate (hP : Closed host P K) (limit : Nat) :
    ∀ e, P e → Records P (evaluate host limit e) := by
  intro e he
  have hcongruence := Records.congruence hP.list.1
  exact hcongruence.evaluate hP.relates (fun limit _ => hP.preserves_evaluate limit) limit he

/-- The record of an evaluation holds events of the evaluator only, the expression first. -/
theorem log_answer (hP : Closed host P K) {e : Expr} (he : P e) {env : Environment}
    (henv : env.Holds P) (limit : Nat) :
    let answer := (evaluate host limit e).answer env
    (∀ event ∈ answer.log.toList, event.channel = .evaluator) ∧
      (0 < limit → answer.log.toList.head? = some (.evaluating e env)) := by
  intro answer
  have hends := ends_answer (evaluate host limit e) env
  constructor
  · obtain ⟨events, hlog, hevents⟩ := hP.records_evaluate limit e he _ _ _ henv hends
    -- nothing was recorded before
    rwa [show answer.log.toList = events from hlog]
  · intro hlimit
    obtain ⟨limit, rfl⟩ := Nat.exists_eq_add_one.2 hlimit
    obtain ⟨later, hlog, _⟩ := hP.records_level (hP.records_evaluate limit) he henv hends
    rw [show answer.log.toList = .evaluating e env :: later from hlog]
    rfl

end Closed

/-! ## Expressions over the functions of the tables -/

/-- The expressions that are made of symbols, numbers, host data and the functions of the three
tables. The functions may be those of any truth codings with such expressions as values. -/
inductive OfTables : Expr → Prop where
  | symbol (name : String) : OfTables (.symbol name)
  | number (n : Int) : OfTables (.number n)
  | foreign (d : Datum Expr) : OfTables (.foreign d)
  | list {items : List Expr} (hitems : ∀ e ∈ items, OfTables e) : OfTables (.list items)
  | function {truth : Truth Expr} (hyes : OfTables truth.yes) (hno : OfTables truth.no)
      {key : Datum Expr} {f : Expr} (hf : (key, f) ∈ Table.standard truth) : OfTables f

/-- A list is over the tables exactly when its items are. -/
theorem ofTables_list {items : List Expr} :
    OfTables (.list items) ↔ ∀ e ∈ items, OfTables e := by
  constructor
  · intro h
    cases h with
    | list hitems => exact hitems
    | function _ _ hf => simpa using mem_standard hf
  · exact .list

/-- The errors of evaluation over the tables: those of the language, which an interpreter reports,
and the one for too deep a nesting. -/
def ReportedOrCutOff (error : Error) : Prop :=
  error.isReported = true ∨ error = .nestingLimit

/-- Evaluation does not lead out of the expressions over the tables. -/
theorem closed_ofTables (host : Host) : Closed host OfTables ReportedOrCutOff where
  list := ofTables_list
  foreign _ := .inl rfl
  noHostForm := by
    intro f key h
    cases h with
    | function _ _ hf =>
      rcases mem_standard hf with h | h | h | ⟨b, h, _⟩ <;> cases h <;> simp
  cond := by
    intro shown truth h
    cases h with
    | function hyes hno hf =>
      rcases mem_standard hf with h | h | h | ⟨b, h, _⟩ <;> cases h
      exact hno
  builtin := by
    intro f args h hargs
    cases h with
    | function hyes hno hf =>
      rcases mem_standard hf with h | h | h | ⟨b, h, hhost, hcoding⟩ <;> cases h
      refine BuiltinOp.meets_call host ?_ ofTables_list (fun _ _ => .number) ?_ ?_ hargs
      · exact fun herror => .inl (ErrorKind.isReported_of_ofCalls herror)
      · intro truth htruth
        rw [hcoding truth htruth]
        exact ⟨hyes, hno⟩
      · exact fun key hop => absurd hop (hhost key)
  error herror := .inl (ErrorKind.isReported_of_ofCalls herror)
  nesting := .inr rfl

/-- A dialect that is made of the three tables begins with expressions over them, if its truth
coding is made of such expressions. -/
theorem Dialect.holds_ofTables {dialect : Dialect} (hyes : OfTables dialect.truth.yes)
    (hno : OfTables dialect.truth.no)
    (htables : ∀ table ∈ dialect.tables, ∀ entry ∈ table dialect.truth,
      entry ∈ Table.standard dialect.truth)
    {env : Environment} (hnew : dialect.newEnvironment = .ok env) : env.Holds OfTables := by
  refine Dialect.holds_newEnvironment ?_ hnew
  intro table htable entry hentry
  exact .function hyes hno (htables table htable entry hentry)

/-- Data in which every expression is one over the tables is read as one. -/
theorem ofTables_read {vocabulary : Vocabulary} {d : Datum Expr} {e : Expr}
    (hd : ∀ e, .expr e ∈ d.leaves → OfTables e) (hread : vocabulary.read d = .ok e) :
    OfTables e := by
  induction d using Datum.sequence_induction generalizing e with
  | leaf d hleaf =>
    rw [Datum.leaves_of_isLeaf hleaf] at hd
    cases (Vocabulary.nesting_of_read hread).2 with
    | expr => exact hd e (by simp)
    | text s => exact .symbol s
    | integer n => exact .number n
    | list => exact absurd rfl (hleaf.1 _)
    | tuple => exact absurd rfl (hleaf.2 _)
  | list items ih | tuple items ih =>
    have hitems : ∀ item ∈ items, ∀ e, vocabulary.read item = .ok e → OfTables e := by
      intro item hitem e he
      exact ih item hitem (fun e he => hd e (Datum.leaves_subset_allLeaves hitem he)) he
    obtain ⟨es, rfl, hes⟩ := Vocabulary.read_sequence_mem hitems hread
    exact .list hes

/-! ## Interpreters -/

/-- What an interpreter records of the result of an expression: a failure, in words, if the error is
one of the language, and nothing of a value or of a nesting that is too deep. -/
inductive Reports (e : Expr) : Except Error Expr → List Event → Prop where
  | value (v : Expr) : Reports e (.ok v) []
  | cutOff : Reports e (.error .nestingLimit) []
  | failure {error : Error} {event : Event} (hreported : error.isReported = true)
      (hchannel : event.channel = .interpreter)
      (hmessage : event.message = "evaluation of " ++ e.text ++ " failed: " ++ error.message) :
      Reports e (.error error) [event]

/-- Reporting adds to the record what is to be said of the result. -/
theorem reports_reported {good : Expr → Prop} {e : Expr} {result : Except Error Expr} (run : Run)
    (hresult : Meets good ReportedOrCutOff result) :
    ∃ events, (reported e result run).log.toList = run.log.toList ++ events ∧
      Reports e result events := by
  cases result with
  | ok v => exact ⟨[], (List.append_nil _).symm, .value v⟩
  | error error =>
    rcases hresult with hreported | rfl
    · refine ⟨[.failed e error], ?_, .failure hreported rfl rfl⟩
      rw [reported, if_pos hreported]
      exact Array.toList_push
    · exact ⟨[], (List.append_nil _).symm, .cutOff⟩

namespace Interpreter

variable {interpreter : Interpreter} {d : Datum Expr}

/-- Data that cannot be read has no effect. -/
theorem eval_of_read_error (host : Host) (limit : Nat) {error : Error}
    (hread : interpreter.read d = .error error) :
    interpreter.eval host limit d = ⟨.error error, interpreter.env, #[]⟩ := by
  rw [eval, readAndEvaluate, hread]
  rfl

/-- Every failure of an interpreter is reported once, and what cannot be read does nothing.

The interpreter and the data are over the functions of the three tables. If the data is rejected,
the answer is that error of the class for literals, with the environment as it was and an empty
record. Otherwise the answer has the result and the environment of the evaluation of the expression
that was read. Its record is that of the evaluation, which has events of the evaluator only and the
expression first, followed by one event of the interpreter if the evaluation has failed with an
error of the language, and by nothing if it has not. Either way the interpreter is one over the
tables again. -/
theorem eval_reports_once (host : Host) (henv : interpreter.env.Holds OfTables) (limit : Nat)
    (hd : ∀ e, .expr e ∈ d.leaves → OfTables e) :
    let answer := interpreter.eval host limit d
    (∀ error, interpreter.read d = .error error →
      error.kind = .literal ∧ answer = ⟨.error error, interpreter.env, #[]⟩) ∧
    (∀ e, interpreter.read d = .ok e →
      let inner := (evaluate host limit e).answer interpreter.env
      answer.result = inner.result ∧ answer.env = inner.env ∧
        (∀ event ∈ inner.log.toList, event.channel = .evaluator) ∧
        (0 < limit → inner.log.toList.head?.map Event.message = some ("eval " ++ e.text)) ∧
        ∃ events, answer.log.toList = inner.log.toList ++ events ∧
          Reports e answer.result events) ∧
    answer.env.Holds OfTables := by
  intro answer
  cases hread : interpreter.read d with
  | error error =>
    have hanswer : answer = ⟨.error error, interpreter.env, #[]⟩ :=
      eval_of_read_error host limit hread
    refine ⟨?_, by simp, ?_⟩
    · rintro _ ⟨⟩
      obtain ⟨_, _, hkind, _⟩ := Vocabulary.cause_of_read_error hread
      exact ⟨hkind, hanswer⟩
    · rw [hanswer]
      exact henv
  | ok e =>
    have hclosed := closed_ofTables host
    have he : OfTables e := ofTables_read hd hread
    have hkeeps := hclosed.keeps_evaluate limit e Set.univ he (Set.subset_univ _)
    obtain ⟨hwithin, hinner⟩ := hkeeps _ _ _ henv
      (ends_answer (evaluate host limit e) interpreter.env)
    obtain ⟨hresult, hafter⟩ := eval_of_read host hread limit
    refine ⟨by simp, ?_, ?_⟩
    · rintro _ ⟨⟩
      obtain ⟨hchannel, hfirst⟩ := hclosed.log_answer he henv limit
      obtain ⟨events, hlog, hreports⟩ := reports_reported (e := e) ⟨_, _⟩ hinner
      rw [← hresult] at hreports
      refine ⟨hresult, hafter, hchannel, ?_, events, ?_, hreports⟩
      · intro hlimit
        rw [hfirst hlimit]
        rfl
      · rw [← hlog, ← (eval_eq_reported host hread limit).2]
    · show (interpreter.eval host limit d).env.Holds OfTables
      rw [hafter]
      exact hwithin.env

/-- A call that fails after its operand has labelled a name, the same call cut off before that, and
data that is rejected. -/
theorem eval_reports_once_failures :
    let d : Datum Expr := .list [.text "car", .list [.text "label", .text "x", .integer 5]]
    let rejected : Datum Expr := .tuple [.text "quote", .flag true]
    ∃ interpreter event, start .numeric = .ok (interpreter, event) ∧
      (let answer := interpreter.eval Host.sample 3 d
      answer.env.lookup "x" = some (.number 5) ∧
        ∃ noticed failure, answer.log.toList = noticed ++ [failure] ∧
          (∀ event ∈ noticed, event.channel = .evaluator) ∧
          noticed.head?.map Event.message = some "eval (car (label x 5))" ∧
          failure.channel = .interpreter ∧ failure.message =
            "evaluation of (car (label x 5)) failed: car expects a list, got 5") ∧
      (let answer := interpreter.eval Host.sample 1 d
      answer.result = .error .nestingLimit ∧
        ∃ noticed, answer.log.toList = noticed ∧ ∀ event ∈ noticed, event.channel = .evaluator) ∧
      interpreter.eval Host.sample 3 rejected =
        ⟨.error (.notConvertible (.flag true)), interpreter.env, #[]⟩ := by
  intro d rejected
  have hstate : ∀ env, Dialect.numeric.newEnvironment = .ok env → env.Holds OfTables :=
    fun env => Dialect.holds_ofTables (.symbol "T") (.symbol "nil") Dialect.mem_standard_numeric
  have hd : ∀ e, .expr e ∈ d.leaves → OfTables e := by
    simp [d, Datum.leaves, Datum.allLeaves]
  refine ⟨_, _, rfl, ⟨rfl, ?_⟩, ⟨rfl, ?_⟩, ?_⟩
  · obtain ⟨_, hread, _⟩ := @eval_reports_once ⟨.numeric, _⟩ d Host.sample (hstate _ rfl) 3 hd
    obtain ⟨_, _, hchannel, hfirst, events, hlog, hreports⟩ := hread _ rfl
    cases hreports with
    | failure _ hinterpreter hmessage =>
      exact ⟨_, _, hlog, hchannel, hfirst (by decide), hinterpreter, hmessage⟩
  · obtain ⟨_, hread, _⟩ := @eval_reports_once ⟨.numeric, _⟩ d Host.sample (hstate _ rfl) 1 hd
    obtain ⟨_, _, hchannel, _, events, hlog, hreports⟩ := hread _ rfl
    cases hreports with
    | cutOff => exact ⟨_, hlog.trans (List.append_nil _), hchannel⟩
    | failure hreported => cases hreported
  · have hleaves : ∀ e, .expr e ∈ rejected.leaves → OfTables e := by
      simp [rejected, Datum.leaves, Datum.allLeaves]
    exact ((eval_reports_once Host.sample (hstate _ rfl) 3 hleaves).1 _ rfl).2

end Interpreter

end LispDialects
