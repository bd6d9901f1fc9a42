import LispDialects.Dialect.Catalogue
import LispDialects.Proofs.Correspondence
import Mathlib.Data.Set.Insert

/-!
# Programs without lambda literals

Only a lambda literal makes a program run longer than it is written. A literal is a list that
begins with the symbol `lambda`, and no builtin and no special form makes a symbol: where that
symbol occurs neither in the program nor in what is bound nor in the truth coding, no list is ever
called, although a program may make lists and use them as heads of calls.

So every evaluation inside of another one is that of an item, and evaluations are nested no deeper
than the program is written (`evaluate_within_depth`).
-/

namespace LispDialects

open EvalM

/-! ## Depth -/

mutual

/-- How deeply an expression is written: one for all but non-empty lists, and one more than the
deepest item for these. -/
def Expr.depth : Expr → Nat
  | .list items => Expr.deepest items + 1
  | .symbol _ | .number _ | .builtin _ | .form _ | .foreign _ => 1
termination_by structural e => e

def Expr.deepest : List Expr → Nat
  | [] => 0
  | e :: rest => max (Expr.depth e) (Expr.deepest rest)
termination_by structural items => items

end

/-- Every expression is evaluated at least once. -/
theorem Expr.depth_pos (e : Expr) : 0 < e.depth := by
  cases e <;> simp [Expr.depth]

/-- No item is written more deeply than the deepest of them. -/
theorem Expr.depth_le_deepest {items : List Expr} {item : Expr} (hitem : item ∈ items) :
    item.depth ≤ deepest items := by
  induction items with
  | nil => simp at hitem
  | cons e rest ih =>
    simp only [deepest]
    rcases List.mem_cons.1 hitem with rfl | hrest
    · omega
    · have hle := ih hrest
      omega

/-- An item is written less deeply than the list. -/
theorem Expr.depth_item {items : List Expr} {item : Expr} (hitem : item ∈ items) :
    item.depth + 1 ≤ (Expr.list items).depth := by
  have hle := Expr.depth_le_deepest hitem
  simp only [Expr.depth]
  omega

/-! ## The same run under two limits -/

variable {truth : Truth Expr}

/-- What is made without the symbol that marks lambda literals. -/
abbrev WithoutLambda (truth : Truth Expr) : Expr → Prop :=
  Expr.Over (LeafOutside truth {Expr.lambdaName})

/-- A run and itself, as long as it fails for nothing but a call. -/
def steady (truth : Truth Expr) : Correspondence where
  rename := id
  leaf := LeafOutside truth {Expr.lambdaName}
  env env other := other = env ∧ env.Holds (WithoutLambda truth)
  error a b := b = a ∧ a.kind ∈ ErrorKind.ofCalls

/-- Where the mark of lambda literals is never made, every step takes a run to the same run. -/
theorem steady_sound (htruth : truth.Proper) (hcoding : ¬ truth.Mentions Expr.lambdaName) :
    (steady truth).Sound truth where
  language := .outside htruth (by simpa using hcoding)
  injective := Function.injective_id
  lambda := rfl
  fixed := .id truth
  value := by
    rintro env _ name v ⟨rfl, hholds⟩ _ hvalue
    exact hholds.lookup hvalue
  lookup := by
    rintro env _ name ⟨rfl, _⟩ _
    exact (Expr.map_rename_id _).symm
  proper := by
    rintro env _ name f ⟨rfl, hholds⟩ _ hform
    exact (hholds.form hform).refine fun _ _ hleaf => hleaf.1
  form := by
    rintro env _ name ⟨rfl, _⟩ _
    rfl
  define := by
    rintro env other name v ⟨rfl, hholds⟩ _ hv
    exact ⟨congrArg (other.define name) (Expr.rename_id v), hholds.define name hv⟩
  error hkind := ⟨Error.rename_id _, hkind⟩

/-- Without its mark there is no lambda literal. -/
theorem lambdaParts?_withoutLambda {head : Expr} (hhead : WithoutLambda truth head) :
    head.lambdaParts? = none := by
  rw [Expr.lambdaParts?_eq_none]
  rintro formals body more rfl
  have hno : ∀ items, ¬ LeafOutside truth {Expr.lambdaName} (.list items) := by
    intro items hleaf
    exact leaf_list items hleaf.1
  have hmark := (Expr.over_list hno).1 hhead (.symbol Expr.lambdaName) List.mem_cons_self
  exact leafOutside_symbol.1 (Expr.over_symbol.1 hmark) rfl

/-- Under two limits that are no smaller than its depth, an expression is evaluated in the same way,
and neither limit is reached. -/
theorem steady_evaluate (host : Host) (htruth : truth.Proper)
    (hcoding : ¬ truth.Mentions Expr.lambdaName) (limit other : Nat) {e : Expr}
    (he : WithoutLambda truth e) (hlimit : e.depth ≤ limit) (hother : e.depth ≤ other) :
    (steady truth).Relates (steady truth).Twins (evaluate host limit e)
      (evaluate host other e) := by
  have hsound := steady_sound htruth hcoding
  have hsame : ∀ e : Expr, e.rename (steady truth).rename = e := Expr.rename_id
  -- every evaluation inside of one is that of an item, so both limits stay large enough
  induction limit generalizing other e with
  | zero =>
    have hpos := e.depth_pos
    omega
  | succ limit ih =>
    cases other with
    | zero =>
      have hpos := e.depth_pos
      omega
    | succ other =>
      have hstep : (steady truth).Relates (steady truth).Twins (evaluate host (limit + 1) e)
          (evaluate host (other + 1) (e.rename (steady truth).rename)) := by
        refine hsound.relates_step he ?_ ?_
        · rintro items rfl item hitem
          have hdepth := Expr.depth_item hitem
          have hitemWithout := hsound.language.over_list.1 he item hitem
          rw [hsame item]
          exact ih other hitemWithout (by omega) (by omega)
        · -- no body of a lambda literal is ever evaluated
          intro head formals body hhead hparts
          rw [lambdaParts?_withoutLambda hhead] at hparts
          cases hparts
      rwa [hsame e] at hstep

/-! ## Answers -/

/-- Calls fail with errors of the language. -/
theorem ErrorKind.isReported_of_ofCalls {kind : ErrorKind} (hkind : kind ∈ ofCalls) :
    kind.isReported = true := by
  simp only [ofCalls, List.mem_cons, List.not_mem_nil, or_false] at hkind
  rcases hkind with rfl | rfl | rfl | rfl <;> rfl

theorem steady_events {a b : Event} (h : (steady truth).Events a b) : a = b := by
  cases h with
  | evaluating e henv =>
    obtain ⟨rfl, _⟩ := henv
    have hsame : e.rename (steady truth).rename = e := e.rename_id
    rw [hsame]
  | formInvoked name => rfl

/-- Runs that relate in this way have one and the same answer, which is no failure but that of a
call. -/
theorem steady_answer {x y : EvalM Expr} (h : (steady truth).Relates (steady truth).Twins x y)
    {env : Environment} (henv : env.Holds (WithoutLambda truth)) :
    y.answer env = x.answer env ∧
      ((∃ v, (x.answer env).result = .ok v) ∨ ∃ error, (x.answer env).result = .error error ∧
        error.kind ∈ ErrorKind.ofCalls) := by
  obtain ⟨hresult, ⟨hafter, _⟩, hlog⟩ := h.answer ⟨rfl, henv⟩
  constructor
  · have herror : ∀ a b, (steady truth).error a b → b = a := fun _ _ herror => herror.1
    have hvalue : (y.answer env).result = (x.answer env).result := hresult.eq_of_id rfl herror
    have hrecords : (x.answer env).log.toList = (y.answer env).log.toList := by
      have hequal := hlog.imp fun a b => steady_events
      rwa [List.forall₂_eq_eq_eq] at hequal
    exact answer_ext hvalue hafter (Array.toList_inj.1 hrecords).symm
  · rcases hresult.ok_or_error with ⟨v, _, hv, _⟩ | ⟨error, _, herror, _, _, hkind⟩
    · exact .inl ⟨v, hv⟩
    · exact .inr ⟨error, herror, hkind⟩

/-- Without the symbol that marks lambda literals, in the program, in the values that are bound or
in the truth coding, every program comes to an end: with a value or with an error of the language.
Its evaluations are nested in one another no more deeply than it is written, so its depth is limit
enough, and every larger limit gives the same answer. -/
theorem evaluate_within_depth (host : Host) (htruth : truth.Proper)
    (hcoding : ¬ truth.Mentions Expr.lambdaName) {e : Expr} (he : Proper truth e)
    (hprogram : ¬ e.HasPart (.symbol Expr.lambdaName)) {env : Environment}
    (henv : env.Holds (Proper truth))
    (hvalues : ∀ name v, env.values.get? name = some v → ¬ v.HasPart (.symbol Expr.lambdaName))
    {limit : Nat} (hlimit : e.depth ≤ limit) :
    let answer := (evaluate host limit e).answer env
    ((∃ v, answer.result = .ok v) ∨
        ∃ error, answer.result = .error error ∧ error.isReported = true) ∧
      answer.result ≠ .error .nestingLimit ∧
      answer = (evaluate host e.depth e).answer env := by
  intro answer
  have havoids : ∀ v : Expr, ¬ v.HasPart (.symbol Expr.lambdaName) →
      v.Avoids {Expr.lambdaName} := by
    intro v hv
    simpa [Expr.Avoids] using hv
  have hwithout : WithoutLambda truth e := over_leafOutside he (havoids e hprogram)
  have hholds : env.Holds (WithoutLambda truth) := by
    constructor
    · intro name v hv
      exact over_leafOutside (henv.value hv) (havoids v (hvalues name v hv))
    · intro name f hf
      exact over_leafOutside_form (henv.form hf)
  have hrelates := steady_evaluate host htruth hcoding limit e.depth hwithout hlimit le_rfl
  obtain ⟨hequal, hends⟩ := steady_answer hrelates hholds
  rcases hends with ⟨v, hv⟩ | ⟨error, herror, hkind⟩
  · exact ⟨.inl ⟨v, hv⟩, by simp [answer, hv], hequal.symm⟩
  · have hreported : error.isReported = true := ErrorKind.isReported_of_ofCalls hkind
    refine ⟨.inr ⟨error, herror, hreported⟩, ?_, hequal.symm⟩
    intro hcut
    -- being cut off is no error of the language
    have hnesting : error = .nestingLimit := by
      simpa [answer, herror] using hcut
    rw [hnesting] at hreported
    cases hreported

/-- A list that a program makes with a builtin it has labelled, and then calls: the program ends,
its depth is limit enough, and under a limit of 400 the answer is the same. -/
theorem evaluate_within_depth_called_list : ∃ env,
    Dialect.numeric.newEnvironment = .ok env ∧
      (let e : Expr := .list [.list [.list [.symbol "label", .symbol "f", .symbol "cons"],
          .list [.symbol "quote", .symbol "mu"], .list [.symbol "quote", .list [.symbol "x"]]],
        .number 5]
      e.depth = 5 ∧
        ((evaluate Host.sample 5 e).answer env).result =
          .error (.notExecutable (.list [.symbol "mu", .symbol "x"])) ∧
        (evaluate Host.sample 400 e).answer env = (evaluate Host.sample 5 e).answer env) := by
  have hcoding : ¬ Truth.symbolic.Mentions Expr.lambdaName := by
    rw [Truth.symbolic_mentions]
    decide
  refine ⟨_, rfl, rfl, rfl, ?_⟩
  refine (evaluate_within_depth Host.sample Truth.symbolic_proper hcoding ?_ ?_
    (Dialect.holds_numeric rfl) ?_ (by decide)).2.2
  · simp [proper_list, proper_symbol, proper_number]
  · simp [Expr.hasPart_list, Expr.hasPart_symbol, Expr.hasPart_number, Expr.lambdaName]
  · intro name v hv
    exact Dialect.not_hasPart_atom Dialect.mem_standard_numeric rfl hv rfl

end LispDialects
