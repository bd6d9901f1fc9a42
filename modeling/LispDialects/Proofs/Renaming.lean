import LispDialects.Proofs.Proper
import LispDialects.Proofs.Rules
import Mathlib.Logic.Equiv.Basic

/-!
# Renaming symbols

`e.rename r` is the expression `e` with `r name` in place of every symbol `name`; numbers and
functions stay as they are, and so does the data of a host. A renamed environment has its names and
the symbols inside of its values renamed.

Whatever the language does with a symbol, it asks only whether it is another symbol or the mark of
a lambda literal. So every step of evaluation that looks at no other expression commutes with a
renaming that keeps different symbols apart:

* shapes, the parts of lambda literals and equality (`Expr.same_rename`);
* the builtins of the language (`BuiltinOp.call_rename`);
* looking names up and binding them (`Environment.lookup_rename`, `Environment.define_rename`).
-/

namespace LispDialects

/-! ## Renamed expressions -/

mutual

/-- The expression with every symbol renamed. -/
def Expr.rename (r : String → String) : Expr → Expr
  | .symbol name => .symbol (r name)
  | .number n => .number n
  | .list items => .list (Expr.renameAll r items)
  | .builtin f => .builtin f
  | .form f => .form f
  | .foreign d => .foreign d
termination_by structural e => e

def Expr.renameAll (r : String → String) : List Expr → List Expr
  | [] => []
  | e :: rest => Expr.rename r e :: Expr.renameAll r rest
termination_by structural items => items

end

def Error.rename (r : String → String) : Error → Error
  | .notAList function actual => .notAList function (actual.rename r)
  | .notNumbers function left right => .notNumbers function (left.rename r) (right.rename r)
  | .labelName actual => .labelName (actual.rename r)
  | .parameterName actual => .parameterName (actual.rename r)
  | .undefinedSymbol name => .undefinedSymbol (r name)
  | .notExecutable head => .notExecutable (head.rename r)
  | error => error

variable {r : String → String}

namespace Expr

@[simp] theorem rename_symbol (name : String) : (symbol name).rename r = symbol (r name) := rfl

@[simp] theorem rename_number (n : Int) : (number n).rename r = number n := rfl

@[simp] theorem rename_builtin (f : Builtin Expr) : (builtin f).rename r = builtin f := rfl

@[simp] theorem rename_form (f : SpecialForm Expr) : (form f).rename r = form f := rfl

@[simp] theorem rename_foreign (d : Datum Expr) : (foreign d).rename r = foreign d := rfl

theorem renameAll_eq_map (items : List Expr) : renameAll r items = items.map (rename r) := by
  induction items with
  | nil => rfl
  | cons e rest ih => simp [renameAll, ih]

@[simp] theorem rename_list (items : List Expr) :
    (list items).rename r = list (items.map (rename r)) :=
  congrArg list (renameAll_eq_map items)

/-- What has no symbol but fixed ones is not changed. -/
theorem Over.rename_eq_self {leaf : Expr → Prop} {e : Expr} (he : Over leaf e)
    (hfixed : ∀ part, leaf part → part.rename r = part) : e.rename r = e := by
  induction he with
  | leaf h => exact hfixed _ h
  | @list items _ ih =>
    have hitems : items.map (Expr.rename r) = items.map id := List.map_congr_left ih
    rw [rename_list, hitems, List.map_id]

mutual

/-- Renaming every symbol to itself changes nothing. -/
@[simp] theorem rename_id : ∀ e : Expr, e.rename id = e
  | .symbol _ | .number _ | .builtin _ | .form _ | .foreign _ => rfl
  | .list items => congrArg list (renameAll_id items)

theorem renameAll_id : ∀ items : List Expr, renameAll id items = items
  | [] => rfl
  | e :: rest => congrArg₂ List.cons (rename_id e) (renameAll_id rest)

end

theorem map_rename_id (o : Option Expr) : o.map (Expr.rename id) = o := by
  cases o <;> simp

mutual

/-- One renaming after another is the renaming that does both. -/
theorem rename_rename (s : String → String) :
    ∀ e : Expr, (e.rename r).rename s = e.rename (s ∘ r)
  | .symbol _ | .number _ | .builtin _ | .form _ | .foreign _ => rfl
  | .list items => congrArg list (renameAll_renameAll s items)

theorem renameAll_renameAll (s : String → String) :
    ∀ items : List Expr, renameAll s (renameAll r items) = renameAll (s ∘ r) items
  | [] => rfl
  | e :: rest => congrArg₂ List.cons (rename_rename s e) (renameAll_renameAll s rest)

end

/-- A renaming that can be undone keeps expressions apart. -/
theorem rename_inj {s : String → String} (hs : Function.LeftInverse s r) {a b : Expr} :
    a.rename r = b.rename r ↔ a = b := by
  constructor
  · intro heq
    have hback : ∀ e : Expr, (e.rename r).rename s = e := by
      intro e
      rw [rename_rename, hs.comp_eq_id, rename_id]
    rw [← hback a, heq, hback b]
  · rintro rfl
    rfl

/-! ## Shapes -/

@[simp] theorem symbolName?_rename (e : Expr) :
    (e.rename r).symbolName? = e.symbolName?.map r := by
  cases e <;> rfl

@[simp] theorem isAtom_rename (e : Expr) : (e.rename r).isAtom = e.isAtom := by
  cases e <;> rfl

@[simp] theorem isAbsent_rename (e : Expr) : (e.rename r).isAbsent = e.isAbsent := by
  cases e <;> rfl

/-- A renaming that keeps symbols apart and fixes the mark of lambda literals makes no lambda
literal and loses none. -/
theorem lambdaParts?_rename (hr : r.Injective) (hlambda : r lambdaName = lambdaName) (e : Expr) :
    (e.rename r).lambdaParts? =
      e.lambdaParts?.map fun (formals, body) => (formals.map (rename r), body.rename r) := by
  have hmark : ∀ name, r name = lambdaName ↔ name = lambdaName := by
    intro name
    constructor
    · intro hname
      exact hr (hname.trans hlambda.symm)
    · rintro rfl
      exact hlambda
  cases e with
  | list items =>
    rw [rename_list]
    -- only a list of three items or more, beginning with a symbol and a list, can be one
    rcases items with _ | ⟨mark, _ | ⟨formals, _ | ⟨body, more⟩⟩⟩
    · rfl
    · cases mark <;> rfl
    · cases mark <;> cases formals <;> rfl
    · cases mark with
      | symbol name =>
        cases formals with
        | list formals =>
          by_cases hname : name = lambdaName
          · simp [lambdaParts?, hname, hlambda]
          · have hrenamed : r name ≠ lambdaName := fun h => hname ((hmark name).1 h)
            simp [lambdaParts?, hname, hrenamed]
        | _ => rfl
      | _ => rfl
  | _ => rfl

/-! ## Equality -/

mutual

/-- Expressions are the same exactly when they are the same after a renaming that keeps symbols
apart. -/
theorem same_rename (hr : r.Injective) : ∀ a b : Expr, (a.rename r).same (b.rename r) = a.same b
  | .symbol a, b => by
    cases b with
    | symbol b => simp [same, hr.eq_iff]
    | _ => rfl
  | .number _, b | .foreign _, b => by cases b <;> rfl
  | .builtin _, _ | .form _, _ => by simp
  | .list xs, b => by
    cases b with
    | list ys => exact sameItems_rename hr xs ys
    | _ => rfl

theorem sameItems_rename (hr : r.Injective) :
    ∀ xs ys : List Expr, sameItems (renameAll r xs) (renameAll r ys) = sameItems xs ys
  | [], ys => by cases ys <;> rfl
  | x :: xs, ys => by
    cases ys with
    | nil => rfl
    | cons y ys =>
      simp only [renameAll, sameItems]
      rw [same_rename hr x y, sameItems_rename hr xs ys]

end

end Expr

/-! ## Errors and results -/

/-- A renamed error is of the same class. -/
@[simp] theorem Error.kind_rename (error : Error) : (error.rename r).kind = error.kind := by
  cases error <;> rfl

@[simp] theorem Error.rename_id (error : Error) : error.rename id = error := by
  cases error <;> simp [Error.rename]

/-- The result with its value changed by `f` and the symbols in its error renamed. -/
def renameResult {α β : Type} (r : String → String) (f : α → β) :
    Except Error α → Except Error β
  | .ok a => .ok (f a)
  | .error error => .error (error.rename r)

@[simp] theorem renameResult_id (x : Except Error Expr) :
    renameResult id (Expr.rename id) x = x := by
  cases x <;> simp [renameResult]

/-- Results are renamed step by step. -/
theorem renameResult_bind {α β γ δ : Type} {f : α → β} {h : γ → δ} {x : Except Error α}
    {step : α → Except Error γ} {renamed : β → Except Error δ}
    (hstep : ∀ a, renamed (f a) = renameResult r h (step a)) :
    (renameResult r f x >>= renamed) = renameResult r h (x >>= step) := by
  cases x with
  | ok a => exact hstep a
  | error error => rfl

/-! ## Builtins -/

/-- The renaming changes neither value of the truth coding. -/
structure Truth.FixedBy (r : String → String) (truth : Truth Expr) : Prop where
  yes : truth.yes.rename r = truth.yes
  no : truth.no.rename r = truth.no

/-- Where no symbol is renamed, no truth coding is changed. -/
theorem Truth.FixedBy.id (truth : Truth Expr) : truth.FixedBy id where
  yes := Expr.rename_id truth.yes
  no := Expr.rename_id truth.no

/-- The answers of predicates are not changed. -/
theorem Truth.FixedBy.rename_coerce {truth : Truth Expr} (h : truth.FixedBy r) (b : Bool) :
    (truth.coerce b).rename r = truth.coerce b := by
  cases b with
  | true => exact h.yes
  | false => exact h.no

/-- Such a renaming keeps what is false apart from what is true. -/
theorem Truth.FixedBy.isFalse_rename {truth : Truth Expr} (h : truth.FixedBy r)
    (hr : r.Injective) (e : Expr) : truth.isFalse (e.rename r) = truth.isFalse e := by
  have hsame : (e.rename r).same (truth.no.rename r) = e.same truth.no := Expr.same_rename hr e _
  rw [h.no] at hsame
  exact hsame

namespace BuiltinOp

section Arguments

variable (function : String) (args : List Expr)

/-- How many arguments there are does not depend on their symbols. -/
theorem oneArgument_rename : oneArgument function (args.map (Expr.rename r)) =
    renameResult r (Expr.rename r) (oneArgument function args) := by
  by_cases hlength : args.length = 1
  · obtain ⟨a, rfl⟩ := List.length_eq_one_iff.1 hlength
    rfl
  · have hrenamed : (args.map (Expr.rename r)).length ≠ 1 := by simpa using hlength
    rw [oneArgument_of_length_ne hrenamed, oneArgument_of_length_ne hlength, List.length_map]
    rfl

theorem twoArguments_rename : twoArguments function (args.map (Expr.rename r)) =
    renameResult r (Prod.map (Expr.rename r) (Expr.rename r)) (twoArguments function args) := by
  by_cases hlength : args.length = 2
  · obtain ⟨a, b, rfl⟩ := List.length_eq_two.1 hlength
    rfl
  · have hrenamed : (args.map (Expr.rename r)).length ≠ 2 := by simpa using hlength
    rw [twoArguments_of_length_ne hrenamed, twoArguments_of_length_ne hlength, List.length_map]
    rfl

/-- What is a list stays a list, and the error quotes the renamed argument. -/
theorem expectList_rename (e : Expr) : expectList function (e.rename r) =
    renameResult r (List.map (Expr.rename r)) (expectList function e) := by
  cases e <;> simp [expectList, renameResult, Error.rename]

/-- Numbers are not renamed, so the same two numbers are found. -/
theorem twoNumbers_rename : twoNumbers function (args.map (Expr.rename r)) =
    renameResult r id (twoNumbers function args) := by
  unfold twoNumbers
  rw [twoArguments_rename]
  refine renameResult_bind ?_
  rintro ⟨a, b⟩
  cases a <;> cases b <;> simp [renameResult, Error.rename]

end Arguments

section Calls

variable (args : List Expr)

theorem callCar_rename : callCar (args.map (Expr.rename r)) =
    renameResult r (Expr.rename r) (callCar args) := by
  unfold callCar
  rw [oneArgument_rename]
  refine renameResult_bind ?_
  intro a
  rw [expectList_rename]
  refine renameResult_bind ?_
  intro items
  -- an empty list is the same error before and after
  cases items with
  | nil => rfl
  | cons head rest => rfl

theorem callCdr_rename : callCdr (args.map (Expr.rename r)) =
    renameResult r (Expr.rename r) (callCdr args) := by
  unfold callCdr
  rw [oneArgument_rename]
  refine renameResult_bind ?_
  intro a
  rw [expectList_rename]
  refine renameResult_bind ?_
  intro items
  cases items with
  | nil => rfl
  | cons head rest => simp [renameResult, Pure.pure, Except.pure]

theorem callCons_rename : callCons (args.map (Expr.rename r)) =
    renameResult r (Expr.rename r) (callCons args) := by
  unfold callCons
  rw [twoArguments_rename]
  refine renameResult_bind ?_
  intro pair
  simp only [Prod.map_fst, Prod.map_snd]
  rw [expectList_rename]
  refine renameResult_bind ?_
  intro items
  simp [renameResult, Pure.pure, Except.pure]

variable {truth : Truth Expr} (htruth : truth.FixedBy r)

include htruth

/-- Equality is not changed, and neither are the two answers. -/
theorem callEq_rename (hr : r.Injective) : callEq truth (args.map (Expr.rename r)) =
    renameResult r (Expr.rename r) (callEq truth args) := by
  unfold callEq
  rw [twoArguments_rename]
  refine renameResult_bind ?_
  intro pair
  -- the two arguments are the same before and after
  simp [renameResult, Pure.pure, Except.pure, Expr.same_rename hr, htruth.rename_coerce]

theorem callAtom_rename : callAtom truth (args.map (Expr.rename r)) =
    renameResult r (Expr.rename r) (callAtom truth args) := by
  unfold callAtom
  rw [oneArgument_rename]
  refine renameResult_bind ?_
  intro a
  simp [renameResult, Pure.pure, Except.pure, htruth.rename_coerce]

theorem callLess_rename : callLess truth (args.map (Expr.rename r)) =
    renameResult r (Expr.rename r) (callLess truth args) := by
  unfold callLess
  rw [twoNumbers_rename]
  refine renameResult_bind ?_
  intro pair
  simp [renameResult, Pure.pure, Except.pure, htruth.rename_coerce]

end Calls

/-- Numbers have no symbols in them, and the errors of arithmetic with them have none either. -/
theorem callArithmetic_rename (function : String) {operation : Int → Int → Except Error Int}
    (hoperation : ∀ a b error, operation a b = .error error → error.rename r = error)
    (args : List Expr) : callArithmetic function operation (args.map (Expr.rename r)) =
      renameResult r (Expr.rename r) (callArithmetic function operation args) := by
  unfold callArithmetic
  rw [twoNumbers_rename]
  refine renameResult_bind ?_
  intro pair
  obtain ⟨a, b⟩ := pair
  simp only [id_eq]
  cases hresult : operation a b with
  | ok c => rfl
  | error error =>
    have hfixed := hoperation a b error hresult
    simp [renameResult, bind, Except.bind, hfixed]

/-- A builtin of the language treats symbols as opaque names: for renamed arguments it gives the
renamed value, or fails with the renamed error. -/
theorem call_rename (host : Host) (hr : r.Injective) {op : BuiltinOp Expr}
    (hhost : ∀ key, op ≠ .host key) (htruth : ∀ truth, op.truth? = some truth → truth.FixedBy r)
    (args : List Expr) : op.call host (args.map (Expr.rename r)) =
      renameResult r (Expr.rename r) (op.call host args) := by
  cases op with
  | car => exact callCar_rename args
  | cdr => exact callCdr_rename args
  | cons => exact callCons_rename args
  | eq truth => exact callEq_rename args (htruth truth rfl) hr
  | atom truth => exact callAtom_rename args (htruth truth rfl)
  | less truth => exact callLess_rename args (htruth truth rfl)
  | add | sub | mul =>
    simp only [call]
    refine callArithmetic_rename _ ?_ args
    intro a b error hresult
    cases hresult
  | div =>
    refine callArithmetic_rename "/" ?_ args
    intro a b error hresult
    unfold truncatedQuotient at hresult
    split at hresult
    · cases hresult
      rfl
    · cases hresult
  | host key => exact absurd rfl (hhost key)

end BuiltinOp

/-! ## Environments -/

/-- The bindings with every name renamed and every value changed by `f`. A permutation gives no two
names the same new one. -/
def Bindings.rename {β γ : Type} (r : Equiv.Perm String) (f : β → γ) (bindings : Bindings β) :
    Bindings γ where
  entries := bindings.entries.map fun (name, value) => (r name, f value)
  distinct := by
    refine List.pairwise_map.2 (bindings.distinct.imp ?_)
    intro entry later hdiffers
    simpa using hdiffers

namespace Bindings

variable {β γ : Type} {f : β → γ} (r : Equiv.Perm String)

theorem get?_rename (bindings : Bindings β) (name : String) :
    (bindings.rename r f).get? (r name) = (bindings.get? name).map f := by
  simp only [get?, rename]
  induction bindings.entries with
  | nil => rfl
  | cons entry rest ih =>
    obtain ⟨key, value⟩ := entry
    rw [List.map_cons, lookup_entry, lookup_entry, ih]
    -- different names stay different, so the same entry is found
    by_cases hkey : key = name
    · simp [hkey]
    · have hrenamed : r key ≠ r name := fun h => hkey (r.injective h)
      simp [hkey, hrenamed]

/-- A renamed binding stays at its place. -/
theorem insert_rename (bindings : Bindings β) (name : String) (value : β) :
    (bindings.rename r f).insert (r name) (f value) = (bindings.insert name value).rename r f := by
  ext1
  simp only [insert, rename]
  induction bindings.entries with
  | nil => rfl
  | cons entry rest ih =>
    obtain ⟨key, other⟩ := entry
    by_cases hkey : key = name
    · simp [insertEntry, hkey]
    · have hrenamed : r key ≠ r name := fun h => hkey (r.injective h)
      simp only [List.map_cons, insertEntry, beq_iff_eq, hkey, hrenamed, if_false, ih]

end Bindings

namespace Environment

/-- The environment with every name renamed, and the symbols inside of every value. -/
def rename (r : Equiv.Perm String) (env : Environment) : Environment where
  values := env.values.rename r (Expr.rename r)
  forms := env.forms.rename r id

variable (env : Environment) (r : Equiv.Perm String)

/-- A renamed name has the renamed value. -/
theorem lookup_rename (name : String) :
    (env.rename r).lookup (r name) = (env.lookup name).map (Expr.rename r) := by
  have hpresent : (fun e => !e.isAbsent) ∘ Expr.rename r = fun e => !e.isAbsent := by
    funext e
    simp
  simp only [lookup, rename, Bindings.get?_rename, Option.filter_map, hpresent]

/-- The special forms are found under the renamed names, and are the same ones. -/
theorem form?_rename (name : String) : (env.rename r).form? (r name) = env.form? name := by
  simp [form?, rename, Bindings.get?_rename]

theorem define_rename (name : String) (value : Expr) :
    (env.define name value).rename r = (env.rename r).define (r name) (value.rename r) := by
  simp only [define, rename, Bindings.insert_rename]

end Environment

end LispDialects
