import LispDialects.Expr.Equality
import LispDialects.Eval.Monad

/-!
# Builtins

What the builtins compute from their evaluated arguments. Each checks the number of its arguments
first, then their shapes from left to right.
-/

namespace LispDialects.BuiltinOp

/-! ## Arguments -/

/-- Check the number of arguments of a function. -/
def expectArity (function : String) (expected actual : Nat) : Except Error Unit :=
  if actual = expected then .ok () else .error (.arity function expected actual)

/-- The check passes for the expected number only. -/
theorem expectArity_eq_ok {function : String} {expected actual : Nat} :
    expectArity function expected actual = .ok () ↔ actual = expected := by
  unfold expectArity
  split <;> simp_all

theorem expectArity_of_ne {expected actual : Nat} (h : actual ≠ expected) (function : String) :
    expectArity function expected actual = .error (.arity function expected actual) :=
  if_neg h

/-- The argument of a function of one argument. -/
def oneArgument (function : String) (args : List Expr) : Except Error Expr :=
  match h : expectArity function 1 args.length with
  | .ok () =>
    have hlength : args.length = 1 := expectArity_eq_ok.1 h
    .ok args[0]
  | .error error => .error error

/-- The arguments of a function of two arguments. -/
def twoArguments (function : String) (args : List Expr) : Except Error (Expr × Expr) :=
  match h : expectArity function 2 args.length with
  | .ok () =>
    have hlength : args.length = 2 := expectArity_eq_ok.1 h
    .ok (args[0], args[1])
  | .error error => .error error

@[simp] theorem oneArgument_singleton (function : String) (a : Expr) :
    oneArgument function [a] = .ok a := rfl

@[simp] theorem twoArguments_pair (function : String) (a b : Expr) :
    twoArguments function [a, b] = .ok (a, b) := rfl

/-- Any other number of arguments fails as the check does. -/
theorem oneArgument_of_length_ne {args : List Expr} (h : args.length ≠ 1) (function : String) :
    oneArgument function args = .error (.arity function 1 args.length) := by
  have hcheck := expectArity_of_ne h function
  unfold oneArgument
  split
  · rename_i hpasses
    rw [hcheck] at hpasses
    cases hpasses
  · rename_i error hfails
    rw [hcheck] at hfails
    cases hfails
    rfl

theorem twoArguments_of_length_ne {args : List Expr} (h : args.length ≠ 2) (function : String) :
    twoArguments function args = .error (.arity function 2 args.length) := by
  have hcheck := expectArity_of_ne h function
  unfold twoArguments
  split
  · rename_i hpasses
    rw [hcheck] at hpasses
    cases hpasses
  · rename_i error hfails
    rw [hcheck] at hfails
    cases hfails
    rfl

/-- The items of an argument that has to be a list. -/
def expectList (function : String) : Expr → Except Error (List Expr)
  | .list items => .ok items
  | e => .error (.notAList function e)

/-- The arguments of a function of two numbers. -/
def twoNumbers (function : String) (args : List Expr) : Except Error (Int × Int) := do
  match ← twoArguments function args with
  | (.number a, .number b) => .ok (a, b)
  | (a, b) => .error (.notNumbers function a b)

/-! ## Lists -/

/-- The first item of a non-empty list. -/
def callCar (args : List Expr) : Except Error Expr := do
  match ← expectList "car" (← oneArgument "car" args) with
  | [] => .error (.emptyList "car")
  | head :: _ => .ok head

/-- A list without its first item; the empty list is its own rest. -/
def callCdr (args : List Expr) : Except Error Expr := do
  let items ← expectList "cdr" (← oneArgument "cdr" args)
  return .list items.tail

/-- A list with one more item in front. -/
def callCons (args : List Expr) : Except Error Expr := do
  let (head, tail) ← twoArguments "cons" args
  let items ← expectList "cons" tail
  return .list (head :: items)

/-! ## Predicates -/

/-- Whether the two arguments are the same expression. -/
def callEq (truth : Truth Expr) (args : List Expr) : Except Error Expr := do
  let (a, b) ← twoArguments "eq" args
  return truth.coerce (a == b)

def callAtom (truth : Truth Expr) (args : List Expr) : Except Error Expr := do
  let a ← oneArgument "atom" args
  return truth.coerce a.isAtom

def callLess (truth : Truth Expr) (args : List Expr) : Except Error Expr := do
  let (a, b) ← twoNumbers "<" args
  return truth.coerce (a < b)

/-! ## Arithmetic -/

/-- The quotient of two numbers, rounded toward zero. -/
def truncatedQuotient (a b : Int) : Except Error Int :=
  if b = 0 then .error (.divisionByZero "/") else .ok (a.tdiv b)

/-- A function of two numbers that gives a number. -/
def callArithmetic (function : String) (operation : Int → Int → Except Error Int)
    (args : List Expr) : Except Error Expr := do
  let (a, b) ← twoNumbers function args
  return .number (← operation a b)

/-! ## Calls -/

def call (host : Host) : BuiltinOp Expr → List Expr → Except Error Expr
  | .car => callCar
  | .cdr => callCdr
  | .cons => callCons
  | .eq truth => callEq truth
  | .atom truth => callAtom truth
  | .less truth => callLess truth
  | .add => callArithmetic "+" fun a b => .ok (a + b)
  | .sub => callArithmetic "-" fun a b => .ok (a - b)
  | .mul => callArithmetic "*" fun a b => .ok (a * b)
  | .div => callArithmetic "/" truncatedQuotient
  | .host key => host.builtin key

end LispDialects.BuiltinOp
