import LispDialects.Expr.Basic
import LispDialects.Text.Numeral

/-!
# Equality of expressions

Two expressions are the same when they are the same tree of lists with the same symbols and
numbers at the leaves. A function is the same as nothing, itself included, so an expression that
holds one is never the same as any other. Host data at a leaf is compared by its own rules:
numbers of all kinds by value, a truth value counting as one or zero, sequences of one kind by
their items, and mappings by their entries in any order.
-/

namespace LispDialects

/-! ## Numbers among host data -/

/-- Whether two pieces of host data are numbers, or truth values, of equal value. -/
def Datum.sameNumber : Datum Expr → Datum Expr → Bool
  | .integer m, .integer n => m == n
  | .flag a, .flag b => a == b
  | .integer n, .flag b | .flag b, .integer n => n == (b.toNat : Int)
  | .real a, .real b => Text.sameReal a b
  | .integer n, .real a | .real a, .integer n => Text.realInteger? a == some n
  | .flag b, .real a | .real a, .flag b => Text.realInteger? a == some (b.toNat : Int)
  | _, _ => false

/-- Whether two pieces of host data are one function. Inside host data a function is found by
what it is, although it is not equal to itself. -/
def Datum.isSameFunction : Datum Expr → Datum Expr → Bool
  | .expr (.builtin f), .expr (.builtin g) => f.isSame g
  | .expr (.form f), .expr (.form g) => f.isSame g
  | _, _ => false

/-! ## The comparison -/

mutual

def Expr.same : Expr → Expr → Bool
  | .symbol a, .symbol b => a == b
  | .number m, .number n => m == n
  | .list xs, .list ys => Expr.sameItems xs ys
  | .foreign d, .foreign e => Datum.same d e
  | _, _ => false
termination_by structural e => e

/-- Whether two lists have the same length and the same items. -/
def Expr.sameItems : List Expr → List Expr → Bool
  | [], [] => true
  | x :: xs, y :: ys => Expr.same x y && Expr.sameItems xs ys
  | _, _ => false
termination_by structural items => items

def Datum.same : Datum Expr → Datum Expr → Bool
  | .text a, .text b => a == b
  | .absent, .absent => true
  | .list xs, .list ys => Datum.sameItems xs ys
  | .tuple xs, .tuple ys => Datum.sameItems xs ys
  | .mapping xs, .mapping ys => xs.length == ys.length && Datum.entriesIn xs ys
  | .expr a, .expr b => Expr.same a b
  | a, b => Datum.sameNumber a b
termination_by structural d => d

/-- Whether two sequences have the same length and the same items. -/
def Datum.sameItems : List (Datum Expr) → List (Datum Expr) → Bool
  | [], [] => true
  | x :: xs, y :: ys =>
    (Datum.isSameFunction x y || Datum.same x y) && Datum.sameItems xs ys
  | _, _ => false
termination_by structural items => items

/-- Whether every entry of the first mapping is one of the second. -/
def Datum.entriesIn : List (Datum Expr × Datum Expr) → List (Datum Expr × Datum Expr) → Bool
  | [], _ => true
  | entry :: rest, others => Datum.entryIn entry others && Datum.entriesIn rest others
termination_by structural entries => entries

/-- Whether the entry is one of those of a mapping. -/
def Datum.entryIn : Datum Expr × Datum Expr → List (Datum Expr × Datum Expr) → Bool
  | (key, value), others => others.any fun (otherKey, otherValue) =>
    (Datum.isSameFunction key otherKey || Datum.same key otherKey) &&
      (Datum.isSameFunction value otherValue || Datum.same value otherValue)
termination_by structural entry => entry

end

instance : BEq Expr := ⟨Expr.same⟩

/-- Whether two expressions differ. A function differs from everything, itself included. -/
def Expr.differs : Expr → Expr → Bool
  | .builtin _, _ | .form _, _ => true
  | a, b => !(a == b)

/-- Whether the expression is the false value of a truth coding. -/
def Truth.isFalse (truth : Truth Expr) (e : Expr) : Bool :=
  e == truth.no

namespace Expr

@[simp] theorem beq_eq_same (a b : Expr) : (a == b) = a.same b := rfl

@[simp] theorem same_builtin (f : Builtin Expr) (e : Expr) : same (.builtin f) e = false := by
  cases e <;> rfl

@[simp] theorem same_form (f : SpecialForm Expr) (e : Expr) : same (.form f) e = false := by
  cases e <;> rfl

end Expr

end LispDialects
