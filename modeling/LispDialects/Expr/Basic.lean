/-!
# Expressions

An expression is a symbol, a number, a list of expressions or a function. A list may also hold
host data that was never read as an expression; such a leaf can be passed around and printed,
but not evaluated.

A function is a value that the host supplies: a builtin is called with evaluated arguments, and a
special form is handed its operands unevaluated. A function carries the name that it is shown
under and what it does. The predicates and the conditional also carry the truth coding they were
made for, so that one function keeps its meaning in every environment it is bound in.

Host data and functions are stated over the type `α` of expressions.
-/

namespace LispDialects

/-! ## Host data -/

/-- A piece of host data that may hold expressions of type `α`. -/
inductive Datum (α : Type) where
  /-- A text. -/
  | text (s : String)
  /-- An integer. -/
  | integer (n : Int)
  /-- A truth value. -/
  | flag (b : Bool)
  /-- The absence of a value. -/
  | absent
  /-- A floating point number, given by its shortest numeral. -/
  | real (numeral : String)
  /-- A list. -/
  | list (items : List (Datum α))
  /-- A tuple. -/
  | tuple (items : List (Datum α))
  /-- A mapping, in its own order. When two keys are the same can only be said of data that is
  there already, so that no key is in it twice is carried by `Mapping`, from which it is made. -/
  | mapping (entries : List (Datum α × Datum α))
  /-- An expression. -/
  | expr (e : α)

namespace Datum

instance {α : Type} : Inhabited (Datum α) := ⟨.absent⟩

variable {α : Type}

/-- The text that the datum is, if it is one. -/
def text? : Datum α → Option String
  | .text s => some s
  | _ => none

end Datum

/-! ## Truth codings -/

/-- The two canonical truth values. The value `no` is false; every other expression counts as
true. -/
structure Truth (α : Type) where
  yes : α
  no : α

/-- The canonical expression for a truth value. -/
def Truth.coerce {α : Type} (truth : Truth α) (b : Bool) : α :=
  if b then truth.yes else truth.no

/-! ## Builtins -/

/-- What a builtin computes from its evaluated arguments. -/
inductive BuiltinOp (α : Type) where
  /-- The first item of a non-empty list. -/
  | car
  /-- A list without its first item. -/
  | cdr
  /-- A list with one more item in front. -/
  | cons
  /-- Whether two expressions are the same. -/
  | eq (truth : Truth α)
  /-- Whether an expression is a symbol or a number. -/
  | atom (truth : Truth α)
  /-- Whether a number is less than another. -/
  | less (truth : Truth α)
  /-- The sum of two numbers. -/
  | add
  /-- The difference of two numbers. -/
  | sub
  /-- The product of two numbers. -/
  | mul
  /-- The quotient of two numbers, rounded toward zero. -/
  | div
  /-- A builtin of the host, known to it by a key. -/
  | host (key : String)

/-- The key of an operation; the truth coding is no part of it. -/
def BuiltinOp.key {α : Type} : BuiltinOp α → String
  | .car => "car"
  | .cdr => "cdr"
  | .cons => "cons"
  | .eq _ => "eq"
  | .atom _ => "atom"
  | .less _ => "<"
  | .add => "+"
  | .sub => "-"
  | .mul => "*"
  | .div => "/"
  | .host key => key

/-- A function that is called with evaluated arguments. -/
structure Builtin (α : Type) where
  name : String
  op : BuiltinOp α

/-! ## Special forms -/

/-- What a special form does with its operands. -/
inductive FormRule (α : Type) where
  /-- The operand itself, unevaluated. -/
  | quote
  /-- Binds a name to the value of an operand. -/
  | label
  /-- Evaluates one of two operands, as a condition decides. -/
  | cond (truth : Truth α)
  /-- A special form of the host, known to it by a key. -/
  | host (key : String)

/-- The key of a rule; the truth coding is no part of it. -/
def FormRule.key {α : Type} : FormRule α → String
  | .quote => "quote"
  | .label => "label"
  | .cond _ => "if"
  | .host key => key

/-- A function that is handed its operands unevaluated. -/
structure SpecialForm (α : Type) where
  name : String
  rule : FormRule α

/-! ## Identity of functions -/

/-- Whether two builtins are one function under one name. -/
def Builtin.isSame {α : Type} (f g : Builtin α) : Bool :=
  f.name == g.name && f.op.key == g.op.key

/-- Whether two special forms are one function under one name. -/
def SpecialForm.isSame {α : Type} (f g : SpecialForm α) : Bool :=
  f.name == g.name && f.rule.key == g.rule.key

/-! ## Expressions -/

inductive Expr where
  /-- A symbol. -/
  | symbol (name : String)
  /-- An integer. -/
  | number (n : Int)
  /-- A list of expressions. -/
  | list (items : List Expr)
  /-- A function called with evaluated arguments. -/
  | builtin (f : Builtin Expr)
  /-- A function handed its operands unevaluated. -/
  | form (f : SpecialForm Expr)
  /-- Host data that is no expression. -/
  | foreign (d : Datum Expr)

namespace Expr

instance : Inhabited Expr := ⟨.list []⟩

/-! ## Shapes -/

/-- The host data as a leaf of an expression; an expression among host data is itself. -/
def ofDatum : Datum Expr → Expr
  | .expr e => e
  | d => .foreign d

/-- The expression as host data: a leaf of host data is that data. -/
def toDatum : Expr → Datum Expr
  | .foreign d => d
  | e => .expr e

def symbolName? : Expr → Option String
  | .symbol name => some name
  | _ => none

theorem symbolName?_eq_some {e : Expr} {name : String} :
    e.symbolName? = some name ↔ e = .symbol name := by
  cases e <;> simp [symbolName?]

theorem symbolName?_eq_none {e : Expr} : e.symbolName? = none ↔ ∀ name, e ≠ .symbol name := by
  cases e <;> simp [symbolName?]

/-- Whether the expression is an atom: a symbol or a number. -/
def isAtom : Expr → Bool
  | .symbol _ | .number _ => true
  | _ => false

def items? : Expr → Option (List Expr)
  | .list items => some items
  | _ => none

/-- Whether a value is bound but absent: a name bound to it reads as unbound. -/
def isAbsent : Expr → Bool
  | .foreign .absent => true
  | _ => false

/-! ## Lambda literals -/

/-- The symbol that marks a lambda literal. -/
def lambdaName : String := "lambda"

/-- The formals and the body of a lambda literal: a list whose first item is the symbol `lambda`,
whose second item is a list, and which has a third item. Further items are ignored. -/
def lambdaParts? : Expr → Option (List Expr × Expr)
  | .list (.symbol name :: .list formals :: body :: _) =>
    if name = lambdaName then some (formals, body) else none
  | _ => none

/-- Only a list that has the shape of a lambda literal has its parts. -/
theorem lambdaParts?_eq_some {head body : Expr} {formals : List Expr} :
    head.lambdaParts? = some (formals, body) ↔
      ∃ more, head = .list (.symbol "lambda" :: .list formals :: body :: more) := by
  constructor
  · intro hparts
    unfold lambdaParts? at hparts
    split at hparts
    · rename_i name formals' body' more
      split at hparts
      · rename_i hname
        simp only [Option.some.injEq, Prod.mk.injEq] at hparts
        rcases hparts with ⟨rfl, rfl⟩
        rw [hname]
        exact ⟨more, rfl⟩
      · simp at hparts
    · simp at hparts
  · rintro ⟨more, rfl⟩
    rfl

/-- What is no lambda literal has no such shape. -/
theorem lambdaParts?_eq_none {head : Expr} :
    head.lambdaParts? = none ↔ ∀ formals body more,
      head ≠ .list (.symbol "lambda" :: .list formals :: body :: more) := by
  constructor
  · rintro hnone formals body more rfl
    cases hnone
  · intro hshape
    cases hparts : head.lambdaParts? with
    | none => rfl
    | some parts =>
      rcases lambdaParts?_eq_some.1 hparts with ⟨more, rfl⟩
      exact absurd rfl (hshape _ _ more)

/-! ## Access by position -/

/-- The item at a position; a negative position counts from the end. -/
def itemAt? (items : List Expr) (position : Int) : Option Expr :=
  if 0 ≤ position then items[position.toNat]?
  else if 0 ≤ items.length + position then items[(items.length + position).toNat]?
  else none

end Expr

end LispDialects
