import LispDialects.Expr.Display

/-!
# Pretty text

Canonical text for tracing, with lists elided from a given depth on and with colours for the
terminal. Colours stand around single atoms and functions only: brackets, spaces and elided lists
have none.
-/

namespace LispDialects

/-! ## Colours -/

inductive Colour where
  | symbol
  | number
  | builtin
  | specialForm
  /-- The symbol that marks a lambda literal. -/
  | lambda
deriving DecidableEq, Repr

/-- The escape sequence that sets a terminal attribute. -/
def attributeEscape (digits : String) : String :=
  "\x1b[" ++ digits ++ "m"

def Colour.escape : Colour → String
  | .symbol => attributeEscape "94"
  | .number => attributeEscape "93"
  | .builtin => attributeEscape "95"
  | .specialForm => attributeEscape "90"
  | .lambda => attributeEscape "92"

def resetEscape : String :=
  attributeEscape "0"

/-- The colour of an atom or a function. -/
def Expr.colour? : Expr → Option Colour
  | .symbol name => some (if name = Expr.lambdaName then .lambda else .symbol)
  | .number _ => some .number
  | .builtin _ => some .builtin
  | .form _ => some .specialForm
  | .list _ | .foreign _ => none

/-- The canonical text, in the colour of the expression if it has one. -/
def Expr.colouredText (e : Expr) : String :=
  match e.colour? with
  | some colour => colour.escape ++ e.text ++ resetEscape
  | none => e.text

/-! ## Printing -/

/-- How pretty text is printed. Lists at depth `maxDepth` or deeper are elided, where the whole
expression has depth zero. -/
structure PrettyOptions where
  colour : Bool := false
  maxDepth : Option Int := none

def PrettyOptions.elides (options : PrettyOptions) (depth : Nat) : Bool :=
  options.maxDepth.any (· ≤ (depth : Int))

/-- What stands for an elided list. -/
def elidedText : String := "(...)"

/-- The text of an expression that is no list. -/
def PrettyOptions.leafText (options : PrettyOptions) (e : Expr) : String :=
  if options.colour then e.colouredText else e.text

mutual

/-- The pretty text of an expression at a depth. -/
def Expr.prettyAt (options : PrettyOptions) (depth : Nat) : Expr → String
  | .list items =>
    if options.elides depth then elidedText
    else "(" ++ " ".intercalate (Expr.prettyItems options (depth + 1) items) ++ ")"
  | e => options.leafText e

/-- The pretty texts of the items of a list, which are at one depth. -/
def Expr.prettyItems (options : PrettyOptions) (depth : Nat) : List Expr → List String
  | [] => []
  | e :: rest => Expr.prettyAt options depth e :: Expr.prettyItems options depth rest

end

/-- The pretty text of an expression. -/
def Expr.pretty (e : Expr) (options : PrettyOptions) : String :=
  e.prettyAt options 0

/-- The pretty text as a line of its own. -/
def Expr.prettyLine (e : Expr) (options : PrettyOptions) : String :=
  e.pretty options ++ "\n"

end LispDialects
