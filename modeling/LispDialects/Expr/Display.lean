import LispDialects.Expr.Basic
import LispDialects.Text.Quoted

/-!
# Written forms of expressions

An expression has two written forms. Its `text` is the canonical one: atoms as they stand, lists
in round brackets with single spaces. Its `code` shows how the host would build it, with symbols
in quotes, so that different expressions without functions are always written differently. Host
data inside an expression is written in the matching form of its own.
-/

namespace LispDialects

/-! ## Parts -/

/-- The word for the two kinds of functions. -/
inductive FunctionKind where
  | builtin
  | specialForm
deriving DecidableEq, Repr

/-- The kind as it is shown in canonical text. -/
def FunctionKind.text : FunctionKind → String
  | .builtin => "builtin"
  | .specialForm => "special-form"

/-- The kind as it is shown in code. -/
def FunctionKind.code : FunctionKind → String
  | .builtin => "BUILTIN"
  | .specialForm => "SPECIAL_FORM"

def functionText (kind : FunctionKind) (name : String) : String :=
  "#<" ++ kind.text ++ " " ++ name ++ ">"

def functionCode (kind : FunctionKind) (name : String) : String :=
  "Function(" ++ kind.code ++ ", " ++ Text.quoted name ++ ")"

def flagCode (b : Bool) : String :=
  if b then "True" else "False"

/-- The code of a tuple; a tuple of one item keeps a comma after it. -/
def tupleCode : List String → String
  | [item] => "(" ++ item ++ ",)"
  | items => "(" ++ ", ".intercalate items ++ ")"

def listCode (items : List String) : String :=
  "[" ++ ", ".intercalate items ++ "]"

def mappingCode (entries : List String) : String :=
  "\x7b" ++ ", ".intercalate entries ++ "\x7d"

/-! ## Code -/

mutual

/-- The code of an expression. -/
def Expr.code : Expr → String
  | .symbol name => "Atom(" ++ Text.quoted name ++ ")"
  | .number n => "Atom(" ++ toString n ++ ")"
  | .list items => "ExprList(" ++ listCode (Expr.codes items) ++ ")"
  | .builtin f => functionCode .builtin f.name
  | .form f => functionCode .specialForm f.name
  | .foreign d => Datum.code d
termination_by structural e => e

def Expr.codes : List Expr → List String
  | [] => []
  | e :: rest => Expr.code e :: Expr.codes rest
termination_by structural items => items

/-- The code of host data. -/
def Datum.code : Datum Expr → String
  | .text s => Text.quoted s
  | .integer n => toString n
  | .flag b => flagCode b
  | .absent => "None"
  | .real numeral => numeral
  | .list items => listCode (Datum.codes items)
  | .tuple items => tupleCode (Datum.codes items)
  | .mapping entries => mappingCode (Datum.entryCodes entries)
  | .expr e => Expr.code e
termination_by structural d => d

def Datum.codes : List (Datum Expr) → List String
  | [] => []
  | d :: rest => Datum.code d :: Datum.codes rest
termination_by structural items => items

def Datum.entryCodes : List (Datum Expr × Datum Expr) → List String
  | [] => []
  | entry :: rest => Datum.entryCode entry :: Datum.entryCodes rest
termination_by structural entries => entries

def Datum.entryCode : Datum Expr × Datum Expr → String
  | (key, value) => Datum.code key ++ ": " ++ Datum.code value
termination_by structural entry => entry

end

/-! ## Canonical text -/

mutual

/-- The canonical text of an expression. -/
def Expr.text : Expr → String
  | .symbol name => name
  | .number n => toString n
  | .list items => "(" ++ " ".intercalate (Expr.texts items) ++ ")"
  | .builtin f => functionText .builtin f.name
  | .form f => functionText .specialForm f.name
  | .foreign (.text s) => s
  | .foreign d => Datum.code d

def Expr.texts : List Expr → List String
  | [] => []
  | e :: rest => Expr.text e :: Expr.texts rest

end

/-- The text of host data: a text and an expression as they stand, anything else as code. -/
def Datum.display : Datum Expr → String
  | .text s => s
  | .expr e => e.text
  | d => d.code

namespace Expr

theorem texts_eq_map (items : List Expr) : texts items = items.map text := by
  induction items with
  | nil => rfl
  | cons e rest ih => simp [texts, ih]

theorem codes_eq_map (items : List Expr) : codes items = items.map code := by
  induction items with
  | nil => rfl
  | cons e rest ih => simp [codes, ih]

end Expr

end LispDialects
