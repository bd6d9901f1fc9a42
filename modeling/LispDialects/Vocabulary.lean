import LispDialects.Error
import LispDialects.Text.Numeral

/-!
# Vocabularies

A vocabulary decides which host data a dialect has as atoms, and how a text is read as one. The
text vocabulary has symbols only; the numeric one has numbers as well and reads integer numerals
as numbers.

Host data is read as an expression. Lists and tuples are read as lists, item by item from the left,
and the first item that cannot be read decides the error. Texts and integers are atoms of the
vocabulary. An expression is taken as it is, whatever it holds. Nothing else can be read.
-/

namespace LispDialects

/-- The atom that host data is: a text is a symbol and an integer a number. A truth value is no
atom. -/
def Datum.toAtom : Datum Expr → Except Error Expr
  | .text s => .ok (.symbol s)
  | .integer n => .ok (.number n)
  | d => .error (.notAnAtom d)

inductive Vocabulary where
  /-- Symbols only. -/
  | text
  /-- Symbols and integers. -/
  | numeric
deriving DecidableEq, Repr

namespace Vocabulary

def name : Vocabulary → String
  | .text => "text"
  | .numeric => "numeric"

def code (vocabulary : Vocabulary) : String :=
  "<AtomVocabulary " ++ vocabulary.name ++ ">"

/-- Whether the vocabulary has the host data as an atom. -/
def accepts : Vocabulary → Datum Expr → Bool
  | _, .text _ => true
  | .numeric, .integer _ => true
  | _, _ => false

/-- The atom of the vocabulary that host data is. -/
def atom (vocabulary : Vocabulary) (d : Datum Expr) : Except Error Expr :=
  if vocabulary.accepts d then d.toAtom else .error (.notInVocabulary vocabulary.name d)

/-- The host data that a text is read as. The text vocabulary leaves everything as it is; the
numeric one reads texts only, and turns integer numerals into integers. -/
def ofText : Vocabulary → Datum Expr → Except Error (Datum Expr)
  | .text, d => .ok d
  | .numeric, .text s =>
    match Text.readNumeral s with
    | .integer n => .ok (.integer n)
    | .tooLong => .error .numeralTooLong
    | .noNumeral => .ok (.text s)
  | .numeric, d => .error (.notText d)

def toText (_ : Vocabulary) (d : Datum Expr) : String :=
  d.display

def readAtom (vocabulary : Vocabulary) (d : Datum Expr) : Except Error Expr := do
  vocabulary.atom (← vocabulary.ofText d)

/-! ## Literals -/

mutual

/-- Read host data as an expression. -/
def read (vocabulary : Vocabulary) : Datum Expr → Except Error Expr
  | .expr e => .ok e
  | .list items | .tuple items => (readItems vocabulary items).map .list
  | .text s => vocabulary.atom (.text s)
  | .integer n => vocabulary.atom (.integer n)
  | d => .error (.notConvertible d)
termination_by structural d => d

def readItems (vocabulary : Vocabulary) : List (Datum Expr) → Except Error (List Expr)
  | [] => .ok []
  | d :: rest =>
    match read vocabulary d with
    | .error error => .error error
    | .ok e => (readItems vocabulary rest).map (e :: ·)
termination_by structural items => items

end

end Vocabulary

end LispDialects
