import LispDialects.Expr.Display

/-!
# Errors

An error names its cause; its wording is given by `Error.message` and the class it is reported
under by `Error.kind`. The errors of the language itself are `reported`: an interpreter logs them.
The others come from the host side: a value of the wrong type, a numeral that is too long, and
evaluation nested too deeply.
-/

namespace LispDialects

/-! ## Classes -/

inductive ErrorKind where
  /-- An error of the language with no class of its own. -/
  | general
  /-- A special form or builtin was given operands of the wrong number or shape. -/
  | argumentMismatch
  /-- A builtin for lists was given something else. -/
  | notAList
  /-- The head of a call names nothing that is bound. -/
  | undefinedSymbol
  /-- The head of a call has a value that cannot be called. -/
  | notExecutable
  /-- Host data cannot be read or evaluated as an expression. -/
  | literal
  /-- A host value has the wrong type. -/
  | wrongType
  /-- A host value has the right type and is out of bounds. -/
  | outOfBounds
  /-- Evaluation is nested too deeply. -/
  | nesting
deriving DecidableEq, Repr

/-- Whether errors of the class belong to the language. -/
def ErrorKind.isReported : ErrorKind → Bool
  | .wrongType | .outOfBounds | .nesting => false
  | _ => true

/-! ## Causes -/

/-- What went wrong. -/
inductive Error where
  /-- A function was called with the wrong number of arguments. -/
  | arity (function : String) (expected : Nat) (actual : Nat)
  /-- A builtin for lists was given something else. -/
  | notAList (function : String) (actual : Expr)
  /-- The empty list has no first item. -/
  | emptyList (function : String)
  /-- Arithmetic was given something else than two numbers. -/
  | notNumbers (function : String) (left right : Expr)
  /-- A number was divided by zero. -/
  | divisionByZero (function : String)
  /-- A quotation has not one operand. -/
  | quoteOperands
  /-- A conditional has neither two nor three operands. -/
  | condOperands
  /-- A label has not two operands. -/
  | labelOperands
  /-- A label binds something else than a symbol. -/
  | labelName (actual : Expr)
  /-- A parameter that is to be bound is no symbol. -/
  | parameterName (actual : Expr)
  /-- A key of bindings is no text. -/
  | bindingName (key : Datum Expr)
  /-- The head of a call names nothing that is bound. -/
  | undefinedSymbol (name : String)
  /-- The value of the head of a call cannot be called. -/
  | notExecutable (head : Expr)
  /-- A vocabulary does not have the atom. -/
  | notInVocabulary (vocabulary : String) (d : Datum Expr)
  /-- Host data cannot be read as an expression. -/
  | notConvertible (d : Datum Expr)
  /-- Host data is no atom. -/
  | notAnAtom (d : Datum Expr)
  /-- Host data inside an expression was to be evaluated. -/
  | notAnExpression (d : Datum Expr)
  /-- No dialect is registered under the name. -/
  | unknownDialect (name : Datum Expr) (known : List String)
  /-- A function of the host raised an error of the language. -/
  | raised (kind : ErrorKind) (message : String)
  /-- A text was to be read and host data of another type was given. -/
  | notText (d : Datum Expr)
  /-- A key of a mapping can change and so is no key. -/
  | unusableKey (d : Datum Expr)
  /-- A numeral has too many digits. -/
  | numeralTooLong
  /-- Evaluation is nested too deeply. -/
  | nestingLimit

namespace Error

def kind : Error → ErrorKind
  | .arity .. | .emptyList _ | .notNumbers .. | .divisionByZero _ | .quoteOperands
  | .condOperands | .labelOperands | .labelName _ | .parameterName _ | .bindingName _ =>
    .argumentMismatch
  | .notAList .. => .notAList
  | .undefinedSymbol _ => .undefinedSymbol
  | .notExecutable _ => .notExecutable
  | .notInVocabulary .. | .notConvertible _ | .notAnAtom _ | .notAnExpression _ => .literal
  | .unknownDialect .. => .general
  | .raised kind _ => kind
  | .notText _ | .unusableKey _ => .wrongType
  | .numeralTooLong => .outOfBounds
  | .nestingLimit => .nesting

/-- Whether the error belongs to the language. -/
def isReported (error : Error) : Bool :=
  error.kind.isReported

/-- The wording of an error. -/
def message : Error → String
  | .arity function expected actual =>
    let plural := if expected = 1 then "argument" else "arguments"
    s!"{function} requires exactly {expected} {plural}, got {actual}"
  | .notAList function actual => function ++ " expects a list, got " ++ actual.text
  | .emptyList function => function ++ " of the empty list"
  | .notNumbers function left right =>
    function ++ ": arguments must be numbers, got " ++ left.text ++ " and " ++ right.text
  | .divisionByZero function => function ++ ": division by zero"
  | .quoteOperands => "quote expects exactly 1 argument"
  | .condOperands =>
    "if requires a condition, a then-expression and an optional else-expression"
  | .labelOperands => "label requires exactly 2 arguments: (label name value)"
  | .labelName actual => "label first argument must be a symbol, got " ++ actual.text
  | .parameterName actual => "lambda parameter " ++ actual.text ++ " is not a symbol"
  | .bindingName key => "Cannot define " ++ key.code ++ " as a symbol"
  | .undefinedSymbol name => "Undefined symbol: " ++ name
  | .notExecutable head => "'" ++ head.text ++ "' is not executable"
  | .notInVocabulary vocabulary d => vocabulary ++ " vocabulary does not accept " ++ d.code
  | .notConvertible d => "Cannot convert " ++ d.code ++ " to an expression"
  | .notAnAtom d => "Cannot build an atom from " ++ d.code
  | .notAnExpression d => "Cannot evaluate non-expression " ++ d.code
  | .unknownDialect name known =>
    "Unknown dialect '" ++ name.display ++ "', expected one of " ++ ", ".intercalate known
  | .raised _ message => message
  | .notText d => d.code ++ " is not a text"
  | .unusableKey d => d.code ++ " is not usable as a key"
  | .numeralTooLong => "the numeral has too many digits"
  | .nestingLimit => "evaluation is nested too deeply"

end Error

end LispDialects
