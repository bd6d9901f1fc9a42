/-!
# Numerals

An integer numeral is an optional sign followed by one or more ASCII digits. A numeral of more
than `maxDigits` digits is recognised and refused, leading zeros counted and the sign not.

A floating point number of 64 bits is given by its shortest numeral, such as `0.1`, `-0.0`,
`1e+100`, `inf` or `nan`. As no two numbers share a numeral, equality is read off the numerals,
apart from the two zeros, which are equal, and `nan`, which equals nothing. Against an integer the
number that the numeral stands for is compared exactly.
-/

namespace LispDialects.Text

/-! ## Integer numerals -/

def digitsValue (digits : List Char) : Nat :=
  Nat.ofDigitChars 10 digits 0

/-- The optional sign of a numeral, as whether it is a minus, and what follows it. -/
def splitSign : List Char → Bool × List Char
  | '+' :: rest => (false, rest)
  | '-' :: rest => (true, rest)
  | cs => (false, cs)

def isNumeral (cs : List Char) : Bool :=
  !(splitSign cs).2.isEmpty && (splitSign cs).2.all Char.isDigit

def numeralValue (cs : List Char) : Int :=
  if (splitSign cs).1 then -(digitsValue (splitSign cs).2 : Int)
  else (digitsValue (splitSign cs).2 : Int)

def numeralDigits (cs : List Char) : Nat :=
  (splitSign cs).2.length

/-- The greatest number of digits that a numeral to be read may have. -/
def maxDigits : Nat := 4300

/-- What a text is when it is read as a numeral. -/
inductive NumeralReading where
  /-- An integer numeral that is short enough. -/
  | integer (value : Int)
  /-- An integer numeral of more than `maxDigits` digits. -/
  | tooLong
  /-- Any other text. -/
  | noNumeral
deriving DecidableEq, Repr

/-- Read a text as an integer numeral. -/
def readNumeral (s : String) : NumeralReading :=
  if isNumeral s.toList then
    if numeralDigits s.toList ≤ maxDigits then .integer (numeralValue s.toList) else .tooLong
  else .noNumeral

/-! ## Decimal numerals -/

/-- A decimal numeral: a sign, and `mantissa` times ten to the `exponent`. -/
structure Decimal where
  negative : Bool
  mantissa : Nat
  exponent : Int

/-- The exponent that ends a numeral, zero when there is none. -/
def readExponent? : List Char → Option Int
  | [] => some 0
  | 'e' :: cs => if isNumeral cs then some (numeralValue cs) else none
  | _ => none

/-- The digits behind a point, if there is one, and the rest. -/
def splitFraction : List Char → List Char × List Char
  | '.' :: cs => (cs.takeWhile Char.isDigit, cs.dropWhile Char.isDigit)
  | cs => ([], cs)

/-- Read a decimal numeral; `inf` and `nan` are none. -/
def readDecimal? (s : String) : Option Decimal :=
  let (negative, cs) := splitSign s.toList
  let whole := cs.takeWhile Char.isDigit
  let (fraction, rest) := splitFraction (cs.dropWhile Char.isDigit)
  if whole.isEmpty then none
  else (readExponent? rest).map fun exponent =>
    ⟨negative, digitsValue (whole ++ fraction), exponent - fraction.length⟩

/-! ## Values of decimal numerals -/

/-- The nearest floating point number to the size of a decimal. -/
def Decimal.nearest (d : Decimal) : Float :=
  Float.ofScientific d.mantissa (d.exponent < 0) d.exponent.natAbs

/-- The value of a positive floating point number, if it is an integer. A number with the
fraction bits `f` and the exponent bits `e` is `2 ^ 52 + f`, or `f` when `e` is zero, times two to
the power `max e 1 - 1075`. -/
def naturalOfFloat? (x : Float) : Option Nat :=
  let f := x.toBits.toNat % (1 <<< 52)
  let e := (x.toBits.toNat >>> 52) % (1 <<< 11)
  let m := if e = 0 then f else (1 <<< 52) + f
  let places := 1075 - max e 1
  if e = 2047 then none
  else if 1075 ≤ e then some (m <<< (e - 1075))
  else if m % (1 <<< places) = 0 then some (m >>> places)
  else none

/-- The value of the floating point number that a numeral stands for, if it is an integer. -/
def realInteger? (numeral : String) : Option Int :=
  (readDecimal? numeral).bind fun d =>
    (naturalOfFloat? d.nearest).map fun n => if d.negative then -(n : Int) else (n : Int)

/-! ## Equality of decimal numerals -/

def isZeroReal (numeral : String) : Bool :=
  numeral == "0.0" || numeral == "-0.0"

/-- Whether two numerals stand for equal numbers. -/
def sameReal (a b : String) : Bool :=
  a != "nan" && (a == b || isZeroReal a && isZeroReal b)

end LispDialects.Text
