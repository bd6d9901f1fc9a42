import LispDialects.Text.Characters

/-!
# Quoted text

A text in quotes from which the text can be read back. The mark is an apostrophe, unless the text
holds apostrophes and no double quote. The mark and the backslash are escaped by a backslash, line
ends and tabs have a short escape, and any other character that is not printable is written by
its code point in hexadecimal, in two, four or eight digits.
-/

namespace LispDialects.Text

/-! ## Hexadecimal fields -/

/-- A number as a field of `width` hexadecimal digits, the most significant first; digits beyond the
width are dropped. -/
def hexField : Nat → Nat → List Char
  | 0, _ => []
  | width + 1, n => hexField width (n / 16) ++ [(n % 16).digitChar]

theorem length_hexField (width n : Nat) : (hexField width n).length = width := by
  induction width generalizing n with
  | zero => rfl
  | succ width ih => simp [hexField, ih]

/-! ## Escapes -/

/-- A character written by its code point. -/
def escapeCodePoint (c : Char) : List Char :=
  if c.toNat < 0x100 then '\\' :: 'x' :: hexField 2 c.toNat
  else if c.toNat < 0x10000 then '\\' :: 'u' :: hexField 4 c.toNat
  else '\\' :: 'U' :: hexField 8 c.toNat

/-- A character as it stands between two marks. -/
def escapeChar (mark c : Char) : List Char :=
  if c = mark ∨ c = '\\' then ['\\', c]
  else if c = '\n' then ['\\', 'n']
  else if c = '\r' then ['\\', 'r']
  else if c = '\t' then ['\\', 't']
  else if isPrintable c then [c]
  else escapeCodePoint c

/-! ## Marks -/

/-- The mark that quotes a text. -/
def quoteMark (cs : List Char) : Char :=
  if '\'' ∈ cs ∧ '"' ∉ cs then '"' else '\''

def quoteChars (cs : List Char) : List Char :=
  quoteMark cs :: cs.flatMap (escapeChar (quoteMark cs)) ++ [quoteMark cs]

def quoted (s : String) : String :=
  String.ofList (quoteChars s.toList)

end LispDialects.Text
