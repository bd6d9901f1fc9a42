import LispDialects.Text.Characters

/-!
# Settings

Settings are texts that may be missing. Blanks around a setting and the case of its letters do not
matter, and a blank setting counts as missing.

Texts are lowered by the full mapping of Unicode. Two characters need more than the table of single
characters: the dotted capital I becomes two characters, and a capital sigma takes its final form
at the end of a word.
-/

namespace LispDialects

namespace Text

/-! ## Blanks -/

/-- The characters without the blanks at either end. -/
def trimBlanks (cs : List Char) : List Char :=
  ((cs.dropWhile isBlank).reverse.dropWhile isBlank).reverse

/-- The text without the blanks at either end. -/
def trim (s : String) : String :=
  String.ofList (trimBlanks s.toList)

/-! ## Lowercase -/

/-- The character whose code point is moved by `shift`. -/
def shiftChar (c : Char) (shift : Int) : Char :=
  Char.ofNat (c.toNat + shift).toNat

/-- The lowercase of one character by the table; a character without one is its own. -/
def lowerChar (c : Char) : Char :=
  match lowercaseRuns.find? (·.covers c.toNat) with
  | some run => shiftChar c run.shift
  | none => c

/-- Whether the nearest character that is not skipped is cased. -/
def nearestIsCased (cs : List Char) : Bool :=
  (cs.dropWhile (inRanges caseIgnorableRanges)).head?.any (inRanges casedRanges)

/-- The lowercase of a character between the characters before it, nearest first, and those
after it. A capital sigma is final when a cased character comes before it and none after it. -/
def lowerBetween (before : List Char) (c : Char) (after : List Char) : List Char :=
  if c = 'Σ' then
    if nearestIsCased before && !nearestIsCased after then ['ς'] else ['σ']
  else if c = 'İ' then ['i', '\u0307']
  else [lowerChar c]

def lowerAfter (before : List Char) : List Char → List Char
  | [] => []
  | c :: rest => lowerBetween before c rest ++ lowerAfter (c :: before) rest

def lowercase (s : String) : String :=
  String.ofList (lowerAfter [] s.toList)

end Text

namespace Settings

/-! ## Settings -/

/-- What a setting says, if it says anything. -/
def value? (raw : Option String) : Option String :=
  (raw.map Text.trim).filter (· ≠ "") |>.map Text.lowercase

/-- The texts that switch something on. -/
def truthyTexts : List String := ["1", "true", "yes", "on"]

/-- Whether a setting switches something on. -/
def flag (raw : Option String) (default : Bool) : Bool :=
  match value? raw with
  | some s => truthyTexts.contains s
  | none => default

/-- The name of the dialect to use when no dialect is named and none is set. -/
def defaultDialectName : String := "numeric"

/-- The name of the dialect to use when none is named. -/
def dialectName (raw : Option String) : String :=
  (value? raw).getD defaultDialectName

/-- The level at which every event is shown. -/
def traceLevel : Int := 10

/-- The level at which events are shown: that of tracing, if it is switched on. -/
def levelUnder (raw : Option String) (level : Int) : Int :=
  if flag raw false then traceLevel else level

end Settings

end LispDialects
