import LispDialects.Proofs.Separation
import LispDialects.Text.Quoted

/-!
# Reading quoted text

Between its marks a quoted text is read character by character: `readEscaped` takes the first
character off, in whichever way it was escaped, and leaves the rest (`readEscaped_escapeChar`). No
escaped character begins with the mark, so the mark ends the text, and a quoted text is told from
every other one whatever follows (`quoteChars_append_inj`).

Which characters count as printable does not matter here. Only the mark and the backslash have to
be escaped.
-/

namespace LispDialects.Text

/-! ## Hexadecimal fields -/

def hexDigitValue (c : Char) : Nat :=
  if c.isDigit then c.toNat - '0'.toNat else c.toNat - 'a'.toNat + 10

/-- The value of hexadecimal digits, the most significant first. -/
def hexValue (cs : List Char) : Nat :=
  cs.foldl (fun n c => 16 * n + hexDigitValue c) 0

/-- A digit is worth the number that it is made of. -/
theorem hexDigitValue_digitChar {n : Nat} (hn : n < 16) : hexDigitValue n.digitChar = n := by
  decide +revert

/-- A field is worth the number in it, less what did not fit. -/
theorem hexValue_hexField (width n : Nat) : hexValue (hexField width n) = n % 16 ^ width := by
  induction width generalizing n with
  | zero =>
    rw [pow_zero, Nat.mod_one]
    rfl
  | succ width ih =>
    have hdigit := hexDigitValue_digitChar (Nat.mod_lt n (by decide : 0 < 16))
    calc hexValue (hexField (width + 1) n)
        = 16 * hexValue (hexField width (n / 16)) + hexDigitValue (n % 16).digitChar := by
          simp only [hexField, hexValue, List.foldl_append, List.foldl_cons, List.foldl_nil]
      _ = n % 16 + 16 * (n / 16 % 16 ^ width) := by rw [ih, hdigit, Nat.add_comm]
      _ = n % 16 ^ (width + 1) := by rw [pow_succ', Nat.mod_mul]

/-! ## Reading a character -/

/-- Read a character that is written by its code point, in a field of the given width. -/
def readCodePoint (width : Nat) (cs : List Char) : Char × List Char :=
  (Char.ofNat (hexValue (cs.take width)), cs.drop width)

/-- Read the first character of the inside of a quoted text. -/
def readEscaped : List Char → Option (Char × List Char)
  | '\\' :: 'n' :: cs => some ('\n', cs)
  | '\\' :: 'r' :: cs => some ('\r', cs)
  | '\\' :: 't' :: cs => some ('\t', cs)
  | '\\' :: 'x' :: cs => some (readCodePoint 2 cs)
  | '\\' :: 'u' :: cs => some (readCodePoint 4 cs)
  | '\\' :: 'U' :: cs => some (readCodePoint 8 cs)
  | '\\' :: c :: cs => some (c, cs)
  | c :: cs => some (c, cs)
  | [] => none

/-- A code point that fits into its field is read back. -/
theorem readCodePoint_hexField {width : Nat} {c : Char} (hc : c.toNat < 16 ^ width)
    (rest : List Char) : readCodePoint width (hexField width c.toNat ++ rest) = (c, rest) := by
  have hlength := length_hexField width c.toNat
  rw [readCodePoint, List.take_left' hlength, List.drop_left' hlength, hexValue_hexField,
    Nat.mod_eq_of_lt hc, Char.ofNat_toNat]

/-- The width of the field is chosen so that the code point fits. -/
theorem readEscaped_escapeCodePoint (c : Char) (rest : List Char) :
    readEscaped (escapeCodePoint c ++ rest) = some (c, rest) := by
  unfold escapeCodePoint
  split_ifs with hshort hmiddle
  · exact congrArg some (readCodePoint_hexField hshort rest)
  · exact congrArg some (readCodePoint_hexField hmiddle rest)
  · have hlong : c.toNat < 16 ^ 8 := c.val.toNat_lt
    exact congrArg some (readCodePoint_hexField hlong rest)

theorem readEscaped_of_ne {c : Char} (hc : c ≠ '\\') (cs : List Char) :
    readEscaped (c :: cs) = some (c, cs) := by
  unfold readEscaped
  split <;> simp_all

/-- The marks that quote a text. -/
def IsMark (mark : Char) : Prop :=
  mark = '\'' ∨ mark = '"'

/-- A character is read back from what stands for it between two marks. -/
theorem readEscaped_escapeChar {mark : Char} (hmark : IsMark mark) (c : Char) (rest : List Char) :
    readEscaped (escapeChar mark c ++ rest) = some (c, rest) := by
  unfold escapeChar
  split_ifs with hc hline hreturn htab hprintable
  · -- neither a mark nor the backslash is the letter of another escape
    rcases hc with rfl | rfl
    · rcases hmark with rfl | rfl <;> rfl
    · rfl
  · subst hline; rfl
  · subst hreturn; rfl
  · subst htab; rfl
  · exact readEscaped_of_ne (fun heq => hc (.inr heq)) rest
  · exact readEscaped_escapeCodePoint c rest

/-! ## Reading a text -/

/-- What stands for a character between two marks does not begin with the mark. -/
theorem escapeChar_append_ne {mark : Char} (hmark : IsMark mark) (c : Char) (r s : List Char) :
    escapeChar mark c ++ r ≠ [mark] ++ s := by
  intro heq
  have hplain : mark ≠ '\\' := by
    rcases hmark with rfl | rfl <;> decide
  -- a mark at the beginning would be read as the mark, but the mark is written with a backslash
  have hread : some (c, r) = some (mark, s) := by
    rw [← readEscaped_escapeChar hmark c r, heq]
    exact readEscaped_of_ne hplain s
  obtain ⟨rfl, rfl⟩ := Prod.mk.inj (Option.some.inj hread)
  rw [escapeChar, if_pos (.inl rfl)] at heq
  exact hplain (List.cons.inj heq).1.symm

/-- Characters are told apart between two marks, whatever follows. -/
theorem separates_escapeChar {mark : Char} (hmark : IsMark mark) (c : Char) :
    Separates (escapeChar mark) (fun _ => True) (fun _ => True) c := by
  intro d _ r s _ _ heq
  have hread := congrArg readEscaped heq
  rw [readEscaped_escapeChar hmark, readEscaped_escapeChar hmark, Option.some.injEq,
    Prod.mk.injEq] at hread
  exact hread

/-- So a mark ends a row of characters that are escaped for it. -/
theorem closes_escapeChar {mark : Char} (hmark : IsMark mark) :
    Closes (escapeChar mark) (fun _ => True) (fun _ => True) [mark] where
  apart c _ r s := escapeChar_append_ne hmark c r s
  follows_close _ := trivial
  follows_item _ _ _ := trivial

theorem isMark_quoteMark (cs : List Char) : IsMark (quoteMark cs) := by
  unfold quoteMark
  split
  · exact .inr rfl
  · exact .inl rfl

/-- Quoted texts are told apart, whatever follows. The first mark is the one that all of the text is
escaped for. -/
theorem quoteChars_append_inj {cs ds r s : List Char}
    (heq : quoteChars cs ++ r = quoteChars ds ++ s) : cs = ds ∧ r = s := by
  simp only [quoteChars, List.cons_append, List.append_assoc, List.cons.injEq] at heq
  obtain ⟨hmark, hrest⟩ := heq
  rw [← hmark] at hrest
  have hcloses := closes_escapeChar (isMark_quoteMark cs)
  have hseparates : ∀ c ∈ cs, Separates (escapeChar (quoteMark cs)) (fun _ => True)
      (fun _ => True) c := fun c _ => separates_escapeChar (isMark_quoteMark cs) c
  exact hcloses.row_inj (by simp) (by simp) hseparates hrest

end LispDialects.Text
