import LispDialects.Expr.Pretty

/-!
# What a terminal reads

A terminal reads a text as characters to show and escape sequences to obey (`signs`). The escape
sequences are those of `attributeEscape`: the escape character, a square bracket, one or more digits
and the letter `m`.

A text can be read on its own when no escape sequence begins in it and ends behind it. `Reads` says
so, and what such texts are read as can be put together (`Reads.append`, `Reads.flatMap`). A text
without the escape character is one (`reads_chars`), and so is a whole escape sequence
(`reads_attributeEscape`), whatever the text around it looks like.
-/

namespace LispDialects.Text

/-! ## Escape sequences -/

/-- The escape character does not occur in the text. -/
def EscapeFree (s : String) : Prop :=
  '\x1b' ∉ s.toList

instance : DecidablePred EscapeFree := fun s =>
  inferInstanceAs (Decidable ('\x1b' ∉ s.toList))

/-- The escape sequence that a text begins with, and what follows it. -/
def readEscape? : List Char → Option (String × List Char)
  | '\x1b' :: '[' :: cs =>
    -- the letter has to stand behind all of the digits, and there has to be one of these
    match cs.dropWhile Char.isDigit with
    | 'm' :: rest =>
      if cs.takeWhile Char.isDigit = [] then none
      else some (attributeEscape (String.ofList (cs.takeWhile Char.isDigit)), rest)
    | _ => none
  | _ => none

/-- No escape sequence begins with any other character. -/
theorem readEscape?_of_ne {c : Char} (hc : c ≠ '\x1b') (cs : List Char) :
    readEscape? (c :: cs) = none := by
  unfold readEscape?
  split
  · rename_i heq
    exact absurd (List.cons.inj heq).1 hc
  · rfl

/-- Something is left out when an escape sequence is read. -/
theorem length_of_readEscape? {cs rest : List Char} {sequence : String}
    (h : readEscape? cs = some (sequence, rest)) : rest.length < cs.length := by
  unfold readEscape? at h
  split at h
  · rename_i behind
    split at h
    · rename_i after hdrop
      split at h
      · cases h
      · cases h
        -- what stands behind the digits is no longer than what the digits are part of
        have hle : (behind.dropWhile Char.isDigit).length ≤ behind.length :=
          (List.dropWhile_suffix Char.isDigit).length_le
        rw [hdrop] at hle
        simp only [List.length_cons] at hle ⊢
        omega
    · cases h
  · cases h

theorem toList_attributeEscape (digits : String) :
    (attributeEscape digits).toList = '\x1b' :: '[' :: (digits.toList ++ ['m']) := by
  simp [attributeEscape]

/-- The escape sequence that sets an attribute is read as a whole. -/
theorem readEscape?_attributeEscape {digits : String} (hnonempty : digits ≠ "")
    (hdigits : digits.toList.all Char.isDigit = true) (rest : List Char) :
    readEscape? ((attributeEscape digits).toList ++ rest) =
      some (attributeEscape digits, rest) := by
  have htake : (digits.toList ++ 'm' :: rest).takeWhile Char.isDigit = digits.toList := by
    rw [List.takeWhile_append_of_pos (List.all_eq_true.1 hdigits)]
    simp
  have hdrop : (digits.toList ++ 'm' :: rest).dropWhile Char.isDigit = 'm' :: rest := by
    rw [List.dropWhile_append_of_pos (List.all_eq_true.1 hdigits)]
    simp
  have hsome : digits.toList ≠ [] := by
    intro hnil
    exact hnonempty (String.toList_eq_nil_iff.1 hnil)
  rw [toList_attributeEscape, List.cons_append, List.cons_append, List.append_assoc,
    List.singleton_append, readEscape?, hdrop]
  simp only [htake, if_neg hsome, String.ofList_toList]

/-! ## Reading a text -/

/-- What a terminal reads: a character to show, or an escape sequence. -/
inductive Sign where
  | char (c : Char)
  | escape (sequence : String)
deriving DecidableEq, Repr

/-- The character that is shown, if it is one. -/
def Sign.char? : Sign → Option Char
  | .char c => some c
  | .escape _ => none

/-- The escape sequence, if it is one. -/
def Sign.escape? : Sign → Option String
  | .char _ => none
  | .escape sequence => some sequence

def signs : List Char → List Sign
  | [] => []
  | c :: cs =>
    match _hread : readEscape? (c :: cs) with
    | some (sequence, rest) => .escape sequence :: signs rest
    | none => .char c :: signs cs
termination_by cs => cs.length
decreasing_by
  · exact length_of_readEscape? _hread
  · exact Nat.lt_succ_self _

/-- The text without its escape sequences. -/
def eraseEscapes (s : String) : String :=
  String.ofList ((signs s.toList).filterMap Sign.char?)

def escapes (s : String) : List String :=
  (signs s.toList).filterMap Sign.escape?

/-! ## Reading in parts -/

/-- The text is read in the same way whatever follows, and what follows is read in its own. -/
def Reads (text : List Char) (read : List Sign) : Prop :=
  ∀ rest, signs (text ++ rest) = read ++ signs rest

/-- The text is read so when nothing follows. -/
theorem Reads.signs_eq {text : List Char} {read : List Sign} (h : Reads text read) :
    signs text = read := by
  have hall := h []
  rwa [List.append_nil, signs, List.append_nil] at hall

theorem reads_nil : Reads [] [] := fun _ => rfl

/-- Two texts that are read on their own are read one after the other. -/
theorem Reads.append {text other : List Char} {read otherRead : List Sign} (h : Reads text read)
    (hother : Reads other otherRead) : Reads (text ++ other) (read ++ otherRead) := by
  intro rest
  rw [List.append_assoc, h, hother, List.append_assoc]

/-- A text that is put together from parts is read part by part. -/
theorem Reads.flatMap {α : Type} {write : α → List Char} {read : α → List Sign} {xs : List α}
    (h : ∀ x ∈ xs, Reads (write x) (read x)) : Reads (xs.flatMap write) (xs.flatMap read) := by
  induction xs with
  | nil => exact reads_nil
  | cons x xs ih =>
    rw [List.forall_mem_cons] at h
    obtain ⟨hfirst, hrest⟩ := h
    exact hfirst.append (ih hrest)

/-- Without the escape character a text is shown as it is. -/
theorem reads_chars {s : String} (hs : EscapeFree s) : Reads s.toList (s.toList.map .char) := by
  -- along the characters, none of which an escape sequence can begin with
  have hchars : ∀ cs : List Char, '\x1b' ∉ cs → Reads cs (cs.map .char) := by
    intro cs hcs
    induction cs with
    | nil => exact reads_nil
    | cons c cs ih =>
      rw [List.mem_cons, not_or] at hcs
      intro rest
      have hnone := readEscape?_of_ne (Ne.symm hcs.1) (cs ++ rest)
      rw [List.cons_append, signs, hnone]
      exact congrArg (.char c :: ·) (ih hcs.2 rest)
  exact hchars s.toList hs

/-- An escape sequence is obeyed. -/
theorem reads_attributeEscape {digits : String} (hnonempty : digits ≠ "")
    (hdigits : digits.toList.all Char.isDigit = true) :
    Reads (attributeEscape digits).toList [.escape (attributeEscape digits)] := by
  intro rest
  have hread := readEscape?_attributeEscape hnonempty hdigits rest
  rw [toList_attributeEscape, List.cons_append] at hread ⊢
  rw [signs, hread]
  rfl

end LispDialects.Text
