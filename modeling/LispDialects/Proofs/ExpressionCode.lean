import LispDialects.Error
import LispDialects.Proofs.Equality
import LispDialects.Proofs.Quoting

/-!
# Code without loss

The code of an expression shows symbols in quotes, so it loses nothing, whatever characters a symbol
has: plain expressions are equal exactly when their codes are the same (`code_eq_code_iff`). The
messages that quote an expression by its code say which one it is.

Every code has an end of its own, so codes are told apart whatever follows them (`Plain.separates`).
Symbols end with the mark of their quotes, numbers and lists with a bracket.
-/

namespace LispDialects

open Text

/-! ## Messages with codes -/

/-- The errors that quote host data by its code. -/
inductive Error.Quotes : (Datum Expr → Error) → Prop where
  | bindingName : Quotes .bindingName
  | notAnAtom : Quotes .notAnAtom
  | notAnExpression : Quotes .notAnExpression
  | notConvertible : Quotes .notConvertible
  | notInVocabulary (vocabulary : String) : Quotes (.notInVocabulary vocabulary)

/-- In the message of such an error the code stands between two texts that do not depend on it. -/
theorem Error.Quotes.message_eq {report : Datum Expr → Error} (hreport : Quotes report) :
    ∃ before behind, ∀ d, (report d).message = before ++ d.code ++ behind := by
  cases hreport with
  | bindingName => exact ⟨"Cannot define ", " as a symbol", fun _ => rfl⟩
  | notAnAtom => exact ⟨"Cannot build an atom from ", "", fun _ => String.append_empty.symm⟩
  | notAnExpression =>
    exact ⟨"Cannot evaluate non-expression ", "", fun _ => String.append_empty.symm⟩
  | notConvertible => exact ⟨"Cannot convert ", " to an expression", fun _ => rfl⟩
  | notInVocabulary vocabulary =>
    exact ⟨vocabulary ++ " vocabulary does not accept ", "", fun _ => String.append_empty.symm⟩

/-- So two messages are the same when the codes are. -/
theorem Error.Quotes.message_eq_message_iff {report : Datum Expr → Error} (hreport : Quotes report)
    (d e : Datum Expr) : (report d).message = (report e).message ↔ d.code = e.code := by
  obtain ⟨before, behind, hmessage⟩ := hreport.message_eq
  simp only [hmessage, ← String.toList_inj, String.toList_append, List.append_cancel_right_eq,
    List.append_cancel_left_eq]

namespace Expr

/-! ## Atoms and lists -/

def codeChars (e : Expr) : List Char :=
  e.code.toList

theorem codeChars_symbol (name : String) :
    (symbol name).codeChars = "Atom(".toList ++ (quoteChars name.toList ++ [')']) := by
  simp [codeChars, code, quoted]

theorem codeChars_number (n : Int) :
    (number n).codeChars = "Atom(".toList ++ ((toString n).toList ++ [')']) := by
  simp [codeChars, code]

/-- The codes of the items of a list stand between brackets, with a comma after each but the
last. -/
theorem codeChars_list (items : List Expr) :
    (list items).codeChars =
      "ExprList([".toList ++ ([',', ' '].intercalate (items.map codeChars) ++ [']', ')']) := by
  have hitems : (codes items).map String.toList = items.map codeChars := by
    rw [codes_eq_map, List.map_map]
    rfl
  simp [codeChars, code, listCode, String.toList_intercalate, hitems]

/-- A number is not in quotes. -/
theorem toString_append_ne_quoteChars (n : Int) (cs r s : List Char) :
    (toString n).toList ++ r ≠ quoteChars cs ++ s := by
  obtain ⟨c, rest, hrest⟩ := List.exists_cons_of_ne_nil (toString_ne_nil n)
  have hc : ¬ IsMark c := by
    have hmem : c ∈ (toString n).toList := by
      rw [hrest]
      exact List.mem_cons_self
    rcases sign_or_digit_of_mem_toString hmem with rfl | rfl | hdigit
    · simp [IsMark]
    · simp [IsMark]
    · rintro (rfl | rfl) <;> exact absurd hdigit (by decide)
  intro heq
  rw [hrest] at heq
  have hmark : c = quoteMark cs := (List.cons.inj heq).1
  rw [hmark] at hc
  exact hc (isMark_quoteMark cs)

/-- The codes of atoms are told apart. -/
theorem codeChars_atom_inj {a b : Expr} (ha : a.isAtom = true) (hb : b.isAtom = true)
    {r s : List Char} (heq : a.codeChars ++ r = b.codeChars ++ s) : a = b ∧ r = s := by
  -- a quoted name ends with its own mark, and the digits of a number end at the bracket
  cases a with
  | symbol name =>
    cases b with
    | symbol other =>
      simp only [codeChars_symbol, List.append_assoc] at heq
      obtain ⟨hchars, hrest⟩ := quoteChars_append_inj (List.append_cancel_left heq)
      have hname : name = other := String.toList_inj.1 hchars
      exact ⟨congrArg symbol hname, List.append_cancel_left hrest⟩
    | number n =>
      simp only [codeChars_symbol, codeChars_number, List.append_assoc] at heq
      exact absurd (List.append_cancel_left heq).symm (toString_append_ne_quoteChars n _ _ _)
    | _ => cases hb
  | number m =>
    cases b with
    | symbol name =>
      simp only [codeChars_symbol, codeChars_number, List.append_assoc] at heq
      exact absurd (List.append_cancel_left heq) (toString_append_ne_quoteChars m _ _ _)
    | number n =>
      simp only [codeChars_number, List.append_assoc] at heq
      have hbehind := List.append_cancel_left heq
      obtain ⟨hchars, hrest⟩ := unbroken_append_inj (unbroken_toString m) (unbroken_toString n)
        (atBreak_close r) (atBreak_close s) hbehind
      have hnumber : m = n := toString_injective (String.toList_inj.1 hchars)
      exact ⟨congrArg number hnumber, List.append_cancel_left hrest⟩
    | _ => cases hb
  | _ => cases ha

/-- The code of an atom does not begin like that of a list. -/
theorem codeChars_atom_append_ne {a : Expr} (ha : a.isAtom = true) (items : List Expr)
    (r s : List Char) : a.codeChars ++ r ≠ (list items).codeChars ++ s := by
  rw [codeChars_list]
  cases a with
  | symbol name => rw [codeChars_symbol]; simp
  | number n => rw [codeChars_number]; simp
  | _ => cases ha

/-! ## Expressions -/

/-- Commas join the codes of plain expressions, and brackets end them. -/
theorem joins_codeChars : Joins codeChars Plain (fun _ => True) [',', ' '] [']', ')'] where
  separator_apart r s heq := by simp at heq
  item_apart a ha r s heq := by
    cases ha with
    | leaf hatom =>
      cases a with
      | symbol name => rw [codeChars_symbol] at heq; simp at heq
      | number n => rw [codeChars_number] at heq; simp at heq
      | _ => cases hatom
    | list _ => rw [codeChars_list] at heq; simp at heq
  follows_separator _ := trivial
  follows_close _ := trivial

/-- Plain expressions are told apart by their codes, whatever follows. -/
theorem Plain.separates {a : Expr} (ha : a.Plain) :
    Separates codeChars Plain (fun _ => True) a := by
  -- two atoms, an atom and a list, or two lists whose items are told apart already
  induction ha with
  | leaf hatom =>
    intro b hb r s _ _ heq
    cases hb with
    | leaf hother => exact codeChars_atom_inj hatom hother heq
    | list _ => exact absurd heq (codeChars_atom_append_ne hatom _ r s)
  | @list items hitems ih =>
    intro b hb r s _ _ heq
    cases hb with
    | leaf hother => exact absurd heq.symm (codeChars_atom_append_ne hother _ s r)
    | @list others hothers =>
      simp only [codeChars_list, List.append_assoc] at heq
      have hrows := List.append_cancel_left heq
      obtain ⟨rfl, hrest⟩ := joins_codeChars.joined_inj hitems hothers ih hrows
      exact ⟨rfl, hrest⟩

/-- Plain expressions are equal exactly when their codes are the same, and exactly when a message
that quotes one of them is the same as the one that quotes the other. -/
theorem code_eq_code_iff {a b : Expr} (ha : a.Plain) (hb : b.Plain) :
    (a.code = b.code ↔ (a == b) = true) ∧
      ∀ report, Error.Quotes report →
        ((report (.expr a)).message = (report (.expr b)).message ↔ (a == b) = true) := by
  have hcode : a.code = b.code ↔ (a == b) = true := by
    rw [beq_iff_eq_of_plain hb]
    constructor
    · intro hsame
      have hchars : a.codeChars ++ [] = b.codeChars ++ [] := by
        rw [codeChars, codeChars, hsame]
      obtain ⟨heq, _⟩ := ha.separates b hb [] [] trivial trivial hchars
      exact heq
    · rintro rfl
      rfl
  constructor
  · exact hcode
  · intro report hreport
    rw [hreport.message_eq_message_iff]
    exact hcode

/-- A symbol that looks like the codes of two, in the quotes that it asks for itself. -/
theorem code_ne_code_resembling :
    (list [.symbol "a'), Atom('b"]).code ≠ (list [.symbol "a", .symbol "b"]).code ∧
      (Error.bindingName (.expr (list [.symbol "a'), Atom('b"]))).message ≠
        (Error.bindingName (.expr (list [.symbol "a", .symbol "b"]))).message := by
  have hsymbol : ∀ name, (symbol name).Plain := fun _ => .leaf rfl
  have hone : (list [.symbol "a'), Atom('b"]).Plain :=
    .list (List.forall_mem_singleton.2 (hsymbol _))
  have htwo : (list [.symbol "a", .symbol "b"]).Plain :=
    .list (List.forall_mem_cons.2 ⟨hsymbol _, List.forall_mem_singleton.2 (hsymbol _)⟩)
  have hdifferent :
      ¬ (list [.symbol "a'), Atom('b"] == list [.symbol "a", .symbol "b"]) = true := by
    decide
  obtain ⟨hcode, hmessage⟩ := code_eq_code_iff hone htwo
  exact ⟨mt hcode.1 hdifferent, mt (hmessage _ .bindingName).1 hdifferent⟩

end Expr

end LispDialects
