import LispDialects.Proofs.Equality
import LispDialects.Proofs.Separation

/-!
# Canonical text without loss

Canonical text shows symbols as they stand, so a symbol can look like anything: like a number, like
two symbols, like a list. An expression is `Legible` when its symbols are words: these are not
empty, have no blanks and brackets, and are not written as integers. Legible expressions are told
apart by their canonical texts (`text_eq_text_iff`).

The texts of lists end with their last bracket. The texts of atoms have no end of their own, but
inside a list they stand before a blank or a bracket, which they do not have in them.
-/

namespace LispDialects

open Text

/-- A symbol that is shown by its own name as a symbol: the name is not empty, without blanks and
brackets, and not written as an integer. -/
structure Text.Word (name : String) : Prop where
  nonempty : name ≠ ""
  unbroken : Unbroken name.toList
  unwritten : ∀ sign digits, ¬ WrittenInteger name sign digits

/-- That a name is a word can be decided by reading it as a numeral. -/
theorem Text.word_iff {name : String} :
    Word name ↔ name ≠ "" ∧ Unbroken name.toList ∧ isNumeral name.toList = false := by
  have hunwritten : (∀ sign digits, ¬ WrittenInteger name sign digits) ↔
      isNumeral name.toList = false := by
    simp only [← Bool.not_eq_true, isNumeral_iff, not_exists]
  constructor
  · rintro ⟨hnonempty, hunbroken, h⟩
    exact ⟨hnonempty, hunbroken, hunwritten.1 h⟩
  · rintro ⟨hnonempty, hunbroken, h⟩
    exact ⟨hnonempty, hunbroken, hunwritten.2 h⟩

instance : DecidablePred Word := fun _ => decidable_of_iff _ word_iff.symm

namespace Expr

/-- The atoms of legible expressions. -/
inductive LegibleAtom : Expr → Prop where
  | symbol {name : String} (hname : Word name) : LegibleAtom (.symbol name)
  | number (n : Int) : LegibleAtom (.number n)

/-- The expressions that are made of numbers and words by lists. -/
def Legible : Expr → Prop :=
  Over LegibleAtom

def textChars (e : Expr) : List Char :=
  e.text.toList

/-! ## Atoms -/

namespace LegibleAtom

variable {a b : Expr}

theorem isAtom (ha : LegibleAtom a) : a.isAtom = true := by
  cases ha <;> rfl

theorem unbroken (ha : LegibleAtom a) : Unbroken a.textChars := by
  cases ha with
  | symbol hname => exact hname.unbroken
  | number n => exact unbroken_toString n

theorem textChars_ne_nil (ha : LegibleAtom a) : a.textChars ≠ [] := by
  cases ha with
  | symbol hname =>
    intro hnil
    exact hname.nonempty (String.toList_eq_nil_iff.1 hnil)
  | number n => exact toString_ne_nil n

/-- The text of a legible atom begins with no bracket. -/
theorem exists_textChars_eq (ha : LegibleAtom a) :
    ∃ c cs, a.textChars = c :: cs ∧ c ≠ '(' ∧ c ≠ ')' := by
  obtain ⟨c, cs, hcs⟩ := List.exists_cons_of_ne_nil ha.textChars_ne_nil
  have hmem : c ∈ a.textChars := by
    rw [hcs]
    exact List.mem_cons_self
  exact ⟨c, cs, hcs, (ha.unbroken c hmem).2⟩

/-- No other atom has the text of a legible one: a word is not the text of a number. -/
theorem eq_of_text_eq (ha : LegibleAtom a) (hb : LegibleAtom b) (htext : a.text = b.text) :
    a = b := by
  -- the numeral of a number is written as an integer, and a word is not
  have hword : ∀ {name : String} {n : Int}, Word name → name ≠ toString n := by
    rintro name n hname rfl
    obtain ⟨sign, hwritten, _⟩ := exists_writtenInteger_toString n
    exact hname.unwritten _ _ hwritten
  cases ha with
  | symbol hname =>
    cases hb with
    | symbol _ => exact congrArg Expr.symbol htext
    | number n => exact absurd htext (hword hname)
  | number m =>
    cases hb with
    | symbol hname => exact absurd htext.symm (hword hname)
    | number n => exact congrArg Expr.number (toString_injective htext)

end LegibleAtom

/-! ## Lists -/

theorem not_legibleAtom_list (items : List Expr) : ¬ LegibleAtom (.list items) := by
  rintro ⟨⟩

theorem legible_list {items : List Expr} : Legible (.list items) ↔ ∀ e ∈ items, Legible e :=
  over_list not_legibleAtom_list

theorem Legible.plain {e : Expr} (he : e.Legible) : e.Plain := by
  refine he.refine ?_
  intro atom _ hatom
  exact hatom.isAtom

/-- The text of a list: the texts of its items between brackets, with a blank after each but the
last. -/
theorem textChars_list (items : List Expr) :
    (list items).textChars = '(' :: ([' '].intercalate (items.map textChars) ++ [')']) := by
  have hitems : (texts items).map String.toList = items.map textChars := by
    rw [texts_eq_map, List.map_map]
    rfl
  simp only [textChars, text, String.toList_append, String.toList_intercalate, hitems]
  rfl

/-- The text of an atom does not begin like that of a list. -/
theorem LegibleAtom.textChars_append_ne {a : Expr} (ha : LegibleAtom a) (items : List Expr)
    (r s : List Char) : a.textChars ++ r ≠ (list items).textChars ++ s := by
  obtain ⟨c, cs, hcs, hopen, _⟩ := ha.exists_textChars_eq
  rw [hcs, textChars_list]
  intro heq
  exact hopen (List.cons.inj heq).1

/-- Blanks join the texts of legible expressions, and a bracket ends them. -/
theorem joins_textChars : Joins textChars Legible AtBreak [' '] [')'] where
  separator_apart r s heq := by simp at heq
  item_apart a ha r s heq := by
    cases ha with
    | leaf hatom =>
      obtain ⟨c, cs, hcs, _, hclose⟩ := hatom.exists_textChars_eq
      rw [hcs] at heq
      exact hclose (List.cons.inj heq).1
    | list _ =>
      rw [textChars_list] at heq
      simp at heq
  follows_separator := atBreak_blank
  follows_close := atBreak_close

/-- At a blank, at a closing bracket and at the end, legible expressions are told apart. -/
theorem Legible.separates {a : Expr} (ha : a.Legible) :
    Separates textChars Legible AtBreak a := by
  -- an atom and a list differ in their first character, two atoms stand at the first break, and
  -- two lists are rows of what is told apart already
  induction ha with
  | @leaf atom hatom =>
    intro b hb r s hr hs heq
    cases hb with
    | leaf hother =>
      obtain ⟨hchars, hrest⟩ := unbroken_append_inj hatom.unbroken hother.unbroken hr hs heq
      have htext : atom.text = b.text := String.toList_inj.1 hchars
      exact ⟨hatom.eq_of_text_eq hother htext, hrest⟩
    | list _ => exact absurd heq (hatom.textChars_append_ne _ r s)
  | @list items hitems ih =>
    intro b hb r s hr hs heq
    cases hb with
    | leaf hother => exact absurd heq.symm (hother.textChars_append_ne _ s r)
    | @list others hothers =>
      -- behind the first bracket the two texts are rows of items
      simp only [textChars_list, List.cons_append, List.append_assoc, List.cons.injEq,
        true_and] at heq
      obtain ⟨rfl, hrest⟩ := joins_textChars.joined_inj hitems hothers ih heq
      exact ⟨rfl, hrest⟩

/-! ## Expressions -/

/-- Legible expressions are equal exactly when their canonical texts are: nesting, the items of
lists, empty lists, and what is a number and what a symbol can all be read off the text. -/
theorem text_eq_text_iff {a b : Expr} (ha : a.Legible) (hb : b.Legible) :
    a.text = b.text ↔ (a == b) = true := by
  rw [beq_iff_eq_of_plain hb.plain]
  constructor
  · intro htext
    have hchars : a.textChars ++ [] = b.textChars ++ [] := by
      rw [textChars, textChars, htext]
    -- the end of a text is a break, so the whole texts may be compared
    obtain ⟨hsame, _⟩ := ha.separates b hb [] [] trivial trivial hchars
    exact hsame
  · rintro rfl
    rfl

/-- The same symbols and numbers in the same order, among them symbols that only begin like
numbers, with a bracket in another place. -/
theorem text_ne_text_regrouped :
    (list [.symbol "-", .list [.symbol "1a", .number (-1)], .list []]).text ≠
      (list [.symbol "-", .list [.symbol "1a"], .number (-1), .list []]).text := by
  have hminus : LegibleAtom (.symbol "-") := .symbol (by decide)
  have hdigit : LegibleAtom (.symbol "1a") := .symbol (by decide)
  have hatoms : ∀ atom : Expr, LegibleAtom atom → atom.Legible := fun _ => .leaf
  have hfirst : (list [.symbol "-", .list [.symbol "1a", .number (-1)], .list []]).Legible := by
    simp [legible_list, hatoms, hminus, hdigit, LegibleAtom.number]
  have hsecond : (list [.symbol "-", .list [.symbol "1a"], .number (-1), .list []]).Legible := by
    simp [legible_list, hatoms, hminus, hdigit, LegibleAtom.number]
  rw [Ne, text_eq_text_iff hfirst hsecond]
  decide

end Expr

end LispDialects
