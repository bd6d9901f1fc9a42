import LispDialects.Proofs.Elision
import LispDialects.Proofs.Proper
import LispDialects.Proofs.Separation
import LispDialects.Proofs.Terminal

/-!
# Colours change no text

Pretty text is put together from pieces: the atoms and functions that are printed, and brackets,
blanks and elided lists around them (`Expr.pieces`). With and without colours the pieces are the
same (`prettyAt_eq_pieces`). With colours a terminal reads a piece on its own: an atom or a function
as its text between two escape sequences, and any other piece as it stands (`Piece.reads_chars`).

So the escape sequences come in pairs, one pair for each atom or function that is printed, and
without them the text is the one without colours (`pretty_coloured`). The atoms and functions must
not have the escape character in their own text. Nothing else is asked of it, so it may look like
the rest of an escape sequence.
-/

namespace LispDialects

open Text

/-! ## Pieces -/

inductive Piece where
  /-- An atom or a function. -/
  | leaf (e : Expr)
  /-- A bracket, a blank or an elided list. -/
  | mark (text : String)

namespace Piece

/-- What is printed for a piece. -/
def printed (options : PrettyOptions) : Piece → String
  | .leaf e => options.leafText e
  | .mark text => text

/-- What is printed for a piece without colours. -/
def text : Piece → String
  | .leaf e => e.text
  | .mark text => text

/-- The colour of a piece, which only atoms and functions have. -/
def colour? : Piece → Option Colour
  | .leaf e => e.colour?
  | .mark _ => none

/-- What a terminal reads for a piece with colours: a text between two escape sequences, or a text
alone. -/
def signs (p : Piece) : List Sign :=
  match p.colour? with
  | some colour => .escape colour.escape :: (p.text.toList.map .char ++ [.escape resetEscape])
  | none => p.text.toList.map .char

end Piece

/-- The texts around atoms and functions. -/
def layoutMarks : List String := ["(", " ", ")", elidedText]

namespace Expr

mutual

/-- The pieces of an expression, with the given number of levels of lists if there is a limit. -/
def pieces (left : Option Int) : Expr → List Piece
  | .list items =>
    if left.any fun left => left ≤ 0 then [.mark elidedText]
    else
      .mark "(" :: ([Piece.mark " "].intercalate
        (piecesOfItems (left.map fun left => left - 1) items) ++ [.mark ")"])
  | e => [.leaf e]
termination_by structural e => e

/-- The pieces of each item of a list, with the given number of levels each. -/
def piecesOfItems (left : Option Int) : List Expr → List (List Piece)
  | [] => []
  | e :: rest => pieces left e :: piecesOfItems left rest
termination_by structural items => items

end

theorem piecesOfItems_eq_map (left : Option Int) (items : List Expr) :
    piecesOfItems left items = items.map (pieces left) := by
  induction items with
  | nil => rfl
  | cons e rest ih => simp [piecesOfItems, ih]

/-! ## Printing by pieces -/

/-- Writing out a row with separators is writing out its parts. -/
theorem flatMap_intercalate {α β : Type} (write : α → List β) (separator : List α)
    (rows : List (List α)) :
    (separator.intercalate rows).flatMap write =
      (separator.flatMap write).intercalate (rows.map fun row => row.flatMap write) := by
  induction rows with
  | nil => rfl
  | cons row rest ih =>
    cases rest with
    | nil => simp
    | cons next rest =>
      simp only [List.map_cons] at ih ⊢
      rw [List.intercalate_cons_cons, List.intercalate_cons_cons, List.flatMap_append,
        List.flatMap_append, ih]

def pieceChars (options : PrettyOptions) (p : Piece) : List Char :=
  (p.printed options).toList

/-- Without colours these are the characters of the text. -/
theorem pieceChars_plain {options : PrettyOptions} (hcolour : options.colour = false) :
    pieceChars options = fun p => p.text.toList := by
  funext p
  cases p with
  | leaf e => simp [pieceChars, Piece.printed, Piece.text, PrettyOptions.leafText, hcolour]
  | mark _ => rfl

mutual

/-- What is printed at a depth are the pieces, one after the other. -/
theorem prettyAt_eq_pieces (options : PrettyOptions) (depth : Nat) :
    ∀ e : Expr, (prettyAt options depth e).toList =
      (e.pieces (options.levels depth)).flatMap (pieceChars options)
  | .symbol _ | .number _ | .builtin _ | .form _ | .foreign _ => by
    simp [prettyAt, pieces, pieceChars, Piece.printed]
  | .list items => by
    -- one level further down there is one level less to show
    have hitems := prettyItems_eq_pieces options (depth + 1) items
    rw [PrettyOptions.levels_succ] at hitems
    cases helides : options.elides depth with
    | true =>
      have hleft := helides
      rw [PrettyOptions.elides_eq] at hleft
      simp [prettyAt, pieces, helides, hleft, pieceChars, Piece.printed]
    | false =>
      have hleft := helides
      rw [PrettyOptions.elides_eq] at hleft
      simp [prettyAt, pieces, helides, hleft, pieceChars, Piece.printed, flatMap_intercalate,
        hitems]

theorem prettyItems_eq_pieces (options : PrettyOptions) (depth : Nat) :
    ∀ items : List Expr, (prettyItems options depth items).map String.toList =
      (piecesOfItems (options.levels depth) items).map fun row => row.flatMap (pieceChars options)
  | [] => rfl
  | e :: rest => by
    have hfirst := prettyAt_eq_pieces options depth e
    have hrest := prettyItems_eq_pieces options depth rest
    rw [prettyItems, piecesOfItems, List.map_cons, List.map_cons, hfirst, hrest]

end

theorem pretty_eq_pieces (options : PrettyOptions) (e : Expr) :
    (e.pretty options).toList = (e.pieces options.maxDepth).flatMap (pieceChars options) := by
  rw [← PrettyOptions.levels_zero]
  exact prettyAt_eq_pieces options 0 e

/-! ## Which pieces there are -/

/-- What stands in a row with separators is a separator or stands in one of the parts. -/
theorem mem_joined {α β : Type} {write : α → List β} {separator : List β} {xs : List α} {y : β}
    (hy : y ∈ separator.intercalate (xs.map write)) :
    y ∈ separator ∨ ∃ x ∈ xs, y ∈ write x := by
  cases xs with
  | nil => simp at hy
  | cons x xs =>
    rw [intercalate_cons_eq, List.mem_append, List.mem_flatMap] at hy
    rcases hy with hx | ⟨other, hother, hy⟩
    · exact .inr ⟨x, List.mem_cons_self, hx⟩
    · rcases List.mem_append.1 hy with hseparator | hy
      · exact .inl hseparator
      · exact .inr ⟨other, List.mem_cons_of_mem _ hother, hy⟩

/-- The pieces are leaves of the expression and texts around these. -/
theorem mem_pieces {leaf : Expr → Prop} (hleaf : ∀ items, ¬ leaf (.list items)) {e : Expr}
    (he : Over leaf e) {left : Option Int} {p : Piece} (hp : p ∈ e.pieces left) :
    (∃ part, p = .leaf part ∧ e.HasPart part ∧ leaf part) ∨
      ∃ mark ∈ layoutMarks, p = .mark mark := by
  have hmark : ∀ mark ∈ layoutMarks, p = .mark mark → ∃ mark ∈ layoutMarks, p = .mark mark :=
    fun mark hmem heq => ⟨mark, hmem, heq⟩
  induction he generalizing left with
  | @leaf e h =>
    have hself : p = .leaf e := by
      cases e with
      | list items => exact absurd h (hleaf items)
      | _ => simpa [pieces] using hp
    exact .inl ⟨e, hself, .self e, h⟩
  | @list items _ ih =>
    rw [pieces] at hp
    split at hp
    · exact .inr (hmark elidedText (by simp [layoutMarks]) (List.mem_singleton.1 hp))
    · -- the first bracket, something between the two, or the last one
      rw [piecesOfItems_eq_map, List.mem_cons, List.mem_append, List.mem_singleton] at hp
      rcases hp with hopen | hinside | hclose
      · exact .inr (hmark "(" (by simp [layoutMarks]) hopen)
      · rcases mem_joined hinside with hblank | ⟨item, hitem, hpiece⟩
        · exact .inr (hmark " " (by simp [layoutMarks]) (List.mem_singleton.1 hblank))
        · rcases ih item hitem hpiece with ⟨part, heq, hpart, h⟩ | hmarks
          · exact .inl ⟨part, heq, .item hitem hpart, h⟩
          · exact .inr hmarks
      · exact .inr (hmark ")" (by simp [layoutMarks]) hclose)

/-- The atoms and functions whose names have no escape character. -/
inductive Unescaped : Expr → Prop where
  | symbol {name : String} (hname : EscapeFree name) : Unescaped (.symbol name)
  | number (n : Int) : Unescaped (.number n)
  | builtin {f : Builtin Expr} (hname : EscapeFree f.name) : Unescaped (.builtin f)
  | form {f : SpecialForm Expr} (hname : EscapeFree f.name) : Unescaped (.form f)

theorem not_unescaped_list (items : List Expr) : ¬ Unescaped (.list items) := by
  rintro ⟨⟩

theorem Unescaped.colour?_eq {e : Expr} (he : Unescaped e) : ∃ colour, e.colour? = some colour := by
  cases he <;> exact ⟨_, rfl⟩

end Expr

/-! ## Reading by pieces -/

theorem Text.EscapeFree.append {s t : String} (hs : EscapeFree s) (ht : EscapeFree t) :
    EscapeFree (s ++ t) := by
  rw [EscapeFree, String.toList_append, List.mem_append, not_or]
  exact ⟨hs, ht⟩

theorem escapeFree_toString (n : Int) : EscapeFree (toString n) := by
  intro hescape
  rcases sign_or_digit_of_mem_toString hescape with heq | heq | hdigit
  · exact absurd heq (by decide)
  · exact absurd heq (by decide)
  · exact absurd hdigit (by decide)

/-- The text of a function has the escape character only where its name has it. -/
theorem escapeFree_functionText {kind : FunctionKind} {name : String} (hname : EscapeFree name) :
    EscapeFree (functionText kind name) := by
  have hopen : EscapeFree "#<" := by decide
  have hkind : EscapeFree kind.text := by cases kind <;> decide
  have hblank : EscapeFree " " := by decide
  have hclose : EscapeFree ">" := by decide
  exact (((hopen.append hkind).append hblank).append hname).append hclose

/-- What is printed for such an atom or function is free of the escape character. -/
theorem Expr.Unescaped.escapeFree_text {e : Expr} (he : e.Unescaped) : EscapeFree e.text := by
  cases he with
  | symbol hname => exact hname
  | number n => exact escapeFree_toString n
  | builtin hname => exact escapeFree_functionText hname
  | form hname => exact escapeFree_functionText hname

theorem escapeFree_layoutMarks : ∀ mark ∈ layoutMarks, EscapeFree mark := by
  decide

/-- The escape sequence of a colour is one to a terminal. -/
theorem Colour.reads_escape (colour : Colour) :
    Reads colour.escape.toList [.escape colour.escape] := by
  cases colour <;> exact reads_attributeEscape (by decide) (by decide)

theorem reads_resetEscape : Reads resetEscape.toList [.escape resetEscape] :=
  reads_attributeEscape (by decide) (by decide)

namespace Piece

/-- With colours, a piece is read as its text between two escape sequences if it has a colour, and
as its text if it has none. -/
theorem reads_printed {options : PrettyOptions} (hcolour : options.colour = true) {p : Piece}
    (hfree : EscapeFree p.text) : Reads (p.printed options).toList p.signs := by
  have htext := reads_chars hfree
  cases p with
  | mark text => exact htext
  | leaf e =>
    cases h : e.colour? with
    | none => simpa [printed, signs, text, colour?, PrettyOptions.leafText, hcolour,
        Expr.colouredText, h] using htext
    | some colour =>
      have hread := (colour.reads_escape.append htext).append reads_resetEscape
      simpa [printed, signs, text, colour?, PrettyOptions.leafText, hcolour,
        Expr.colouredText, h] using hread

/-- Without its escape sequences a piece is its text. -/
theorem filterMap_char?_signs (p : Piece) : p.signs.filterMap Sign.char? = p.text.toList := by
  have hchars : (p.text.toList.map Sign.char).filterMap Sign.char? = p.text.toList := by
    rw [List.filterMap_map]
    exact List.filterMap_some
  cases h : p.colour? with
  | none => simpa only [signs, h] using hchars
  | some colour =>
    simp [signs, h, List.filterMap_cons, List.filterMap_append, hchars, Sign.char?]

/-- The escape sequences of a piece are that of its colour and the one that switches back. -/
theorem filterMap_escape?_signs (p : Piece) : p.signs.filterMap Sign.escape? =
    p.colour?.toList.flatMap fun colour => [colour.escape, resetEscape] := by
  have hchars : (p.text.toList.map Sign.char).filterMap Sign.escape? = [] := by
    rw [List.filterMap_map]
    exact List.filterMap_eq_nil_iff.2 fun _ _ => rfl
  cases h : p.colour? with
  | none => simpa [signs, h] using hchars
  | some colour =>
    simp [signs, h, List.filterMap_append, hchars, Sign.escape?]

/-- Without its escape sequences a row of pieces is the row of their texts. -/
theorem chars_signs (ps : List Piece) :
    (ps.flatMap signs).filterMap Sign.char? = ps.flatMap fun p => p.text.toList := by
  simp only [List.filterMap_flatMap, filterMap_char?_signs]

/-- The escape sequences of a row of pieces are those of their colours, each followed by the one
that switches back. -/
theorem escapes_signs (ps : List Piece) :
    (ps.flatMap signs).filterMap Sign.escape? =
      (ps.filterMap colour?).flatMap fun colour => [colour.escape, resetEscape] := by
  induction ps with
  | nil => rfl
  | cons p ps ih =>
    rw [List.flatMap_cons, List.filterMap_append, filterMap_escape?_signs, ih]
    cases h : p.colour? <;> simp [h]

end Piece

namespace Expr

/-! ## Whole expressions -/

/-- In pretty text with colours, of an expression whose atoms and functions have no escape
character,

* the text without escape sequences is pretty text without colours, under the same limit;
* a colour and the sequence that switches back follow one another, once for each piece that has a
  colour;
* the pieces that the text without colours is put together from are read one by one, each with its
  pair around it or with none;
* the pieces that have a colour are atoms and functions of the expression, and the others are
  brackets, blanks and elided lists. -/
theorem pretty_coloured {e : Expr} (he : e.Over Unescaped) (maxDepth : Option Int) :
    eraseEscapes (e.pretty { colour := true, maxDepth }) = e.pretty { maxDepth } ∧
      escapes (e.pretty { colour := true, maxDepth }) =
        ((e.pieces maxDepth).filterMap Piece.colour?).flatMap
          (fun colour => [colour.escape, resetEscape]) ∧
      (e.pretty { maxDepth }).toList = (e.pieces maxDepth).flatMap (fun p => p.text.toList) ∧
      signs (e.pretty { colour := true, maxDepth }).toList =
        (e.pieces maxDepth).flatMap Piece.signs ∧
      ∀ p ∈ e.pieces maxDepth,
        (∃ part colour, p = .leaf part ∧ e.HasPart part ∧ part.colour? = some colour) ∨
          ∃ mark ∈ layoutMarks, p = .mark mark := by
  have hpieces : ∀ p ∈ e.pieces maxDepth,
      (∃ part, p = .leaf part ∧ e.HasPart part ∧ Unescaped part) ∨
        ∃ mark ∈ layoutMarks, p = .mark mark :=
    fun p hp => mem_pieces not_unescaped_list he hp
  -- no text of a piece has an escape character, so every piece is read on its own
  have hfree : ∀ p ∈ e.pieces maxDepth, EscapeFree p.text := by
    intro p hp
    rcases hpieces p hp with ⟨part, rfl, _, hpart⟩ | ⟨mark, hmark, rfl⟩
    · exact hpart.escapeFree_text
    · exact escapeFree_layoutMarks mark hmark
  have hplain : (e.pretty { maxDepth }).toList =
      (e.pieces maxDepth).flatMap fun p => p.text.toList := by
    rw [pretty_eq_pieces, pieceChars_plain rfl]
  have hsigns : signs (e.pretty { colour := true, maxDepth }).toList =
      (e.pieces maxDepth).flatMap Piece.signs := by
    have hreads : ∀ p ∈ e.pieces maxDepth,
        Reads (pieceChars { colour := true, maxDepth } p) p.signs :=
      fun p hp => Piece.reads_printed rfl (hfree p hp)
    rw [pretty_eq_pieces]
    exact (Reads.flatMap hreads).signs_eq
  refine ⟨?_, ?_, hplain, hsigns, ?_⟩
  · rw [eraseEscapes, hsigns, Piece.chars_signs, ← hplain, String.ofList_toList]
  · rw [escapes, hsigns, Piece.escapes_signs]
  · intro p hp
    rcases hpieces p hp with ⟨part, rfl, hhas, hpart⟩ | hmark
    · obtain ⟨colour, hcolour⟩ := hpart.colour?_eq
      exact .inl ⟨part, colour, rfl, hhas, hcolour⟩
    · exact .inr hmark

/-- A symbol that looks like the end of an escape sequence, the mark of lambda literals in a list
that is elided, and an empty list that is not printed either. -/
theorem pretty_coloured_resembling :
    eraseEscapes ((list [.symbol "[94m", .list [.symbol "lambda"], .builtin ⟨"car", .car⟩,
        .list []]).pretty { colour := true, maxDepth := some 1 }) =
        "([94m (...) #<builtin car> (...))" ∧
      escapes ((list [.symbol "[94m", .list [.symbol "lambda"], .builtin ⟨"car", .car⟩,
        .list []]).pretty { colour := true, maxDepth := some 1 }) =
        ["\x1b[94m", "\x1b[0m", "\x1b[95m", "\x1b[0m"] := by
  have hsymbol : ∀ name, EscapeFree name → (symbol name).Over Unescaped :=
    fun _ hname => .leaf (.symbol hname)
  have hbracket := hsymbol "[94m" (by decide)
  have hlambda := hsymbol "lambda" (by decide)
  have hcar : (builtin ⟨"car", .car⟩).Over Unescaped := .leaf (.builtin (by decide))
  have he : (list [.symbol "[94m", .list [.symbol "lambda"], .builtin ⟨"car", .car⟩,
      .list []]).Over Unescaped := by
    simp [over_list not_unescaped_list, hbracket, hlambda, hcar]
  obtain ⟨herase, hescapes, _⟩ := pretty_coloured he (some 1)
  rw [herase, hescapes]
  decide

end Expr

end LispDialects
