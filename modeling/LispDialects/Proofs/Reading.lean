import LispDialects.Proofs.Equality
import LispDialects.Proofs.Leaves

/-!
# What is read, and what is refused

Reading goes down into lists and tuples and stops at everything else. What it stops at are the
`leaves` of host data, from left to right; a mapping is a leaf, whatever it holds. The first leaf
that the vocabulary does not take decides the error, and without such a leaf the data is read as
an expression with the same nesting (`read_answers`, by induction over the data).

It makes no difference which of the sequences are lists and which are tuples (`read_listed`), and
an expression that is written out in lists, texts and integers is read as itself (`read_written`).
The main statement is `read_takes_literals`.
-/

namespace LispDialects

/-! ## The leaves of host data -/

namespace Datum

mutual

/-- What is reached in host data by going down into lists and tuples only, from the left. -/
def leaves : Datum Expr → List (Datum Expr)
  | .list items | .tuple items => allLeaves items
  | d => [d]
termination_by structural d => d

def allLeaves : List (Datum Expr) → List (Datum Expr)
  | [] => []
  | d :: rest => leaves d ++ allLeaves rest
termination_by structural items => items

end

mutual

/-- The data with lists in place of all tuples that are reached. -/
def listed : Datum Expr → Datum Expr
  | .list items | .tuple items => .list (allListed items)
  | d => d
termination_by structural d => d

def allListed : List (Datum Expr) → List (Datum Expr)
  | [] => []
  | d :: rest => listed d :: allListed rest
termination_by structural items => items

end

/-- The expression has the nesting of the data, list for list and tuple for list, with the atoms for
texts and integers and with the expressions that are in the data. -/
inductive ReadsAs : Datum Expr → Expr → Prop where
  | expr (e : Expr) : ReadsAs (.expr e) e
  | text (s : String) : ReadsAs (.text s) (.symbol s)
  | integer (n : Int) : ReadsAs (.integer n) (.number n)
  | list {items : List (Datum Expr)} {es : List Expr} (h : List.Forall₂ ReadsAs items es) :
      ReadsAs (.list items) (.list es)
  | tuple {items : List (Datum Expr)} {es : List Expr} (h : List.Forall₂ ReadsAs items es) :
      ReadsAs (.tuple items) (.list es)

def IsLeaf (d : Datum Expr) : Prop :=
  (∀ items, d ≠ .list items) ∧ ∀ items, d ≠ .tuple items

mutual

/-- What holds of all leaves, and of a sequence if it holds of its items, holds of all data. -/
theorem sequence_induction {P : Datum Expr → Prop} (leaf : ∀ d, d.IsLeaf → P d)
    (list : ∀ items, (∀ d ∈ items, P d) → P (.list items))
    (tuple : ∀ items, (∀ d ∈ items, P d) → P (.tuple items)) : ∀ d, P d
  | .list items => list items (sequence_induction_items leaf list tuple items)
  | .tuple items => tuple items (sequence_induction_items leaf list tuple items)
  | .text s => leaf (.text s) ⟨by simp, by simp⟩
  | .integer n => leaf (.integer n) ⟨by simp, by simp⟩
  | .flag b => leaf (.flag b) ⟨by simp, by simp⟩
  | .absent => leaf .absent ⟨by simp, by simp⟩
  | .real numeral => leaf (.real numeral) ⟨by simp, by simp⟩
  | .mapping entries => leaf (.mapping entries) ⟨by simp, by simp⟩
  | .expr e => leaf (.expr e) ⟨by simp, by simp⟩

/-- What holds of all leaves, and of a sequence if it holds of its items, holds of all items. -/
theorem sequence_induction_items {P : Datum Expr → Prop} (leaf : ∀ d, d.IsLeaf → P d)
    (list : ∀ items, (∀ d ∈ items, P d) → P (.list items))
    (tuple : ∀ items, (∀ d ∈ items, P d) → P (.tuple items)) :
    ∀ items : List (Datum Expr), ∀ d ∈ items, P d
  | [] => by simp
  | d :: rest => List.forall_mem_cons.2
      ⟨sequence_induction leaf list tuple d, sequence_induction_items leaf list tuple rest⟩

end

/-- What is no sequence is the only leaf of itself. -/
theorem leaves_of_isLeaf {d : Datum Expr} (h : d.IsLeaf) : d.leaves = [d] := by
  cases d with
  | list items => exact absurd rfl (h.1 items)
  | tuple items => exact absurd rfl (h.2 items)
  | _ => rfl

/-- What is reached in an item is reached in the sequence. -/
theorem leaves_subset_allLeaves {items : List (Datum Expr)} {d : Datum Expr}
    (hd : d ∈ items) : d.leaves ⊆ allLeaves items := by
  induction items with
  | nil => cases hd
  | cons first rest ih =>
    rcases List.mem_cons.1 hd with rfl | hd
    · exact List.subset_append_left _ _
    · exact List.Subset.trans (ih hd) (List.subset_append_right _ _)

/-- Where nothing is gone down into, no tuple is replaced. -/
theorem listed_of_isLeaf {d : Datum Expr} (h : d.IsLeaf) : d.listed = d := by
  cases d with
  | list items => exact absurd rfl (h.1 items)
  | tuple items => exact absurd rfl (h.2 items)
  | _ => rfl

end Datum

namespace Vocabulary

/-- Whether the leaf can be read: an expression and a text always, and an integer where the
vocabulary has numbers. A truth value is no integer. -/
def takes : Vocabulary → Datum Expr → Bool
  | _, .expr _ => true
  | _, .text _ => true
  | .numeric, .integer _ => true
  | _, _ => false

/-- What is said of a leaf that is refused. -/
def complaint (vocabulary : Vocabulary) : Datum Expr → String
  | .integer n => vocabulary.name ++ " vocabulary does not accept " ++ toString n
  | leaf => "Cannot convert " ++ leaf.code ++ " to an expression"

/-- The first leaf that cannot be read. -/
def firstRefused (vocabulary : Vocabulary) (leaves : List (Datum Expr)) : Option (Datum Expr) :=
  leaves.find? (!vocabulary.takes ·)

/-- How data is read whose first refused leaf is given: it is refused for that leaf, and without
one it is read as something with its nesting. -/
def Answers {α : Type} (vocabulary : Vocabulary) (good : α → Prop) (refused : Option (Datum Expr))
    (result : Except Error α) : Prop :=
  match refused with
  | some leaf => ∃ error, result = .error error ∧ error.kind = .literal ∧
      error.message = vocabulary.complaint leaf
  | none => ∃ a, result = .ok a ∧ good a

variable {vocabulary : Vocabulary}

/-- A single leaf is read or complained of. -/
theorem read_leaf {d : Datum Expr} (h : d.IsLeaf) :
    vocabulary.Answers d.ReadsAs (vocabulary.firstRefused [d]) (vocabulary.read d) := by
  cases d with
  | list items => exact absurd rfl (h.1 items)
  | tuple items => exact absurd rfl (h.2 items)
  | expr e => exact ⟨e, rfl, .expr e⟩
  | text s => cases vocabulary <;> exact ⟨.symbol s, rfl, .text s⟩
  | integer n =>
    cases vocabulary with
    | text => exact ⟨_, rfl, rfl, rfl⟩
    | numeric => exact ⟨.number n, rfl, .integer n⟩
  | _ => cases vocabulary <;> exact ⟨_, rfl, rfl, rfl⟩

/-- Items are read from the left, up to the first leaf that is refused. -/
theorem readItems_answers {items : List (Datum Expr)}
    (hitems : ∀ d ∈ items,
      vocabulary.Answers d.ReadsAs (vocabulary.firstRefused d.leaves) (vocabulary.read d)) :
    vocabulary.Answers (List.Forall₂ Datum.ReadsAs items)
      (vocabulary.firstRefused (Datum.allLeaves items)) (vocabulary.readItems items) := by
  induction items with
  | nil => exact ⟨[], rfl, .nil⟩
  | cons d rest ih =>
    obtain ⟨hd, hrest⟩ := List.forall_mem_cons.1 hitems
    specialize ih hrest
    have happend : vocabulary.firstRefused (Datum.allLeaves (d :: rest)) =
        (vocabulary.firstRefused d.leaves).or
          (vocabulary.firstRefused (Datum.allLeaves rest)) := List.find?_append
    rw [happend, readItems]
    cases hfirst : vocabulary.firstRefused d.leaves with
    | some leaf =>
      -- the item is refused, and the rest is not read
      rw [hfirst] at hd
      obtain ⟨error, hread, herror⟩ := hd
      rw [hread]
      exact ⟨error, rfl, herror⟩
    | none =>
      rw [hfirst] at hd
      obtain ⟨e, hread, he⟩ := hd
      rw [hread, Option.none_or]
      -- the item is read, so the rest decides
      cases hlater : vocabulary.firstRefused (Datum.allLeaves rest) with
      | some leaf =>
        rw [hlater] at ih
        obtain ⟨error, hitems, herror⟩ := ih
        refine ⟨error, ?_, herror⟩
        rw [hitems]
        rfl
      | none =>
        rw [hlater] at ih
        obtain ⟨es, hitems, hes⟩ := ih
        refine ⟨e :: es, ?_, .cons he hes⟩
        rw [hitems]
        rfl

/-- A sequence is read as its items are. -/
theorem Answers.map {α β : Type} {good : α → Prop} {fine : β → Prop}
    {refused : Option (Datum Expr)} {result : Except Error α}
    (h : vocabulary.Answers good refused result) {f : α → β} (hf : ∀ a, good a → fine (f a)) :
    vocabulary.Answers fine refused (result.map f) := by
  cases refused with
  | some leaf =>
    obtain ⟨error, rfl, herror⟩ := h
    exact ⟨error, rfl, herror⟩
  | none =>
    obtain ⟨a, rfl, ha⟩ := h
    exact ⟨f a, rfl, hf a ha⟩

/-- The first leaf that is refused decides how data is read. -/
theorem read_answers (vocabulary : Vocabulary) (d : Datum Expr) :
    vocabulary.Answers d.ReadsAs (vocabulary.firstRefused d.leaves) (vocabulary.read d) := by
  induction d using Datum.sequence_induction with
  | leaf d hd =>
    rw [Datum.leaves_of_isLeaf hd]
    exact read_leaf hd
  | list items ih =>
    have hitems := readItems_answers ih
    exact hitems.map fun _ => .list
  | tuple items ih =>
    have hitems := readItems_answers ih
    exact hitems.map fun _ => .tuple

/-- Data is read only if no leaf is refused. -/
theorem nesting_of_read {d : Datum Expr} {e : Expr} (hread : vocabulary.read d = .ok e) :
    vocabulary.firstRefused d.leaves = none ∧ d.ReadsAs e := by
  have hanswers := vocabulary.read_answers d
  rw [hread] at hanswers
  cases hfirst : vocabulary.firstRefused d.leaves with
  | some leaf =>
    rw [hfirst] at hanswers
    obtain ⟨_, hok, _⟩ := hanswers
    cases hok
  | none =>
    rw [hfirst] at hanswers
    obtain ⟨_, hok, hreads⟩ := hanswers
    cases hok
    exact ⟨rfl, hreads⟩

/-- Data is refused only for the first leaf that is refused. -/
theorem cause_of_read_error {d : Datum Expr} {error : Error}
    (hread : vocabulary.read d = .error error) :
    ∃ leaf, vocabulary.firstRefused d.leaves = some leaf ∧ error.kind = .literal ∧
      error.message = vocabulary.complaint leaf := by
  have hanswers := vocabulary.read_answers d
  rw [hread] at hanswers
  cases hfirst : vocabulary.firstRefused d.leaves with
  | some leaf =>
    rw [hfirst] at hanswers
    obtain ⟨_, herror, hcause⟩ := hanswers
    cases herror
    exact ⟨leaf, rfl, hcause⟩
  | none =>
    rw [hfirst] at hanswers
    obtain ⟨_, herror, _⟩ := hanswers
    cases herror

/-- Data that has a leaf which is refused is refused for the first one. -/
theorem read_of_refused {d leaf : Datum Expr} {front back : List (Datum Expr)}
    (hleaves : d.leaves = front ++ leaf :: back)
    (hfront : ∀ earlier ∈ front, vocabulary.takes earlier = true)
    (hleaf : vocabulary.takes leaf = false) :
    ∃ error, vocabulary.read d = .error error ∧ error.kind = .literal ∧
      error.message = vocabulary.complaint leaf := by
  have hfirst : vocabulary.firstRefused d.leaves = some leaf := by
    rw [firstRefused, hleaves, List.find?_eq_some_iff_append]
    have hrefused : (!vocabulary.takes leaf) = true := by simpa using hleaf
    exact ⟨hrefused, front, back, rfl, by simpa using hfront⟩
  have hanswers := vocabulary.read_answers d
  rwa [hfirst] at hanswers

/-- Data is read just when all its leaves are taken. -/
theorem exists_read_iff {d : Datum Expr} :
    (∃ e, vocabulary.read d = .ok e) ↔ ∀ leaf ∈ d.leaves, vocabulary.takes leaf = true := by
  have hnone : vocabulary.firstRefused d.leaves = none ↔
      ∀ leaf ∈ d.leaves, vocabulary.takes leaf = true := by
    simp [firstRefused, List.find?_eq_none]
  rw [← hnone]
  constructor
  · rintro ⟨e, hread⟩
    exact (nesting_of_read hread).1
  · intro hfirst
    have hanswers := vocabulary.read_answers d
    rw [hfirst] at hanswers
    obtain ⟨e, hread, _⟩ := hanswers
    exact ⟨e, hread⟩

/-! ## Lists and tuples -/

theorem readItems_allListed {items : List (Datum Expr)}
    (hitems : ∀ d ∈ items, vocabulary.read d.listed = vocabulary.read d) :
    vocabulary.readItems (Datum.allListed items) = vocabulary.readItems items := by
  induction items with
  | nil => rfl
  | cons d rest ih =>
    obtain ⟨hd, hrest⟩ := List.forall_mem_cons.1 hitems
    simp only [Datum.allListed, readItems, hd, ih hrest]

/-- Lists in place of tuples are read, and refused, in the same way. -/
theorem read_listed (vocabulary : Vocabulary) (d : Datum Expr) :
    vocabulary.read d.listed = vocabulary.read d := by
  induction d using Datum.sequence_induction with
  | leaf d hd => rw [Datum.listed_of_isLeaf hd]
  | list items ih | tuple items ih => exact congrArg (·.map Expr.list) (readItems_allListed ih)

end Vocabulary

/-! ## Expressions written out -/

mutual

/-- The expression as host data that is made of lists, with the texts and integers of its atoms. A
function is no such data and stands for itself. -/
def Expr.written : Expr → Datum Expr
  | .symbol name => .text name
  | .number n => .integer n
  | .list items => .list (Expr.allWritten items)
  | e => .expr e
termination_by structural e => e

def Expr.allWritten : List Expr → List (Datum Expr)
  | [] => []
  | e :: rest => Expr.written e :: Expr.allWritten rest
termination_by structural items => items

end

namespace Vocabulary

variable {vocabulary : Vocabulary}

/-- The vocabulary of a list is that of its items. -/
theorem Admits.item {items : List Expr} (h : vocabulary.Admits (.list items)) {e : Expr}
    (he : e ∈ items) : vocabulary.Admits e :=
  fun d part hpart hd => h d part (.item he hpart) hd

/-- The atoms of the vocabulary are read as what they are. -/
theorem atom_of_admits {e : Expr} (hadmits : vocabulary.Admits e) {d : Datum Expr}
    (hd : d.toAtom = .ok e) : vocabulary.atom d = .ok e := by
  rw [atom, if_pos (hadmits d e (.self e) hd), hd]

theorem readItems_allWritten {items : List Expr}
    (hitems : ∀ e ∈ items, vocabulary.read e.written = .ok e) :
    vocabulary.readItems (Expr.allWritten items) = .ok items := by
  induction items with
  | nil => rfl
  | cons e rest ih =>
    obtain ⟨he, hrest⟩ := List.forall_mem_cons.1 hitems
    simp only [Expr.allWritten, readItems, he, ih hrest]
    rfl

/-- An expression without functions, written out, is read as itself. -/
theorem read_written {e : Expr} (hplain : e.Plain) (hadmits : vocabulary.Admits e) :
    vocabulary.read e.written = .ok e := by
  induction hplain with
  | @leaf e h =>
    cases e with
    | symbol name => exact atom_of_admits (d := .text name) hadmits rfl
    | number n => exact atom_of_admits (d := .integer n) hadmits rfl
    | _ => simp [Expr.isAtom] at h
  | @list items _ ih =>
    have hitems := readItems_allWritten fun e he => ih e he (hadmits.item he)
    exact congrArg (·.map Expr.list) hitems

/-- What a vocabulary reads, over all host data, whatever it is made of and however it is nested.

Data is read exactly when the vocabulary takes every leaf that is reached by going down into lists
and tuples. Otherwise the first leaf from the left that it does not take is complained of, and the
error is always of the class for literals. What is read has the nesting of the data, and is read as
itself by every vocabulary. Lists and tuples are read alike. An expression of the vocabulary without
functions is read as itself again when it is written out. -/
theorem read_takes_literals (vocabulary : Vocabulary) (d : Datum Expr) :
    ((∃ e, vocabulary.read d = .ok e) ↔ ∀ leaf ∈ d.leaves, vocabulary.takes leaf = true) ∧
      (∀ front leaf back, d.leaves = front ++ leaf :: back →
        (∀ earlier ∈ front, vocabulary.takes earlier = true) → vocabulary.takes leaf = false →
          ∃ error, vocabulary.read d = .error error ∧ error.kind = .literal ∧
            error.message = vocabulary.complaint leaf) ∧
      (∀ e, vocabulary.read d = .ok e →
        d.ReadsAs e ∧ ∀ other : Vocabulary, other.read (.expr e) = .ok e) ∧
      vocabulary.read d.listed = vocabulary.read d ∧
      ∀ e : Expr, e.Plain → vocabulary.Admits e → vocabulary.read e.written = .ok e := by
  refine ⟨exists_read_iff, ?_, ?_, vocabulary.read_listed d, fun e => read_written⟩
  · intro front leaf back hleaves hfront hleaf
    exact read_of_refused hleaves hfront hleaf
  · intro e hread
    exact ⟨(nesting_of_read hread).2, fun other => rfl⟩

/-- A truth value behind a tuple of an expression and a number. Texts only: the number is the first
leaf that is refused. With numbers it is the truth value, and without that the data is read. -/
theorem read_takes_literals_mixed :
    let front : List (Datum Expr) := [.text "a", .tuple [.expr (.list [.number 1]), .integer 7]]
    let d : Datum Expr := .list (front ++ [.flag true])
    (∃ error, Vocabulary.text.read d = .error error ∧ error.kind = .literal ∧
        error.message = "text vocabulary does not accept 7") ∧
      (∃ error, Vocabulary.numeric.read d = .error error ∧ error.kind = .literal ∧
        error.message = "Cannot convert True to an expression") ∧
      ∃ e, Vocabulary.numeric.read (.tuple front) = .ok e ∧ Datum.ReadsAs (.tuple front) e ∧
        e = .list [.symbol "a", .list [.list [.number 1], .number 7]] := by
  intro front d
  obtain ⟨_, htext, _⟩ := read_takes_literals .text d
  obtain ⟨_, hnumeric, _⟩ := read_takes_literals .numeric d
  obtain ⟨hreads, _, hnesting, _⟩ := read_takes_literals .numeric (.tuple front)
  obtain ⟨e, he⟩ := hreads.2 (by simp [front, Datum.leaves, Datum.allLeaves, takes])
  refine ⟨?_, ?_, e, he, (hnesting e he).1, ?_⟩
  · exact htext [.text "a", .expr (.list [.number 1])] (.integer 7) [.flag true] rfl
      (by simp [takes]) rfl
  · exact hnumeric [.text "a", .expr (.list [.number 1]), .integer 7] (.flag true) [] rfl
      (by simp [takes]) rfl
  · cases he
    rfl

end Vocabulary

end LispDialects
