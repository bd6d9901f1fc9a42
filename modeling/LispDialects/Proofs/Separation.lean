import LispDialects.Proofs.Numerals

/-!
# Telling texts apart

A text is written in front of others, so two values are told apart by their texts only if this can
be done without knowing where the texts end. `Separates` says so of one value: whatever follows, as
long as it is something that a text may be followed by, the value and what follows can be found in
the whole.

Values that are told apart in this way are told apart in a row too, if the mark at its end is not
the beginning of a text (`Closes.row_inj`), and in a row with separators (`Joins.joined_inj`). A
text without blanks and brackets needs only a blank or a bracket behind it (`unbroken_append_inj`).
-/

namespace LispDialects.Text

variable {α : Type} {write : α → List Char} {known : α → Prop} {follows : List Char → Prop}
  {separator close : List Char}

/-! ## Single texts -/

/-- The value is told apart from every known one by what is written for it, in front of anything
that may follow. -/
def Separates (write : α → List Char) (known : α → Prop) (follows : List Char → Prop) (a : α) :
    Prop :=
  ∀ b, known b → ∀ r s, follows r → follows s → write a ++ r = write b ++ s → a = b ∧ r = s

/-! ## Rows of texts -/

/-- The mark ends a row of texts: no text begins with it, and both the mark and one more text may
follow a text. -/
structure Closes (write : α → List Char) (known : α → Prop) (follows : List Char → Prop)
    (close : List Char) : Prop where
  apart : ∀ a, known a → ∀ r s, write a ++ r ≠ close ++ s
  follows_close : ∀ r, follows (close ++ r)
  follows_item : ∀ a, known a → ∀ r, follows (write a ++ r)

/-- The rest of a row may follow a text. -/
theorem Closes.follows_row (h : Closes write known follows close) {xs : List α}
    (hxs : ∀ x ∈ xs, known x) (r : List Char) : follows (xs.flatMap write ++ (close ++ r)) := by
  cases xs with
  | nil => exact h.follows_close r
  | cons x xs =>
    rw [List.flatMap_cons, List.append_assoc]
    exact h.follows_item x (hxs x List.mem_cons_self) _

/-- Rows are told apart when the values in them are. -/
theorem Closes.row_inj (h : Closes write known follows close) {xs ys : List α} {r s : List Char}
    (hxs : ∀ x ∈ xs, known x) (hys : ∀ y ∈ ys, known y)
    (hseparates : ∀ x ∈ xs, Separates write known follows x)
    (heq : xs.flatMap write ++ (close ++ r) = ys.flatMap write ++ (close ++ s)) :
    xs = ys ∧ r = s := by
  -- along the first row; where only one of the two goes on, its next text stands at an end mark
  induction xs generalizing ys with
  | nil =>
    cases ys with
    | nil => exact ⟨rfl, List.append_cancel_left heq⟩
    | cons y ys =>
      rw [List.flatMap_cons, List.append_assoc] at heq
      exact absurd heq.symm (h.apart y (hys y List.mem_cons_self) _ _)
  | cons x xs ih =>
    cases ys with
    | nil =>
      rw [List.flatMap_cons, List.append_assoc] at heq
      exact absurd heq (h.apart x (hxs x List.mem_cons_self) _ _)
    | cons y ys =>
      rw [List.forall_mem_cons] at hxs hys hseparates
      simp only [List.flatMap_cons, List.append_assoc] at heq
      have hfollows := h.follows_row hxs.2 r
      have hfollows' := h.follows_row hys.2 s
      obtain ⟨rfl, hrest⟩ := hseparates.1 y hys.1 _ _ hfollows hfollows' heq
      obtain ⟨rfl, rfl⟩ := ih hxs.2 hys.2 hseparates.2 hrest
      exact ⟨rfl, rfl⟩

/-! ## Rows with separators -/

/-- The separator and the end mark of a row are told from each other, no text begins with the end
mark, and both may follow a text. -/
structure Joins (write : α → List Char) (known : α → Prop) (follows : List Char → Prop)
    (separator close : List Char) : Prop where
  separator_apart : ∀ r s, separator ++ r ≠ close ++ s
  item_apart : ∀ a, known a → ∀ r s, write a ++ r ≠ close ++ s
  follows_separator : ∀ r, follows (separator ++ r)
  follows_close : ∀ r, follows (close ++ r)

/-- Texts with the separator in front of each are a row. -/
theorem Joins.closes (h : Joins write known follows separator close) :
    Closes (fun a => separator ++ write a) known follows close where
  apart a _ r s := by
    rw [List.append_assoc]
    exact h.separator_apart _ s
  follows_close := h.follows_close
  follows_item a _ r := by
    rw [List.append_assoc]
    exact h.follows_separator _

/-- A separator in front of the texts does no harm. -/
theorem Separates.behind {a : α} (h : Separates write known follows a) (separator : List Char) :
    Separates (fun a => separator ++ write a) known follows a := by
  intro b hb r s hr hs heq
  simp only [List.append_assoc] at heq
  exact h b hb r s hr hs (List.append_cancel_left heq)

/-- After its first text, a row with separators is a row of texts behind separators. -/
theorem intercalate_cons_eq {β : Type} {write : α → List β} {separator : List β} (x : α)
    (xs : List α) :
    separator.intercalate ((x :: xs).map write) =
      write x ++ xs.flatMap fun a => separator ++ write a := by
  induction xs generalizing x with
  | nil => simp
  | cons y ys ih =>
    have hrest := ih y
    simp only [List.map_cons] at hrest ⊢
    rw [List.intercalate_cons_cons, hrest, List.flatMap_cons, List.append_assoc, List.append_assoc]

/-- Rows with separators are told apart when the values in them are. -/
theorem Joins.joined_inj (h : Joins write known follows separator close) {xs ys : List α}
    {r s : List Char} (hxs : ∀ x ∈ xs, known x) (hys : ∀ y ∈ ys, known y)
    (hseparates : ∀ x ∈ xs, Separates write known follows x)
    (heq : separator.intercalate (xs.map write) ++ (close ++ r) =
      separator.intercalate (ys.map write) ++ (close ++ s)) :
    xs = ys ∧ r = s := by
  cases xs with
  | nil =>
    cases ys with
    | nil => exact ⟨rfl, List.append_cancel_left heq⟩
    | cons y ys =>
      rw [intercalate_cons_eq, List.append_assoc] at heq
      exact absurd heq.symm (h.item_apart y (hys y List.mem_cons_self) _ _)
  | cons x xs =>
    cases ys with
    | nil =>
      rw [intercalate_cons_eq, List.append_assoc] at heq
      exact absurd heq (h.item_apart x (hxs x List.mem_cons_self) _ _)
    | cons y ys =>
      -- the first texts have no separator in front, and behind them both rows have one before each
      rw [List.forall_mem_cons] at hxs hys hseparates
      rw [intercalate_cons_eq, intercalate_cons_eq, List.append_assoc, List.append_assoc] at heq
      have hfollows := h.closes.follows_row hxs.2 r
      have hfollows' := h.closes.follows_row hys.2 s
      obtain ⟨rfl, hrest⟩ := hseparates.1 y hys.1 _ _ hfollows hfollows' heq
      have hbehind : ∀ z ∈ xs, Separates (fun a => separator ++ write a) known follows z :=
        fun z hz => (hseparates.2 z hz).behind separator
      obtain ⟨rfl, rfl⟩ := h.closes.row_inj hxs.2 hys.2 hbehind hrest
      exact ⟨rfl, rfl⟩

/-! ## Texts without blanks and brackets -/

/-- No character of the text is a blank or a round bracket. -/
def Unbroken (cs : List Char) : Prop :=
  ∀ c ∈ cs, c ≠ ' ' ∧ c ≠ '(' ∧ c ≠ ')'

instance : DecidablePred Unbroken := fun _ => List.decidableBAll _ _

/-- A blank, a closing bracket or nothing at all comes first. -/
def AtBreak : List Char → Prop
  | [] => True
  | c :: _ => c = ' ' ∨ c = ')'

theorem atBreak_blank (r : List Char) : AtBreak ([' '] ++ r) := .inl rfl

theorem atBreak_close (r : List Char) : AtBreak ([')'] ++ r) := .inr rfl

/-- What begins with a character of an unbroken text is at no break. -/
theorem not_atBreak_append {c : Char} {cs r : List Char} (h : Unbroken (c :: cs)) :
    ¬ AtBreak ((c :: cs) ++ r) := by
  intro hbreak
  have hc := h c List.mem_cons_self
  rcases hbreak with rfl | rfl
  · exact hc.1 rfl
  · exact hc.2.2 rfl

/-- An unbroken text ends at the first break. -/
theorem unbroken_append_inj {v w r s : List Char} (hv : Unbroken v) (hw : Unbroken w)
    (hr : AtBreak r) (hs : AtBreak s) (heq : v ++ r = w ++ s) : v = w ∧ r = s := by
  induction v generalizing w with
  | nil =>
    cases w with
    | nil => exact ⟨rfl, heq⟩
    | cons d w =>
      -- what follows the one text would begin with a character of the other
      rw [List.nil_append] at heq
      rw [heq] at hr
      exact absurd hr (not_atBreak_append hw)
  | cons c v ih =>
    cases w with
    | nil =>
      rw [List.nil_append] at heq
      rw [← heq] at hs
      exact absurd hs (not_atBreak_append hv)
    | cons d w =>
      have htail : Unbroken v := fun c hc => hv c (List.mem_cons_of_mem _ hc)
      have htail' : Unbroken w := fun d hd => hw d (List.mem_cons_of_mem _ hd)
      simp only [List.cons_append, List.cons.injEq] at heq
      obtain ⟨rfl, hrest⟩ := heq
      obtain ⟨rfl, rfl⟩ := ih htail htail' hrest
      exact ⟨rfl, rfl⟩

/-- The text of an integer has signs and digits only. -/
theorem sign_or_digit_of_mem_toString {n : Int} {c : Char} (hc : c ∈ (toString n).toList) :
    c = '+' ∨ c = '-' ∨ '0' ≤ c ∧ c ≤ '9' := by
  obtain ⟨_, hwritten, _⟩ := exists_writtenInteger_toString n
  exact hwritten.sign_or_digit hc

theorem unbroken_toString (n : Int) : Unbroken (toString n).toList := by
  intro c hc
  rcases sign_or_digit_of_mem_toString hc with rfl | rfl | hdigit
  · decide
  · decide
  · refine ⟨?_, ?_, ?_⟩ <;>
    · rintro rfl
      exact absurd hdigit (by decide)

theorem toString_ne_nil (n : Int) : (toString n).toList ≠ [] := by
  obtain ⟨_, hwritten, _⟩ := exists_writtenInteger_toString n
  -- a sign, or none, and the digits behind it
  obtain ⟨mark, _, htext⟩ := hwritten.text
  rw [htext]
  exact List.append_ne_nil_of_right_ne_nil _ hwritten.nonempty

end LispDialects.Text
