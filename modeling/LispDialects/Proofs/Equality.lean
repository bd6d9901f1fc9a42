import LispDialects.Proofs.Proper

/-!
# Equality and functions

An expression in which a function occurs is equal to nothing, itself included. Between expressions
that are made of symbols and numbers by lists, equality is identity (`beq_iff_eq_of_plain`).

A truth coding takes one expression as false. If no function occurs in it, this is the canonical
false value and nothing else (`Truth.isFalse_iff`), otherwise there is no such expression at all
(`Truth.isFalse_eq_false`).
-/

namespace LispDialects

namespace Expr

/-- The expressions that are made of symbols and numbers by lists, so that no function occurs in
them. -/
def Plain : Expr → Prop :=
  Over fun e => e.isAtom = true

/-- A builtin or a special form occurs in the expression. -/
def HasFunction (e : Expr) : Prop :=
  (∃ f, e.HasPart (.builtin f)) ∨ ∃ f, e.HasPart (.form f)

/-! ## Lists -/

/-- Where equality with each item is identity, so is equality with the list. -/
theorem sameItems_iff_eq {items : List Expr}
    (hitems : ∀ y ∈ items, ∀ x : Expr, x.same y = true ↔ x = y) (others : List Expr) :
    sameItems others items = true ↔ others = items := by
  induction items generalizing others with
  | nil => cases others <;> simp [sameItems]
  | cons y ys ih =>
    cases others with
    | nil => simp [sameItems]
    | cons x xs =>
      have hfirst : x.same y = true ↔ x = y := hitems y List.mem_cons_self x
      have hrest := ih (fun z hz => hitems z (List.mem_cons_of_mem _ hz)) xs
      rw [sameItems, Bool.and_eq_true, hfirst, hrest, List.cons.injEq]

/-- A list with an item that is equal to nothing is equal to nothing. -/
theorem sameItems_eq_false {items : List Expr} {y : Expr} (hy : y ∈ items)
    (hsame : ∀ x : Expr, x.same y = false) (others : List Expr) :
    sameItems others items = false := by
  induction items generalizing others with
  | nil => simp at hy
  | cons z zs ih =>
    cases others with
    | nil => rfl
    | cons x xs =>
      rw [sameItems]
      -- the item that is equal to nothing is the first one, or it is among the rest
      rcases List.mem_cons.1 hy with rfl | hrest
      · rw [hsame x, Bool.false_and]
      · rw [ih hrest xs, Bool.and_false]

/-! ## Expressions -/

/-- Nothing but the expression itself is equal to it, and it is equal to itself. -/
theorem beq_iff_eq_of_plain {b : Expr} (hb : b.Plain) (a : Expr) : (a == b) = true ↔ a = b := by
  show a.same b = true ↔ a = b
  induction hb generalizing a with
  | @leaf e h =>
    cases e <;> cases a <;> simp_all [same, isAtom]
  | list _ ih =>
    cases a with
    | list xs =>
      have hlists := sameItems_iff_eq ih xs
      simpa [same] using hlists
    | _ => simp [same]

/-- What a part that is equal to nothing occurs in is equal to nothing either. -/
theorem same_eq_false_of_hasPart {b part : Expr} (hpart : b.HasPart part)
    (hsame : ∀ a : Expr, a.same part = false) (a : Expr) : a.same b = false := by
  -- the lists around the part are equal to nothing, from the inside outwards
  induction hpart generalizing a with
  | self => exact hsame a
  | item hitem _ ih =>
    cases a with
    | list xs => exact sameItems_eq_false hitem (ih hsame) xs
    | _ => rfl

/-- So is what a function occurs in. -/
theorem beq_eq_false_of_hasFunction {b : Expr} (hb : b.HasFunction) (a : Expr) :
    (a == b) = false := by
  rcases hb with ⟨f, hf⟩ | ⟨f, hf⟩
  · have hbuiltin : ∀ x : Expr, x.same (.builtin f) = false := by
      intro x
      cases x <;> rfl
    exact same_eq_false_of_hasPart hf hbuiltin a
  · have hform : ∀ x : Expr, x.same (.form f) = false := by
      intro x
      cases x <;> rfl
    exact same_eq_false_of_hasPart hf hform a

end Expr

/-! ## Truth codings -/

variable {truth : Truth Expr}

/-- Without functions in it, the canonical false value is the one that is taken as false. -/
theorem Truth.isFalse_iff (hno : truth.no.Plain) {e : Expr} :
    truth.isFalse e = true ↔ e = truth.no :=
  Expr.beq_iff_eq_of_plain hno e

/-- With a function in it, nothing is taken as false, the canonical false value no more than
anything else. -/
theorem Truth.isFalse_eq_false (hno : truth.no.HasFunction) (e : Expr) : truth.isFalse e = false :=
  Expr.beq_eq_false_of_hasFunction hno e

end LispDialects
