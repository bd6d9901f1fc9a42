import LispDialects.Eval.Builtin
import LispDialects.Dialect.Catalogue
import LispDialects.Proofs.Equality

/-!
# Equality is structural

What two expressions have to have in common to be equal is said here without the comparison: they
are `Alike` when they are the same tree of lists, with the same number of items everywhere, and at
each leaf symbols of one name or numbers of one value. Functions are never alike, so an expression
is alike to itself exactly when no function occurs in it (`alike_self_iff`).

Equality of expressions of the language decides this relation (`beq_iff_alike`), so it is a partial
equivalence: symmetric and transitive, but not reflexive where functions are. The main statement is
`beq_structural`.
-/

namespace LispDialects

namespace Expr

/-- The two expressions are the same tree of lists with the same atoms at the leaves. -/
inductive Alike : Expr → Expr → Prop where
  | symbol (name : String) : Alike (.symbol name) (.symbol name)
  | number (n : Int) : Alike (.number n) (.number n)
  | list {xs ys : List Expr} (hlength : xs.length = ys.length)
      (hitems : ∀ (i : Nat) (x y : Expr), xs[i]? = some x → ys[i]? = some y → Alike x y) :
      Alike (.list xs) (.list ys)

/-! ## Expressions with and without functions -/

/-- No function occurs in an expression that is made of atoms. -/
theorem Plain.not_hasFunction {e : Expr} (h : e.Plain) : ¬ e.HasFunction := by
  have hleaf : ∀ items, ¬ (list items).isAtom = true := by simp [isAtom]
  rintro (⟨f, hf⟩ | ⟨f, hf⟩)
  · have hatom := h.leaf_of_part hleaf hf (by simp)
    simp [isAtom] at hatom
  · have hatom := h.leaf_of_part hleaf hf (by simp)
    simp [isAtom] at hatom

/-- A function in an item is one in the list. -/
theorem HasFunction.item {items : List Expr} {e : Expr} (hitem : e ∈ items)
    (h : e.HasFunction) : (list items).HasFunction := by
  rcases h with ⟨f, hf⟩ | ⟨f, hf⟩
  · exact .inl ⟨f, .item hitem hf⟩
  · exact .inr ⟨f, .item hitem hf⟩

/-- An expression of the language is made of atoms, unless a function occurs in it. -/
theorem plain_of_not_hasFunction {truth : Truth Expr} {e : Expr} (he : Proper truth e)
    (hnone : ¬ e.HasFunction) : e.Plain := by
  induction he with
  | @leaf e h =>
    refine .leaf ?_
    cases h with
    | symbol name => rfl
    | number n => rfl
    | @function key f hf =>
      rcases mem_standard hf with rfl | rfl | rfl | ⟨b, rfl, _⟩
      · exact absurd (.inr ⟨_, .self _⟩) hnone
      · exact absurd (.inr ⟨_, .self _⟩) hnone
      · exact absurd (.inr ⟨_, .self _⟩) hnone
      · exact absurd (.inl ⟨_, .self _⟩) hnone
  | @list items _ ih =>
    refine .list ?_
    intro item hitem
    have hwithout : ¬ item.HasFunction := by
      intro hfunction
      exact hnone (hfunction.item hitem)
    exact ih item hitem hwithout

/-! ## Alike expressions -/

/-- Alike expressions are made of atoms, and they are the same expression. -/
theorem Alike.plain_and_eq {a b : Expr} (h : a.Alike b) : a.Plain ∧ a = b := by
  induction h with
  | symbol name => exact ⟨.leaf rfl, rfl⟩
  | number n => exact ⟨.leaf rfl, rfl⟩
  | @list xs ys hlength _ ih =>
    have hpair : ∀ (i : Nat) (x : Expr), xs[i]? = some x →
        ∃ y, ys[i]? = some y ∧ x.Plain ∧ x = y := by
      intro i x hx
      obtain ⟨hi, _⟩ := List.getElem?_eq_some_iff.1 hx
      have hi' : i < ys.length := by omega
      have hy : ys[i]? = some ys[i] := List.getElem?_eq_getElem hi'
      exact ⟨_, hy, ih i x _ hx hy⟩
    constructor
    · refine .list ?_
      intro x hx
      obtain ⟨i, hi⟩ := List.mem_iff_getElem?.1 hx
      obtain ⟨_, _, hplain, _⟩ := hpair i x hi
      exact hplain
    · -- the lists have the same items everywhere
      refine congrArg Expr.list (List.ext_getElem? ?_)
      intro i
      cases hx : xs[i]? with
      | some x =>
        obtain ⟨y, hy, _, rfl⟩ := hpair i x hx
        rw [hy]
      | none =>
        have hi : xs.length ≤ i := List.getElem?_eq_none_iff.1 hx
        have hi' : ys.length ≤ i := by omega
        exact (List.getElem?_eq_none hi').symm

/-- What is made of atoms is alike to itself. -/
theorem Plain.alike {e : Expr} (h : e.Plain) : e.Alike e := by
  induction h with
  | @leaf e h =>
    cases e with
    | symbol name => exact .symbol name
    | number n => exact .number n
    | _ => simp [isAtom] at h
  | @list items _ ih =>
    refine .list rfl ?_
    intro i x y hx hy
    have heq : x = y := Option.some.inj (hx.symm.trans hy)
    rw [← heq]
    exact ih x (List.mem_of_getElem? hx)

/-- An expression is alike to itself only, if it is made of atoms, and to none otherwise. -/
theorem alike_iff {a b : Expr} : a.Alike b ↔ a.Plain ∧ a = b := by
  constructor
  · exact Alike.plain_and_eq
  · rintro ⟨hplain, rfl⟩
    exact hplain.alike

/-! ## Equality -/

section Proper

variable {truth : Truth Expr} {a b : Expr}

/-- Equality with an expression of the language decides whether the two are alike. -/
theorem beq_iff_alike (hb : Proper truth b) (a : Expr) : (a == b) = true ↔ a.Alike b := by
  rw [alike_iff]
  by_cases hfunction : b.HasFunction
  · rw [beq_eq_false_of_hasFunction hfunction a]
    constructor
    · intro h
      cases h
    · rintro ⟨hplain, rfl⟩
      exact absurd hfunction hplain.not_hasFunction
  · have hplain : b.Plain := plain_of_not_hasFunction hb hfunction
    rw [beq_iff_eq_of_plain hplain a]
    constructor
    · rintro rfl
      exact ⟨hplain, rfl⟩
    · exact And.right

/-- An expression of the language is alike to itself unless a function occurs in it. -/
theorem alike_self_iff (ha : Proper truth a) : a.Alike a ↔ ¬ a.HasFunction := by
  rw [alike_iff]
  constructor
  · rintro ⟨hplain, _⟩
    exact hplain.not_hasFunction
  · intro hnone
    exact ⟨plain_of_not_hasFunction ha hnone, rfl⟩

theorem Alike.symm (h : a.Alike b) : b.Alike a := by
  obtain ⟨_, rfl⟩ := h.plain_and_eq
  exact h

theorem Alike.trans {c : Expr} (h₁ : a.Alike b) (h₂ : b.Alike c) : a.Alike c := by
  obtain ⟨_, rfl⟩ := h₁.plain_and_eq
  exact h₂

/-- To differ is not to be equal, also for functions, for which it is defined on its own. -/
theorem differs_eq_not_beq (a b : Expr) : a.differs b = !(a == b) := by
  cases a <;> simp [differs]

end Proper

/-- Equality of expressions of the language, be they of one dialect or of several.

Two of them are equal exactly when no function occurs in them and they are the same tree of lists
with the same atoms at the leaves. So an expression is not equal to itself exactly when a function
occurs in it, and equality is symmetric and transitive. To differ is the opposite of being equal.
The builtin for equality gives the canonical truth value of this relation, in any truth coding. -/
theorem beq_structural {truthA truthB truthC : Truth Expr} {a b c : Expr} (ha : Proper truthA a)
    (hb : Proper truthB b) (hc : Proper truthC c) :
    ((a == b) = true ↔ ¬ a.HasFunction ∧ ¬ b.HasFunction ∧ a.Alike b) ∧
      ((a == a) = false ↔ a.HasFunction) ∧ (a == b) = (b == a) ∧
      ((a == b) = true → (b == c) = true → (a == c) = true) ∧
      a.differs b = !(a == b) ∧
      ∀ (host : Host) (coding : Truth Expr), ∃ answer,
        (BuiltinOp.eq coding).call host [a, b] = .ok (coding.coerce answer) ∧
          (answer = true ↔ ¬ a.HasFunction ∧ ¬ b.HasFunction ∧ a.Alike b) := by
  have hequal : (a == b) = true ↔ ¬ a.HasFunction ∧ ¬ b.HasFunction ∧ a.Alike b := by
    rw [beq_iff_alike hb]
    constructor
    · intro halike
      obtain ⟨hplain, rfl⟩ := halike.plain_and_eq
      exact ⟨hplain.not_hasFunction, hplain.not_hasFunction, halike⟩
    · rintro ⟨_, _, halike⟩
      exact halike
  refine ⟨hequal, ?_, ?_, ?_, differs_eq_not_beq a b, ?_⟩
  · rw [← Bool.not_eq_true, beq_iff_alike ha, alike_self_iff ha, not_not]
  · rw [Bool.eq_iff_iff, beq_iff_alike hb, beq_iff_alike ha]
    exact ⟨Alike.symm, Alike.symm⟩
  · rw [beq_iff_alike hb, beq_iff_alike hc, beq_iff_alike hc]
    exact Alike.trans
  · intro host coding
    exact ⟨a == b, rfl, hequal⟩

/-- A symbol that is written like a number is not equal to it, deep inside of equal lists, and an
expression in which a function occurs is not equal to itself, so the builtin gives the empty list in
the coding where this is the false value. -/
theorem beq_structural_resembling :
    let a : Expr := .list [.number 1, .list [.symbol "1", .list []]]
    let b : Expr := .list [.number 1, .list [.number 1, .list []]]
    let f : Expr := .list [.symbol "1", .builtin ⟨"car", .car⟩]
    Proper .symbolic a ∧ Proper .symbolic b ∧ Proper .emptyList f ∧
      ¬ (¬ a.HasFunction ∧ ¬ b.HasFunction ∧ a.Alike b) ∧ f.HasFunction ∧
      (BuiltinOp.eq .emptyList).call Host.sample [f, f] = .ok (.list []) ∧
      (a == a) = true ∧ ¬ a.HasFunction := by
  intro a b f
  have ha : Proper .symbolic a := by simp [a, proper_list, proper_symbol, proper_number]
  have hb : Proper .symbolic b := by simp [b, proper_list, proper_number]
  have hentry : BuiltinOp.entry .car ∈ Table.base .emptyList := by simp [Table.base]
  have hcar : Proper .emptyList (.builtin ⟨"car", .car⟩) :=
    .leaf (.function (Table.base_subset hentry))
  have hf : Proper .emptyList f := by simp [f, proper_list, proper_symbol, hcar]
  obtain ⟨hab, haa, _⟩ := beq_structural ha hb hf
  obtain ⟨_, hff, _, _, _, heq⟩ := beq_structural hf hf hf
  obtain ⟨answer, hcall, hanswer⟩ := heq Host.sample .emptyList
  have hfunction : f.HasFunction := hff.1 rfl
  have hno : answer = false := by
    rw [← Bool.not_eq_true, hanswer]
    intro h
    exact h.1 hfunction
  refine ⟨ha, hb, hf, ?_, hfunction, ?_, rfl, ?_⟩
  · intro h
    cases hab.2 h
  · rw [hcall, hno]
    rfl
  · intro h
    cases haa.2 h

end Expr

end LispDialects
