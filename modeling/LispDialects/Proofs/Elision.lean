import LispDialects.Expr.Pretty

/-!
# Elided lists

Pretty text with a limit is the canonical text of an expression in which the lists at that depth are
replaced by the symbol that stands for an elided list (`pretty_eq_text_prune`). The printer counts
the depth up from the whole expression, and `Expr.prune` counts the levels that are left down, so
both are compared at any depth (`prettyAt_eq_text_prune`).

Where no list is as deep as the limit, and where there is no limit, nothing is elided and pretty
text is canonical text.
-/

namespace LispDialects

/-! ## Levels -/

namespace PrettyOptions

variable {options : PrettyOptions} {depth : Nat}

/-- How many levels of lists are left to print at a depth, if there is a limit. -/
def levels (options : PrettyOptions) (depth : Nat) : Option Int :=
  options.maxDepth.map fun maxDepth => maxDepth - (depth : Int)

theorem levels_zero : options.levels 0 = options.maxDepth := by
  simp [levels]

theorem levels_succ :
    options.levels (depth + 1) = (options.levels depth).map fun left => left - 1 := by
  simp only [levels, Option.map_map]
  congr 1
  funext maxDepth
  simp only [Function.comp_apply]
  omega

/-- Lists are elided where no level is left. -/
theorem elides_eq : options.elides depth = (options.levels depth).any fun left => left ≤ 0 := by
  cases h : options.maxDepth with
  | none => simp only [elides, levels, h, Option.map_none, Option.any_none]
  | some maxDepth =>
    have hleft : maxDepth ≤ depth ↔ maxDepth - depth ≤ 0 := by omega
    simp only [elides, levels, h, Option.map_some, Option.any_some, hleft]

end PrettyOptions

namespace Expr

/-! ## Pruned expressions -/

mutual

/-- The expression with the given number of levels of lists, and with the symbol for an elided list
in the place of every list below these. -/
def prune (left : Int) : Expr → Expr
  | .list items => if left ≤ 0 then .symbol elidedText else .list (pruneItems (left - 1) items)
  | e => e
termination_by structural e => e

/-- The items of a list, with the given number of levels each. -/
def pruneItems (left : Int) : List Expr → List Expr
  | [] => []
  | e :: rest => prune left e :: pruneItems left rest
termination_by structural items => items

end

mutual

/-- How deeply lists are nested in the expression: not at all in what is no list, and in a list by
one more than in its items. -/
def nesting : Expr → Nat
  | .list items => nestingItems items + 1
  | _ => 0
termination_by structural e => e

/-- How deeply lists are nested in the items of a list, at most. -/
def nestingItems : List Expr → Nat
  | [] => 0
  | e :: rest => max (nesting e) (nestingItems rest)
termination_by structural items => items

end

/-! ## Printing with a limit -/

mutual

/-- At every depth, what is printed is the canonical text of the expression pruned to the levels
that are left. -/
theorem prettyAt_eq_text_prune {options : PrettyOptions} (hcolour : options.colour = false)
    {depth : Nat} {left : Int} (hleft : options.levels depth = some left) :
    ∀ e : Expr, prettyAt options depth e = (e.prune left).text
  | .symbol _ | .number _ | .builtin _ | .form _ | .foreign _ => by
    simp [prettyAt, prune, PrettyOptions.leafText, hcolour]
  | .list items => by
    have hbelow : options.levels (depth + 1) = some (left - 1) := by
      rw [PrettyOptions.levels_succ, hleft]
      rfl
    have hitems := prettyItems_eq_texts_prune hcolour hbelow items
    have helides : options.elides depth = decide (left ≤ 0) := by
      rw [PrettyOptions.elides_eq, hleft]
      rfl
    -- the printer stops at the same level as pruning, so the items are compared one level down
    by_cases hnone : left ≤ 0
    · simp [prettyAt, prune, helides, hnone, text]
    · simp [prettyAt, prune, helides, hnone, text, hitems]

theorem prettyItems_eq_texts_prune {options : PrettyOptions} (hcolour : options.colour = false)
    {depth : Nat} {left : Int} (hleft : options.levels depth = some left) :
    ∀ items : List Expr, prettyItems options depth items = texts (pruneItems left items)
  | [] => rfl
  | e :: rest => by
    have hfirst := prettyAt_eq_text_prune hcolour hleft e
    have hrest := prettyItems_eq_texts_prune hcolour hleft rest
    rw [prettyItems, pruneItems, texts, hfirst, hrest]

end

/-! ## Printing without elision -/

mutual

/-- Where no list of the expression is elided, its canonical text is printed. -/
theorem prettyAt_eq_text {options : PrettyOptions} (hcolour : options.colour = false)
    {depth : Nat} :
    ∀ e : Expr, (∀ k < e.nesting, options.elides (depth + k) = false) →
      prettyAt options depth e = e.text
  | .symbol _, _ | .number _, _ | .builtin _, _ | .form _, _ | .foreign _, _ => by
    simp [prettyAt, PrettyOptions.leafText, hcolour]
  | .list items, helides => by
    have hhere : options.elides depth = false := helides 0 (Nat.succ_pos _)
    -- the items are printed at the next depth, and they are less deep by one
    have hbelow : ∀ k < nestingItems items, options.elides (depth + 1 + k) = false := by
      intro k hk
      rw [Nat.add_assoc, Nat.add_comm 1 k]
      exact helides (k + 1) (Nat.succ_lt_succ hk)
    have hitems := prettyItems_eq_texts hcolour items hbelow
    simp [prettyAt, hhere, text, hitems]

theorem prettyItems_eq_texts {options : PrettyOptions} (hcolour : options.colour = false)
    {depth : Nat} :
    ∀ items : List Expr, (∀ k < nestingItems items, options.elides (depth + k) = false) →
      prettyItems options depth items = texts items
  | [], _ => rfl
  | e :: rest, helides => by
    have hhead : ∀ k < e.nesting, options.elides (depth + k) = false :=
      fun k hk => helides k (Nat.lt_of_lt_of_le hk (Nat.le_max_left _ _))
    have htail : ∀ k < nestingItems rest, options.elides (depth + k) = false :=
      fun k hk => helides k (Nat.lt_of_lt_of_le hk (Nat.le_max_right _ _))
    have hfirst := prettyAt_eq_text hcolour e hhead
    have hrest := prettyItems_eq_texts hcolour rest htail
    rw [prettyItems, texts, hfirst, hrest]

end

/-! ## Whole expressions -/

/-- Pretty text under a limit, of any sign, is the canonical text of the pruned expression. It is
the canonical text of the expression itself if there is no limit, and if the limit is no smaller
than the nesting of the lists. -/
theorem pretty_eq_text_prune (e : Expr) :
    (∀ maxDepth : Int, e.pretty { maxDepth := some maxDepth } = (e.prune maxDepth).text) ∧
      e.pretty {} = e.text ∧
      ∀ maxDepth : Int, e.nesting ≤ maxDepth → e.pretty { maxDepth := some maxDepth } = e.text := by
  refine ⟨?_, ?_, ?_⟩
  · intro maxDepth
    exact prettyAt_eq_text_prune rfl PrettyOptions.levels_zero e
  · exact prettyAt_eq_text rfl e fun k _ => rfl
  · intro maxDepth hle
    -- no list of the expression stands at the limit
    refine prettyAt_eq_text rfl e ?_
    intro k hk
    simp only [PrettyOptions.elides, Option.any_some, decide_eq_false_iff_not]
    omega

/-- A list in a list in a list and an empty list, under a limit of one, under one that leaves
nothing, and under one that is just enough. -/
theorem pretty_eq_text_prune_nested :
    (list [.symbol "a", .list [.number 1, .list [.symbol "b"]], .list []]).pretty
        { maxDepth := some 1 } = "(a (...) (...))" ∧
      (list []).pretty { maxDepth := some (-3) } = "(...)" ∧
      (list [.symbol "a", .list [.number 1, .list [.symbol "b"]], .list []]).nesting ≤ (3 : Int) ∧
      (list [.symbol "a", .list [.number 1, .list [.symbol "b"]], .list []]).pretty
        { maxDepth := some 3 } = "(a (1 (b)) ())" := by
  have henough :
      (list [.symbol "a", .list [.number 1, .list [.symbol "b"]], .list []]).nesting ≤
        (3 : Int) := by
    decide
  refine ⟨?_, ?_, henough, ?_⟩
  · rw [(pretty_eq_text_prune _).1]
    decide
  · rw [(pretty_eq_text_prune _).1]
    decide
  · rw [(pretty_eq_text_prune _).2.2 3 henough]
    decide

end Expr

end LispDialects
