import LispDialects.Proofs.Closed

/-!
# What builtins give and how they fail

A builtin takes lists apart and puts them together, gives a canonical truth value or computes with
numbers. So it does not lead out of a class of expressions that holds a list exactly when it holds
the items, that holds the truth coding of the builtin, and that holds either no number or every
one. A builtin of the language fails for the number or the shape of its arguments, and in no other
way. Both facts are `BuiltinOp.meets_call`.

What a builtin asks of its arguments is asked by four helpers, and there is one lemma about each of
them: it says what the arguments are if the helper accepts them. All that is said of single builtins
rests on these four.
-/

namespace LispDialects.BuiltinOp

/-- The truth coding that an operation was made for. -/
def truth? {α : Type} : BuiltinOp α → Option (Truth α)
  | .eq truth | .atom truth | .less truth => some truth
  | _ => none

/-! ## Arguments -/

section Arguments

variable (function : String)

/-- A function of one argument gets just the one it was called with. -/
theorem meets_oneArgument (args : List Expr) :
    Meets (fun a => args = [a]) (fun error => error.kind ∈ ErrorKind.ofCalls)
      (oneArgument function args) := by
  by_cases hlength : args.length = 1
  · obtain ⟨a, rfl⟩ := List.length_eq_one_iff.1 hlength
    rw [oneArgument_singleton]
    exact rfl
  · rw [oneArgument_of_length_ne hlength]
    show (Error.arity function 1 args.length).kind ∈ ErrorKind.ofCalls
    simp

/-- A function of two arguments gets just the two it was called with, in their order. -/
theorem meets_twoArguments (args : List Expr) :
    Meets (fun pair : Expr × Expr => args = [pair.1, pair.2])
      (fun error => error.kind ∈ ErrorKind.ofCalls) (twoArguments function args) := by
  by_cases hlength : args.length = 2
  · obtain ⟨a, b, rfl⟩ := List.length_eq_two.1 hlength
    rw [twoArguments_pair]
    exact rfl
  · rw [twoArguments_of_length_ne hlength]
    show (Error.arity function 2 args.length).kind ∈ ErrorKind.ofCalls
    simp

/-- A function of two numbers was called with numbers. -/
theorem meets_twoNumbers (args : List Expr) :
    Meets (fun pair : Int × Int => args = [.number pair.1, .number pair.2])
      (fun error => error.kind ∈ ErrorKind.ofCalls) (twoNumbers function args) := by
  unfold twoNumbers
  refine (meets_twoArguments function args).bind ?_
  intro pair hargs
  split
  · exact hargs
  · rename_i a b _
    show (Error.notNumbers function a b).kind ∈ ErrorKind.ofCalls
    simp

/-- What has items is the list of them. -/
theorem meets_expectList (e : Expr) :
    Meets (fun items => e = .list items) (fun error => error.kind ∈ ErrorKind.ofCalls)
      (expectList function e) := by
  cases e with
  | list items => exact rfl
  | _ =>
    show (Error.notAList function _).kind ∈ ErrorKind.ofCalls
    simp

end Arguments

/-! ## Calls -/

variable {P : Expr → Prop} {K : Error → Prop}

/-- Both values of a truth coding are in the class, so its answers are. -/
theorem coerce_mem {truth : Truth Expr} (htruth : P truth.yes ∧ P truth.no) (b : Bool) :
    P (truth.coerce b) := by
  cases b with
  | true => exact htruth.1
  | false => exact htruth.2

section Calls

variable (hK : ∀ {error : Error}, error.kind ∈ ErrorKind.ofCalls → K error)

include hK

section Lists

variable (hlist : ∀ {items}, P (.list items) ↔ ∀ e ∈ items, P e) {args : List Expr}
  (hargs : ∀ a ∈ args, P a)

include hlist hargs

/-- The first item of a list of the class is in the class. -/
theorem meets_callCar : Meets P K (callCar args) := by
  unfold callCar
  refine ((meets_oneArgument "car" args).mono_error hK).bind ?_
  rintro a rfl
  refine ((meets_expectList "car" a).mono_error hK).bind ?_
  rintro items rfl
  have hitems : ∀ item ∈ items, P item := hlist.1 (hargs (.list items) (by simp))
  split
  · exact hK (by simp)
  · exact hitems _ (by simp)

/-- The rest of a list has no other items than the list. -/
theorem meets_callCdr : Meets P K (callCdr args) := by
  unfold callCdr
  refine ((meets_oneArgument "cdr" args).mono_error hK).bind ?_
  rintro a rfl
  refine ((meets_expectList "cdr" a).mono_error hK).bind ?_
  rintro items rfl
  have hitems : ∀ item ∈ items, P item := hlist.1 (hargs (.list items) (by simp))
  exact hlist.2 fun item hitem => hitems item (List.mem_of_mem_tail hitem)

/-- The new list has the items of the old one and the first argument. -/
theorem meets_callCons : Meets P K (callCons args) := by
  unfold callCons
  refine ((meets_twoArguments "cons" args).mono_error hK).bind ?_
  rintro ⟨head, tail⟩ rfl
  refine ((meets_expectList "cons" tail).mono_error hK).bind ?_
  rintro items rfl
  have hhead : P head := hargs head (by simp)
  have hitems : ∀ item ∈ items, P item := hlist.1 (hargs (.list items) (by simp))
  exact hlist.2 (List.forall_mem_cons.2 ⟨hhead, hitems⟩)

end Lists

section Predicates

variable {truth : Truth Expr} (htruth : P truth.yes ∧ P truth.no) (args : List Expr)

include htruth

/-! A predicate says nothing of its arguments but one of the two values of its coding. -/

theorem meets_callEq : Meets P K (callEq truth args) := by
  unfold callEq
  refine ((meets_twoArguments "eq" args).mono_error hK).bind ?_
  intro pair _
  exact coerce_mem htruth _

theorem meets_callAtom : Meets P K (callAtom truth args) := by
  unfold callAtom
  refine ((meets_oneArgument "atom" args).mono_error hK).bind ?_
  intro a _
  exact coerce_mem htruth _

theorem meets_callLess : Meets P K (callLess truth args) := by
  unfold callLess
  refine ((meets_twoNumbers "<" args).mono_error hK).bind ?_
  intro pair _
  exact coerce_mem htruth _

end Predicates

/-- Where there are two numbers to compute with, the class has every number. -/
theorem meets_callArithmetic
    (hnumber : ∀ {a b}, P (.number a) → P (.number b) → ∀ c, P (.number c)) (function : String)
    (operation : Int → Int → Except Error Int)
    (hoperation : ∀ a b, Meets (fun _ => True) K (operation a b))
    {args : List Expr} (hargs : ∀ a ∈ args, P a) :
    Meets P K (callArithmetic function operation args) := by
  unfold callArithmetic
  refine ((meets_twoNumbers function args).mono_error hK).bind ?_
  rintro ⟨a, b⟩ rfl
  have ha : P (.number a) := hargs _ (by simp)
  have hb : P (.number b) := hargs _ (by simp)
  refine (hoperation a b).bind ?_
  intro c _
  exact hnumber ha hb c

/-- Division by zero is a mismatch of arguments, as any other error of a builtin. -/
theorem meets_truncatedQuotient (a b : Int) :
    Meets (fun _ => True) K (truncatedQuotient a b) := by
  unfold truncatedQuotient
  split
  · exact hK (by simp)
  · exact trivial

end Calls

/-- A builtin gives an expression of the class or fails for its arguments; a builtin of the host
does what the host says. -/
theorem meets_call (host : Host) (hK : ∀ {error}, error.kind ∈ ErrorKind.ofCalls → K error)
    (hlist : ∀ {items}, P (.list items) ↔ ∀ e ∈ items, P e)
    (hnumber : ∀ {a b}, P (.number a) → P (.number b) → ∀ c, P (.number c))
    {op : BuiltinOp Expr} (htruth : ∀ truth, op.truth? = some truth → P truth.yes ∧ P truth.no)
    {args : List Expr} (hhost : ∀ key, op = .host key → Meets P K (host.builtin key args))
    (hargs : ∀ a ∈ args, P a) : Meets P K (op.call host args) := by
  cases op with
  | car => exact meets_callCar hK hlist hargs
  | cdr => exact meets_callCdr hK hlist hargs
  | cons => exact meets_callCons hK hlist hargs
  | eq truth => exact meets_callEq hK (htruth truth rfl) args
  | atom truth => exact meets_callAtom hK (htruth truth rfl) args
  | less truth => exact meets_callLess hK (htruth truth rfl) args
  -- sums, differences and products never fail
  | add =>
    exact meets_callArithmetic hK hnumber "+" (fun a b => .ok (a + b)) (fun _ _ => trivial) hargs
  | sub =>
    exact meets_callArithmetic hK hnumber "-" (fun a b => .ok (a - b)) (fun _ _ => trivial) hargs
  | mul =>
    exact meets_callArithmetic hK hnumber "*" (fun a b => .ok (a * b)) (fun _ _ => trivial) hargs
  | div =>
    exact meets_callArithmetic hK hnumber "/" truncatedQuotient (meets_truncatedQuotient hK) hargs
  | host key => exact hhost key rfl

end LispDialects.BuiltinOp
