import LispDialects.Vocabulary
import LispDialects.Proofs.Proper

/-!
# Native expressions

A special form of the host could do anything to an environment. The native expressions are those
without one: every special form in them is a quotation, a label or a conditional, and nothing else
is asked. They are a closed class (`closed_native`), they have the three tables in them, and every
program that is written in texts and integers is read as one of them (`native_read`).
-/

namespace LispDialects

/-! ## The class -/

/-- The expressions in which every special form is a quotation, a label or a conditional. Builtins
and the data of the host are not restricted. -/
inductive Native : Expr → Prop where
  | symbol (name : String) : Native (.symbol name)
  | number (n : Int) : Native (.number n)
  | foreign (d : Datum Expr) : Native (.foreign d)
  | list {items : List Expr} (hitems : ∀ e ∈ items, Native e) : Native (.list items)
  | builtin {f : Builtin Expr} (hyes : ∀ truth, f.op.truth? = some truth → Native truth.yes)
      (hno : ∀ truth, f.op.truth? = some truth → Native truth.no) : Native (.builtin f)
  | quote (shown : String) : Native (.form ⟨shown, .quote⟩)
  | label (shown : String) : Native (.form ⟨shown, .label⟩)
  | cond (shown : String) {truth : Truth Expr} (hno : Native truth.no) :
      Native (.form ⟨shown, .cond truth⟩)

/-- The builtins of a host that give native expressions for native ones, or fail. -/
def Host.NativeBuiltins (host : Host) : Prop :=
  ∀ key args value, (∀ a ∈ args, Native a) → host.builtin key args = .ok value → Native value

/-- A list is native exactly when its items are. -/
theorem native_list {items : List Expr} : Native (.list items) ↔ ∀ e ∈ items, Native e := by
  constructor
  · rintro ⟨⟩
    assumption
  · exact .list

/-- Evaluation does not lead out of the native expressions. -/
theorem closed_native {host : Host} (hhost : host.NativeBuiltins) :
    Closed host Native (fun _ => True) where
  list := native_list
  foreign _ := trivial
  noHostForm := by
    rintro f key ⟨⟩ <;> simp
  cond := by
    rintro shown truth ⟨⟩
    assumption
  builtin := by
    rintro f args hf hargs
    cases hf with
    | builtin hyes hno =>
      refine BuiltinOp.meets_call host (fun _ => trivial) native_list (fun _ _ => .number) ?_ ?_
        hargs
      · intro truth htruth
        exact ⟨hyes truth htruth, hno truth htruth⟩
      · -- what a builtin of the host gives is native because the host says so
        intro key _
        cases hcall : host.builtin key args with
        | ok value => exact hhost key args value hargs hcall
        | error error => exact trivial
  error _ := trivial
  nesting := trivial

/-! ## Native tables -/

/-- The functions of the three tables are native, if their truth coding is. -/
theorem native_standard {truth : Truth Expr} (hyes : Native truth.yes) (hno : Native truth.no)
    {key : Datum Expr} {f : Expr} (hf : (key, f) ∈ Table.standard truth) : Native f := by
  rcases mem_standard hf with rfl | rfl | rfl | ⟨b, rfl, _, hcoding⟩
  · exact .quote _
  · exact .label _
  · exact .cond _ hno
  · refine .builtin ?_ ?_
    · intro other hother
      rw [hcoding other hother]
      exact hyes
    · intro other hother
      rw [hcoding other hother]
      exact hno

/-- The base table, with which every dialect begins, has no truth coding and so is native. -/
theorem native_base {truth : Truth Expr} {entry : Datum Expr × Expr}
    (hentry : entry ∈ Table.base truth) : Native entry.2 := by
  -- the base table is the same for every truth coding
  have hmem : entry ∈ Table.standard .symbolic := Table.base_subset hentry
  exact native_standard (.symbol _) (.symbol _) hmem

/-! ## Native programs -/

/-- Data that is made of texts and integers by lists and tuples, as programs mostly are. -/
inductive Datum.Literal : Datum Expr → Prop where
  | text (s : String) : Literal (.text s)
  | integer (n : Int) : Literal (.integer n)
  | list {items : List (Datum Expr)} (hitems : ∀ d ∈ items, Literal d) : Literal (.list items)
  | tuple {items : List (Datum Expr)} (hitems : ∀ d ∈ items, Literal d) : Literal (.tuple items)

theorem literal_list {items : List (Datum Expr)} :
    Datum.Literal (.list items) ↔ ∀ d ∈ items, d.Literal := by
  constructor
  · rintro ⟨⟩
    assumption
  · exact .list

/-- Where every item of a sequence is read as an expression of a class, so is the sequence. -/
theorem Vocabulary.readItems_mem {P : Expr → Prop} {vocabulary : Vocabulary}
    {items : List (Datum Expr)} {es : List Expr}
    (hitems : ∀ d ∈ items, ∀ e, vocabulary.read d = .ok e → P e)
    (hread : vocabulary.readItems items = .ok es) : ∀ e ∈ es, P e := by
  induction items generalizing es with
  | nil =>
    simp only [readItems, Except.ok.injEq] at hread
    simp [← hread]
  | cons d rest ih =>
    simp only [readItems] at hread
    split at hread
    · simp at hread
    · rename_i e he
      cases hrest : vocabulary.readItems rest with
      | error error => simp [hrest, Except.map] at hread
      | ok later =>
        simp only [hrest, Except.map, Except.ok.injEq] at hread
        rw [← hread]
        have hfirst : P e := hitems d List.mem_cons_self e he
        have hlater : ∀ e ∈ later, P e :=
          ih (fun d hd => hitems d (List.mem_cons_of_mem _ hd)) hrest
        exact List.forall_mem_cons.2 ⟨hfirst, hlater⟩

/-- A list or a tuple of such items is read as a list of expressions of the class. -/
theorem Vocabulary.read_sequence_mem {P : Expr → Prop} {vocabulary : Vocabulary}
    {items : List (Datum Expr)} {e : Expr}
    (hitems : ∀ d ∈ items, ∀ e, vocabulary.read d = .ok e → P e)
    (hread : (vocabulary.readItems items).map .list = .ok e) :
    ∃ es, e = .list es ∧ ∀ e ∈ es, P e := by
  cases hes : vocabulary.readItems items with
  | error error => simp [hes, Except.map] at hread
  | ok es =>
    simp only [hes, Except.map, Except.ok.injEq] at hread
    exact ⟨es, hread.symm, readItems_mem hitems hes⟩

/-- What is written in texts and integers is read as a native expression. -/
theorem native_read {vocabulary : Vocabulary} {d : Datum Expr} (hd : d.Literal) {e : Expr}
    (hread : vocabulary.read d = .ok e) : Native e := by
  induction hd generalizing e with
  | text s =>
    simp only [Vocabulary.read, Vocabulary.atom, Datum.toAtom] at hread
    split at hread
    · cases hread
      exact .symbol s
    · simp at hread
  | integer n =>
    simp only [Vocabulary.read, Vocabulary.atom, Datum.toAtom] at hread
    split at hread
    · cases hread
      exact .number n
    · simp at hread
  | list hitems ih | tuple hitems ih =>
    obtain ⟨es, rfl, hes⟩ := Vocabulary.read_sequence_mem (fun d hd e he => ih d hd he) hread
    exact .list hes

end LispDialects
