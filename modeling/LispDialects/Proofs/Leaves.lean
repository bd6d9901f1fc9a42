import LispDialects.Dialect.Catalogue
import LispDialects.Proofs.Evaluation
import LispDialects.Proofs.Native
import LispDialects.Proofs.Sessions

/-!
# Evaluation invents no leaves

A program can build any list, but it builds it of leaves that it came by: they occur in the program,
in what is bound, or in the truth coding, or they are special forms that are found under a name.
Arithmetic is the only maker of leaves, and it makes numbers of numbers (`evaluate_supplied`).

So a session stays inside the vocabulary of its dialect. Without numbers to start with there are
none at the end, and the text vocabulary has all symbols.
-/

namespace LispDialects

variable {truth : Truth Expr} {e : Expr} {env : Environment}

/-! ## The leaves at hand -/

/-- What an evaluation is supplied with: the parts of the program, of the values that are bound and
of the two values of the truth coding, and the special forms that are found at the head of a
call. -/
inductive Supplied (truth : Truth Expr) (e : Expr) (env : Environment) : Expr → Prop where
  | program {part : Expr} (hpart : e.HasPart part) : Supplied truth e env part
  | bound {name : String} {v part : Expr} (hv : env.values.get? name = some v)
      (hpart : v.HasPart part) : Supplied truth e env part
  | yes {part : Expr} (hpart : truth.yes.HasPart part) : Supplied truth e env part
  | no {part : Expr} (hpart : truth.no.HasPart part) : Supplied truth e env part
  | form {name : String} {f : SpecialForm Expr} (hf : env.form? name = some f) :
      Supplied truth e env (.form f)

/-- The leaves that evaluation makes do with: those it is supplied with, and all numbers if there is
a number among these. -/
def LeafSupplied (truth : Truth Expr) (e : Expr) (env : Environment) (part : Expr) : Prop :=
  Leaf truth part ∧ (Supplied truth e env part ∨
    ∃ n m, part = .number n ∧ Supplied truth e env (.number m))

/-- What has only supplied parts is made of supplied leaves. -/
theorem over_leafSupplied {v : Expr} (hv : Proper truth v)
    (hparts : ∀ part, v.HasPart part → Supplied truth e env part) :
    Expr.Over (LeafSupplied truth e env) v := by
  refine hv.refine ?_
  intro part hpart hleaf
  exact ⟨hleaf, .inl (hparts part hpart)⟩

/-- The leaves that evaluation makes do with are a sublanguage. -/
theorem Sublanguage.supplied (htruth : truth.Proper) (e : Expr) (env : Environment) :
    Sublanguage truth (LeafSupplied truth e env) where
  sub h := h.1
  number := by
    rintro a ⟨_, hsupplied⟩ b
    refine ⟨.number b, .inr ?_⟩
    -- one number that is supplied makes all of them
    rcases hsupplied with ha | ⟨_, m, _, hm⟩
    · exact ⟨b, a, rfl, ha⟩
    · exact ⟨b, m, rfl, hm⟩
  yes := over_leafSupplied htruth.yes fun _ => .yes
  no := over_leafSupplied htruth.no fun _ => .no

/-- What is bound is made of supplied leaves. -/
theorem holds_leafSupplied (henv : env.Holds (Proper truth)) (e : Expr) :
    env.Holds (Expr.Over (LeafSupplied truth e env)) where
  value hv := over_leafSupplied (henv.value hv) fun _ => .bound hv
  form := by
    intro name f hf
    refine over_leafSupplied (henv.form hf) ?_
    intro part hpart
    -- a function is its only part
    have hself : part = .form f := (Expr.hasPart_iff_eq (by simp)).1 hpart
    rw [hself]
    exact .form hf

/-! ## The vocabulary -/

/-- The vocabulary has every atom that occurs in the expression. -/
def Vocabulary.Admits (vocabulary : Vocabulary) (e : Expr) : Prop :=
  ∀ d part, e.HasPart part → d.toAtom = .ok part → vocabulary.accepts d = true

/-- Data that a vocabulary accepts: its atoms, proper expressions of its atoms, and lists and tuples
of such data. -/
inductive Datum.Accepted (truth : Truth Expr) (vocabulary : Vocabulary) : Datum Expr → Prop where
  | atom {d : Datum Expr} (h : vocabulary.accepts d = true) : Accepted truth vocabulary d
  | expr {e : Expr} (he : Proper truth e) (hadmits : vocabulary.Admits e) :
      Accepted truth vocabulary (.expr e)
  | list {items : List (Datum Expr)} (hitems : ∀ d ∈ items, Accepted truth vocabulary d) :
      Accepted truth vocabulary (.list items)
  | tuple {items : List (Datum Expr)} (hitems : ∀ d ∈ items, Accepted truth vocabulary d) :
      Accepted truth vocabulary (.tuple items)

/-- The leaves of the language that are no atoms or atoms of the vocabulary. -/
def LeafAdmitted (truth : Truth Expr) (vocabulary : Vocabulary) (part : Expr) : Prop :=
  Leaf truth part ∧ ∀ d, d.toAtom = .ok part → vocabulary.accepts d = true

variable {vocabulary : Vocabulary}

theorem over_leafAdmitted (he : Proper truth e) (hadmits : vocabulary.Admits e) :
    Expr.Over (LeafAdmitted truth vocabulary) e := by
  refine he.refine ?_
  intro part hpart hleaf
  exact ⟨hleaf, fun d hd => hadmits d part hpart hd⟩

/-- What is made of a text or an integer is an atom. -/
theorem Datum.isAtom_of_toAtom {d : Datum Expr} {part : Expr} (hd : d.toAtom = .ok part) :
    part.isAtom = true := by
  cases d <;> simp only [toAtom, Except.ok.injEq, reduceCtorEq] at hd
  · subst hd
    rfl
  · subst hd
    rfl

/-- An atom is made of one piece of data only. -/
theorem Datum.toAtom_inj {d other : Datum Expr} {part : Expr} (hd : d.toAtom = .ok part)
    (hother : other.toAtom = .ok part) : other = d := by
  cases d <;> simp only [toAtom, Except.ok.injEq, reduceCtorEq] at hd
  · subst hd
    cases other <;> simp_all [toAtom]
  · subst hd
    cases other <;> simp_all [toAtom]

/-- What is made of admitted leaves has atoms of the vocabulary only. -/
theorem admits_of_over {v : Expr} (hv : Expr.Over (LeafAdmitted truth vocabulary) v) :
    vocabulary.Admits v := by
  intro d part hpart hd
  have hno : ∀ items, ¬ LeafAdmitted truth vocabulary (.list items) :=
    fun items hleaf => leaf_list items hleaf.1
  have hlist : ∀ items, part ≠ .list items := by
    rintro items rfl
    cases Datum.isAtom_of_toAtom hd
  have hleaf : LeafAdmitted truth vocabulary part := hv.leaf_of_part hno hpart hlist
  exact hleaf.2 d hd

/-- A vocabulary that has the atoms of the truth coding makes a sublanguage: it has no number, or
all of them. -/
theorem Sublanguage.admitted (htruth : truth.Proper) (hyes : vocabulary.Admits truth.yes)
    (hno : vocabulary.Admits truth.no) : Sublanguage truth (LeafAdmitted truth vocabulary) where
  sub h := h.1
  number := by
    intro a ha b
    refine ⟨.number b, ?_⟩
    intro d hd
    have haccepts : vocabulary.accepts (.integer a) = true := ha.2 (.integer a) rfl
    have hinteger : d = .integer b := Datum.toAtom_inj rfl hd
    cases vocabulary with
    | text => cases haccepts
    | numeric => rw [hinteger, Vocabulary.accepts]
  yes := over_leafAdmitted htruth.yes hyes
  no := over_leafAdmitted htruth.no hno

/-- Every vocabulary has all symbols. -/
theorem admits_symbol (name : String) : vocabulary.Admits (.symbol name) := by
  intro d part hpart hd
  have hsymbol : d.toAtom = .ok (.symbol name) := by
    rw [← Expr.hasPart_symbol.1 hpart]
    exact hd
  have htext : d = .text name := Datum.toAtom_inj rfl hsymbol
  cases vocabulary <;> rw [htext, Vocabulary.accepts]

/-- A function has no atom in it that a vocabulary could reject. -/
theorem admits_standard {key : Datum Expr} {f : Expr} (hf : (key, f) ∈ Table.standard truth) :
    vocabulary.Admits f := by
  intro d part hpart hd
  exact absurd hpart (not_hasPart_standard hf (Datum.isAtom_of_toAtom hd))

/-- Data that the vocabulary accepts is read as an expression that is made of its atoms. -/
theorem over_of_read {d : Datum Expr} (hd : d.Accepted truth vocabulary)
    (hread : vocabulary.read d = .ok e) : Expr.Over (LeafAdmitted truth vocabulary) e := by
  induction hd generalizing e with
  | @atom d h =>
    have hatom : d.toAtom = .ok e ∧ Leaf truth e := by
      cases d with
      | text s =>
        simp only [Vocabulary.read, Vocabulary.atom, h, if_true] at hread
        cases hread
        exact ⟨rfl, .symbol s⟩
      | integer n =>
        simp only [Vocabulary.read, Vocabulary.atom, h, if_true] at hread
        cases hread
        exact ⟨rfl, .number n⟩
      | _ => cases vocabulary <;> cases h
    refine .leaf ⟨hatom.2, ?_⟩
    intro other hother
    rw [Datum.toAtom_inj hatom.1 hother]
    exact h
  | expr he hadmits =>
    cases hread
    exact over_leafAdmitted he hadmits
  | list hitems ih | tuple hitems ih =>
    obtain ⟨es, rfl, hes⟩ := Vocabulary.read_sequence_mem (fun d hd e he => ih d hd he) hread
    exact .list hes

/-! ## What evaluation gives -/

/-- A session of an interpreter, from tables that have atoms of its vocabulary only and with data
that the vocabulary accepts, gives expressions with atoms of the vocabulary only. -/
theorem Interpreter.admits_of_gives (host : Host) (htruth : truth.Proper) {draft : Draft}
    (hdraft : draft.truth = truth) (hyes : draft.vocabulary.Admits truth.yes)
    (hno : draft.vocabulary.Admits truth.no)
    (htables : ∀ table ∈ draft.extensions, ∀ entry ∈ table truth,
      Proper truth entry.2 ∧ draft.vocabulary.Admits entry.2)
    {interpreter : Interpreter} {event : Event}
    (hstart : start draft.build = .ok (interpreter, event)) {calls : List (Nat × Datum Expr)}
    (hcalls : ∀ call ∈ calls, call.2.Accepted truth draft.vocabulary) {answer : Answer Expr}
    (hanswer : answer ∈ interpreter.answers host calls) {v : Expr} (hv : answer.Gives v) :
    draft.vocabulary.Admits v := by
  subst hdraft
  obtain ⟨hdialect, hnew⟩ := start_eq_ok hstart
  have hclosed := ((Sublanguage.admitted htruth hyes hno).closed host).anyError
  have henv : interpreter.env.Holds (Expr.Over (LeafAdmitted draft.truth draft.vocabulary)) := by
    refine Dialect.holds_newEnvironment ?_ hnew
    intro table htable entry hentry
    rcases List.mem_cons.1 htable with rfl | hextension
    · have hmem : entry ∈ Table.standard draft.truth := Table.base_subset hentry
      exact over_leafAdmitted (.leaf (.function hmem)) (admits_standard hmem)
    · obtain ⟨hproper, hadmits⟩ := htables table hextension entry hentry
      exact over_leafAdmitted hproper hadmits
  have hread : ∀ call ∈ calls, ∀ e, interpreter.read call.2 = .ok e →
      Expr.Over (LeafAdmitted draft.truth draft.vocabulary) e := by
    intro call hcall e he
    rw [Interpreter.read, hdialect] at he
    exact over_of_read (hcalls call hcall) he
  obtain ⟨hresult, hreached⟩ := answers_within hclosed henv calls hread answer hanswer
  obtain ⟨hafter, _⟩ := hreached answer.env (.inl rfl)
  exact admits_of_over (hv.mem hresult hafter)

/-- Evaluation invents no leaves. Every symbol and every function in a value that it gives, as its
result or bound when it has ended, occurs in the program, in what was bound, in the truth coding, or
in the table of special forms. A name that is bound anew is a symbol of the program. Where no number
occurs to start with, none occurs in the end, with or without arithmetic.

So an interpreter stays inside the vocabulary of its dialect over any session. With the text
vocabulary, where the tables and the truth coding have no number either, it never gives one. -/
theorem evaluate_supplied (host : Host) (htruth : truth.Proper) :
    (∀ (limit : Nat) (e : Expr) (env : Environment), Proper truth e → env.Holds (Proper truth) →
        let answer := (evaluate host limit e).answer env
        (∀ v, answer.Gives v → ∀ part, v.HasPart part → (∀ items, part ≠ .list items) →
          (∀ n, part ≠ .number n) → Supplied truth e env part) ∧
        (∀ name, answer.env.values.get? name ≠ env.values.get? name →
          e.HasPart (.symbol name)) ∧
        ((∀ n, ¬ Supplied truth e env (.number n)) → ∀ v, answer.Gives v →
          ∀ n, ¬ v.HasPart (.number n))) ∧
      ∀ (draft : Draft) (interpreter : Interpreter) (event : Event), draft.truth = truth →
        draft.vocabulary.Admits truth.yes → draft.vocabulary.Admits truth.no →
        (∀ table ∈ draft.extensions, ∀ entry ∈ table truth,
          Proper truth entry.2 ∧ draft.vocabulary.Admits entry.2) →
        Interpreter.start draft.build = .ok (interpreter, event) →
        ∀ calls : List (Nat × Datum Expr),
          (∀ call ∈ calls, call.2.Accepted truth draft.vocabulary) →
          ∀ answer ∈ interpreter.answers host calls, ∀ v, answer.Gives v →
            draft.vocabulary.Admits v := by
  constructor
  · intro limit e env he henv answer
    have hlanguage := Sublanguage.supplied htruth e env
    have hover : Expr.Over (LeafSupplied truth e env) e := over_leafSupplied he fun _ => .program
    obtain ⟨hwithin, hresult⟩ :=
      hlanguage.answer_within host limit hover (holds_leafSupplied henv e)
    have hgives : ∀ v, answer.Gives v → ∀ part, v.HasPart part → (∀ items, part ≠ .list items) →
        LeafSupplied truth e env part := by
      intro v hv part hpart hlist
      have hmade : Expr.Over (LeafSupplied truth e env) v := hv.mem hresult hwithin.env
      exact hmade.leaf_of_part hlanguage.not_leaf_list hpart hlist
    refine ⟨?_, ?_, ?_⟩
    · intro v hv part hpart hlist hnumber
      rcases (hgives v hv part hpart hlist).2 with hsupplied | ⟨n, _, hn, _⟩
      · exact hsupplied
      · exact absurd hn (hnumber n)
    · intro name hchanged
      by_contra hsymbol
      -- only names that a part of the program labels are bound
      have hunlabelled : name ∉ e.labels := by
        intro hlabel
        exact hsymbol (Expr.hasPart_of_mem_labels hlabel)
      exact hchanged (hwithin.grows.get?_eq hunlabelled)
    · intro hnone v hv n hpart
      rcases (hgives v hv _ hpart (by simp)).2 with hsupplied | ⟨_, m, _, hm⟩
      · exact hnone n hsupplied
      · exact hnone m hm
  · intro draft interpreter event hdraft hyes hno htables hstart calls hcalls answer hanswer v hv
    exact Interpreter.admits_of_gives host htruth hdraft hyes hno htables hstart hcalls hanswer hv

/-- Calls of a dialect of texts that label a builtin and use it under its new name. -/
def textCalls : List (Nat × Datum Expr) :=
  [(10, .list [.text "label", .text "first", .text "car"]),
    (10, .tuple [.text "first", .list [.text "quote", .tuple [.text "a", .text "1"]]])]

theorem accepted_textCalls : ∀ call ∈ textCalls, call.2.Accepted truth .text := by
  have htext : ∀ s, Datum.Accepted truth .text (.text s) := fun s => .atom rfl
  have hpair : Datum.Accepted truth .text (.tuple [.text "a", .text "1"]) :=
    .tuple (by simp [htext])
  have hquoted : Datum.Accepted truth .text
      (.list [.text "quote", .tuple [.text "a", .text "1"]]) :=
    .list (by simp [htext, hpair])
  intro call hcall
  simp only [textCalls, List.mem_cons, List.not_mem_nil, or_false] at hcall
  rcases hcall with rfl | rfl
  · exact .list (by simp [htext])
  · exact .tuple (by simp [htext, hquoted])

/-- A list that is made and labelled where arithmetic is at hand has no number in it, and a session
over texts gives atoms that are texts. -/
theorem evaluate_supplied_labelled_list :
    (∃ env, Dialect.numeric.newEnvironment = .ok env ∧
      (let e : Expr := .list [.symbol "label", .symbol "x",
        .list [.symbol "cons", .symbol "a", .list [.symbol "quote", .list [.symbol "+"]]]]
      ((evaluate Host.sample 10 e).answer env).result =
          .ok (.list [.symbol "a", .symbol "+"]) ∧
        ∀ v, ((evaluate Host.sample 10 e).answer env).Gives v → ∀ n, ¬ v.HasPart (.number n))) ∧
      ∃ interpreter event, Interpreter.start Dialect.boolean = .ok (interpreter, event) ∧
        (interpreter.answers Host.sample textCalls).map (·.result) =
          [.ok (.builtin ⟨"car", .car⟩), .ok (.symbol "a")] ∧
        ∀ answer ∈ interpreter.answers Host.sample textCalls, ∀ v, answer.Gives v →
          Vocabulary.text.Admits v := by
  constructor
  · refine ⟨_, rfl, rfl, ?_⟩
    have hsupplied := (evaluate_supplied Host.sample Truth.symbolic_proper).1 10 (.list
      [.symbol "label", .symbol "x",
        .list [.symbol "cons", .symbol "a", .list [.symbol "quote", .list [.symbol "+"]]]])
    refine (hsupplied _ ?_ (Dialect.holds_numeric rfl)).2.2 ?_
    · simp [proper_list, proper_symbol]
    · rintro n (hpart | ⟨hv, hpart⟩ | hpart | hpart | _)
      · simp [Expr.hasPart_list, Expr.hasPart_symbol] at hpart
      · exact Dialect.not_hasPart_atom Dialect.mem_standard_numeric rfl hv rfl hpart
      · simp [Truth.symbolic, Expr.hasPart_symbol] at hpart
      · simp [Truth.symbolic, Expr.hasPart_symbol] at hpart
  · refine ⟨_, _, rfl, rfl, ?_⟩
    refine (evaluate_supplied Host.sample Truth.symbolic_proper).2
      (Draft.extend { name := "boolean" } Table.boolean) _ _ rfl ?_ ?_ ?_ rfl textCalls ?_
    · exact admits_symbol "T"
    · exact admits_symbol "nil"
    · intro table htable entry hentry
      rw [List.mem_singleton.1 htable] at hentry
      have hmem : entry ∈ Table.standard .symbolic :=
        List.mem_append_left _ (List.mem_append_right _ hentry)
      exact ⟨.leaf (.function hmem), admits_standard hmem⟩
    · exact accepted_textCalls

end LispDialects
