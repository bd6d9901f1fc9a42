import LispDialects.Environment.Basic
import LispDialects.Vocabulary

/-!
# Dialects

A dialect is a vocabulary, a truth coding and a sequence of tables of named values. Its
environment is made by merging the tables in order, where the first writer of a name wins, so a
table adds names but never replaces what an earlier one has. The base table is the first of every
dialect.

Three dialects are known by name: `minimal` has the base table only, `boolean` adds the
conditional and the predicates, and `numeric` adds arithmetic and numbers.
-/

namespace LispDialects

/-! ## Tables -/

/-- Named values, which may depend on the truth coding of the dialect they are put into. -/
abbrev Table := Truth Expr → List (Datum Expr × Expr)

/-- A builtin under the name that is its key. -/
def BuiltinOp.entry (op : BuiltinOp Expr) : Datum Expr × Expr :=
  (.text op.key, .builtin ⟨op.key, op⟩)

/-- A special form under the name that is its key. -/
def FormRule.entry (rule : FormRule Expr) : Datum Expr × Expr :=
  (.text rule.key, .form ⟨rule.key, rule⟩)

namespace Table

/-- Quoting, labelling and lists. -/
def base : Table := fun _ =>
  [FormRule.entry .quote, FormRule.entry .label, BuiltinOp.entry .car, BuiltinOp.entry .cdr,
    BuiltinOp.entry .cons]

/-- The conditional and the predicates. -/
def boolean : Table := fun truth =>
  [FormRule.entry (.cond truth), BuiltinOp.entry (.eq truth), BuiltinOp.entry (.atom truth)]

/-- Comparison and arithmetic. -/
def numeric : Table := fun truth =>
  [BuiltinOp.entry (.less truth), BuiltinOp.entry .add, BuiltinOp.entry .sub,
    BuiltinOp.entry .mul, BuiltinOp.entry .div]

end Table

/-! ## Truth codings -/

/-- The truth coding with the symbols `T` and `nil`. -/
def Truth.symbolic : Truth Expr := ⟨.symbol "T", .symbol "nil"⟩

/-- The truth coding with the symbol `T` and the empty list. -/
def Truth.emptyList : Truth Expr := ⟨.symbol "T", .list []⟩

/-! ## Dialects -/

/-- A configuration of the language. -/
structure Dialect where
  name : String
  vocabulary : Vocabulary
  truth : Truth Expr
  tables : List Table

namespace Dialect

/-- Merge tables in order; the first writer of a name wins. -/
def mergeTables (truth : Truth Expr) : List Table → EStateM Error Environment Unit
  | [] => pure ()
  | table :: rest => do
    Environment.merge .keep (table truth)
    mergeTables truth rest

/-- A new environment of the dialect. -/
def newEnvironment (dialect : Dialect) : Except Error Environment :=
  match mergeTables dialect.truth dialect.tables .empty with
  | .ok _ env => .ok env
  | .error error _ => .error error

end Dialect

/-! ## Drafts -/

/-- A dialect in the making: the base table and the extensions made so far. -/
structure Draft where
  name : String := "custom"
  vocabulary : Vocabulary := .text
  truth : Truth Expr := .symbolic
  extensions : List Table := []

namespace Draft

def extend (draft : Draft) (table : Table) : Draft :=
  { draft with extensions := draft.extensions ++ [table] }

/-- The dialect that the draft describes now. Later extensions leave it as it is. -/
def build (draft : Draft) : Dialect where
  name := draft.name
  vocabulary := draft.vocabulary
  truth := draft.truth
  tables := Table.base :: draft.extensions

end Draft

/-! ## Registered dialects -/

namespace Dialect

/-- Quoting, labelling and lists over symbols. -/
def minimal : Dialect :=
  Draft.build { name := "minimal" }

/-- The minimal dialect with the conditional and the predicates. -/
def boolean : Dialect :=
  (Draft.extend { name := "boolean" } Table.boolean).build

/-- The boolean dialect with numbers and arithmetic. -/
def numeric : Dialect :=
  ((Draft.extend { name := "numeric", vocabulary := .numeric } Table.boolean).extend
    Table.numeric).build

def registered : List Dialect := [minimal, boolean, numeric]

/-- The names of the registered dialects, by code point. -/
def registeredNames : List String :=
  (registered.map name).mergeSort (· ≤ ·)

def find (key : Datum Expr) : Except Error Dialect := do
  let key ← key.toKey
  match registered.find? fun dialect => key.text? == some dialect.name with
  | some dialect => .ok dialect
  | none => .error (.unknownDialect key registeredNames)

end Dialect

end LispDialects
