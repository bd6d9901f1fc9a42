import LispDialects.Environment.Bindings
import LispDialects.Expr.Key

/-!
# Environments

An environment gives values to names. Beside these it has a table of special forms, which only
merging writes: a special form that came in by a merge is found at the head of a call whatever its
name is bound to later on.

Merging writes a sequence of named values into an environment, one after the other, and keeps the
table of special forms in step with what it writes. Either the first writer wins and names that
are bound already are passed over, or the values are overwritten. A name that is no text ends the
merge; what was written before it stays.

A name may be bound to an absent value. Such a name counts as bound in every listing, but it is
looked up and called like a name that is not bound.
-/

namespace LispDialects

/-- Values of names, and the special forms that are found at the head of a call. -/
structure Environment where
  values : Bindings Expr := .empty
  forms : Bindings (SpecialForm Expr) := .empty

namespace Environment

instance : Inhabited Environment := ⟨⟨.empty, .empty⟩⟩

/-- The environment in which nothing is bound. -/
def empty : Environment := {}

/-! ## Lookup -/

/-- The value of a name, if it is bound and not absent. -/
def lookup (env : Environment) (name : String) : Option Expr :=
  (env.values.get? name).filter (!·.isAbsent)

/-- The special form that is found under the name at the head of a call. -/
def form? (env : Environment) (name : String) : Option (SpecialForm Expr) :=
  env.forms.get? name

/-- Whether the name is bound, be it to an absent value. -/
def contains (env : Environment) (name : String) : Bool :=
  env.values.contains name

/-- Whether host data names something bound; what can be no key cannot be asked for. -/
def containsKey (env : Environment) (d : Datum Expr) : Except Error Bool :=
  d.toKey.map fun key => key.text?.any env.contains

def size (env : Environment) : Nat :=
  env.values.size

/-! ## Binding -/

/-- Bind a name and leave the table of special forms as it is. -/
def define (env : Environment) (name : String) (value : Expr) : Environment :=
  { env with values := env.values.insert name value }

/-- Bind a name and put the table of special forms in step with it: a special form is entered
under the name, any other value removes what was there. -/
def install (env : Environment) (name : String) (value : Expr) : Environment where
  values := env.values.insert name value
  forms :=
    match value with
    | .form f => env.forms.insert name f
    | _ => env.forms.erase name

/-- Bind what host data names; only a text names anything. -/
def defineKey (env : Environment) (key : Datum Expr) (value : Expr) : Except Error Environment :=
  match key with
  | .text name => .ok (env.define name value)
  | _ => .error (.bindingName key)

/-! ## Merging -/

/-- What a merge does with a name that is bound already. -/
inductive MergePolicy where
  /-- The name is passed over. -/
  | keep
  /-- The name takes the new value. -/
  | overwrite
deriving DecidableEq, Repr

/-- Write one named value. -/
def mergeEntry (policy : MergePolicy) (env : Environment) (name : String) (value : Expr) :
    Environment :=
  if policy = .keep ∧ env.contains name then env else env.install name value

/-- Write named values in order. The state after an error holds what was written before it. -/
def merge (policy : MergePolicy) : List (Datum Expr × Expr) → EStateM Error Environment Unit
  | [] => pure ()
  | (.text name, value) :: rest => do
    modify fun env => env.mergeEntry policy name value
    merge policy rest
  | (key, _) :: _ => throw (.bindingName key)

/-- The named values of an environment. -/
def toEntries (env : Environment) : List (Datum Expr × Expr) :=
  env.values.entries.map fun (name, value) => (.text name, value)

/-- The environment that holds the given named values, the first of each name. -/
def ofEntries (entries : List (Datum Expr × Expr)) : Except Error Environment :=
  match merge .keep entries empty with
  | .ok _ env => .ok env
  | .error error _ => .error error

/-! ## Written form -/

/-- The bindings in order, in canonical text. -/
def text (env : Environment) : String :=
  "\x7b" ++ ", ".intercalate (env.values.entries.map fun (k, v) => k ++ ": " ++ v.text) ++ "\x7d"

/-- The environment as it is shown in code. -/
def code (env : Environment) : String :=
  "<Environment " ++ env.text ++ ">"

end Environment

end LispDialects
