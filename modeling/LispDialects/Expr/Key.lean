import LispDialects.Entries
import LispDialects.Error
import LispDialects.Expr.Equality

/-!
# Expressions and host data as keys

A key must never change, so lists and mappings of the host are no keys, nor is anything that holds
one. Two keys are one when they are the same, or one function. A mapping given by pairs keeps each
key at its first place and with its last value (`Mapping.ofPairs`).
-/

namespace LispDialects

/-! ## Usable keys -/

mutual

/-- Whether the expression can be a key. -/
def Expr.isKey : Expr → Bool
  | .list items => Expr.areKeys items
  | .foreign d => Datum.isKey d
  | _ => true
termination_by structural e => e

def Expr.areKeys : List Expr → Bool
  | [] => true
  | e :: rest => Expr.isKey e && Expr.areKeys rest
termination_by structural items => items

def Datum.isKey : Datum Expr → Bool
  | .list _ | .mapping _ => false
  | .tuple items => Datum.areKeys items
  | .expr e => Expr.isKey e
  | _ => true
termination_by structural d => d

def Datum.areKeys : List (Datum Expr) → Bool
  | [] => true
  | d :: rest => Datum.isKey d && Datum.areKeys rest
termination_by structural items => items

end

namespace Datum

/-- Whether two keys are one. -/
def sameKey (a b : Datum Expr) : Bool :=
  a.isSameFunction b || a.same b

/-- The key, if it is one. -/
def toKey (d : Datum Expr) : Except Error (Datum Expr) :=
  if d.isKey then .ok d else .error (.unusableKey d)

end Datum

/-! ## Mappings -/

/-- A mapping of the host: values of keys in their order, with no key twice. -/
structure Mapping (β : Type) where
  entries : List (Datum Expr × β)
  distinct : DistinctKeys Datum.sameKey entries

namespace Mapping

variable {β : Type}

def empty : Mapping β := ⟨[], .nil⟩

/-- The mapping with one more value written. -/
def insert (mapping : Mapping β) (key : Datum Expr) (value : β) : Mapping β where
  entries := insertEntry Datum.sameKey key value mapping.entries
  distinct := mapping.distinct.insertEntry key value

/-- The mapping that is given by pairs. -/
def ofPairs (pairs : List (Datum Expr × β)) : Except Error (Mapping β) :=
  pairs.foldlM (fun mapping (key, value) => do
    let key ← key.toKey
    return mapping.insert key value) empty

end Mapping

namespace Datum

/-- The entries of the mapping that is given by pairs. -/
def entriesOfPairs {β : Type} (pairs : List (Datum Expr × β)) :
    Except Error (List (Datum Expr × β)) :=
  (Mapping.ofPairs pairs).map Mapping.entries

/-- The mapping that is given by pairs, as host data. -/
def ofPairs (pairs : List (Datum Expr × Datum Expr)) : Except Error (Datum Expr) :=
  (entriesOfPairs pairs).map .mapping

end Datum

/-! ## Distinct expressions -/

namespace Expr

/-- The first of each group of expressions that are one key, in order. -/
def distinct (items : List Expr) : Except Error (List Expr) :=
  (Datum.entriesOfPairs (items.map fun e => (e.toDatum, ()))).map fun entries =>
    entries.map fun (key, _) => ofDatum key

end Expr

end LispDialects
