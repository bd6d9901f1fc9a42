import LispDialects.Entries

/-!
# Bindings

Bindings give values to names and keep the order in which the names were first bound. Binding a
name again replaces its value and leaves its place. No name is bound twice: bindings carry a proof
of it.
-/

namespace LispDialects

/-- Values of names, in the order in which the names were first bound. -/
@[ext] structure Bindings (β : Type) where
  entries : List (String × β)
  distinct : DistinctKeys (· == ·) entries

namespace Bindings

variable {β : Type}

def empty : Bindings β := ⟨[], .nil⟩

instance : Inhabited (Bindings β) := ⟨empty⟩

/-! ## Operations -/

/-- The value of a name. -/
def get? (bindings : Bindings β) (name : String) : Option β :=
  bindings.entries.lookup name

def contains (bindings : Bindings β) (name : String) : Bool :=
  (bindings.get? name).isSome

def insert (bindings : Bindings β) (name : String) (value : β) : Bindings β where
  entries := insertEntry (· == ·) name value bindings.entries
  distinct := bindings.distinct.insertEntry name value

def erase (bindings : Bindings β) (name : String) : Bindings β where
  entries := bindings.entries.filter fun (k, _) => k != name
  distinct := bindings.distinct.filter _

/-- The names in binding order. -/
def names (bindings : Bindings β) : List String :=
  bindings.entries.map (·.1)

/-- The names by code point. -/
def sortedNames (bindings : Bindings β) : List String :=
  bindings.names.mergeSort (· ≤ ·)

def size (bindings : Bindings β) : Nat :=
  bindings.entries.length

/-! ## Values after an operation -/

@[simp] theorem get?_empty (name : String) : (empty : Bindings β).get? name = none := rfl

/-- A name has the value it was bound to last. -/
@[simp] theorem get?_insert (bindings : Bindings β) (name other : String) (value : β) :
    (bindings.insert name value).get? other =
      if name = other then some value else bindings.get? other := by
  simp [get?, insert, lookup_insertEntry]

/-- Unbinding a name takes no other one away. -/
@[simp] theorem get?_erase (bindings : Bindings β) (name other : String) :
    (bindings.erase name).get? other = if name = other then none else bindings.get? other := by
  simp [get?, erase, lookup_filter_ne]

@[simp] theorem contains_insert (bindings : Bindings β) (name other : String) (value : β) :
    (bindings.insert name value).contains other = (name == other || bindings.contains other) := by
  by_cases h : name = other <;> simp [contains, h]

/-! ## Names -/

/-- No name is listed twice. -/
theorem nodup_names (bindings : Bindings β) : bindings.names.Nodup := by
  have hdistinct : bindings.entries.Pairwise fun entry later => entry.1 ≠ later.1 :=
    bindings.distinct.imp (by simp)
  exact List.pairwise_map.2 hdistinct

/-- The bound names are those that are listed. -/
theorem contains_iff_mem_names (bindings : Bindings β) (name : String) :
    bindings.contains name = true ↔ name ∈ bindings.names := by
  rw [contains, get?, List.lookup_isSome_iff, names, List.mem_map]
  simp only [beq_iff_eq, @eq_comm String name]

/-- A name that is bound for the first time goes to the end. -/
theorem entries_insert {bindings : Bindings β} {name : String}
    (h : bindings.contains name = false) (value : β) :
    (bindings.insert name value).entries = bindings.entries ++ [(name, value)] := by
  have hnone : bindings.entries.lookup name = none := by
    simpa [contains, get?] using h
  exact insertEntry_eq_append hnone value

/-- A name that is bound again keeps its place. -/
theorem names_insert (bindings : Bindings β) (name : String) (value : β) :
    (bindings.insert name value).names =
      if bindings.contains name then bindings.names else bindings.names ++ [name] := by
  split
  · rename_i h
    exact keys_insertEntry h value
  · rename_i h
    rw [names, entries_insert (by simpa using h), List.map_append]
    rfl

end Bindings

end LispDialects
