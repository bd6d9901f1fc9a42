/-!
# Entries

A mapping that keeps its order is a list of entries, each a key and a value. Writing to a key that
is there replaces the value and leaves the entry in its place; any other key goes to the end. So no
key gets a second entry (`DistinctKeys.insertEntry`), whatever it means that two keys are one.
-/

namespace LispDialects

variable {κ β : Type}

/-- The entries with the value of a key replaced, or with a new entry at the end, where `same`
decides whether two keys are one. -/
def insertEntry (same : κ → κ → Bool) (key : κ) (value : β) : List (κ × β) → List (κ × β)
  | [] => [(key, value)]
  | (k, v) :: rest =>
    if same k key then (k, value) :: rest else (k, v) :: insertEntry same key value rest

/-! ## Keys -/

/-- No two keys of the entries are one. -/
def DistinctKeys (same : κ → κ → Bool) (entries : List (κ × β)) : Prop :=
  entries.Pairwise fun entry later => same entry.1 later.1 = false

/-- Writing a key makes no other key. -/
theorem key_of_mem_insertEntry {same : κ → κ → Bool} {key : κ} {value : β}
    {entries : List (κ × β)} {entry : κ × β} (h : entry ∈ insertEntry same key value entries) :
    entry.1 = key ∨ ∃ old ∈ entries, old.1 = entry.1 := by
  induction entries with
  | nil =>
    have hentry : entry = (key, value) := List.mem_singleton.1 h
    exact .inl (congrArg Prod.fst hentry)
  | cons first rest ih =>
    obtain ⟨k, v⟩ := first
    unfold insertEntry at h
    split at h
    · -- the key is there, and only its value is another one
      rcases List.mem_cons.1 h with rfl | hrest
      · exact .inr ⟨(k, v), List.mem_cons_self, rfl⟩
      · exact .inr ⟨entry, List.mem_cons_of_mem _ hrest, rfl⟩
    · rcases List.mem_cons.1 h with rfl | hrest
      · exact .inr ⟨(k, v), List.mem_cons_self, rfl⟩
      · rcases ih hrest with hkey | ⟨old, hold, heq⟩
        · exact .inl hkey
        · exact .inr ⟨old, List.mem_cons_of_mem _ hold, heq⟩

/-- A written key is the one that is there already, or it is none of those that are. -/
theorem DistinctKeys.insertEntry {same : κ → κ → Bool} {entries : List (κ × β)}
    (h : DistinctKeys same entries) (key : κ) (value : β) :
    DistinctKeys same (insertEntry same key value entries) := by
  induction entries with
  | nil => exact List.pairwise_singleton _ _
  | cons first rest ih =>
    obtain ⟨k, v⟩ := first
    obtain ⟨hfirst, hrest⟩ := List.pairwise_cons.1 h
    unfold LispDialects.insertEntry
    split
    · exact List.pairwise_cons.2 ⟨hfirst, hrest⟩
    · rename_i hdiffers
      have hahead : ∀ entry ∈ LispDialects.insertEntry same key value rest,
          same k entry.1 = false := by
        intro entry hentry
        rcases key_of_mem_insertEntry hentry with heq | ⟨old, hold, heq⟩
        · rw [heq]
          simpa using hdiffers
        · rw [← heq]
          exact hfirst old hold
      exact List.pairwise_cons.2 ⟨hahead, ih hrest⟩

/-- Removing entries makes no two keys one. -/
theorem DistinctKeys.filter {same : κ → κ → Bool} {entries : List (κ × β)}
    (h : DistinctKeys same entries) (p : κ × β → Bool) : DistinctKeys same (entries.filter p) :=
  List.Pairwise.filter p h

/-! ## Lookup -/

section Lookup

variable [BEq κ] [LawfulBEq κ]

/-- The first entry decides the value of its key and of no other. -/
theorem lookup_entry (k key : κ) (v : β) (rest : List (κ × β)) :
    ((k, v) :: rest).lookup key = if k == key then some v else rest.lookup key := by
  by_cases h : k = key
  · subst h; simp
  · rw [List.lookup_cons, beq_false_of_ne (Ne.symm h)]; simp [h]

/-- A written key is looked up as its new value, and every other key as before. -/
theorem lookup_insertEntry (key other : κ) (value : β) (entries : List (κ × β)) :
    (insertEntry (· == ·) key value entries).lookup other =
      if key == other then some value else entries.lookup other := by
  induction entries with
  | nil => exact lookup_entry key other value []
  | cons entry rest ih =>
    obtain ⟨k, v⟩ := entry
    by_cases hk : k = key
    · subst hk
      by_cases h : k = other <;> simp [insertEntry, lookup_entry, h]
    · by_cases h : k = other
      · subst h; simp [insertEntry, hk, Ne.symm hk]
      · simp [insertEntry, lookup_entry, hk, h, ih]

/-- A key that is not there yet goes to the end. -/
theorem insertEntry_eq_append {key : κ} {entries : List (κ × β)}
    (h : entries.lookup key = none) (value : β) :
    insertEntry (· == ·) key value entries = entries ++ [(key, value)] := by
  induction entries with
  | nil => rfl
  | cons entry rest ih =>
    obtain ⟨k, v⟩ := entry
    rw [lookup_entry] at h
    by_cases hk : k = key
    · simp [hk] at h
    · have hrest : rest.lookup key = none := by simpa [hk] using h
      simp [insertEntry, hk, ih hrest]

/-- A key that is there keeps its place. -/
theorem keys_insertEntry {key : κ} {entries : List (κ × β)}
    (h : (entries.lookup key).isSome = true) (value : β) :
    (insertEntry (· == ·) key value entries).map (·.1) = entries.map (·.1) := by
  induction entries with
  | nil => simp at h
  | cons entry rest ih =>
    obtain ⟨k, v⟩ := entry
    rw [lookup_entry] at h
    by_cases hk : k = key
    · simp [insertEntry, hk]
    · have hrest : (rest.lookup key).isSome = true := by simpa [hk] using h
      simp [insertEntry, hk, ih hrest]

/-- A removed key is looked up as nothing, and every other key as before. -/
theorem lookup_filter_ne (key other : κ) (entries : List (κ × β)) :
    (entries.filter fun (k, _) => k != key).lookup other =
      if key == other then none else entries.lookup other := by
  induction entries with
  | nil => simp
  | cons entry rest ih =>
    obtain ⟨k, v⟩ := entry
    by_cases hk : k = key
    · subst hk
      rw [List.filter_cons_of_neg (by simp), ih, lookup_entry]
      by_cases h : k = other <;> simp [h]
    · rw [List.filter_cons_of_pos (by simp [hk]), lookup_entry, lookup_entry, ih]
      by_cases h : k = other
      · subst h; simp [Ne.symm hk]
      · simp [h]

end Lookup

end LispDialects
