import LispDialects.Proofs.Merging

/-!
# Merges that fail, and merges that are repeated

A merge fails at the first key that is no text, and what it has written before stays: it leaves
what merging the named values in front of that key leaves (`merge_of_bad_key`). A merge of a
mapping, in which no key occurs twice, is otherwise the sum of its parts.

* It may be cut in two anywhere (`mergeNamed_append`).
* It says nothing of the names that it does not write: those that are not in the mapping, and those
  that it passes over. They keep their values, their special forms and their places
  (`Undisturbed.mergeNamed`).
* The names that it writes have the new values (`settled_mergeNamed`). Values that are there
  already change nothing (`mergeNamed_of_settled`), so a merge that is repeated does nothing.

All of this is put together in `merge_stops_at_bad_key`. It is said of both tables and of the order
of the bindings, and of any environment, whether its tables are in step or not.
-/

namespace LispDialects

/-! ## Entries -/

section Entries

variable {κ β : Type} [BEq κ] [LawfulBEq κ] {key : κ} {value : β} {entries : List (κ × β)}

/-- Writing the value that is there changes nothing. -/
theorem insertEntry_of_lookup (h : entries.lookup key = some value) :
    insertEntry (· == ·) key value entries = entries := by
  induction entries with
  | nil => simp at h
  | cons entry rest ih =>
    obtain ⟨k, v⟩ := entry
    rw [lookup_entry] at h
    by_cases hk : k = key
    · simp_all [insertEntry]
    · have hrest : rest.lookup key = some value := by simpa [hk] using h
      simp [insertEntry, hk, ih hrest]

/-- Removing a key that is not there changes nothing. -/
theorem filter_ne_of_lookup (h : entries.lookup key = none) :
    (entries.filter fun (k, _) => k != key) = entries := by
  rw [List.filter_eq_self]
  rintro ⟨k, v⟩ hmem
  rw [List.lookup_eq_none_iff] at h
  have hne : key ≠ k := by simpa using h (k, v) hmem
  simpa using hne.symm

/-- Every entry of another key stays in its place, and none is added. -/
theorem getElem?_insertEntry {other : κ} (hne : key ≠ other) (i : Nat) (v : β) :
    (insertEntry (· == ·) key value entries)[i]? = some (other, v) ↔
      entries[i]? = some (other, v) := by
  induction entries generalizing i with
  | nil => cases i <;> simp [insertEntry, hne]
  | cons entry rest ih =>
    obtain ⟨k, w⟩ := entry
    by_cases hk : k = key
    · subst hk
      cases i <;> simp [insertEntry, hne]
    · cases i with
      | zero => simp [insertEntry, hk]
      | succ i => simpa [insertEntry, hk] using ih i

/-- The entries of other keys are the same, in the same order. -/
theorem filter_insertEntry {p : κ → Bool} (hkey : p key = false) :
    ((insertEntry (· == ·) key value entries).filter fun entry => p entry.1) =
      entries.filter fun entry => p entry.1 := by
  induction entries with
  | nil => simp [insertEntry, hkey]
  | cons entry rest ih =>
    obtain ⟨k, v⟩ := entry
    by_cases hk : k = key
    · subst hk
      simp [insertEntry, hkey]
    · simp [insertEntry, hk, List.filter_cons, ih]

/-- Taking away a key leaves the entries of other keys in their order. -/
theorem filter_filter_ne {p : κ → Bool} (hkey : p key = false) :
    ((entries.filter fun (k, _) => k != key).filter fun entry => p entry.1) =
      entries.filter fun entry => p entry.1 := by
  rw [List.filter_filter]
  refine List.filter_congr ?_
  rintro ⟨k, v⟩ _
  by_cases hk : k = key
  · subst hk
    simp [hkey]
  · simp [hk]

end Entries

namespace Environment

variable {policy : MergePolicy} {env : Environment} {name : String}

/-! ## Names that a merge does not disturb -/

/-- From one environment to another a name keeps its value, its special form and its place: it
stands where it stood, with the same value, and nowhere else. -/
structure Undisturbed (name : String) (before after : Environment) : Prop where
  value : after.values.get? name = before.values.get? name
  form : after.form? name = before.form? name
  place : ∀ (i : Nat) (v : Expr), after.values.entries[i]? = some (name, v) ↔
    before.values.entries[i]? = some (name, v)

namespace Undisturbed

variable {before middle after : Environment}

theorem refl (name : String) (env : Environment) : Undisturbed name env env :=
  ⟨rfl, rfl, fun _ _ => Iff.rfl⟩

theorem trans (h₁ : Undisturbed name before middle) (h₂ : Undisturbed name middle after) :
    Undisturbed name before after where
  value := h₂.value.trans h₁.value
  form := h₂.form.trans h₁.form
  place := by
    intro i v
    rw [h₂.place, h₁.place]

/-- A name that is not disturbed is bound afterwards if it was bound before. -/
theorem contains (h : Undisturbed name before after) :
    after.contains name = before.contains name := by
  rw [Environment.contains, Bindings.contains, h.value]
  rfl

/-- Writing a name disturbs no other one. -/
theorem install {key : String} (hne : key ≠ name) (env : Environment) (value : Expr) :
    Undisturbed name env (env.install key value) where
  value := by rw [values_install, Bindings.get?_insert, if_neg hne]
  form := by rw [form?_install, if_neg hne]
  place := getElem?_insertEntry hne

/-- Neither does a merge of one other name, whether it writes the name or passes it over. -/
theorem mergeEntry {key : String} (hne : key ≠ name) (policy : MergePolicy) (env : Environment)
    (value : Expr) : Undisturbed name env (env.mergeEntry policy key value) := by
  unfold Environment.mergeEntry
  split
  · exact refl name env
  · exact install hne env value

end Undisturbed

/-- A merge does not write the name: it passes the name over, or has no value for it. -/
def Unwritten (policy : MergePolicy) (items : List (String × Expr)) (env : Environment)
    (name : String) : Prop :=
  policy = .keep ∧ env.contains name = true ∨ name ∉ items.map (·.1)

/-- The names that a merge does not write are not disturbed. -/
theorem Undisturbed.mergeNamed {items : List (String × Expr)}
    (h : Unwritten policy items env name) :
    Undisturbed name env (env.mergeNamed policy items) := by
  induction items generalizing env with
  | nil => exact .refl name env
  | cons item rest ih =>
    obtain ⟨key, value⟩ := item
    rw [mergeNamed_cons]
    have hstep : Undisturbed name env (env.mergeEntry policy key value) := by
      by_cases hne : key = name
      · subst hne
        -- the name is in the mapping, so it is passed over
        obtain ⟨rfl, hbound⟩ := h.resolve_right (by simp)
        rw [mergeEntry_of_contains hbound]
        exact .refl key env
      · exact .mergeEntry hne policy env value
    refine hstep.trans (ih ?_)
    -- nor do the remaining items write it
    rcases h with ⟨hpolicy, hbound⟩ | habsent
    · exact .inl ⟨hpolicy, hstep.contains.trans hbound⟩
    · refine .inr fun hmem => habsent ?_
      exact List.mem_cons_of_mem _ hmem

/-- The special forms of names that are not merged stay in their order. -/
theorem filter_forms_mergeNamed {p : String → Bool} {items : List (String × Expr)}
    (hitems : ∀ item ∈ items, p item.1 = false) (policy : MergePolicy) (env : Environment) :
    ((env.mergeNamed policy items).forms.entries.filter fun entry => p entry.1) =
      env.forms.entries.filter fun entry => p entry.1 := by
  induction items generalizing env with
  | nil => rfl
  | cons item rest ih =>
    obtain ⟨key, value⟩ := item
    obtain ⟨hkey, hrest⟩ := List.forall_mem_cons.1 hitems
    rw [mergeNamed_cons, ih hrest]
    unfold mergeEntry
    split
    · rfl
    · cases value with
      | form f => exact filter_insertEntry hkey
      | _ => exact filter_filter_ne hkey

/-! ## Names that a merge writes -/

/-- The name has the value, and the table of special forms is in step with it. -/
def Settled (env : Environment) (name : String) (value : Expr) : Prop :=
  env.values.get? name = some value ∧ env.form? name = value.form?

/-- Writing a name settles it. -/
theorem settled_install (env : Environment) (name : String) (value : Expr) :
    (env.install name value).Settled name value := by
  simp [Settled]

/-- What is settled stays so while it is not disturbed. -/
theorem Settled.undisturbed {after : Environment} {value : Expr} (h : env.Settled name value)
    (hafter : Undisturbed name env after) : after.Settled name value := by
  obtain ⟨hvalue, hform⟩ := h
  constructor
  · rw [hafter.value, hvalue]
  · rw [hafter.form, hform]

/-- Writing what is there already changes nothing. -/
theorem Settled.install_eq {value : Expr} (h : env.Settled name value) :
    env.install name value = env := by
  obtain ⟨hvalue, hform⟩ := h
  have hvalues : env.values.insert name value = env.values :=
    Bindings.ext (insertEntry_of_lookup hvalue)
  unfold install
  cases value with
  | form f =>
    have hforms : env.forms.insert name f = env.forms :=
      Bindings.ext (insertEntry_of_lookup hform)
    rw [hvalues]
    dsimp only
    rw [hforms]
  | _ =>
    -- there is no special form to be removed
    have hforms : env.forms.erase name = env.forms :=
      Bindings.ext (filter_ne_of_lookup hform)
    rw [hvalues]
    dsimp only
    rw [hforms]

/-- A merge settles the names that it writes. -/
theorem settled_mergeNamed {items : List (String × Expr)} (hnodup : (items.map (·.1)).Nodup)
    {value : Expr} (hmem : (name, value) ∈ items)
    (hwrites : ¬(policy = .keep ∧ env.contains name = true)) :
    (env.mergeNamed policy items).Settled name value := by
  induction items generalizing env with
  | nil => simp at hmem
  | cons item rest ih =>
    obtain ⟨key, v⟩ := item
    obtain ⟨hkey, hrest⟩ := List.nodup_cons.1 hnodup
    rw [mergeNamed_cons]
    rcases List.mem_cons.1 hmem with heq | hlater
    · -- this item is the one of the name
      cases heq
      have hwritten : env.mergeEntry policy name value = env.install name value := if_neg hwrites
      rw [hwritten]
      -- the rest of the mapping has no value for the name
      exact (settled_install env name value).undisturbed (.mergeNamed (.inr hkey))
    · -- it comes later, and this item is of another name
      have hne : key ≠ name := by
        rintro rfl
        exact hkey (List.mem_map.2 ⟨_, hlater, rfl⟩)
      have hstep : Undisturbed name env (env.mergeEntry policy key v) :=
        .mergeEntry hne policy env v
      refine ih hrest hlater ?_
      rwa [hstep.contains]

/-! ## Repeated merges -/

/-- A merge of values that are passed over, or that are there already, changes nothing. -/
theorem mergeNamed_of_settled {items : List (String × Expr)}
    (h : ∀ item ∈ items, policy = .keep ∧ env.contains item.1 = true ∨
      env.Settled item.1 item.2) : env.mergeNamed policy items = env := by
  induction items with
  | nil => rfl
  | cons item rest ih =>
    obtain ⟨key, value⟩ := item
    obtain ⟨hitem, hrest⟩ := List.forall_mem_cons.1 h
    have hstep : env.mergeEntry policy key value = env := by
      unfold mergeEntry
      split
      · rfl
      · rename_i hwrites
        exact (hitem.resolve_left hwrites).install_eq
    rw [mergeNamed_cons, hstep, ih hrest]

/-- Merging the same mapping once more changes nothing. -/
theorem mergeNamed_mergeNamed {items : List (String × Expr)}
    (hnodup : (items.map (·.1)).Nodup) (policy : MergePolicy) (env : Environment) :
    (env.mergeNamed policy items).mergeNamed policy items = env.mergeNamed policy items := by
  refine mergeNamed_of_settled ?_
  rintro ⟨name, value⟩ hmem
  by_cases hpassed : policy = .keep ∧ env.contains name = true
  · -- it is passed over again
    obtain ⟨hpolicy, hbound⟩ := hpassed
    have hkept : Undisturbed name env (env.mergeNamed policy items) :=
      .mergeNamed (.inl ⟨hpolicy, hbound⟩)
    exact .inl ⟨hpolicy, hkept.contains.trans hbound⟩
  · have hsettled : (env.mergeNamed policy items).Settled name value :=
      settled_mergeNamed hnodup hmem hpassed
    exact .inr hsettled

/-! ## Keys -/

/-- What is named stands in the mapping, under a text. -/
theorem mem_of_mem_named {entries : List (Datum Expr × Expr)} {value : Expr}
    (h : (name, value) ∈ named entries) : (Datum.text name, value) ∈ entries := by
  induction entries with
  | nil => simp [named] at h
  | cons entry rest ih =>
    obtain ⟨key, v⟩ := entry
    cases key with
    | text s =>
      rcases List.mem_cons.1 h with heq | hrest
      · cases heq
        exact List.mem_cons_self
      · exact List.mem_cons_of_mem _ (ih hrest)
    | _ => simp [named] at h

/-- Where all keys are texts, every value is one that is named. -/
theorem mem_named {entries : List (Datum Expr × Expr)}
    (htexts : ∀ entry ∈ entries, entry.1.text?.isSome = true) {value : Expr}
    (h : (Datum.text name, value) ∈ entries) : (name, value) ∈ named entries := by
  induction entries with
  | nil => simp at h
  | cons entry rest ih =>
    obtain ⟨key, v⟩ := entry
    obtain ⟨hkey, hrest⟩ := List.forall_mem_cons.1 htexts
    cases key with
    | text s =>
      rcases List.mem_cons.1 h with heq | hlater
      · cases heq
        exact List.mem_cons_self
      · exact List.mem_cons_of_mem _ (ih hrest hlater)
    | _ => simp [Datum.text?] at hkey

/-- A mapping names nothing twice. -/
theorem nodup_named {entries : List (Datum Expr × Expr)}
    (h : DistinctKeys Datum.sameKey entries) :
    ((named entries).map (·.1)).Nodup := by
  induction entries with
  | nil => exact List.nodup_nil
  | cons entry rest ih =>
    obtain ⟨key, value⟩ := entry
    obtain ⟨hkey, hrest⟩ := List.pairwise_cons.1 h
    cases key with
    | text s =>
      have hnew : s ∉ (named rest).map (·.1) := by
        intro hmem
        obtain ⟨⟨name, v⟩, hlater, rfl⟩ := List.mem_map.1 hmem
        have hsame : (Datum.text name).sameKey (.text name) = false :=
          hkey _ (mem_of_mem_named hlater)
        simp [Datum.sameKey, Datum.same] at hsame
      exact List.nodup_cons.2 ⟨hnew, ih hrest⟩
    | _ => exact List.nodup_nil

/-! ## Merges of mappings -/

/-- A merge fails at the first key that is no text. What it leaves is what merging the part before
that key leaves. -/
theorem merge_of_bad_key {front : List (Datum Expr × Expr)}
    (hfront : ∀ entry ∈ front, entry.1.text?.isSome = true) {key : Datum Expr}
    (hkey : key.text? = none) (policy : MergePolicy) (value : Expr)
    (back : List (Datum Expr × Expr)) (env : Environment) :
    merge policy (front ++ (key, value) :: back) env =
      .error (.bindingName key) (env.mergeNamed policy (named front)) := by
  induction front generalizing env with
  | nil =>
    cases key with
    | text s => cases hkey
    | _ => rfl
  | cons entry rest ih =>
    obtain ⟨k, v⟩ := entry
    obtain ⟨hentry, hrest⟩ := List.forall_mem_cons.1 hfront
    cases k with
    | text s => exact ih hrest (env.mergeEntry policy s v)
    | _ => simp [Datum.text?] at hentry

/-- The first key that is no text, with what stands before and behind it. -/
theorem exists_first_bad_key {entries : List (Datum Expr × Expr)}
    (h : ∃ entry ∈ entries, entry.1.text? = none) :
    ∃ front key value back, entries = front ++ (key, value) :: back ∧
      (∀ entry ∈ front, entry.1.text?.isSome = true) ∧ key.text? = none := by
  obtain ⟨bad, hbad⟩ : ∃ bad, entries.find? (·.1.text?.isNone) = some bad := by
    rw [← Option.isSome_iff_exists, List.find?_isSome]
    simpa using h
  obtain ⟨hkey, front, back, hentries, hfront⟩ := List.find?_eq_some_iff_append.1 hbad
  refine ⟨front, bad.1, bad.2, back, hentries, ?_, by simpa using hkey⟩
  simpa using hfront

/-- Either all keys are texts, or there is a first one that is not. -/
theorem texts_or_first_bad_key (entries : List (Datum Expr × Expr)) :
    (∀ entry ∈ entries, entry.1.text?.isSome = true) ∨
      ∃ front key value back, entries = front ++ (key, value) :: back ∧
        (∀ entry ∈ front, entry.1.text?.isSome = true) ∧ key.text? = none := by
  by_cases h : ∃ entry ∈ entries, entry.1.text? = none
  · exact .inr (exists_first_bad_key h)
  · left
    intro entry hentry
    have htext : entry.1.text? ≠ none := fun hnone => h ⟨entry, hentry, hnone⟩
    exact Option.isSome_iff_ne_none.2 htext

/-- When a merge ends, and what it leaves then. -/
theorem merge_eq_ok_iff {entries : List (Datum Expr × Expr)} {after : Environment} :
    merge policy entries env = .ok () after ↔
      (∀ entry ∈ entries, entry.1.text?.isSome = true) ∧
        after = env.mergeNamed policy (named entries) := by
  constructor
  · intro h
    rcases texts_or_first_bad_key entries with htexts | ⟨front, key, value, back, rfl, hfront, hkey⟩
    · rw [merge_of_named htexts] at h
      cases h
      exact ⟨htexts, rfl⟩
    · -- the merge would have failed
      rw [merge_of_bad_key hfront hkey] at h
      cases h
  · rintro ⟨htexts, rfl⟩
    exact merge_of_named htexts policy env

/-- Behind keys that are texts the names go on. -/
theorem named_append {front : List (Datum Expr × Expr)}
    (hfront : ∀ entry ∈ front, entry.1.text?.isSome = true) (back : List (Datum Expr × Expr)) :
    named (front ++ back) = named front ++ named back := by
  induction front with
  | nil => rfl
  | cons entry rest ih =>
    obtain ⟨key, value⟩ := entry
    obtain ⟨hentry, hrest⟩ := List.forall_mem_cons.1 hfront
    cases key with
    | text s => exact congrArg ((s, value) :: ·) (ih hrest)
    | _ => simp [Datum.text?] at hentry

/-- Merging in two parts is merging at once. -/
theorem mergeNamed_append (policy : MergePolicy) (first second : List (String × Expr))
    (env : Environment) : env.mergeNamed policy (first ++ second) =
      (env.mergeNamed policy first).mergeNamed policy second :=
  List.foldl_append

/-- A merge that ends may be cut in two anywhere. -/
theorem merge_append {first second : List (Datum Expr × Expr)} {after : Environment}
    (h : merge policy (first ++ second) env = .ok () after) :
    ∃ middle, merge policy first env = .ok () middle ∧
      merge policy second middle = .ok () after := by
  obtain ⟨htexts, rfl⟩ := merge_eq_ok_iff.1 h
  obtain ⟨hfirst, hsecond⟩ := List.forall_mem_append.1 htexts
  refine ⟨_, merge_of_named hfirst policy env, ?_⟩
  rw [merge_of_named hsecond, named_append hfirst, mergeNamed_append]

/-- A merge ends exactly when all keys are texts. -/
theorem exists_merge_eq_ok_iff {entries : List (Datum Expr × Expr)} :
    (∃ after, merge policy entries env = .ok () after) ↔
      ∀ entry ∈ entries, entry.1.text?.isSome = true := by
  constructor
  · rintro ⟨after, hafter⟩
    exact (merge_eq_ok_iff.1 hafter).1
  · intro htexts
    exact ⟨_, merge_of_named htexts policy env⟩

/-- Otherwise it fails, and always with an error of one class. -/
theorem exists_merge_eq_error_iff {entries : List (Datum Expr × Expr)} :
    (∃ error after, merge policy entries env = .error error after ∧
        error.kind = .argumentMismatch) ↔ ∃ entry ∈ entries, entry.1.text? = none := by
  constructor
  · rintro ⟨error, after, herror, _⟩
    rcases texts_or_first_bad_key entries with htexts | ⟨front, key, value, back, rfl, _, hkey⟩
    · -- it would have ended
      rw [merge_of_named htexts] at herror
      cases herror
    · exact ⟨(key, value), by simp, hkey⟩
  · intro hbad
    obtain ⟨front, key, value, back, rfl, hfront, hkey⟩ := exists_first_bad_key hbad
    have hfails : merge policy (front ++ (key, value) :: back) env =
        .error (.bindingName key) (env.mergeNamed policy (named front)) :=
      merge_of_bad_key hfront hkey policy value back env
    exact ⟨_, _, hfails, rfl⟩

section Ended

variable {entries : List (Datum Expr × Expr)} {after : Environment}
  (hafter : merge policy entries env = .ok () after)

include hafter

/-- A merge that has ended leaves alone what it had no value for, and what it passed over. -/
theorem undisturbed_of_merge (hunwritten : (∀ value, (.text name, value) ∉ entries) ∨
    policy = .keep ∧ env.contains name = true) : Undisturbed name env after := by
  obtain ⟨_, rfl⟩ := merge_eq_ok_iff.1 hafter
  refine .mergeNamed ?_
  rcases hunwritten with habsent | hpassed
  · refine .inr fun hmem => ?_
    obtain ⟨⟨_, value⟩, hitem, rfl⟩ := List.mem_map.1 hmem
    exact habsent value (mem_of_mem_named hitem)
  · exact .inl hpassed

/-- It leaves the special forms of other names in their order. -/
theorem filter_forms_of_merge :
    (after.forms.entries.filter fun (name, _) => entries.all (·.1.text? != some name)) =
      env.forms.entries.filter fun (name, _) => entries.all (·.1.text? != some name) := by
  obtain ⟨_, rfl⟩ := merge_eq_ok_iff.1 hafter
  refine filter_forms_mergeNamed (p := fun name => entries.all (·.1.text? != some name)) ?_
    policy env
  rintro ⟨name, value⟩ hitem
  have hentry : (Datum.text name, value) ∈ entries := mem_of_mem_named hitem
  rw [List.all_eq_false]
  exact ⟨(.text name, value), hentry, by simp [Datum.text?]⟩

end Ended

/-- What a merge of a mapping into any environment does.

It ends exactly when all keys are texts. Otherwise it fails, always with the same class of error,
and leaves exactly what merging the part in front of the first key that is no text leaves, in both
tables and in their order.

When it ends, the mapping may be cut in two anywhere and its parts merged one after the other. A
name that is not in the mapping, or that is passed over because it was bound before, keeps its
value, its special form and its place. Every other name of the mapping has its value from there,
and the table of special forms has that value if it is a special form, and nothing otherwise.
Merging the same mapping once more changes nothing. -/
theorem merge_stops_at_bad_key (policy : MergePolicy) (bindings : Mapping Expr)
    (env : Environment) :
    ((∃ after, merge policy bindings.entries env = .ok () after) ↔
        ∀ entry ∈ bindings.entries, entry.1.text?.isSome = true) ∧
      ((∃ error after, merge policy bindings.entries env = .error error after ∧
          error.kind = .argumentMismatch) ↔
        ∃ entry ∈ bindings.entries, entry.1.text? = none) ∧
      (∀ front key value back, bindings.entries = front ++ (key, value) :: back →
        (∀ entry ∈ front, entry.1.text?.isSome = true) → key.text? = none →
          ∃ after, merge policy front env = .ok () after ∧
            merge policy bindings.entries env = .error (.bindingName key) after) ∧
      ∀ after, merge policy bindings.entries env = .ok () after →
        (∀ first second, bindings.entries = first ++ second → ∃ middle,
          merge policy first env = .ok () middle ∧ merge policy second middle = .ok () after) ∧
        (∀ name, (∀ value, (.text name, value) ∉ bindings.entries) ∨
            policy = .keep ∧ env.contains name = true → Undisturbed name env after) ∧
        ((after.forms.entries.filter fun (name, _) =>
            bindings.entries.all (·.1.text? != some name)) =
          env.forms.entries.filter fun (name, _) =>
            bindings.entries.all (·.1.text? != some name)) ∧
        (∀ name value, (.text name, value) ∈ bindings.entries →
          ¬(policy = .keep ∧ env.contains name = true) →
            after.values.get? name = some value ∧
              ∀ f, after.form? name = some f ↔ value = .form f) ∧
        merge policy bindings.entries after = .ok () after := by
  refine ⟨exists_merge_eq_ok_iff, exists_merge_eq_error_iff, ?_, ?_⟩
  · intro front key value back hentries hfront hkey
    have hends : merge policy front env = .ok () (env.mergeNamed policy (named front)) :=
      merge_of_named hfront policy env
    have hfails := merge_of_bad_key hfront hkey policy value back env
    rw [← hentries] at hfails
    exact ⟨_, hends, hfails⟩
  · intro after hafter
    obtain ⟨htexts, hmerged⟩ := merge_eq_ok_iff.1 hafter
    have hnodup : ((named bindings.entries).map (·.1)).Nodup := nodup_named bindings.distinct
    refine ⟨?_, fun name => undisturbed_of_merge hafter, filter_forms_of_merge hafter, ?_, ?_⟩
    · intro first second hentries
      rw [hentries] at hafter
      exact merge_append hafter
    · intro name value hmem hwrites
      have hsettled : (env.mergeNamed policy (named bindings.entries)).Settled name value :=
        settled_mergeNamed hnodup (mem_named htexts hmem) hwrites
      obtain ⟨hvalue, hform⟩ := hmerged ▸ hsettled
      refine ⟨hvalue, ?_⟩
      intro f
      rw [hform, Expr.form?_eq_some]
    · have hagain : after.mergeNamed policy (named bindings.entries) = after := by
        rw [hmerged]
        exact mergeNamed_mergeNamed hnodup policy env
      rw [merge_of_named htexts, hagain]

/-- A mapping that overwrites a special form and has a number among its keys, given by pairs in
which a key occurs twice. The merge fails at the number and leaves what its first part leaves: the
special form is gone, and what stands behind the number is not written. Merging the first part once
more changes nothing. -/
theorem merge_stops_at_bad_key_overwriting :
    let quote : SpecialForm Expr := ⟨"quote", .quote⟩
    let env := (Environment.empty.install "quote" (.form quote)).define "x" (.number 0)
    let front : List (Datum Expr × Expr) :=
      [(.text "same", .form quote), (.text "quote", .number 1)]
    ∃ bindings : Mapping Expr,
      Mapping.ofPairs [(.text "same", .form quote), (.text "quote", .number 0),
        (.integer 1, .number 2), (.text "late", .number 3), (.text "quote", .number 1)] =
          .ok bindings ∧
      bindings.entries = front ++ [(.integer 1, .number 2), (.text "late", .number 3)] ∧
      ∃ after,
        merge .overwrite bindings.entries env = .error (.bindingName (.integer 1)) after ∧
        merge .overwrite front env = .ok () after ∧ after.values.names = ["quote", "x", "same"] ∧
        Undisturbed "x" env after ∧ after.values.get? "quote" = some (.number 1) ∧
        after.form? "quote" = none ∧ after.form? "same" = some quote ∧
        merge .overwrite front after = .ok () after := by
  intro quote env front
  obtain ⟨bindings, hpairs, hentries⟩ : ∃ bindings : Mapping Expr,
      Mapping.ofPairs [(.text "same", .form quote), (.text "quote", .number 0),
        (.integer 1, .number 2), (.text "late", .number 3), (.text "quote", .number 1)] =
          .ok bindings ∧
      bindings.entries = front ++ [(.integer 1, .number 2), (.text "late", .number 3)] :=
    ⟨_, rfl, rfl⟩
  obtain ⟨_, _, hfails, _⟩ := merge_stops_at_bad_key .overwrite bindings env
  obtain ⟨after, hfront, hmerge⟩ := hfails front (.integer 1) (.number 2) _ hentries
    (by simp [front, Datum.text?]) rfl
  -- the first part of the mapping is a mapping by itself
  have hpart : DistinctKeys Datum.sameKey front := by
    have hdistinct := bindings.distinct
    rw [hentries] at hdistinct
    exact (List.pairwise_append.1 hdistinct).1
  obtain ⟨_, _, _, hends⟩ := merge_stops_at_bad_key .overwrite ⟨front, hpart⟩ env
  obtain ⟨_, hother, _, hwritten, hagain⟩ := hends after hfront
  obtain ⟨hvalue, hform⟩ := hwritten "quote" (.number 1) (by simp [front]) (by simp)
  obtain ⟨_, hsame⟩ := hwritten "same" (.form quote) (by simp [front]) (by simp)
  have hx : Undisturbed "x" env after := hother "x" (.inl (by simp [front]))
  have hnames : after.values.names = ["quote", "x", "same"] := by
    cases hfront
    rfl
  have hgone : after.form? "quote" = none := by
    refine Option.eq_none_iff_forall_ne_some.2 fun f hf => ?_
    cases (hform f).1 hf
  exact ⟨bindings, hpairs, hentries, after, hmerge, hfront, hnames, hx, hvalue, hgone,
    (hsame quote).2 rfl, hagain⟩

end Environment

end LispDialects
