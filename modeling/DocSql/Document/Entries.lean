/-! # Entries in the order of their first insertion

Documents, the tables of a query and the outputs of a grouping are all lists of named entries in
which a name occurs once.  Writing to a name that is present keeps its place; a new name goes to the
end.  The view of such a list is `get?`, and the statements below say what `insert` does to it.
-/
namespace DocSql

/-- Named entries, in order. -/
abbrev Entries (α : Type) := List (String × α)

namespace Entries

variable {α : Type}

/-- The entry under a name. -/
def get? (es : Entries α) (key : String) : Option α := es.lookup key

/-- Whether there is an entry under a name. -/
def contains (es : Entries α) (key : String) : Bool := (es.get? key).isSome

/-- The names, in order. -/
def keys (es : Entries α) : List String := es.map (·.1)

/-- Writes an entry: in place where the name is present, else at the end. -/
def insert : Entries α → String → α → Entries α
  | [], key, value => [(key, value)]
  | (k, v) :: rest, key, value =>
    if k = key then (k, value) :: rest else (k, v) :: insert rest key value

/-- The entries written one after the other. -/
def insertAll (es : Entries α) (new : List (String × α)) : Entries α :=
  new.foldl (fun es e => es.insert e.1 e.2) es

@[simp] theorem get?_nil (key : String) : get? ([] : Entries α) key = none := rfl

theorem get?_cons (k : String) (v : α) (es : Entries α) (key : String) :
    get? ((k, v) :: es) key = if k = key then some v else get? es key := by
  by_cases h : k = key
  · simp [get?, h]
  · simp [get?, List.lookup_cons, h, beq_eq_false_iff_ne.mpr (Ne.symm h)]

@[simp] theorem get?_insert_self (es : Entries α) (key : String) (value : α) :
    (es.insert key value).get? key = some value := by
  induction es with
  | nil => simp [insert, get?_cons]
  | cons e es ih =>
      obtain ⟨k, v⟩ := e
      by_cases h : k = key
      · simp [insert, get?_cons, h]
      · simp [insert, get?_cons, h, ih]

theorem get?_insert_of_ne (es : Entries α) {key other : String} (value : α) (h : key ≠ other) :
    (es.insert key value).get? other = es.get? other := by
  induction es with
  | nil => simp [insert, get?_cons, h]
  | cons e es ih =>
      obtain ⟨k, v⟩ := e
      by_cases hk : k = key
      · subst hk
        simp [insert, get?_cons, h]
      · simp only [insert, if_neg hk, get?_cons, ih]

@[simp] theorem keys_nil : keys ([] : Entries α) = [] := rfl

@[simp] theorem keys_cons (e : String × α) (es : Entries α) : keys (e :: es) = e.1 :: keys es := rfl

/-- A name that is present keeps its place, and a new one goes to the end. -/
theorem keys_insert (es : Entries α) (key : String) (value : α) :
    (es.insert key value).keys = if key ∈ es.keys then es.keys else es.keys ++ [key] := by
  induction es with
  | nil => simp [insert]
  | cons e es ih =>
      obtain ⟨k, v⟩ := e
      by_cases h : k = key
      · simp [insert, h]
      · have hne : key ≠ k := Ne.symm h
        rw [insert, if_neg h, keys_cons, keys_cons, ih]
        by_cases hm : key ∈ keys es
        · simp [hm]
        · simp [hm, hne]

/-! ### Members -/

section

variable {es new : Entries α} {e : String × α} {key : String} {value : α}

theorem mem_keys_of_get? (h : es.get? key = some value) : key ∈ es.keys := by
  induction es with
  | nil => cases h
  | cons e es ih =>
    rw [get?_cons] at h
    split at h
    · rename_i hk
      exact hk ▸ List.mem_cons_self
    · exact List.mem_cons_of_mem _ (ih h)

/-- Writing what is there already changes nothing. -/
theorem insert_eq_self (h : es.get? key = some value) : es.insert key value = es := by
  induction es with
  | nil => cases h
  | cons e es ih =>
    obtain ⟨k, v⟩ := e
    rw [get?_cons] at h
    rw [insert]
    split at h
    · cases h
      rename_i hk
      rw [if_pos hk]
    · rename_i hk
      rw [if_neg hk, ih h]

theorem mem_insert (h : e ∈ es.insert key value) : e ∈ es ∨ e = (key, value) := by
  induction es with
  | nil => exact .inr (List.mem_singleton.mp h)
  | cons e' es ih =>
    rw [insert] at h
    split at h
    · rename_i hk
      rcases List.mem_cons.mp h with rfl | h
      · exact .inr (by rw [hk])
      · exact .inl (List.mem_cons_of_mem _ h)
    · rcases List.mem_cons.mp h with rfl | h
      · exact .inl List.mem_cons_self
      · rcases ih h with h | h
        · exact .inl (List.mem_cons_of_mem _ h)
        · exact .inr h

theorem mem_insert_of_ne (h : e ∈ es) (hne : e.1 ≠ key) : e ∈ es.insert key value := by
  induction es with
  | nil => cases h
  | cons e' es ih =>
    rw [insert]
    split
    · rename_i hk
      rcases List.mem_cons.mp h with rfl | h
      · exact absurd hk hne
      · exact List.mem_cons_of_mem _ h
    · rcases List.mem_cons.mp h with rfl | h
      · exact List.mem_cons_self
      · exact List.mem_cons_of_mem _ (ih h)

theorem mem_insert_self (es : Entries α) (key : String) (value : α) :
    (key, value) ∈ es.insert key value := by
  induction es with
  | nil => exact List.mem_cons_self
  | cons e' es ih =>
    rw [insert]
    split
    · rename_i hk
      exact hk ▸ List.mem_cons_self
    · exact List.mem_cons_of_mem _ ih

theorem mem_insertAll_of_not_mem (h : e ∈ es) (hne : e.1 ∉ new.keys) : e ∈ es.insertAll new := by
  induction new generalizing es with
  | nil => exact h
  | cons n new ih =>
    obtain ⟨hn, hnew⟩ := not_or.mp (mt List.mem_cons.mpr hne)
    exact ih (mem_insert_of_ne h hn) hnew

/-- Entries with different names that are written are there. -/
theorem mem_insertAll_of_mem (hnodup : new.keys.Nodup) (h : e ∈ new) : e ∈ es.insertAll new := by
  induction new generalizing es with
  | nil => cases h
  | cons n new ih =>
    obtain ⟨hn, hnodup⟩ := List.nodup_cons.mp hnodup
    rcases List.mem_cons.mp h with rfl | h
    · show e ∈ insertAll (es.insert e.1 e.2) new
      exact mem_insertAll_of_not_mem (mem_insert_self es e.1 e.2) hn
    · exact ih hnodup h

/-- What is there after writing was there before or has been written. -/
theorem mem_insertAll (h : e ∈ es.insertAll new) : e ∈ es ∨ e ∈ new := by
  induction new generalizing es with
  | nil => exact .inl h
  | cons n new ih =>
    rcases ih h with h | h
    · rcases mem_insert h with h | rfl
      · exact .inl h
      · exact .inr List.mem_cons_self
    · exact .inr (List.mem_cons_of_mem _ h)

end

end Entries

end DocSql
