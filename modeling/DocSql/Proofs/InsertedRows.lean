import Mathlib.Data.List.Basic
import DocSql.Command.Insert

/-! # The documents of an insertion

An insertion makes a document of each row.  `cell` says what such a document holds under a name, and
`numbered` which of its fields the sequence fills: those of the sequence that the row leaves to
DEFAULT or does not name.  The documents of rows that are numbered from `n` on then hold `n`, `n + 1`
and so on in these fields, and the last number that is used is the largest.

The store adds an id to a document that has none, and nothing else.
-/
namespace DocSql
open List

/-- Whether the value is left to DEFAULT. -/
def InsertValue.isDefault : InsertValue → Bool
  | .default => true
  | .value _ => false

namespace Insert

/-! ### One row -/

/-- What a column of a row holds, if the number of the row is `n`. -/
def written (fields : List String) (n : Int) (column : String) : InsertValue → Option Value
  | .value v => some v
  | .default => if column ∈ fields then some (.int n) else none

/-- What the document of a row holds under a name, if the number of the row is `n`. -/
def cell (columns fields : List String) (n : Int) (row : List InsertValue) (name : String) :
    Option Value :=
  match (columns.zip row).lookup name with
  | some value => written fields n name value
  | none => if name ∉ columns ∧ name ∈ fields then some (.int n) else none

/-- The fields of a row that the sequence fills. -/
def numbered (columns fields : List String) (row : List InsertValue) : List String :=
  fields.filter fun field =>
    match (columns.zip row).lookup field with
    | some value => value.isDefault
    | none => !columns.contains field

variable {columns fields : List String} {row : List InsertValue} {name : String}

theorem cell_of_numbered (h : name ∈ numbered columns fields row) (n : Int) :
    cell columns fields n row name = some (.int n) := by
  obtain ⟨hfield, h⟩ := mem_filter.mp h
  rw [cell]
  cases hlookup : (columns.zip row).lookup name with
  | none =>
    rw [hlookup] at h
    exact if_pos ⟨by simpa using h, hfield⟩
  | some value =>
    rw [hlookup] at h
    cases value with
    | value v => cases h
    | default => exact if_pos hfield

theorem lookup_zip_eq_none (h : name ∉ columns) (row : List InsertValue) :
    (columns.zip row).lookup name = none := by
  rw [lookup_eq_none_iff]
  intro e he
  have hmem := (of_mem_zip he).1
  exact bne_iff_ne.mpr fun heq => h (heq ▸ hmem)

theorem get?_writeColumn (fields : List String) (n : Int) (d : Draft) (column : String)
    (value : InsertValue) (name : String) :
    (writeColumn fields n d (column, value)).document.get? name =
      if column = name then (written fields n column value).or (d.document.get? name)
      else d.document.get? name := by
  by_cases h : column = name
  · subst h
    cases value with
    | value v => simp [writeColumn, written]
    | default =>
      by_cases hfield : column ∈ fields
      · simp [writeColumn, written, hfield, Draft.number]
      · simp [writeColumn, written, hfield]
  · cases value with
    | value v => simp [writeColumn, h, Entries.get?_insert_of_ne]
    | default =>
      by_cases hfield : column ∈ fields
      · simp [writeColumn, h, hfield, Draft.number, Entries.get?_insert_of_ne]
      · simp [writeColumn, h, hfield]

/-- What the values of a row leave in a document. -/
theorem get?_writeColumns (hnodup : columns.Nodup) (fields : List String) (n : Int)
    (row : List InsertValue) (d : Draft) (name : String) :
    ((columns.zip row).foldl (writeColumn fields n) d).document.get? name =
      (((columns.zip row).lookup name).bind (written fields n name)).or (d.document.get? name) := by
  induction columns generalizing row d with
  | nil => rfl
  | cons column columns ih =>
    cases row with
    | nil => rfl
    | cons value row =>
      obtain ⟨hnew, hnodup⟩ := nodup_cons.mp hnodup
      rw [zip_cons_cons, foldl_cons, ih hnodup, get?_writeColumn]
      by_cases h : column = name
      · subst h
        rw [lookup_zip_eq_none hnew, lookup_cons_self, if_pos rfl]
        rfl
      · rw [lookup_cons, beq_eq_false_iff_ne.mpr (Ne.symm h), if_neg h]

theorem get?_numberAll (omitted : List String) (n : Int) (d : Draft) (name : String) :
    (omitted.foldl (fun d field => d.number field n) d).document.get? name =
      if name ∈ omitted then some (.int n) else d.document.get? name := by
  induction omitted generalizing d with
  | nil => simp
  | cons field omitted ih =>
    rw [foldl_cons, ih]
    by_cases h : name ∈ omitted
    · simp [h]
    · by_cases hfield : field = name
      · subst hfield
        simp [h, Draft.number]
      · simp [h, Ne.symm hfield, Draft.number, Entries.get?_insert_of_ne _ _ hfield]

/-- The document of a row holds its cells. -/
theorem get?_draftRow (hnodup : columns.Nodup) (fields : List String) (n : Int)
    (row : List InsertValue) (name : String) :
    (draftRow columns fields n row).document.get? name = cell columns fields n row name := by
  rw [draftRow, get?_numberAll, get?_writeColumns hnodup, cell]
  by_cases h : name ∈ columns
  · cases (columns.zip row).lookup name <;> simp [h]
  · rw [lookup_zip_eq_none h]
    by_cases hfield : name ∈ fields <;> simp [h, hfield]

theorem lookup_zip_of_mem (hnodup : columns.Nodup) {column : String} {value : InsertValue}
    (h : (column, value) ∈ columns.zip row) : (columns.zip row).lookup column = some value := by
  induction columns generalizing row with
  | nil => cases h
  | cons first columns ih =>
    cases row with
    | nil => cases h
    | cons v row =>
      obtain ⟨hnew, hnodup⟩ := nodup_cons.mp hnodup
      rcases mem_cons.mp h with h | h
      · cases h
        exact lookup_cons_self
      · have hne : column ≠ first := fun heq => hnew (heq ▸ (of_mem_zip h).1)
        rw [zip_cons_cons, lookup_cons, beq_eq_false_iff_ne.mpr hne]
        exact ih hnodup h

theorem numbered_writeColumns (fields : List String) (n : Int) (values : List (String × InsertValue))
    (d : Draft) :
    (values.foldl (writeColumn fields n) d).numbered =
      (d.numbered || values.any fun e => e.2.isDefault && fields.contains e.1) := by
  induction values generalizing d with
  | nil => simp
  | cons e values ih =>
    obtain ⟨column, value⟩ := e
    rw [foldl_cons, ih, any_cons]
    cases value with
    | value v => simp [writeColumn, InsertValue.isDefault]
    | default =>
      by_cases hfield : column ∈ fields
      · simp [writeColumn, hfield, Draft.number, InsertValue.isDefault]
      · simp [writeColumn, hfield, InsertValue.isDefault]

theorem numbered_numberAll (omitted : List String) (n : Int) (d : Draft) :
    (omitted.foldl (fun d field => d.number field n) d).numbered =
      (d.numbered || !omitted.isEmpty) := by
  induction omitted generalizing d with
  | nil => simp
  | cons field omitted ih =>
    rw [foldl_cons, ih]
    simp [Draft.number]

/-- A row is marked exactly if the sequence fills a field of it. -/
theorem numbered_draftRow (hnodup : columns.Nodup) (fields : List String) (n : Int)
    (row : List InsertValue) :
    (draftRow columns fields n row).numbered = true ↔ ∃ field, field ∈ numbered columns fields row := by
  rw [draftRow, numbered_numberAll, numbered_writeColumns]
  simp only [Bool.false_or, Bool.or_eq_true, any_eq_true, Bool.and_eq_true, Bool.not_eq_true',
    isEmpty_eq_false_iff_exists_mem, mem_filter, contains_iff_mem, numbered]
  constructor
  · rintro (⟨⟨column, value⟩, hmem, hdefault, hfield⟩ | ⟨field, hfield, homitted⟩)
    · refine ⟨column, hfield, ?_⟩
      rw [lookup_zip_of_mem hnodup hmem]
      exact hdefault
    · refine ⟨field, hfield, ?_⟩
      rw [lookup_zip_eq_none (by simpa using homitted)]
      exact (Bool.not_eq_true' _).mpr homitted
  · rintro ⟨field, hfield, h⟩
    cases hlookup : (columns.zip row).lookup field with
    | none =>
      rw [hlookup] at h
      exact .inr ⟨field, hfield, (Bool.not_eq_true' _).mp h⟩
    | some value =>
      rw [hlookup] at h
      obtain ⟨before, after, hzip, -⟩ := lookup_eq_some_iff.mp hlookup
      exact .inl ⟨(field, value), by simp [hzip], h, hfield⟩

/-! ### Many rows -/

/-- What the documents of rows hold in the fields that the sequence fills, row by row. -/
def givenNumbers (columns fields : List String) (rows : List (List InsertValue))
    (documents : List Fields) : List (List Value) :=
  (rows.zip documents).map fun e =>
    (numbered columns fields e.1).filterMap fun field => e.2.get? field

/-- Numbers above a bound and up to another. -/
def Between (low high : Int) (values : List Value) : Prop :=
  ∀ v ∈ values, ∃ n, v = .int n ∧ low < n ∧ n ≤ high

/-- Numbers of which those on the left are the smaller ones. -/
def Before (values later : List Value) : Prop :=
  ∀ v ∈ values, ∀ w ∈ later, ∃ m n, v = .int m ∧ w = .int n ∧ m < n

/-- The largest of the given numbers, or nothing if there are none. -/
def Largest (given : List (List Value)) : Option Int → Prop
  | none => ∀ values ∈ given, values = []
  | some n => (∃ values ∈ given, .int n ∈ values) ∧
      ∀ values ∈ given, ∀ v ∈ values, ∃ m, v = .int m ∧ m ≤ n

theorem Between.before {low middle high : Int} {values later : List Value}
    (h : Between low middle values) (hlater : Between middle high later) : Before values later := by
  intro v hv w hw
  obtain ⟨m, rfl, -, hm⟩ := h v hv
  obtain ⟨n, rfl, hn, -⟩ := hlater w hw
  exact ⟨m, n, rfl, rfl, by omega⟩

theorem Between.mono {low low' high high' : Int} {values : List Value} (h : Between low high values)
    (hlow : low' ≤ low) (hhigh : high ≤ high') : Between low' high' values := by
  intro v hv
  obtain ⟨n, rfl, hl, hh⟩ := h v hv
  exact ⟨n, rfl, by omega, by omega⟩

/-- The first row of several has the first number, and the others go on behind it. -/
theorem givenNumbers_cons (hnodup : columns.Nodup) (fields : List String) (n : Int)
    (row : List InsertValue) (rows : List (List InsertValue)) :
    givenNumbers columns fields (row :: rows) (draftRows columns fields n (row :: rows)).1 =
      (numbered columns fields row).map (fun _ => .int n) ::
        givenNumbers columns fields rows (draftRows columns fields (n + 1) rows).1 := by
  have hrow : (numbered columns fields row).filterMap
      (fun field => (draftRow columns fields n row).document.get? field) =
        (numbered columns fields row).map fun _ => .int n := by
    refine filterMap_eq_map_iff_forall_eq_some.mpr fun field hfield => ?_
    rw [get?_draftRow hnodup, cell_of_numbered hfield]
  exact congrArg (· :: _) hrow

/-- The rows are numbered one after the other. -/
theorem draftRows_eq_mapIdx (columns fields : List String) (n : Int) (rows : List (List InsertValue)) :
    (draftRows columns fields n rows).1 =
      rows.mapIdx fun k row => (draftRow columns fields (n + k) row).document := by
  induction rows generalizing n with
  | nil => rfl
  | cons row rows ih =>
    have hnumber (k : Nat) : n + 1 + (k : Int) = n + (k + 1 : Nat) := by omega
    have ih := ih (n + 1)
    simp only [hnumber] at ih
    rw [mapIdx_cons, ← ih, Int.ofNat_zero, Int.add_zero]
    rfl

theorem between_draftRows (hnodup : columns.Nodup) (fields : List String) (last : Int)
    (rows : List (List InsertValue)) :
    ∀ values ∈ givenNumbers columns fields rows (draftRows columns fields (last + 1) rows).1,
      Between last (last + rows.length) values := by
  induction rows generalizing last with
  | nil => exact nofun
  | cons row rows ih =>
    rw [givenNumbers_cons hnodup, forall_mem_cons, length_cons]
    refine ⟨?_, fun values hvalues => ?_⟩
    · intro v hv
      obtain ⟨field, -, rfl⟩ := mem_map.mp hv
      exact ⟨last + 1, rfl, by omega, by omega⟩
    · exact (ih (last + 1) values hvalues).mono (by omega) (by omega)

theorem increasing_draftRows (hnodup : columns.Nodup) (fields : List String) (last : Int)
    (rows : List (List InsertValue)) :
    (givenNumbers columns fields rows (draftRows columns fields (last + 1) rows).1).Pairwise
      Before := by
  induction rows generalizing last with
  | nil => exact .nil
  | cons row rows ih =>
    rw [givenNumbers_cons hnodup]
    refine .cons (fun values hvalues => ?_) (ih (last + 1))
    have hfirst : Between last (last + 1)
        ((numbered columns fields row).map fun _ => .int (last + 1)) := by
      intro v hv
      obtain ⟨field, -, rfl⟩ := mem_map.mp hv
      exact ⟨last + 1, rfl, by omega, by omega⟩
    exact hfirst.before (between_draftRows hnodup fields (last + 1) rows values hvalues)

/-- The number that is kept as the last one is the largest. -/
theorem largest_draftRows (hnodup : columns.Nodup) (fields : List String) (n : Int)
    (rows : List (List InsertValue)) :
    Largest (givenNumbers columns fields rows (draftRows columns fields n rows).1)
      (draftRows columns fields n rows).2 := by
  induction rows generalizing n with
  | nil => exact nofun
  | cons row rows ih =>
    have ih := ih (n + 1)
    have hrest := between_draftRows hnodup fields n rows
    have hmark := numbered_draftRow hnodup fields n row
    rw [givenNumbers_cons hnodup]
    show Largest _ ((draftRows columns fields (n + 1) rows).2.or
      (if (draftRow columns fields n row).numbered then some n else none))
    cases hlast : (draftRows columns fields (n + 1) rows).2 with
    | some m =>
      rw [hlast] at ih
      obtain ⟨⟨values, hvalues, hm⟩, hle⟩ := ih
      obtain ⟨_, ⟨⟩, hlow, -⟩ := hrest values hvalues _ hm
      refine ⟨⟨values, mem_cons_of_mem _ hvalues, hm⟩, ?_⟩
      rw [forall_mem_cons]
      refine ⟨fun v hv => ?_, hle⟩
      obtain ⟨field, -, rfl⟩ := mem_map.mp hv
      exact ⟨n, rfl, by omega⟩
    | none =>
      rw [hlast] at ih
      cases hnumbered : (draftRow columns fields n row).numbered with
      | true =>
        obtain ⟨field, hfield⟩ := hmark.mp hnumbered
        refine ⟨⟨_, mem_cons_self, mem_map.mpr ⟨field, hfield, rfl⟩⟩, ?_⟩
        rw [forall_mem_cons]
        refine ⟨fun v hv => ?_, fun values hvalues v hv => ?_⟩
        · obtain ⟨field, -, rfl⟩ := mem_map.mp hv
          exact ⟨n, rfl, Int.le_refl n⟩
        · rw [ih values hvalues] at hv
          cases hv
      | false =>
        refine forall_mem_cons.mpr ⟨?_, ih⟩
        rw [map_eq_nil_iff, eq_nil_iff_forall_not_mem]
        intro field hfield
        rw [hmark.mpr ⟨field, hfield⟩] at hnumbered
        cases hnumbered

end Insert
end DocSql
