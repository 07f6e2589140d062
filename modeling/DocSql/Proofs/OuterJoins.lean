import DocSql.Clause.Join
import DocSql.Proofs.FirstOccurrences
import DocSql.Proofs.TermParts

/-! # The columns that an outer join fills in

A row without a partner gets a document in its place that has a null under the columns of the joined
table that the SELECT list mentions.  They are collected from the whole list, in the order of their
first mention, but not from the conditions of CASE terms.  So a column is missing exactly if it is
mentioned in such conditions only, and the order is that of the first mentions exactly if a column
that is mentioned in a condition first is the next one to be new outside (`backfill_complete_iff`).
-/
namespace DocSql
open List

/-- Whether columns are collected below the place. -/
def Place.isCollected (place : Place) : Bool := place != .test

/-- The column of a table that a term is. -/
def Term.columnIn? (table : String) : Term → Option String
  | .column c => if c.table = table then some c.column else none
  | _ => none

/-! ### What is collected -/

/-- The columns of a table among the parts that a search sees. -/
def columnsSeen (passes : Place → Bool) (table : String) (parts : List Part) : List String :=
  (seen passes parts).filterMap (Term.columnIn? table)

section

variable {passes : Place → Bool} {table : String} {parts parts' : List Part}

@[simp] theorem columnsSeen_append : columnsSeen passes table (parts ++ parts') =
    columnsSeen passes table parts ++ columnsSeen passes table parts' := by
  simp [columnsSeen]

@[simp] theorem columnsSeen_under (place : Place) :
    columnsSeen passes table (parts.map (.under place)) =
      if passes place then columnsSeen passes table parts else [] := by
  rw [columnsSeen, seen_under]
  cases passes place <;> rfl

/-- A term that is no column adds nothing by itself. -/
theorem columnsSeen_cons {t : Term} (h : t.columnIn? table = none) :
    columnsSeen passes table (⟨[], t⟩ :: parts) = columnsSeen passes table parts := by
  rw [columnsSeen, seen_cons, filterMap_cons_none h, columnsSeen]

end

mutual

/-- The columns of a term are collected from all parts but those in the conditions of CASE terms. -/
theorem Term.columnsOf_eq (table : String) : ∀ t : Term,
    t.columnsOf table = columnsSeen Place.isCollected table t.parts
  | .column c => by
    rw [Term.columnsOf, Term.parts, columnsSeen, seen_cons, seen_nil, filterMap_cons]
    unfold Term.columnIn?
    split <;> simp_all
  | .compare l _ r | .arith _ l r => by
    rw [Term.columnsOf, Term.parts, columnsSeen_cons rfl, columnsSeen_under, columnsSeen_append,
      l.columnsOf_eq, r.columnsOf_eq]
    rfl
  | .aggregate _ _ arg | .dateTrunc _ arg => by
    rw [Term.columnsOf, Term.parts, columnsSeen_cons rfl, columnsSeen_under, arg.columnsOf_eq]
    rfl
  | .caseOf arms => by
    rw [Term.columnsOf, Term.parts, columnsSeen_cons rfl, arms.columnsOf_eq]
  | .countAll | .param .. | .const _ | .field _ => rfl

theorem Arms.columnsOf_eq (table : String) : ∀ arms : Arms,
    arms.columnsOf table = columnsSeen Place.isCollected table arms.parts
  | .done => rfl
  | .otherwise t => by
    rw [Arms.columnsOf, Arms.parts, columnsSeen_under, t.columnsOf_eq]
    rfl
  | .arm c t rest => by
    rw [Arms.columnsOf, Arms.parts, columnsSeen_append, columnsSeen_append, columnsSeen_under,
      columnsSeen_under, t.columnsOf_eq, rest.columnsOf_eq]
    rfl

end

/-! ### What is mentioned -/

/-- A column of the joined table where the SELECT list mentions it. -/
structure Mention where
  column : String
  /-- Whether it stands in the condition of a CASE term. -/
  tested : Bool

/-- The mentions of columns of a table among the parts of a term, from left to right. -/
def mentionsIn (table : String) (parts : List Part) : List Mention := parts.filterMap fun p =>
    (p.term.columnIn? table).map fun column => ⟨column, decide (.test ∈ p.route)⟩

/-- All mentions of columns of a table in the SELECT list, at any depth. -/
def Columns.mentions (columns : Columns) (table : String) : List Mention :=
  columns.items.flatMap fun item => mentionsIn table item.term.parts

/-- The columns that are mentioned outside the conditions of CASE terms. -/
def outside (mentions : List Mention) : List String :=
  (mentions.filter fun m => !m.tested).map (·.column)

theorem Part.isReached_isCollected (p : Part) :
    p.isReached Place.isCollected = !decide (.test ∈ p.route) := by
  rw [isReached, Bool.eq_iff_iff]
  simp only [Place.isCollected, all_eq_true, bne_iff_ne, Bool.not_eq_true', decide_eq_false_iff_not]
  exact ⟨fun h hmem => h _ hmem rfl, fun h place hplace heq => h (heq ▸ hplace)⟩

theorem outside_mentionsIn (table : String) (parts : List Part) :
    outside (mentionsIn table parts) = columnsSeen Place.isCollected table parts := by
  induction parts with
  | nil => rfl
  | cons p parts ih =>
    rw [outside, mentionsIn, columnsSeen, seen] at *
    rw [filterMap_cons, filter_cons, p.isReached_isCollected]
    cases hcolumn : p.term.columnIn? table with
    | none | some column => cases hroute : decide (Place.test ∈ p.route) <;> simp [hcolumn, ih]

/-- The columns that are collected for a join are those mentioned outside conditions. -/
theorem Join.backfill_fill (join : Join) (columns : Columns) : (join.fill columns).backfill =
    newNames [] (outside (columns.mentions join.table.visible)) := by
  have houtside : outside (columns.mentions join.table.visible) =
      columns.items.flatMap fun item => item.term.columnsOf join.table.visible := by
    simp only [Term.columnsOf_eq, ← outside_mentionsIn]
    simp only [outside, Columns.mentions, filter_flatMap, map_flatMap]
  rw [fill, houtside, eraseDups_eq_newNames]

/-! ### The order of first mention -/

/-- The columns outside conditions are new in the order of all mentions exactly if every column that
is new in a condition is the next one to be new outside. -/
theorem newNames_outside_iff (ms : List Mention) (known : List String) :
    newNames known (outside ms) = newNames known (ms.map (·.column)) ↔
      ∀ before m after, ms = before ++ m :: after → m.tested = true →
        m.column ∉ known ++ before.map (·.column) →
        (outside after).find? (fun name => name ∉ known ++ before.map (·.column)) =
          some m.column := by
  induction ms generalizing known with
  | nil =>
    refine iff_of_true rfl ?_
    intro before m after h
    exact absurd h (by simp)
  | cons m ms ih =>
    -- the first mention, and those behind it with its column known
    have hsplit : (∀ before m' after, m :: ms = before ++ m' :: after → m'.tested = true →
        m'.column ∉ known ++ before.map (·.column) →
        (outside after).find? (fun name => name ∉ known ++ before.map (·.column)) =
          some m'.column) ↔
        (m.tested = true → m.column ∉ known →
          (outside ms).find? (fun name => name ∉ known) = some m.column) ∧
        newNames (known ++ [m.column]) (outside ms) =
          newNames (known ++ [m.column]) (ms.map (·.column)) := by
      rw [ih]
      constructor
      · intro h
        refine ⟨by simpa using h [] m ms rfl, fun before m' after heq => ?_⟩
        simpa using h (m :: before) m' after (by rw [heq, cons_append])
      · rintro ⟨hfirst, hrest⟩ before m' after heq
        cases before with
        | nil =>
          obtain ⟨rfl, rfl⟩ := cons.inj heq
          simpa using hfirst
        | cons first before =>
          obtain ⟨rfl, rfl⟩ := cons.inj heq
          simpa using hrest before m' after rfl
    rw [hsplit, map_cons]
    by_cases hknown : m.column ∈ known
    · rw [newNames_known hknown, newNames_known hknown, newNames_of_mem hknown]
      cases htested : m.tested with
      | true => simp [outside, htested, hknown]
      | false => simp [outside, htested, newNames_of_mem hknown]
    · rw [newNames_of_not_mem hknown]
      cases htested : m.tested with
      | true =>
        have houtside : outside (m :: ms) = outside ms := by simp [outside, htested]
        rw [houtside, newNames_eq_cons_iff]
        simp [hknown]
      | false =>
        have houtside : outside (m :: ms) = m.column :: outside ms := by simp [outside, htested]
        rw [houtside, newNames_of_not_mem hknown]
        simp

/-! ### The document of a missing partner -/

theorem Join.get?_missing (names : List String) (name : String) :
    Entries.get? (names.map fun column => (column, Value.null)) name =
      if name ∈ names then some .null else none := by
  induction names with
  | nil => rfl
  | cons first names ih =>
    rw [map_cons, Entries.get?_cons, ih]
    by_cases h : first = name
    · simp [h]
    · simp [h, Ne.symm h]

/-! ### The extent of the collection -/

/-- **The columns of an outer join.**  The columns that are kept for a join have no duplicates and
are those of its table that the SELECT list mentions outside the conditions of CASE terms, in the
order of their first mention there.  They are all that are mentioned at any depth, in the order of
first mention, exactly if each column that is mentioned in a condition first is the next one to be
new outside; and all in any order exactly if each column in a condition is mentioned outside as
well.  The document of a missing partner has a null under exactly the columns that are kept. -/
theorem Join.backfill_complete_iff (join : Join) (columns : Columns) :
    (join.fill columns).backfill.Nodup ∧
    (join.fill columns).backfill = (outside (columns.mentions join.table.visible)).eraseDups ∧
    ((join.fill columns).backfill =
        ((columns.mentions join.table.visible).map (·.column)).eraseDups ↔
      ∀ before m after, columns.mentions join.table.visible = before ++ m :: after →
        m.tested = true → m.column ∉ before.map (·.column) →
        (outside after).find? (fun name => name ∉ before.map (·.column)) = some m.column) ∧
    ((∀ name, name ∈ (join.fill columns).backfill ↔
        name ∈ (columns.mentions join.table.visible).map (·.column)) ↔
      ∀ m ∈ columns.mentions join.table.visible, m.tested = true →
        m.column ∈ outside (columns.mentions join.table.visible)) ∧
    (join.kind = .outer → ∃ fields,
      (join.fill columns).stages =
        [join.lookupStage,
          .field "$unwind" (.object
            [("path", .path join.table.visible), ("preserveNullAndEmptyArrays", .bool true)]),
          .field "$addFields" (.field join.table.visible
            (.field "$ifNull" (.array [.path join.table.visible, .object fields])))] ∧
      ∀ name, Entries.get? fields name =
        if name ∈ (join.fill columns).backfill then some .null else none) := by
  have hkept := join.backfill_fill columns
  refine ⟨?_, ?_, ?_, ?_, fun houter => ?_⟩
  · rw [hkept]
    exact nodup_newNames
  · rw [hkept, eraseDups_eq_newNames]
  · rw [hkept, eraseDups_eq_newNames]
    exact newNames_outside_iff _ []
  · have hmem (name : String) : name ∈ (join.fill columns).backfill ↔
        name ∈ outside (columns.mentions join.table.visible) := by
      rw [hkept, mem_newNames]
      exact and_iff_left List.not_mem_nil
    simp only [hmem]
    constructor
    · intro hall m hm _
      exact (hall m.column).mpr (List.mem_map_of_mem hm)
    · intro htested name
      constructor
      · intro hname
        obtain ⟨m, hm, rfl⟩ := List.mem_map.mp hname
        exact List.mem_map_of_mem (List.mem_of_mem_filter hm)
      · intro hname
        obtain ⟨m, hm, rfl⟩ := List.mem_map.mp hname
        cases hcase : m.tested with
        | true => exact htested m hm hcase
        | false => exact List.mem_map_of_mem (List.mem_filter.mpr ⟨hm, by simp [hcase]⟩)
  · refine ⟨_, ?_, Join.get?_missing _⟩
    have houter : (join.fill columns).kind = .outer := houter
    rw [Join.stages, houter]
    rfl

namespace OuterJoins

/-- `LEFT JOIN b ON a.b_id = b.id`. -/
def join : Join where
  kind := .outer
  leftTable := "a"
  table := ⟨"b", "b"⟩
  localField := "b_id"
  foreignField := "id"
  span := ⟨0, 4⟩

/-- `SELECT CASE WHEN b.x = 1 THEN b.y END`. -/
def columns : Columns where
  items := [{
    term := .caseOf (.arm (.compare (.column ⟨"b", "x", "b.x"⟩) .eq (.const (.int 1)))
      (.column ⟨"b", "y", "b.y"⟩) .done)
    name := "expr_0"
    label := none }]
  span := ⟨1, 2⟩

/-- The column that the condition compares is mentioned, and has no null in the document of a
missing partner. -/
theorem tested_column_missing :
    (columns.mentions join.table.visible).map (·.column) = ["x", "y"] ∧
    (join.fill columns).backfill = ["y"] ∧
    (join.fill columns).missing = .object [("y", .null)] ∧
    ¬∀ m ∈ columns.mentions join.table.visible, m.tested = true →
      m.column ∈ outside (columns.mentions join.table.visible) := by
  refine ⟨rfl, rfl, rfl, fun hall => ?_⟩
  obtain ⟨-, -, -, hiff, -⟩ := join.backfill_complete_iff columns
  have hx : "x" ∈ (join.fill columns).backfill := (hiff.mpr hall "x").mpr (by decide)
  exact absurd hx (by decide)

end OuterJoins

end DocSql
