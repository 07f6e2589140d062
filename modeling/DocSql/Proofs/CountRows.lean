import DocSql.Proofs.ClauseReading
import DocSql.Proofs.RowReading

/-! # The row of a counting query

A query that asks for the number of rows and nothing else ends by counting the documents that are
left.  LIMIT and OFFSET stand before the count: they cut the documents that are counted, and not the
one row with their number.  `Select.count_rows_iff` says what number the reader gets, and when that
is the answer that LIMIT and OFFSET ask for.
-/
namespace DocSql
open Compiled List

variable {α : Type} {w : Window}

/-! ### Lists of documents -/

/-- A store that carries out stages on lists of documents: which documents pass a test, how they are
sorted, and what a document is with fields added to it. -/
structure ListStore where
  passes : Value → Value → Bool
  sorted : Value → List Value → List Value
  sorted_perm : ∀ order documents, (sorted order documents).Perm documents
  extended : Value → Value → Value

namespace ListStore

/-- The document that holds the number of some documents.  There is none for no documents. -/
def count (field : String) (documents : List Value) : List Value :=
  if documents.isEmpty then [] else [.field field (.int documents.length)]

/-- What a stage makes of a list of documents. -/
def stage? (store : ListStore) (stage : Value) (documents : List Value) : Option (List Value) :=
  match stage with
  | .object [(name, arg)] =>
    if name = "$match" then some (documents.filter (store.passes arg))
    else if name = "$addFields" then some (documents.map (store.extended arg))
    else if name = "$sort" then some (store.sorted arg documents)
    else if name = "$skip" then arg.asNat64?.map fun n => documents.drop n
    else if name = "$limit" then arg.asNat64?.map fun n => documents.take n
    else if name = "$count" then arg.asString?.map fun field => count field documents
    else none
  | _ => none

/-- What stages make of a list of documents, one after the other. -/
def run? (store : ListStore) : List Value → List Value → Option (List Value)
  | [], documents => some documents
  | stage :: stages, documents => (store.stage? stage documents).bind (store.run? stages)

theorem run?_append (store : ListStore) (stages later documents : List Value) :
    store.run? (stages ++ later) documents =
      (store.run? stages documents).bind (store.run? later) := by
  induction stages generalizing documents with
  | nil => rfl
  | cons stage stages ih =>
    rw [cons_append, run?, run?, Option.bind_assoc]
    exact Option.bind_congr fun left _ => ih left

theorem run?_singleton (store : ListStore) (stage : Value) (documents : List Value) :
    store.run? [stage] documents = store.stage? stage documents :=
  Option.bind_fun_some _

section

variable (store : ListStore) (arg : Value) (n : Nat) (documents : List Value)

@[simp] theorem stage?_match : store.stage? (.field "$match" arg) documents =
    some (documents.filter (store.passes arg)) := rfl

@[simp] theorem stage?_addFields : store.stage? (.field "$addFields" arg) documents =
    some (documents.map (store.extended arg)) := rfl

@[simp] theorem stage?_sort : store.stage? (.field "$sort" arg) documents =
    some (store.sorted arg documents) := rfl

@[simp] theorem stage?_skip : store.stage? (.field "$skip" (.int n)) documents =
    some (documents.drop n) := by
  simp [stage?, Value.field, Value.asNat64?]

@[simp] theorem stage?_limit : store.stage? (.field "$limit" (.int n)) documents =
    some (documents.take n) := by
  simp [stage?, Value.field, Value.asNat64?]

@[simp] theorem stage?_count (field : String) :
    store.stage? (.field "$count" (.string field)) documents = some (count field documents) := rfl

end

end ListStore

theorem Rows.counted_field (n : Nat) (items : List (Except StoreFault Value)) :
    Rows.counted (.ok (.field "_count" (.int n)) :: items) = n := by
  simp [Rows.counted, Value.field, Value.get?, Value.asObject?, Entries.get?_cons, Value.asNat64?]

/-! ### Clauses on lists -/

/-- The rows that LIMIT and OFFSET leave. -/
def Window.cut {α : Type} (w : Window) (rows : List α) : List α :=
  match w.limit with
  | some n => (rows.drop (w.offset.getD 0)).take n
  | none => rows.drop (w.offset.getD 0)

theorem Window.length_cut (w : Window) (rows : List α) : (w.cut rows).length = match w.limit with
      | some n => min n (rows.length - w.offset.getD 0)
      | none => rows.length - w.offset.getD 0 := by
  unfold cut
  split <;> simp

/-- A single row is left out where the offset is not zero. -/
theorem Window.cut_singleton (hlimit : w.limit ≠ some 0) (row : α) :
    w.cut [row] = if w.offset.getD 0 = 0 then [row] else [] := by
  unfold cut
  by_cases hoffset : w.offset.getD 0 = 0
  · rw [if_pos hoffset, hoffset, drop_zero]
    cases hn : w.limit with
    | none => rfl
    | some n =>
      have hpos : 1 ≤ n := Nat.one_le_iff_ne_zero.mpr fun hzero => hlimit (hzero ▸ hn)
      exact take_of_length_le hpos
  · have hdrop : [row].drop (w.offset.getD 0) = [] :=
      drop_eq_nil_of_le (Nat.one_le_iff_ne_zero.mpr hoffset)
    rw [if_neg hoffset, hdrop]
    cases w.limit <;> simp

/-- A limit that is read is not zero. -/
theorem Window.limit_ne_zero {s : Scope} {c c' : TokenCursor}
    (h : Window.read? s c = .ok (some w, c')) : w.limit ≠ some 0 := by
  obtain ⟨bounds, -, h⟩ := bind_eq_ok.mp h
  simp only at h
  split at h
  · cases h
  · rename_i hlimit
    split at h
    · cases h
    · cases h
      exact hlimit

namespace ListStore

variable {store : ListStore} {stages documents : List Value}

theorem run?_window (h : Clause.stages w = .ok stages) :
    store.run? stages documents = some (w.cut documents) := by
  obtain ⟨limit, offset, span⟩ := w
  cases h
  rw [run?_append]
  cases offset with
  | none =>
    cases limit with
    | none => rfl
    | some n => simp [Window.cut, run?]
  | some k =>
    cases limit with
    | none => simp [Window.cut, run?]
    | some n => simp [Window.cut, run?]

/-- An order neither adds nor loses a document. -/
theorem run?_sorting {sorting : Sorting} (h : Clause.stages sorting = .ok stages) :
    ∃ left, store.run? stages documents = some left ∧ left.length = documents.length := by
  cases h
  rw [run?_append]
  by_cases hcomputed : sorting.needsPipeline
  · rw [if_pos hcomputed, run?_singleton, stage?_addFields, Option.bind_some, run?_singleton,
      stage?_sort]
    exact ⟨_, rfl, (store.sorted_perm _ _).length_eq.trans (length_map _)⟩
  · rw [if_neg hcomputed, run?, Option.bind_some, run?_singleton, stage?_sort]
    exact ⟨_, rfl, (store.sorted_perm _ _).length_eq⟩

end ListStore

namespace Select

variable {q : Select}

/-- Whether a document passes the WHERE clause. -/
def passes (q : Select) (store : ListStore) (document : Value) : Bool :=
  match q.filter with
  | none => true
  | some filter =>
    match filter.condition.filter with
    | .ok test => store.passes test document
    | .error _ => false

/-- The rows that LIMIT and OFFSET leave, where there is one of them. -/
def cut {α : Type} (q : Select) (rows : List α) : List α :=
  match q.window with
  | none => rows
  | some w => w.cut rows

/-- How many rows are left depends on how many there are. -/
theorem length_cut {β : Type} {rows : List α} {rows' : List β} (h : rows.length = rows'.length) :
    (q.cut rows).length = (q.cut rows').length := by
  unfold cut
  cases q.window with
  | none => exact h
  | some w => rw [Window.length_cut, Window.length_cut, h]

theorem run?_filter {store : ListStore} {stages : List Value} (documents : List Value)
    (h : Clause.stagesOf q.filter = .ok stages) :
    store.run? stages documents = some (documents.filter (q.passes store)) := by
  unfold passes
  cases hfilter : q.filter with
  | none =>
    rw [hfilter] at h
    cases h
    simp [ListStore.run?]
  | some filter =>
    rw [hfilter] at h
    obtain ⟨test, htest, rfl⟩ := bind₁_eq_ok.mp h
    simp only [htest]
    rw [ListStore.run?_singleton, ListStore.stage?_match]

namespace Course

variable {subselect : List Token → Compiled Subselect} {scope : Scope} {tokens : List Token}

/-- A query that only counts has neither a grouping nor DISTINCT. -/
theorem plain_of_count (course : Course subselect scope tokens q) (h : q.shape = .count) :
    q.grouping = none ∧ q.having = none ∧ q.distinct = none := by
  have hcounts : course.outline.countsOnly = true := by
    have hshape := course.shape_eq.symm.trans h
    by_contra hnot
    rw [if_neg hnot] at hshape
    split at hshape <;> cases hshape
  have hungrouped := hcounts
  rw [Outline.countsOnly, Outline.isUngrouped] at hungrouped
  simp only [Bool.and_eq_true, Option.isNone_iff_eq_none, Bool.not_eq_true'] at hungrouped
  obtain ⟨⟨⟨hexplicit, -⟩, hdistinct⟩, -⟩ := hungrouped
  have hplan : course.outline.plan course.afterKeys.position = none := by
    rw [Outline.plan, hexplicit, hcounts]
    rfl
  have hasked : course.distinct = false := by
    rw [course.outline_eq] at hdistinct
    exact hdistinct
  -- without a plan nothing is grouped, and HAVING is not read
  have hplanned := course.planned_eq
  rw [hplan] at hplanned
  have hhaving := course.having_eq
  rw [← Except.ok.inj hplanned] at hhaving
  obtain ⟨hnone, hhaving⟩ := Prod.mk.inj (Except.ok.inj hhaving)
  have hgrouped := (Prod.mk.inj hhaving).1
  have hrows := course.rows_eq
  rw [hasked, if_neg Bool.false_ne_true] at hrows
  have hresolved := course.resolved_eq
  rw [hasked, ← hgrouped] at hresolved
  refine ⟨?_, hnone.symm, (Except.ok.inj hrows).symm⟩
  cases hsorting : course.sorting with
  | none =>
    rw [hsorting] at hresolved
    exact (Prod.mk.inj (Except.ok.inj hresolved)).2.symm
  | some sorting =>
    rw [hsorting] at hresolved
    obtain ⟨sorted, -, hresolved⟩ := bind_eq_ok.mp hresolved
    exact (Prod.mk.inj (Except.ok.inj hresolved)).2.symm

theorem limit_ne_zero (course : Course subselect scope tokens q) (h : q.window = some w) :
    w.limit ≠ some 0 := by
  have hwindow := course.window_eq
  rw [h] at hwindow
  exact Window.limit_ne_zero hwindow

end Course

/-- The row that the store counts: the number of documents that pass and are not cut off. -/
def countedRow (q : Select) (store : ListStore) (documents : List Value) : Row :=
  [.int (q.cut (documents.filter (q.passes store))).length]

/-- The rows that are asked for: the number of documents that pass, unless that row is cut off. -/
def wantedRows (q : Select) (store : ListStore) (documents : List Value) : List Row :=
  q.cut [[.int (documents.filter (q.passes store)).length]]

theorem countedRow_eq_iff {store : ListStore} {documents : List Value}
    (hlimit : ∀ w, q.window = some w → w.limit ≠ some 0) :
    [q.countedRow store documents] = q.wantedRows store documents ↔
      ∀ w, q.window = some w → w.offset.getD 0 = 0 ∧
        ∀ n, w.limit = some n → (documents.filter (q.passes store)).length ≤ n := by
  unfold countedRow wantedRows cut
  cases hwindow : q.window with
  | none => simp
  | some w =>
    simp only [Window.cut_singleton (hlimit w hwindow), Option.some.injEq, forall_eq']
    by_cases hoffset : w.offset.getD 0 = 0
    · rw [if_pos hoffset, Window.length_cut, hoffset]
      cases hn : w.limit with
      | none => simp
      | some n =>
        simp only [Nat.sub_zero, cons.injEq, Value.int.injEq, and_true, true_and,
          Option.some.injEq, forall_eq']
        omega
    · simp [hoffset]

/-- WHERE, ORDER BY and the bounds leave as many documents as pass and are not cut off. -/
theorem run?_clauses {store : ListStore} {filter sorting window : List Value}
    (documents : List Value) (hfilter : Clause.stagesOf q.filter = .ok filter)
    (hsorting : Clause.stagesOf q.sorting = .ok sorting)
    (hwindow : Clause.stagesOf q.window = .ok window) :
    ∃ left, store.run? (filter ++ sorting ++ window) documents = some left ∧
      left.length = (q.cut (documents.filter (q.passes store))).length := by
  rw [ListStore.run?_append, ListStore.run?_append, run?_filter documents hfilter, Option.bind_some]
  have hordered : ∃ ordered, store.run? sorting (documents.filter (q.passes store)) = some ordered ∧
        ordered.length = (documents.filter (q.passes store)).length := by
    cases hs : q.sorting with
    | none =>
      rw [hs] at hsorting
      cases hsorting
      exact ⟨_, rfl, rfl⟩
    | some order =>
      rw [hs] at hsorting
      exact ListStore.run?_sorting hsorting
  obtain ⟨ordered, hrun, hlength⟩ := hordered
  rw [hrun, Option.bind_some]
  refine ⟨q.cut ordered, ?_, length_cut hlength⟩
  unfold cut
  cases hw : q.window with
  | none =>
    rw [hw] at hwindow
    cases hwindow
    rfl
  | some w =>
    rw [hw] at hwindow
    exact ListStore.run?_window hwindow

/-- A query that only counts is sent as its clauses and a count behind them. -/
theorem command_of_count {command : SelectCommand} (hshape : q.shape = .count)
    (hgrouping : q.grouping = none) (hhaving : q.having = none) (hdistinct : q.distinct = none)
    (h : q.command = .ok command) :
    ∃ filter sorting window, Clause.stagesOf q.filter = .ok filter ∧
      Clause.stagesOf q.sorting = .ok sorting ∧ Clause.stagesOf q.window = .ok window ∧
      command = .aggregate q.collection
        (q.joins.flatMap Join.stages ++ q.nested.flatMap NestedList.stages ++
          (filter ++ sorting ++ window ++ [.field "$count" (.string "_count")])) := by
  have hneeds : q.needsPipeline = true := by simp [needsPipeline, hshape, RowShape.isDocuments]
  rw [Select.command, if_pos hneeds] at h
  obtain ⟨pipeline, hpipeline, rfl⟩ := bind₁_eq_ok.mp h
  obtain ⟨parts, rfl⟩ := parts_of_pipeline hpipeline
  have hnone : parts.grouping = [] := (Except.ok.inj (hgrouping ▸ parts.grouping_eq)).symm
  have hnone' : parts.having = [] := (Except.ok.inj (hhaving ▸ parts.having_eq)).symm
  have hnone'' : parts.distinct = [] := (Except.ok.inj (hdistinct ▸ parts.distinct_eq)).symm
  have hlast := parts.last_eq
  rw [lastStages, hshape] at hlast
  refine ⟨parts.filter, parts.sorting, parts.window, parts.filter_eq, parts.sorting_eq,
    parts.window_eq, ?_⟩
  rw [PipelineParts.stages, hnone, hnone', hnone'', ← Except.ok.inj hlast]
  simp

/-- From the number of some documents the reader gets one row. -/
theorem expected_count (documents : List Value) (enforceSchema : Bool) :
    Rows.expected .count enforceSchema ((ListStore.count "_count" documents).map .ok) =
      [.ok [.int documents.length]] := by
  cases documents with
  | nil => rfl
  | cons document documents =>
    show [Except.ok [Value.int (Rows.counted (.ok (.field "_count" (.int _)) :: []))]] = _
    rw [Rows.counted_field]

/-- **The row of a counting query.**  Take a query that counts rows and nothing else, any store
that carries out stages on lists, and any documents that the joins and the sub-selects leave to
it.  The stages behind those give a result, and from it the reader gets one row: the number of
documents that pass WHERE and that LIMIT and OFFSET leave.  That is what is asked for, the number
of all that pass in a row that LIMIT and OFFSET may cut off, exactly if there is no OFFSET above
zero and no LIMIT below that number. -/
theorem count_rows_iff {subselect : List Token → Compiled Subselect} {scope : Scope}
    {tokens : List Token} {command : SelectCommand}
    (hq : Select.read subselect scope tokens = .ok q) (hshape : q.shape = .count)
    (hcommand : q.command = .ok command) (store : ListStore) (documents : List Value) :
    ∃ stages result,
      command = .aggregate q.collection
        (q.joins.flatMap Join.stages ++ q.nested.flatMap NestedList.stages ++ stages) ∧
      store.run? stages documents = some result ∧
      (∀ enforceSchema sql params n,
        ((Rows.opened (result.map .ok) q.shape enforceSchema sql params).serveAll
          (List.replicate n .next)).next.1 =
            [Except.ok (q.countedRow store documents)][n]?) ∧
      ([q.countedRow store documents] = q.wantedRows store documents ↔
        ∀ w, q.window = some w → w.offset.getD 0 = 0 ∧
          ∀ n, w.limit = some n → (documents.filter (q.passes store)).length ≤ n) := by
  obtain ⟨course⟩ := course_of_read hq
  obtain ⟨hgrouping, hhaving, hdistinct⟩ := course.plain_of_count hshape
  obtain ⟨filter, sorting, window, hfilter, hsorting, hwindow, rfl⟩ :=
    command_of_count hshape hgrouping hhaving hdistinct hcommand
  obtain ⟨left, hrun, hlength⟩ := run?_clauses documents hfilter hsorting hwindow
  refine ⟨_, ListStore.count "_count" left, rfl, ?_, ?_,
    countedRow_eq_iff fun w hw => course.limit_ne_zero hw⟩
  · rw [ListStore.run?_append, hrun, Option.bind_some, ListStore.run?_singleton,
      ListStore.stage?_count]
  · intro enforceSchema sql params n
    rw [Rows.next_serveAll_replicate, Rows.due_opened, hshape, expected_count, countedRow, hlength]

/-! ### A count with an offset

The first document is not counted, and the row with the number stays. -/

namespace OffsetCount

def tokens : List Token :=
  [.keyword .SELECT, .call "COUNT" [[.wildcard]], .keyword .FROM, .name none "t",
    .keyword .OFFSET, .literal (.int 1)]

def query : Select where
  source := ⟨⟨"t", "t"⟩, ⟨2, 4⟩⟩
  joins := []
  nested := []
  columns := { items := [⟨.countAll, "count_all", none⟩], span := ⟨1, 2⟩ }
  filter := none
  grouping := none
  having := none
  distinct := none
  sorting := none
  window := some ⟨none, some 1, ⟨4, 6⟩⟩
  shape := .count

set_option maxRecDepth 8000 in
theorem compiles : Select.compile [] tokens = .ok query := by with_unfolding_all rfl

def command : SelectCommand :=
  .aggregate "t" [.field "$skip" (.int 1), .field "$count" (.string "_count")]

/-- A store in which every document passes and the order is that of the documents. -/
def store : ListStore where
  passes _ _ := true
  sorted _ documents := documents
  sorted_perm _ documents := .refl documents
  extended _ document := document

/-- Without documents the reader gets a row with zero, where no row is asked for. -/
theorem count_keeps_row :
    Select.compile [] tokens = .ok query ∧ query.command = .ok command ∧
      query.countedRow store [] = [.int 0] ∧ query.wantedRows store [] = [] ∧
      ∃ result, store.run? [.field "$skip" (.int 1), .field "$count" (.string "_count")] [] =
          some result ∧
        (Rows.opened (result.map .ok) query.shape false "" []).next.1 = some (.ok [.int 0]) := by
  have hread : Select.read (Select.subselectWithin [] (Token.depthAll tokens)) { params := [] }
      tokens = .ok query := compiles
  have hcommand : query.command = .ok command := rfl
  obtain ⟨stages, result, hstages, hrun, hrows, -⟩ := count_rows_iff hread rfl hcommand store []
  obtain rfl : _ = stages := (SelectCommand.aggregate.inj hstages).2
  exact ⟨compiles, hcommand, rfl, rfl, result, hrun, hrows false "" [] 0⟩

end OffsetCount
end Select
end DocSql
