import DocSql.Proofs.ClauseTiling

/-! # Searches and pipelines

A query that needs no pipeline is sent as a search.  It can still be written as a pipeline, and the
two say the same: `FindArgs.stages` reads the arguments of the search as stages, and these are the
pipeline.  What makes that true of a query is collected in `Select.Plain`, and a query that needs no
pipeline has all of it.
-/
namespace DocSql

open Compiled List

/-- Whether a fault asks for a pipeline in place of a search. -/
def Fault.asksForPipeline : Fault → Bool
  | .undecodable (.clauseNeedsPipeline ..) | .undecodable .columnsNeedPipeline
  | .undecodable .orderNeedsPipeline => true
  | _ => false

namespace FindArgs

/-- The stage that keeps the documents that pass the filter. -/
def filterStages (args : FindArgs) : List Value :=
  args.filter.toList.map fun test => .field "$match" test

/-- The stage that sorts.  A field that is named twice keeps its first place and takes the last
direction. -/
def sortStages (args : FindArgs) : List Value :=
  if args.sort.isEmpty then []
  else [.field "$sort" (.object (Entries.insertAll []
    (args.sort.map fun (field, direction) => (field, direction.value))))]

/-- The stages that leave out rows and cut off the rest. -/
def windowStages (args : FindArgs) : List Value :=
  (args.skip.toList.map fun (n : Nat) => Value.field "$skip" (.int n)) ++
    args.limit.toList.map fun (n : Nat) => Value.field "$limit" (.int n)

/-- The stage that keeps the wanted fields. -/
def projectStage (args : FindArgs) : Value :=
  .field "$project" (.object (args.projection.map fun name => (name, .bool true)))

/-- The stages that do what a search with the given arguments does. -/
def stages (args : FindArgs) : List Value :=
  args.filterStages ++ args.sortStages ++ args.windowStages ++ [args.projectStage]

end FindArgs

/-! ### Clauses of a search -/

theorem Columns.mapM_project {columns : Columns} (hunmade : columns.materialized = false) :
    ∀ {items : List SelectItem}, (∀ item ∈ items, item.isPlain = true) →
      items.mapM columns.project = .ok (items.map fun item => (item.name, .bool true))
  | [], _ => rfl
  | item :: items, hplain => by
    obtain ⟨hitem, hitems⟩ := forall_mem_cons.mp hplain
    have hproject : columns.project item = .ok (item.name, .bool true) := by
      simp [Columns.project, hunmade, SelectItem.projection, hitem]
    rw [mapM_cons, hproject, Columns.mapM_project hunmade hitems]
    rfl

theorem Sorting.length_addPlain {columns : Columns} : ∀ {keys : List SortKey} {place : Nat}
    {sorting sorted : Sorting}, Sorting.addPlain columns place sorting keys = .ok sorted →
    sorted.fields.length = sorting.fields.length + keys.length
  | [], _, _, _, h => by
    cases h
    rfl
  | key :: keys, place, sorting, sorted, h => by
    obtain ⟨⟨field, value⟩, -, h⟩ := bind_eq_ok.mp h
    have hlength := Sorting.length_addPlain h
    simp only [length_append, length_cons, length_nil] at hlength ⊢
    omega

theorem Token.splitCommas_ne_nil {tokens : List Token} (h : tokens ≠ []) :
    Token.splitCommas tokens ≠ [] := by
  have hpieces : ∀ tokens : List Token, Token.splitCommas.pieces tokens ≠ [] := by
    intro tokens
    fun_induction Token.splitCommas.pieces tokens <;> simp_all
  simpa [Token.splitCommas, h] using hpieces tokens

/-- An order that is read has a key. -/
theorem Sorting.keys_ne_nil {r : Reading} {c c' : TokenCursor} {sorting : Sorting}
    (h : Sorting.read? r c = .ok (some sorting, c')) : sorting.keys ≠ [] := by
  obtain ⟨hnone, -⟩ | ⟨_, keys, -, htokens, hkeys, -, hsome⟩ := Sorting.read?_eq_ok h
  · cases hnone
  · cases hsome
    rintro rfl
    have hpieces := (forall₂_of_mapM hkeys).length_eq
    exact Token.splitCommas_ne_nil htokens (length_eq_zero_iff.mp hpieces)

namespace Select

/-- A query that a search can answer: one table, plain columns, and an order by stored fields. -/
structure Plain (q : Select) : Prop where
  joins : q.joins = []
  nested : q.nested = []
  grouping : q.grouping = none
  having : q.having = none
  distinct : q.distinct = none
  shape : q.shape.isDocuments = true
  unmade : q.columns.materialized = false
  columns : ∀ item ∈ q.columns.items, item.isPlain = true
  sorting : ∀ sorting ∈ q.sorting, sorting.computed = [] ∧ sorting.fields ≠ []

namespace Course

variable {subselect : List Token → Compiled Subselect} {scope : Scope} {tokens : List Token}
variable {q : Select}

/-- Without a grouping at the end there was none on the way, and HAVING was not read. -/
theorem ungrouped (course : Course subselect scope tokens q) (h : q.grouping = none) :
    course.grouped = none ∧ q.having = none := by
  have hgrouped : course.grouped = none := by
    have hplace := (place_resolveSorting course.resolved_eq).2
    rw [h] at hplace
    exact Option.map_eq_none_iff.mp hplace.symm
  have hplanned : course.planned = none := by
    have hplace := (readHaving_covers course.having_eq).2
    rw [hgrouped] at hplace
    exact Option.map_eq_none_iff.mp hplace.symm
  have hhaving := course.having_eq
  rw [hplanned] at hhaving
  exact ⟨hgrouped, (Prod.mk.inj (Except.ok.inj hhaving)).1.symm⟩

theorem undistinct (course : Course subselect scope tokens q) (h : q.distinct = none) :
    course.distinct = false := by
  have hrows := course.rows_eq
  cases hdistinct : course.distinct with
  | false => rfl
  | true =>
    rw [hdistinct, if_pos rfl] at hrows
    obtain ⟨rows, -, hrows⟩ := map_eq_ok.mp hrows
    rw [h] at hrows
    cases hrows

/-- A query that needs no pipeline is plain. -/
theorem plain (course : Course subselect scope tokens q) (h : q.needsPipeline = false) :
    q.Plain := by
  simp only [needsPipeline, Bool.or_eq_false_iff, Bool.not_eq_false', List.isEmpty_iff,
    Option.isSome_eq_false_iff, Option.isNone_iff_eq_none] at h
  obtain ⟨⟨⟨⟨⟨⟨hjoins, hnested⟩, hgrouping⟩, hdistinct⟩, hshape⟩, hcolumns⟩, hsorting⟩ := h
  obtain ⟨hgrouped, hhaving⟩ := course.ungrouped hgrouping
  have hplain := course.undistinct hdistinct
  refine { joins := hjoins, nested := hnested, grouping := hgrouping, having := hhaving,
           distinct := hdistinct, shape := hshape, unmade := ?_, columns := ?_, sorting := ?_ }
  · rw [course.items_eq, hgrouped, hplain]
    rfl
  · simpa [Columns.needsPipeline] using hcolumns
  · intro sorting hsome
    have hresolved := course.resolved_eq
    rw [hgrouped, hplain, hsome] at hresolved
    have hcomputed : sorting.computed = [] := by
      rw [hsome] at hsorting
      simpa [Sorting.needsPipeline] using hsorting
    -- the fields are those of the keys, of which there is at least one
    cases hread : course.sorting with
    | none =>
      rw [hread] at hresolved
      exact nomatch (Prod.mk.inj (Except.ok.inj hresolved)).1
    | some asked =>
      have hkeys := course.sorting_eq
      rw [hread] at hresolved hkeys
      obtain ⟨s, hs, hresolved⟩ := bind_eq_ok.mp hresolved
      obtain rfl := Option.some.inj (Prod.mk.inj (Except.ok.inj hresolved)).1
      have hlength := Sorting.length_addPlain hs
      have hpos := length_pos_of_ne_nil (Sorting.keys_ne_nil hkeys)
      refine ⟨hcomputed, ne_nil_of_length_pos ?_⟩
      rw [hlength]
      exact Nat.add_pos_right _ hpos

end Course

namespace Plain

variable {q : Select}

theorem stages_columns (hq : q.Plain) : Clause.stages q.columns =
      .ok [.field "$project" (.object (q.columns.names.map fun name => (name, .bool true)))] := by
  simp [Clause.stages, Columns.mapM_project hq.unmade hq.columns, Columns.names, map_map,
    Function.comp_def]

theorem find_columns (hq : q.Plain) (args : FindArgs) :
    Clause.find q.columns args = .ok { args with projection := q.columns.names } := by
  have hplain : q.columns.needsPipeline = false := by
    simpa [Columns.needsPipeline] using hq.columns
  simp [Clause.find, hplain]

/-- The filter of a search is the test of the stage. -/
theorem find_filter (q : Select) : ∃ test : Compiled (Option Value), FaultsIn Fault.OfWriting test ∧
    Clause.stagesOf q.filter = (fun t => FindArgs.filterStages { filter := t }) <$> test ∧
    ∀ args : FindArgs, args.filter = none →
      Clause.findOf q.filter args = (fun t => { args with filter := t }) <$> test := by
  cases q.filter with
  | none =>
    refine ⟨.ok none, faultsIn_ok _, rfl, ?_⟩
    rintro ⟨⟩ ⟨⟩
    rfl
  | some filter =>
    refine ⟨some <$> filter.condition.filter, ?_, ?_, ?_⟩
    · exact faultsIn_map.mpr (Condition.faultsIn_filter _)
    · simp only [Clause.stagesOf, Clause.stages]
      cases filter.condition.filter <;> rfl
    · intro args _
      simp only [Clause.findOf, Clause.find]
      cases filter.condition.filter <;> rfl

theorem find_sorting (hq : q.Plain) : ∃ sort : List (String × Direction),
    Clause.stagesOf q.sorting = .ok (FindArgs.sortStages { sort }) ∧
    ∀ args : FindArgs, args.sort = [] → Clause.findOf q.sorting args = .ok { args with sort } := by
  cases hsorting : q.sorting with
  | none =>
    refine ⟨[], rfl, ?_⟩
    rintro ⟨⟩ ⟨⟩
    rfl
  | some sorting =>
    obtain ⟨hcomputed, hfields⟩ := hq.sorting sorting hsorting
    refine ⟨sorting.fields, ?_, fun args _ => ?_⟩
    · simp [Clause.stagesOf, Clause.stages, Sorting.needsPipeline, hcomputed, hfields,
        Sorting.document, FindArgs.sortStages]
    · simp [Clause.findOf, Clause.find, Sorting.needsPipeline, hcomputed]

theorem find_window (q : Select) : ∃ limit skip : Option Nat,
    Clause.stagesOf q.window = .ok (FindArgs.windowStages { limit, skip }) ∧
    ∀ args : FindArgs, args.limit = none → args.skip = none →
      Clause.findOf q.window args = .ok { args with limit, skip } := by
  cases q.window with
  | none =>
    refine ⟨none, none, rfl, ?_⟩
    rintro ⟨⟩ ⟨⟩ ⟨⟩
    rfl
  | some window => exact ⟨window.limit, window.offset, rfl, fun _ _ _ => rfl⟩

/-- The pipeline of a plain query is that of its search, which fails only where the filter cannot be
written. -/
theorem pipeline_eq (hq : q.Plain) :
    q.pipeline = FindArgs.stages <$> q.findArgs ∧ FaultsIn Fault.OfWriting q.findArgs := by
  obtain ⟨test, hfaults, hfilter, hfindFilter⟩ := find_filter q
  obtain ⟨sort, hsorting, hfindSorting⟩ := hq.find_sorting
  obtain ⟨limit, skip, hwindow, hfindWindow⟩ := find_window q
  have hfind : q.findArgs = (fun t => FindArgs.mk t q.columns.names sort limit skip) <$> test := by
    rw [findArgs, hq.find_columns, ok_bind, hfindFilter _ rfl]
    cases test with
    | error f => rfl
    | ok t =>
      show Clause.findOf q.sorting _ >>= _ = _
      rw [hfindSorting _ rfl]
      exact hfindWindow _ rfl rfl
  refine ⟨?_, hfind ▸ faultsIn_map.mpr hfaults⟩
  rw [hfind, pipeline, hfilter, hsorting, hwindow, lastStages, hq.shape, if_pos rfl,
    hq.stages_columns, hq.joins, hq.nested, hq.grouping, hq.having, hq.distinct]
  cases test with
  | error f => rfl
  | ok t =>
    show Except.ok _ = Except.ok _
    simp [FindArgs.stages, FindArgs.filterStages, FindArgs.sortStages, FindArgs.windowStages,
      FindArgs.projectStage]

end Plain

/-- **Searches and pipelines agree.**  The pipeline of an accepted query that needs none is made of
the stages of its search, and fails where the search does.  So its command never fails because a
clause would need a pipeline. -/
theorem pipeline_eq_find {scope : Scope} {tokens : List Token} {q : Select}
    (h : Select.compileIn scope tokens = .ok q) (hplain : q.needsPipeline = false) :
    q.pipeline = FindArgs.stages <$> q.findArgs ∧
      ∀ f, q.command = .error f → f.asksForPipeline = false := by
  obtain ⟨course⟩ := course_of_read h
  obtain ⟨hpipeline, hfaults⟩ := (course.plain hplain).pipeline_eq
  refine ⟨hpipeline, ?_⟩
  have hcommand : FaultsIn Fault.OfWriting q.command := by
    unfold command
    rw [hplain, if_neg Bool.false_ne_true]
    exact hfaults.bind_ok
  intro f hf
  cases hcommand f hf with
  | aggregate fn => rfl
  | unsupported what => rfl

end Select

namespace Select.Sample

/-- A query that a search can answer. -/
def plainQuery : List Token := [.keyword .SELECT, .name none "a", .punctuation ',', .name none "b",
    .keyword .FROM, .name none "t",
    .keyword .WHERE, .comparison (.name none "a") .gt (.literal (.int 1)),
    .keyword .ORDER_BY, .name none "b", .keyword .DESC, .punctuation ',', .name none "a",
    .keyword .LIMIT, .literal (.int 3), .keyword .OFFSET, .literal (.int 1)]

/-- The arguments of its search. -/
def plainArgs : FindArgs :=
  { filter := some (.field "a" (.field "$gt" (.int 1))), projection := ["a", "b"],
    sort := [("b", .descending), ("a", .ascending)], limit := some 3, skip := some 1 }

/-- The stages of its pipeline. -/
def plainStages : List Value := [.field "$match" (.field "a" (.field "$gt" (.int 1))),
    .field "$sort" (.object [("b", .int (-1)), ("a", .int 1)]),
    .field "$skip" (.int 1), .field "$limit" (.int 3),
    .field "$project" (.object [("a", .bool true), ("b", .bool true)])]

set_option maxRecDepth 8000 in
theorem compile_plainQuery : (Select.compileIn { params := [] } plainQuery).toOption.map
    (fun q => (q.needsPipeline, q.findArgs)) = some (false, .ok plainArgs) := by
  with_unfolding_all rfl

theorem plainQuery_pipeline : ∃ q, Select.compileIn { params := [] } plainQuery = .ok q ∧
    q.needsPipeline = false ∧ q.findArgs = .ok plainArgs ∧ q.pipeline = .ok plainStages := by
  obtain ⟨q, hq, hargs⟩ := Option.map_eq_some_iff.mp compile_plainQuery
  obtain ⟨hplain, hfind⟩ := Prod.mk.inj hargs
  have hcompiles := Compiled.toOption_eq_some.mp hq
  have hpipeline := (pipeline_eq_find hcompiles hplain).1
  rw [hfind] at hpipeline
  exact ⟨q, hcompiles, hplain, hfind, hpipeline⟩

end Select.Sample
end DocSql
