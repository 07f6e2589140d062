import DocSql.Proofs.ClauseReading

/-! # Clauses tile the statement

The spans of the clauses, in the order of the text, lie side by side from the token after SELECT to
the last one.  Planning, HAVING and ORDER BY change the clauses that were read before them, but not
the places of these.
-/
namespace DocSql
open Compiled List

variable {columns : Columns}

/-- Whether the span holds the token at a place. -/
def Span.covers (s : Span) (i : Nat) : Bool := s.start ≤ i && i < s.stop

theorem Span.Tiles.countP_eq_zero : ∀ {spans : List Span} {start stop i : Nat},
    Span.Tiles start spans stop → i < start → (spans.countP fun s => s.covers i) = 0
  | [], _, _, _, _, _ => rfl
  | s :: rest, start, stop, i, ⟨hstart, hle, hrest⟩, hi => by
    have hnot : s.covers i = false := by
      simp [Span.covers]
      omega
    rw [countP_cons_of_neg (by simp [hnot]), hrest.countP_eq_zero (by omega)]

/-- Spans side by side hold each token between their ends once. -/
theorem Span.Tiles.countP_covers : ∀ {spans : List Span} {start stop i : Nat},
    Span.Tiles start spans stop → start ≤ i → i < stop →
    (spans.countP fun s => s.covers i) = 1
  | [], start, stop, i, h, hfrom, hto => by
    cases h
    omega
  | s :: rest, start, stop, i, ⟨hstart, hle, hrest⟩, hfrom, hto => by
    by_cases hi : i < s.stop
    · have hin : s.covers i = true := by
        simp [Span.covers]
        omega
      rw [countP_cons_of_pos (by simp [hin]), hrest.countP_eq_zero hi]
    · have hout : s.covers i = false := by
        simp [Span.covers]
        omega
      rw [countP_cons_of_neg (by simp [hout]), hrest.countP_covers (by omega) hto]

/-! ### The place of a grouping -/

theorem Grouping.place_addOutputs {g g' : Grouping} (h : g.addOutputs columns = .ok g') :
    g'.place = g.place := by
  obtain ⟨⟨⟨⟩, g₁⟩, hrun, h⟩ := bind_eq_ok.mp h
  cases h
  exact ((Grouping.steady_addItems (P := fun _ => True) (fun _ _ _ _ => trivial) g).2 _ _ hrun).1

namespace Select

theorem place_planned {plan planned : Option Grouping}
    (h : (plan.mapM fun g => g.addOutputs columns) = .ok planned) :
    planned.map Grouping.place = plan.map Grouping.place := by
  cases plan with
  | none =>
    cases h
    rfl
  | some g =>
    obtain ⟨g', hadd, rfl⟩ := bind₁_eq_ok.mp h
    exact congrArg some (Grouping.place_addOutputs hadd)

end Select

theorem Sorting.span_addPlain : ∀ {keys : List SortKey} {place : Nat}
    {sorting sorted : Sorting}, Sorting.addPlain columns place sorting keys = .ok sorted →
    sorted.span = sorting.span
  | [], _, _, _, h => by
    cases h
    rfl
  | key :: keys, place, sorting, sorted, h => by
    obtain ⟨⟨field, value⟩, -, h⟩ := bind_eq_ok.mp h
    have hspan := Sorting.span_addPlain h
    exact hspan

/-- Resolving an order changes neither its place nor that of the grouping. -/
theorem Select.place_resolveSorting {distinct : Bool} {sorting sorted : Option Sorting}
    {grouped final : Option Grouping}
    (h : resolveSorting columns distinct sorting grouped = .ok (sorted, final)) :
    sorted.map (·.span) = sorting.map (·.span) ∧
      final.map Grouping.place = grouped.map Grouping.place := by
  unfold resolveSorting at h
  split at h
  · cases h
    exact ⟨rfl, rfl⟩
  · split at h
    · obtain ⟨s, hs, h⟩ := bind_eq_ok.mp h
      cases h
      obtain ⟨fields, -, hs⟩ := bind_eq_ok.mp hs
      cases hs
      exact ⟨rfl, rfl⟩
    · rename_i clause _ _ g
      obtain ⟨⟨s, g₁⟩, hs, h⟩ := bind_eq_ok.mp h
      cases h
      obtain ⟨⟨fields, g₂⟩, hrun, hs⟩ := bind_eq_ok.mp hs
      cases hs
      have hsteady : Planning.Steady (fun _ => True) (Sorting.exposeKeys columns clause.keys) :=
        Sorting.steady_exposeKeys fun _ _ _ _ => trivial
      exact ⟨rfl, congrArg some ((hsteady g).2 _ _ hrun).1⟩
    · obtain ⟨s, hs, h⟩ := bind_eq_ok.mp h
      cases h
      have hspan := Sorting.span_addPlain hs
      exact ⟨congrArg some hspan, rfl⟩

namespace Select

/-- The spans of the clauses, in the order of the text. -/
def spans (q : Select) : List Span :=
  q.distinct.toList.map Clause.span ++ [Clause.span q.columns, Clause.span q.source] ++
    q.joins.map Clause.span ++ q.filter.toList.map Clause.span ++
    q.grouping.toList.map Clause.span ++ q.having.toList.map Clause.span ++
    q.sorting.toList.map Clause.span ++ q.window.toList.map Clause.span

namespace Course

variable {subselect : List Token → Compiled Subselect} {scope : Scope} {tokens : List Token}
variable {q : Select}

theorem start_eq (course : Course subselect scope tokens q) :
    tokens.head? = some (.keyword .SELECT) ∧ course.start = ⟨tokens, 1⟩ := by
  obtain ⟨hpeek, hstart⟩ := TokenCursor.eat?_eq_some course.selects
  refine ⟨?_, hstart⟩
  rwa [TokenCursor.peek, TokenCursor.peekAt, ← head?_eq_getElem?] at hpeek

theorem covers_distinct (course : Course subselect scope tokens q) :
    course.start.Covers (q.distinct.toList.map Clause.span) course.listStart := by
  have hread := course.distinct_eq
  have hrows := course.rows_eq
  unfold readDistinct at hread
  split at hread
  · rename_i c heat
    obtain ⟨hdistinct, hc⟩ := Prod.mk.inj hread
    rw [← hdistinct, if_pos rfl] at hrows
    obtain ⟨⟨shape, span⟩, hd, hrows⟩ := map_eq_ok.mp hrows
    obtain ⟨fields, -, hd⟩ := bind_eq_ok.mp hd
    cases hd
    rw [← hrows, ← hc]
    have hcovers := TokenCursor.Covers.one (TokenCursor.reaches_eat heat)
    obtain ⟨-, rfl⟩ := TokenCursor.eat?_eq_some heat
    exact hcovers
  · obtain ⟨hdistinct, hc⟩ := Prod.mk.inj hread
    rw [← hdistinct, if_neg Bool.false_ne_true] at hrows
    rw [← Except.ok.inj hrows, ← hc]
    exact .nil course.start

theorem covers_columns (course : Course subselect scope tokens q) :
    course.listStart.Covers [Clause.span q.columns] course.listEnd := by
  have hcolumns := course.columns_eq
  unfold Columns.read at hcolumns
  split at hcolumns
  · cases hcolumns
  · obtain ⟨items, -, hcolumns⟩ := bind_eq_ok.mp hcolumns
    have hreaches := TokenCursor.reaches_takeUntil course.listStart (Token.isKeyword .FROM)
    obtain ⟨hlist, hend⟩ := Prod.mk.inj course.list_eq
    have hspan : Clause.span q.columns = .between course.listStart course.listEnd := by
      rw [course.items_eq, ← Except.ok.inj hcolumns, ← hlist, ← hend]
      rfl
    rw [hspan]
    exact .one (hend ▸ hreaches)

/-- The grouping stands where its clause was read; one without a clause has no tokens. -/
theorem covers_grouping (course : Course subselect scope tokens q) :
    course.afterFilter.Covers (q.grouping.toList.map Clause.span) course.afterKeys ∧
      ∀ g ∈ q.grouping, g.explicit = false → g.span.start = g.span.stop := by
  obtain ⟨hcovers, hexplicit⟩ := Grouping.read_covers course.explicit_eq
  -- planning, HAVING and ORDER BY leave the grouping where the outline puts it
  have hplace : q.grouping.map Grouping.place =
      (course.outline.plan course.afterKeys.position).map Grouping.place :=
    ((place_resolveSorting course.resolved_eq).2.trans
      (readHaving_covers course.having_eq).2).trans (place_planned course.planned_eq)
  rw [course.outline_eq, Outline.plan] at hplace
  cases hgrouping : course.explicit with
  | some g =>
    rw [hgrouping] at hcovers hplace hexplicit
    obtain ⟨g', hg', hplace⟩ := Option.map_eq_some_iff.mp hplace
    obtain ⟨hspan, hkind⟩ := Prod.mk.inj hplace
    rw [hg']
    refine ⟨?_, ?_⟩
    · simpa [Clause.span, hspan] using hcovers
    · rintro _ ⟨⟩ hnot
      rw [hkind, hexplicit g rfl] at hnot
      cases hnot
  | none =>
    rw [hgrouping] at hcovers hplace
    have hat : course.afterFilter.position = course.afterKeys.position := hcovers.tiles
    simp only at hplace
    split at hplace
    · obtain ⟨g', hg', hplace⟩ := Option.map_eq_some_iff.mp hplace
      obtain ⟨hspan, -⟩ := Prod.mk.inj hplace
      rw [hg']
      refine ⟨⟨hcovers.toReaches, ?_⟩, ?_⟩
      · simp [Clause.span, hspan, Span.Tiles, Grouping.implicit, hat]
      · rintro _ ⟨⟩ -
        rw [hspan]
        rfl
    · rw [Option.map_eq_none_iff.mp hplace]
      exact ⟨hcovers, by simp⟩

/-- The clauses cover the tokens from SELECT on. -/
theorem covers (course : Course subselect scope tokens q) :
    course.start.Covers q.spans course.afterWindow := by
  have hjoins : course.afterSource.Covers (q.joins.map Clause.span) course.afterJoins := by
    rw [course.fill_eq, map_map]
    exact (readJoins_covers course.joins_eq).1
  have hsorting : course.afterHaving.Covers (q.sorting.toList.map Clause.span)
      course.afterSorting := by
    have hspan := (place_resolveSorting course.resolved_eq).1
    have hread := Sorting.read_covers course.sorting_eq
    rw [← Option.toList_map, ← hspan, Option.toList_map] at hread
    exact hread
  have hlist := course.covers_columns.append (Source.read_covers course.source_eq)
  exact ((((((course.covers_distinct.append hlist).append hjoins).append
    (Filter.read_covers course.filter_eq).1).append course.covers_grouping.1).append
    (readHaving_covers course.having_eq).1).append hsorting).append
    (Window.read_covers course.window_eq)

end Course

/-- **Clauses tile the statement.**  The spans of the clauses of an accepted query start right after
SELECT, each where the one before it ends, and end with the tokens; a grouping that no clause asks for
has an empty one.  So each token after SELECT belongs to exactly one clause. -/
theorem clauses_tile {scope : Scope} {tokens : List Token} {q : Select}
    (h : Select.compileIn scope tokens = .ok q) :
    tokens.head? = some (.keyword .SELECT) ∧
      Span.Tiles 1 q.spans tokens.length ∧
      (∀ g ∈ q.grouping, g.explicit = false → g.span.start = g.span.stop) ∧
      ∀ i, 1 ≤ i → i < tokens.length → (q.spans.countP fun s => s.covers i) = 1 := by
  obtain ⟨course⟩ := course_of_read h
  obtain ⟨hhead, hstart⟩ := course.start_eq
  have hcovers := course.covers
  rw [hstart] at hcovers
  have hend : course.afterWindow.position = tokens.length := by
    have hlt : ¬course.afterWindow.position < course.afterWindow.tokens.length := by
      intro hlt
      have := course.ends
      simp [TokenCursor.peek, TokenCursor.peekAt] at this
      omega
    have hinside := hcovers.inside (by
      cases tokens with
      | nil => cases hhead
      | cons => simp)
    rw [hcovers.tokens] at hlt hinside
    show _ = tokens.length
    simp only at hlt hinside
    omega
  have htiles := hcovers.tiles
  rw [hend] at htiles
  exact ⟨hhead, htiles, course.covers_grouping.2, fun i hfrom hto => htiles.countP_covers hfrom hto⟩

end Select

namespace Select.Sample

/-- A query with every clause, and a grouping that no clause asks for. -/
def everyClause : List Token :=
  [.keyword .SELECT, .keyword .DISTINCT, .aliased (.call "COUNT" [[.name none "a"]]) "n",
    .keyword .FROM, .name none "t",
    .keyword .JOIN, .name none "u", .keyword .ON,
    .paren [.comparison (.name (some "t") "a") .eq (.name (some "u") "b")],
    .keyword .WHERE, .comparison (.name none "a") .gt (.literal (.int 1)),
    .keyword .HAVING, .comparison (.call "COUNT" [[.name none "a"]]) .gt (.literal (.int 2)),
    .keyword .ORDER_BY, .name none "n",
    .keyword .LIMIT, .literal (.int 3), .keyword .OFFSET, .literal (.int 1)]

/-- The spans of its clauses, of which the sixth is that of the grouping. -/
def everySpan : List Span :=
  [⟨1, 2⟩, ⟨2, 3⟩, ⟨3, 5⟩, ⟨5, 9⟩, ⟨9, 11⟩, ⟨11, 11⟩, ⟨11, 13⟩, ⟨13, 15⟩, ⟨15, 19⟩]

set_option maxRecDepth 8000 in
theorem spans_everyClause :
    (Select.compileIn { params := [] } everyClause).toOption.map Select.spans = some everySpan := by
  with_unfolding_all rfl

theorem everyClause_tiles : ∃ q, Select.compileIn { params := [] } everyClause = .ok q ∧
    q.spans = everySpan ∧ Span.Tiles 1 everySpan 19 := by
  obtain ⟨q, hq, hspans⟩ := Option.map_eq_some_iff.mp spans_everyClause
  have hcompiles := Compiled.toOption_eq_some.mp hq
  have htiles := (clauses_tile hcompiles).2.1
  rw [hspans] at htiles
  exact ⟨q, hcompiles, hspans, htiles⟩

end Select.Sample
end DocSql
