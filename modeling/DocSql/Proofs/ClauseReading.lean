import DocSql.Proofs.ConditionCells
import DocSql.Proofs.PlanSteps
import DocSql.Select.Compile

/-! # Reading clauses

Each clause of a query is read from a place in the tokens on, and leaves the place behind it and its
own span.  Some are read keyword by keyword, some up to the next clause, and LIMIT and OFFSET as far
as they go; `TokenCursor.Covers` says the same of all of them.  `Select.Course` is a query that has
been read, with the places and scopes on the way, and is the one description of `Select.read` that
later statements start from.  `Select.PipelineParts` takes its pipeline apart into what the clauses
leave.
-/
namespace DocSql
open Compiled List

variable {t : Token}

/-! ### Places in the tokens -/

namespace TokenCursor

variable {c c' c'' : TokenCursor}
variable {k : Keyword} {stop : Token → Bool}

/-- The place behind the next `n` tokens. -/
abbrev past (c : TokenCursor) (n : Nat) : TokenCursor := { c with position := c.position + n }

/-- The cursor `c'` reads the same tokens as `c`, has gone on from it, and is inside the tokens if `c`
is. -/
structure Reaches (c c' : TokenCursor) : Prop where
  tokens : c'.tokens = c.tokens
  le : c.position ≤ c'.position
  inside : c.position ≤ c.tokens.length → c'.position ≤ c'.tokens.length

theorem Reaches.refl (c : TokenCursor) : c.Reaches c := ⟨rfl, Nat.le_refl _, id⟩

theorem Reaches.trans (h : c.Reaches c') (h' : c'.Reaches c'') : c.Reaches c'' where
  tokens := h'.tokens.trans h.tokens
  le := Nat.le_trans h.le h'.le
  inside hc := h'.inside (h.inside hc)

theorem lt_length_of_peek (h : c.peek = some t) : c.position < c.tokens.length := by
  exact (List.getElem?_eq_some_iff.mp h).1

theorem reaches_succ (h : c.peek = some t) : c.Reaches (c.past 1) where
  tokens := rfl
  le := Nat.le_succ _
  inside _ := lt_length_of_peek h

theorem eat?_eq_some (h : c.eat? k = some c') :
    c.peek = some (.keyword k) ∧ c' = c.past 1 := by
  unfold eat? isKeyword at h
  cases hpeek : c.peek with
  | none => simp [hpeek] at h
  | some t =>
    cases t <;> simp [hpeek, Token.isKeyword] at h
    exact ⟨by rw [h.1], h.2.symm⟩

theorem next_eq_some (h : c.next = (some t, c')) :
    c.peek = some t ∧ c' = c.past 1 := by
  unfold next at h
  cases hpeek : c.peek with
  | none => simp [hpeek] at h
  | some t' =>
    simp only [hpeek, Prod.mk.injEq, Option.some.injEq] at h
    exact ⟨by rw [h.1], h.2.symm⟩

theorem eat?_of_peek (h : c.peek = some (.keyword k)) :
    c.eat? k = some (c.past 1) := by
  rw [eat?, isKeyword, h]
  exact if_pos (decide_eq_true rfl)

theorem next_of_peek (h : c.peek = some t) :
    c.next = (some t, c.past 1) := by
  rw [next, h]

theorem reaches_of_peekAt {ahead : Nat} (h : c.peekAt ahead = some t) :
    c.Reaches (c.past (ahead + 1)) where
  tokens := rfl
  le := by simp only; omega
  inside _ := (List.getElem?_eq_some_iff.mp h).1

theorem reaches_eat (h : c.eat? k = some c') : c.Reaches c' := by
  obtain ⟨hpeek, rfl⟩ := eat?_eq_some h
  exact reaches_succ hpeek

theorem reaches_next (h : c.next = (some t, c')) : c.Reaches c' := by
  obtain ⟨hpeek, rfl⟩ := next_eq_some h
  exact reaches_succ hpeek

theorem reaches_takeUntil (c : TokenCursor) (stop : Token → Bool) :
    c.Reaches (c.takeUntil stop).2 where
  tokens := rfl
  le := Nat.le_add_right _ _
  inside hc := by
    have hlength := (List.takeWhile_prefix (fun t => !stop t) (l := c.rest)).length_le
    rw [rest, length_drop] at hlength
    simp only [takeUntil]
    rw [rest]
    omega

theorem mem_of_takeUntil (h : t ∈ (c.takeUntil stop).1) : t ∈ c.tokens :=
  mem_of_mem_drop ((List.takeWhile_prefix _).subset h)

theorem rest_of_peek (h : c.peek = some t) :
    c.rest = t :: rest (c.past 1) := by
  have hlt := lt_length_of_peek h
  rw [peek, peekAt, Nat.add_zero, getElem?_eq_getElem hlt, Option.some.injEq] at h
  rw [rest, drop_eq_getElem_cons hlt, h, rest]

theorem rest_of_peek_none (h : c.peek = none) : c.rest = [] := by
  rw [peek, peekAt, Nat.add_zero, getElem?_eq_none_iff] at h
  exact drop_eq_nil_of_le h

theorem rest_eat (h : c.eat? k = some c') : c.rest = .keyword k :: c'.rest := by
  obtain ⟨hpeek, rfl⟩ := eat?_eq_some h
  exact rest_of_peek hpeek

theorem rest_next (h : c.next = (some t, c')) : c.rest = t :: c'.rest := by
  obtain ⟨hpeek, rfl⟩ := next_eq_some h
  exact rest_of_peek hpeek

theorem rest_takeUntil (c : TokenCursor) (stop : Token → Bool) :
    c.rest = (c.takeUntil stop).1 ++ (c.takeUntil stop).2.rest := by
  have hdrop : c.rest.drop (c.takeUntil stop).1.length = (c.takeUntil stop).2.rest := by
    rw [rest, drop_drop]
    rfl
  rw [← hdrop]
  exact (prefix_iff_eq_append.mp (List.takeWhile_prefix _)).symm

/-- A clause that is read up to the next one: its keyword, its tokens, and what is left. -/
theorem rest_eat_takeUntil (h : c.eat? k = some c') :
    c.rest = .keyword k :: (c'.takeUntil stop).1 ++ (c'.takeUntil stop).2.rest := by
  rw [rest_eat h, cons_append, ← rest_takeUntil]

end TokenCursor

/-! ### Spans side by side -/

/-- The spans lie side by side, from one place to another. -/
def Span.Tiles : Nat → List Span → Nat → Prop
  | start, [], stop => start = stop
  | start, s :: rest, stop => s.start = start ∧ s.start ≤ s.stop ∧ Tiles s.stop rest stop

theorem Span.tiles_append {first rest : List Span} : ∀ {start stop : Nat},
    Span.Tiles start (first ++ rest) stop ↔
      ∃ middle, Span.Tiles start first middle ∧ Span.Tiles middle rest stop := by
  induction first with
  | nil => simp [Span.Tiles]
  | cons s first ih =>
    intro start stop
    simp only [cons_append, Span.Tiles, ih]
    constructor
    · rintro ⟨hstart, hle, middle, hfirst, hrest⟩
      exact ⟨middle, ⟨hstart, hle, hfirst⟩, hrest⟩
    · rintro ⟨middle, ⟨hstart, hle, hfirst⟩, hrest⟩
      exact ⟨hstart, hle, middle, hfirst, hrest⟩

namespace TokenCursor

variable {c c' c'' : TokenCursor} {spans spans' : List Span}

/-- The clauses with the given spans have been read between two places. -/
structure Covers (c : TokenCursor) (spans : List Span) (c' : TokenCursor) : Prop
    extends c.Reaches c' where
  tiles : Span.Tiles c.position spans c'.position

theorem Covers.nil (c : TokenCursor) : c.Covers [] c := ⟨.refl c, rfl⟩

theorem Covers.one (h : c.Reaches c') : c.Covers [.between c c'] c' := ⟨h, rfl, h.le, rfl⟩

theorem Covers.append (h : c.Covers spans c') (h' : c'.Covers spans' c'') :
    c.Covers (spans ++ spans') c'' :=
  ⟨h.toReaches.trans h'.toReaches, Span.tiles_append.mpr ⟨_, h.tiles, h'.tiles⟩⟩

end TokenCursor

/-! ### Reading clauses -/

section

variable {r : Reading} {c c' : TokenCursor}
variable {columns : Columns} {having : Option Having}

/-- FROM and its table are two tokens. -/
theorem Source.read_eq_ok {source : Source} : Source.read c = .ok (source, c') ↔
    c.peek = some (.keyword .FROM) ∧
      (∃ t, c.peekAt 1 = some t ∧ TableRef.ofToken t = .ok source.table) ∧
      source.span = ⟨c.position, c.position + 2⟩ ∧ c' = c.past 2 := by
  constructor
  · intro h
    unfold Source.read at h
    split at h
    · cases h
    · rename_i afterFrom heat
      obtain ⟨hfrom, rfl⟩ := TokenCursor.eat?_eq_some heat
      split at h
      · cases h
      · rename_i t after hnext
        obtain ⟨hpeek, rfl⟩ := TokenCursor.next_eq_some hnext
        obtain ⟨table, htable, h⟩ := bind_eq_ok.mp h
        cases h
        exact ⟨hfrom, ⟨t, hpeek, htable⟩, rfl, rfl⟩
  · obtain ⟨table, span⟩ := source
    rintro ⟨hfrom, ⟨t, ht, htable⟩, rfl, rfl⟩
    rw [Source.read, TokenCursor.eat?_of_peek hfrom]
    simp only [TokenCursor.next_of_peek (c := c.past 1) ht]
    exact bind_eq_ok.mpr ⟨table, htable, rfl⟩

theorem Source.read_covers {source : Source} (h : Source.read c = .ok (source, c')) :
    c.Covers [source.span] c' := by
  obtain ⟨-, ⟨t, ht, -⟩, hspan, rfl⟩ := Source.read_eq_ok.mp h
  rw [hspan]
  exact .one (TokenCursor.reaches_of_peekAt ht)

namespace Join

/-- How a join is read: its keyword, its table, ON and the condition are a token each. -/
structure Reads (r : Reading) (c : TokenCursor) (join : Join) (t : Token) (own foreign : Column) :
    Prop where
  kind : ∃ u, c.peek = some u ∧ JoinKind.ofToken? u = some (.ok join.kind)
  table : ∃ u, c.peekAt 1 = some u ∧ TableRef.ofToken u = .ok join.table
  keyword : c.peekAt 2 = some (.keyword .ON)
  condition : c.peekAt 3 = some t
  columns_eq : Join.columns ⟨enter join.table r.scope, false, r.subselect⟩ join.table.visible
    (unwrap t) = .ok (own, foreign)
  join_eq : join =
    { kind := join.kind, table := join.table, leftTable := own.table, localField := own.path,
      foreignField := foreign.column, span := ⟨c.position, c.position + 4⟩ }

variable {join : Join} {own foreign : Column} {scope : Scope}

theorem readKind_eq_ok {kind : JoinKind} (h : readKind c = .ok (kind, c')) :
    (∃ u, c.peek = some u ∧ JoinKind.ofToken? u = some (.ok kind)) ∧ c' = c.past 1 := by
  unfold readKind at h
  split at h
  · rename_i u after hnext
    obtain ⟨hpeek, rfl⟩ := TokenCursor.next_eq_some hnext
    split at h
    · rename_i read hread
      obtain ⟨kind', rfl, h⟩ := bind_eq_ok.mp h
      cases h
      exact ⟨⟨u, hpeek, hread⟩, rfl⟩
    · cases h
  · cases h

theorem readTable_eq_ok {table : TableRef} (h : readTable c = .ok (table, c')) :
    (∃ u, c.peek = some u ∧ TableRef.ofToken u = .ok table) ∧ c' = c.past 1 := by
  unfold readTable at h
  split at h
  · rename_i u after hnext
    obtain ⟨hpeek, rfl⟩ := TokenCursor.next_eq_some hnext
    obtain ⟨table', htable, h⟩ := bind_eq_ok.mp h
    cases h
    exact ⟨⟨u, hpeek, htable⟩, rfl⟩
  · cases h

theorem readCondition_eq_ok (h : readCondition c = .ok (t, c')) :
    c.peek = some (.keyword .ON) ∧ (∃ u, c.peekAt 1 = some u ∧ t = unwrap u) ∧ c' = c.past 2 := by
  unfold readCondition at h
  split at h
  · cases h
  · rename_i afterOn heat
    obtain ⟨hon, rfl⟩ := TokenCursor.eat?_eq_some heat
    split at h
    · rename_i u after hnext
      obtain ⟨hpeek, rfl⟩ := TokenCursor.next_eq_some hnext
      cases h
      exact ⟨hon, ⟨u, hpeek, rfl⟩, rfl⟩
    · cases h

/-- A join is read from four tokens, and only its table is new in the scope. -/
theorem read_eq_ok : Join.read r c = .ok (join, scope, c') ↔
    (∃ t own foreign, Reads r c join t own foreign) ∧ scope = enter join.table r.scope ∧
      c' = c.past 4 := by
  constructor
  · intro h
    obtain ⟨⟨kind, afterKind⟩, hkind, h⟩ := bind_eq_ok.mp h
    obtain ⟨⟨table, afterTable⟩, htable, h⟩ := bind_eq_ok.mp h
    obtain ⟨⟨condition, after⟩, hcondition, ⟨own, foreign⟩, hcolumns, h⟩ := bind₂_eq_ok.mp h
    cases h
    obtain ⟨hkeyword, rfl⟩ := readKind_eq_ok hkind
    obtain ⟨hname, rfl⟩ := readTable_eq_ok htable
    obtain ⟨hon, ⟨t, ht, rfl⟩, rfl⟩ := readCondition_eq_ok hcondition
    exact ⟨⟨t, own, foreign, hkeyword, hname, hon, ht, hcolumns, rfl⟩, rfl, rfl⟩
  · rintro ⟨⟨t, own, foreign, h⟩, rfl, rfl⟩
    obtain ⟨u, hu, hkind⟩ := h.kind
    obtain ⟨v, hv, htable⟩ := h.table
    have hkind : readKind c = .ok (join.kind, c.past 1) := by
      rw [readKind, TokenCursor.next_of_peek hu]
      simp only [hkind]
      rfl
    have htable : readTable (c.past 1) = .ok (join.table, c.past 2) := by
      rw [readTable, TokenCursor.next_of_peek (c := c.past 1) hv]
      exact bind_eq_ok.mpr ⟨_, htable, rfl⟩
    have hcondition : readCondition (c.past 2) = .ok (unwrap t, c.past 4) := by
      rw [readCondition,
        TokenCursor.eat?_of_peek (c := c.past 2) h.keyword]
      simp only [TokenCursor.next_of_peek (c := c.past 3) h.condition]
    refine bind_eq_ok.mpr ⟨_, hkind, bind_eq_ok.mpr ⟨_, htable, bind_eq_ok.mpr ⟨_, hcondition, ?_⟩⟩⟩
    refine bind_eq_ok.mpr ⟨_, h.columns_eq, ?_⟩
    exact congrArg (fun join : Join => Except.ok (join, _)) h.join_eq.symm

theorem Reads.covers (h : Reads r c join t own foreign) : c.Covers [join.span] (c.past 4) := by
  rw [h.join_eq]
  exact .one (TokenCursor.reaches_of_peekAt h.condition)

/-- The scope in which the tables of joins are known. -/
def enterAll (joins : List Join) (s : Scope) : Scope :=
  joins.foldl (fun s join => enter join.table s) s

/-- Joins add their tables to a scope and nothing else. -/
theorem scope_enterAll {joins : List Join} : ∀ {s : Scope},
    ∃ tables, enterAll joins s = { s with tables } ∧ ∀ visible ∈ tables.keys,
      visible ∈ s.tables.keys ∨ ∃ join ∈ joins, join.table.visible = visible := by
  induction joins with
  | nil => exact fun {s} => ⟨s.tables, rfl, fun _ h => .inl h⟩
  | cons join joins ih =>
    intro s
    obtain ⟨tables, heq, htables⟩ := @ih (enter join.table s)
    refine ⟨tables, heq, fun visible hvisible => ?_⟩
    rcases htables visible hvisible with hmem | ⟨later, hlater, heq⟩
    · obtain ⟨entry, hentry, rfl⟩ := mem_map.mp hmem
      rcases Entries.mem_insert hentry with hold | rfl
      · exact .inl (mem_map_of_mem hold)
      · exact .inr ⟨join, mem_cons_self, rfl⟩
    · exact .inr ⟨later, mem_cons_of_mem _ hlater, heq⟩

end Join

namespace Select

variable {join : Join} {joins : List Join}

theorem readJoins_nil {fuel : Nat} {scope : Scope}
    (h : readJoins r fuel c = .ok ([], scope, c')) : scope = r.scope ∧ c' = c := by
  cases fuel with
  | zero =>
    cases h
    exact ⟨rfl, rfl⟩
  | succ fuel =>
    unfold readJoins at h
    split at h
    · cases h
      exact ⟨rfl, rfl⟩
    · obtain ⟨read, -, h⟩ := bind_eq_ok.mp h
      obtain ⟨rest, -, h⟩ := bind_eq_ok.mp h
      cases h

/-- Joins are read one after the other, each with its table in the scope of the next. -/
theorem readJoins_cons {fuel : Nat} {scope : Scope} :
    readJoins r fuel c = .ok (join :: joins, scope, c') ↔
    ∃ fuel' t own foreign, fuel = fuel' + 1 ∧ Join.Reads r c join t own foreign ∧
      readJoins { r with scope := Join.enter join.table r.scope } fuel' (c.past 4) =
        .ok (joins, scope, c') := by
  constructor
  · intro h
    cases fuel with
    | zero => cases h
    | succ fuel =>
      unfold readJoins at h
      split at h
      · cases h
      · obtain ⟨⟨read, scope₁, c₁⟩, hjoin, h⟩ := bind_eq_ok.mp h
        obtain ⟨⟨rest, scope₂, c₂⟩, hrest, h⟩ := bind_eq_ok.mp h
        cases h
        obtain ⟨⟨t, own, foreign, hreads⟩, rfl, rfl⟩ := Join.read_eq_ok.mp hjoin
        exact ⟨fuel, t, own, foreign, rfl, hreads, hrest⟩
  · rintro ⟨fuel, t, own, foreign, rfl, hreads, hrest⟩
    obtain ⟨u, hpeek, hkind⟩ := hreads.kind
    unfold readJoins
    rw [hpeek, Option.bind_some, hkind]
    refine bind_eq_ok.mpr ⟨_, Join.read_eq_ok.mpr ⟨⟨t, own, foreign, hreads⟩, rfl, rfl⟩, ?_⟩
    exact bind_eq_ok.mpr ⟨_, hrest, rfl⟩

/-- Joins are read side by side, and only their tables are new in the scope. -/
theorem readJoins_covers : ∀ {fuel : Nat} {r : Reading} {c : TokenCursor} {scope : Scope},
    readJoins r fuel c = .ok (joins, scope, c') →
    c.Covers (joins.map (·.span)) c' ∧ scope = Join.enterAll joins r.scope := by
  induction joins with
  | nil =>
    intro fuel r c scope h
    obtain ⟨rfl, rfl⟩ := readJoins_nil h
    exact ⟨.nil _, rfl⟩
  | cons join joins ih =>
    intro fuel r c scope h
    obtain ⟨fuel, t, own, foreign, rfl, hreads, hrest⟩ := readJoins_cons.mp h
    obtain ⟨hcovers, hscope⟩ := ih hrest
    exact ⟨hreads.covers.append hcovers, hscope⟩

end Select

theorem Filter.read_covers {filter : Option Filter} {scope : Scope}
    (h : Filter.read? r c = .ok (filter, scope, c')) :
    c.Covers (filter.toList.map (·.span)) c' ∧ scope.params = r.scope.params := by
  obtain ⟨rfl, rfl, rfl⟩ | ⟨afterWhere, condition, heat, -, rfl, rfl, rfl⟩ := Filter.read?_eq_ok h
  · exact ⟨.nil _, rfl⟩
  · rw [condition.scope_registerNested]
    refine ⟨.one ?_, rfl⟩
    exact (TokenCursor.reaches_eat heat).trans (TokenCursor.reaches_takeUntil _ _)

/-- The grouping that is read is the one of a GROUP BY clause. -/
theorem Grouping.read_covers {grouping : Option Grouping}
    (h : Grouping.read? r columns c = .ok (grouping, c')) :
    c.Covers (grouping.toList.map (·.span)) c' ∧ ∀ g ∈ grouping, g.explicit = true := by
  obtain ⟨-, rfl, rfl⟩ | ⟨_, _, heat, -, rfl, rfl⟩ := Grouping.read?_eq_ok h
  · exact ⟨.nil _, nofun⟩
  · refine ⟨.one ?_, by rintro g ⟨⟩; rfl⟩
    exact (TokenCursor.reaches_eat heat).trans (TokenCursor.reaches_takeUntil _ _)

/-- A HAVING clause is absent, or the condition up to the next clause is read and rewritten to the
outputs of the grouping. -/
theorem Having.read?_eq_ok {g g' : Grouping}
    (h : Having.read? r columns g c = .ok (having, g', c')) :
    (c.eat? .HAVING = none ∧ having = none ∧ g' = g ∧ c' = c) ∨
      ∃ afterHaving asked condition, c.eat? .HAVING = some afterHaving ∧
        Reading.condition { r with aliases := true } (afterHaving.takeUntil isClauseKeyword).1 =
          .ok asked ∧
        (asked.transform (Grouping.exposeNode columns) false).run g = .ok (condition, g') ∧
        c' = (afterHaving.takeUntil isClauseKeyword).2 ∧
        having = some ⟨condition, .between c c'⟩ := by
  unfold Having.read? at h
  split at h
  · rename_i heat
    cases h
    exact .inl ⟨heat, rfl, rfl, rfl⟩
  · rename_i afterHaving heat
    obtain ⟨asked, hasked, h⟩ := bind_eq_ok.mp h
    obtain ⟨⟨condition, g₁⟩, hrun, h⟩ := bind_eq_ok.mp h
    simp only at h
    split at h
    · cases h
    · cases h
      exact .inr ⟨afterHaving, asked, condition, heat, hasked, hrun, rfl, rfl⟩

theorem Having.read_covers {g g' : Grouping} (h : Having.read? r columns g c = .ok (having, g', c'))
    : c.Covers (having.toList.map (·.span)) c' ∧ g'.place = g.place := by
  obtain ⟨-, rfl, rfl, rfl⟩ | ⟨_, _, _, heat, -, hrun, rfl, rfl⟩ := Having.read?_eq_ok h
  · exact ⟨.nil _, rfl⟩
  · refine ⟨.one ?_, ?_⟩
    · exact (TokenCursor.reaches_eat heat).trans (TokenCursor.reaches_takeUntil _ _)
    · exact ((Grouping.steady_having (P := fun _ => True) (fun _ _ => trivial) g).2 _ _ hrun).1

/-- HAVING leaves the grouping in its place. -/
theorem Select.readHaving_covers {planned grouped : Option Grouping}
    (h : Select.readHaving r columns planned c = .ok (having, grouped, c')) :
    c.Covers (having.toList.map (·.span)) c' ∧
      grouped.map Grouping.place = planned.map Grouping.place := by
  cases planned with
  | none =>
    cases h
    exact ⟨.nil c, rfl⟩
  | some g =>
    obtain ⟨⟨clause, g', after⟩, hread, h⟩ := bind_eq_ok.mp h
    cases h
    obtain ⟨hcovers, hplace⟩ := Having.read_covers hread
    exact ⟨hcovers, congrArg some hplace⟩

/-- An ORDER BY clause is absent, or its keys up to the next clause are read. -/
theorem Sorting.read?_eq_ok {sorting : Option Sorting}
    (h : Sorting.read? r c = .ok (sorting, c')) :
    (sorting = none ∧ c' = c) ∨
      ∃ afterOrder keys, c.eat? .ORDER_BY = some afterOrder ∧
        (afterOrder.takeUntil isClauseKeyword).1 ≠ [] ∧
        (Token.splitCommas (afterOrder.takeUntil isClauseKeyword).1).mapM (readKey r) = .ok keys ∧
        c' = (afterOrder.takeUntil isClauseKeyword).2 ∧
        sorting = some { keys, span := .between c c' } := by
  unfold Sorting.read? at h
  split at h
  · cases h
    exact .inl ⟨rfl, rfl⟩
  · rename_i afterOrder heat
    simp only at h
    split at h
    · cases h
    · rename_i hsome
      obtain ⟨keys, hkeys, h⟩ := bind_eq_ok.mp h
      cases h
      exact .inr ⟨afterOrder, keys, heat, fun hnil => hsome (isEmpty_iff.mpr hnil), hkeys, rfl, rfl⟩

theorem Sorting.read_covers {sorting : Option Sorting}
    (h : Sorting.read? r c = .ok (sorting, c')) :
    c.Covers (sorting.toList.map (·.span)) c' := by
  obtain ⟨rfl, rfl⟩ | ⟨_, _, heat, -, -, rfl, rfl⟩ := Sorting.read?_eq_ok h
  · exact .nil _
  · refine .one ?_
    exact (TokenCursor.reaches_eat heat).trans (TokenCursor.reaches_takeUntil _ _)

theorem Window.read_covers {s : Scope} {window : Option Window}
    (h : Window.read? s c = .ok (window, c')) :
    c.Covers (window.toList.map (·.span)) c' := by
  obtain ⟨bounds, hbounds, h⟩ := bind_eq_ok.mp h
  split at h
  · cases h
  · split at h
    · cases h
      exact .nil c
    · rename_i hsome
      cases h
      -- a bound is read, so there are tokens left, and going on is not going back
      have hleft : c.position < c.tokens.length := by
        by_contra hend
        have hrest : c.rest = [] := drop_eq_nil_of_le (Nat.le_of_not_lt hend)
        rw [hrest] at hbounds
        cases hbounds
        exact hsome rfl
      have hposition (n : Nat) : c.position ≤ min (c.position + n) c.tokens.length := by omega
      exact .one ⟨rfl, hposition _, fun _ => Nat.min_le_right _ _⟩

end

/-! ### Reading a query -/

namespace Select

variable {subselect : List Token → Compiled Subselect} {scope : Scope} {tokens : List Token}
variable {q : Select}

/-- How a query was read: the place after each clause, the scopes in which the clauses were read, and
the clauses before later ones changed them. -/
structure Course (subselect : List Token → Compiled Subselect) (scope : Scope)
    (tokens : List Token) (q : Select) where
  start : TokenCursor
  selects : TokenCursor.eat? { tokens } .SELECT = some start
  /-- Whether DISTINCT is asked for. -/
  distinct : Bool
  listStart : TokenCursor
  distinct_eq : readDistinct start = (distinct, listStart)
  list : List Token
  listEnd : TokenCursor
  list_eq : listStart.takeUntil (Token.isKeyword .FROM) = (list, listEnd)
  afterSource : TokenCursor
  source_eq : Source.read listEnd = .ok (q.source, afterSource)
  /-- The joins before they know the SELECT list. -/
  joins : List Join
  tables : Scope
  afterJoins : TokenCursor
  joins_eq : readJoins ⟨q.source.enter scope, false, subselect⟩ tokens.length afterSource =
    .ok (joins, tables, afterJoins)
  /-- The SELECT list before a stage makes its items. -/
  columns : Columns
  columns_eq : Columns.read ⟨tables, false, subselect⟩ list listStart.position = .ok columns
  nested : Scope
  afterFilter : TokenCursor
  filter_eq : Filter.read? ⟨columns.enter tables, false, subselect⟩ afterJoins =
    .ok (q.filter, nested, afterFilter)
  explicit : Option Grouping
  afterKeys : TokenCursor
  explicit_eq : Grouping.read? ⟨nested, false, subselect⟩ columns afterFilter =
    .ok (explicit, afterKeys)
  outline : Outline
  outline_eq : outline = ⟨columns, explicit, afterKeys.isKeyword .HAVING, distinct⟩
  planned : Option Grouping
  planned_eq : ((outline.plan afterKeys.position).mapM fun g => g.addOutputs columns) = .ok planned
  /-- The grouping after HAVING. -/
  grouped : Option Grouping
  afterHaving : TokenCursor
  having_eq : readHaving ⟨nested, false, subselect⟩ columns planned afterKeys =
    .ok (q.having, grouped, afterHaving)
  rows_eq : (if distinct then
      some <$> Distinct.ofColumns { columns with materialized := grouped.isSome } start.position
    else pure none) = .ok q.distinct
  items_eq : q.columns = { columns with materialized := grouped.isSome || distinct }
  sorting : Option Sorting
  afterSorting : TokenCursor
  sorting_eq : Sorting.read? ⟨nested, false, subselect⟩ afterHaving = .ok (sorting, afterSorting)
  resolved_eq : resolveSorting q.columns distinct sorting grouped = .ok (q.sorting, q.grouping)
  afterWindow : TokenCursor
  window_eq : Window.read? nested afterSorting = .ok (q.window, afterWindow)
  ends : afterWindow.peek = none
  fill_eq : q.joins = joins.map fun join => join.fill columns
  nested_eq : q.nested = nested.nested
  shape_eq : q.shape = if outline.countsOnly then .count
    else match outline.constants? with
      | some values => .constant values
      | none => .documents q.columns.names (emptyRow? q.columns q.grouping q.having q.window)

/-- A query that is accepted was read clause by clause. -/
theorem course_of_read (h : Select.read subselect scope tokens = .ok q) :
    Nonempty (Course subselect scope tokens q) := by
  unfold Select.read at h
  split at h
  · cases h
  · rename_i start hstart
    obtain ⟨⟨source, c₁⟩, hsource, h⟩ := bind_eq_ok.mp h
    obtain ⟨⟨joins, scope₁, c₂⟩, hjoins, h⟩ := bind_eq_ok.mp h
    obtain ⟨columns, hcolumns, h⟩ := bind_eq_ok.mp h
    obtain ⟨⟨filter, scope₂, c₃⟩, hfilter, h⟩ := bind_eq_ok.mp h
    obtain ⟨⟨explicit, c₄⟩, hexplicit, h⟩ := bind_eq_ok.mp h
    obtain ⟨planned, hplanned, h⟩ := bind_eq_ok.mp h
    obtain ⟨⟨having, grouping, c₅⟩, hhaving, h⟩ := bind_eq_ok.mp h
    obtain ⟨distinct, hdistinct, h⟩ := ite_bind_eq_ok.mp h
    obtain ⟨⟨sorting, c₆⟩, hsorting, h⟩ := bind_eq_ok.mp h
    obtain ⟨⟨sorted, final⟩, hresolve, h⟩ := bind_eq_ok.mp h
    obtain ⟨⟨window, c₇⟩, hwindow, h⟩ := bind_eq_ok.mp h
    simp only at h
    split at h
    · cases h
    · rename_i hend
      cases h
      exact ⟨{
        start, selects := hstart, distinct_eq := rfl, list_eq := rfl, distinct := _, listStart := _,
        list := _, listEnd := _, afterSource := c₁, source_eq := hsource,
        joins, tables := scope₁, afterJoins := c₂, joins_eq := hjoins,
        columns, columns_eq := hcolumns,
        nested := scope₂, afterFilter := c₃, filter_eq := hfilter,
        explicit, afterKeys := c₄, explicit_eq := hexplicit,
        outline := _, outline_eq := rfl, planned, planned_eq := hplanned,
        grouped := grouping, afterHaving := c₅, having_eq := hhaving,
        rows_eq := hdistinct, items_eq := rfl,
        sorting, afterSorting := c₆, sorting_eq := hsorting, resolved_eq := hresolve,
        afterWindow := c₇, window_eq := hwindow, ends := hend,
        fill_eq := rfl, nested_eq := rfl, shape_eq := rfl }⟩

/-- Nothing before WHERE adds sub-selects to the scope. -/
theorem Course.nested_before (course : Course subselect scope tokens q) :
    (course.columns.enter course.tables).nested = scope.nested := by
  obtain ⟨tables, hscope, -⟩ := Join.scope_enterAll
  have htables := (readJoins_covers course.joins_eq).2.trans hscope
  exact (congrArg Scope.nested htables :)

/-! ### Pipelines -/

/-- The stages of the clauses of a query. -/
structure PipelineParts (q : Select) where
  filter : List Value
  filter_eq : Clause.stagesOf q.filter = .ok filter
  grouping : List Value
  grouping_eq : Clause.stagesOf q.grouping = .ok grouping
  having : List Value
  having_eq : Clause.stagesOf q.having = .ok having
  distinct : List Value
  distinct_eq : Clause.stagesOf q.distinct = .ok distinct
  sorting : List Value
  sorting_eq : Clause.stagesOf q.sorting = .ok sorting
  window : List Value
  window_eq : Clause.stagesOf q.window = .ok window
  last : List Value
  last_eq : q.lastStages = .ok last

/-- The stages in their order, those of the tables and sub-selects first. -/
def PipelineParts.stages (parts : PipelineParts q) : List Value :=
  q.joins.flatMap Join.stages ++ q.nested.flatMap NestedList.stages ++ parts.filter ++
    parts.grouping ++ parts.having ++ parts.distinct ++ parts.sorting ++ parts.window ++ parts.last

theorem parts_of_pipeline {stages : List Value} (h : q.pipeline = .ok stages) :
    ∃ parts : q.PipelineParts, stages = parts.stages := by
  obtain ⟨filter, filter_eq, h⟩ := bind_eq_ok.mp h
  obtain ⟨grouping, grouping_eq, h⟩ := bind_eq_ok.mp h
  obtain ⟨having, having_eq, h⟩ := bind_eq_ok.mp h
  obtain ⟨distinct, distinct_eq, h⟩ := bind_eq_ok.mp h
  obtain ⟨sorting, sorting_eq, h⟩ := bind_eq_ok.mp h
  obtain ⟨window, window_eq, h⟩ := bind_eq_ok.mp h
  obtain ⟨last, last_eq, rfl⟩ := bind₁_eq_ok.mp h
  exact ⟨{
    filter, filter_eq, grouping, grouping_eq, having, having_eq, distinct, distinct_eq, sorting,
    sorting_eq, window, window_eq, last, last_eq }, rfl⟩

end Select
end DocSql
