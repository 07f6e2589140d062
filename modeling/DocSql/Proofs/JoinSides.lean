import DocSql.Proofs.ClauseTiling
import DocSql.Proofs.QueryReferences

/-! # The sides of a join

The condition of a join compares two columns.  One of them belongs to the joined table, and the rows
so far are joined by the other one.  Which of the two stands first makes no difference, unless both
belong to the joined table: the first one is then looked for in the rows so far, where the table is
not yet, and with the sides exchanged it is the other one.
-/
namespace DocSql
open Compiled List

namespace Join

/-- The join on other columns. -/
def on (join : Join) (own foreign : Column) : Join :=
  { join with leftTable := own.table, localField := own.path, foreignField := foreign.column }

/-- A condition with its two sides exchanged. -/
def exchange : Token → Token
  | .comparison left op right => .comparison right op left
  | .paren [.comparison left op right] => .paren [.comparison right op left]
  | t => t

/-- The condition says that two columns are equal, which stand in it in this order. -/
def Compares (r : Reading) (t : Token) (first second : Column) : Prop :=
  ∃ left right, unwrap t = .comparison left .eq right ∧
    r.resolve left = .ok (.column first) ∧ r.resolve right = .ok (.column second)

/-- Both columns belong to the joined table. -/
def OwnOnly (join : Join) (first second : Column) : Prop :=
  first.table = join.table.visible ∧ second.table = join.table.visible

/-- The join that starts at a place of the tokens, with the columns that the SELECT list reads. -/
def readAt (r : Reading) (columns : Columns) (tokens : List Token) (start : Nat) : Compiled Join :=
  (fun read => read.1.fill columns) <$> Join.read r ⟨tokens, start⟩

section Condition

variable {r : Reading} {t : Token} {first second own foreign : Column} {table : String}

theorem Compares.exchange (h : Compares r t first second) :
    Compares r (Join.exchange t) second first := by
  obtain ⟨left, right, hunwrap, hleft, hright⟩ := h
  refine ⟨right, left, ?_, hright, hleft⟩
  unfold unwrap at hunwrap
  split at hunwrap
  · rw [hunwrap]
    rfl
  · rw [hunwrap]
    rfl

theorem Compares.names (h : Compares r t first second) :
    r.Names (.column first) ∧ r.Names (.column second) := by
  obtain ⟨left, right, -, hleft, hright⟩ := h
  exact ⟨(Trait.refers r).term_resolve hleft (.column first) mem_cons_self,
    (Trait.refers r).term_resolve hright (.column second) mem_cons_self⟩

theorem columns_of_sides {lhs rhs : Term} {columns : Column × Column}
    (h : sides table lhs rhs = .ok columns) :
    ∃ first second, lhs = .column first ∧ rhs = .column second := by
  unfold sides at h
  split at h
  · exact ⟨_, _, rfl, rfl⟩
  · cases h

theorem columns_eq_ok : columns r table (unwrap t) = .ok (own, foreign) ↔
    ∃ first second, Compares r t first second ∧
      sides table (.column first) (.column second) = .ok (own, foreign) := by
  constructor
  · intro h
    unfold columns at h
    split at h
    · rename_i left right hunwrap
      obtain ⟨lhs, hlhs, h⟩ := bind_eq_ok.mp h
      obtain ⟨rhs, hrhs, h⟩ := bind_eq_ok.mp h
      obtain ⟨first, second, rfl, rfl⟩ := columns_of_sides h
      exact ⟨first, second, ⟨left, right, hunwrap, hlhs, hrhs⟩, h⟩
    · cases h
  · rintro ⟨first, second, ⟨left, right, hunwrap, hleft, hright⟩, hsides⟩
    rw [hunwrap]
    exact bind_eq_ok.mpr ⟨_, hleft, bind_eq_ok.mpr ⟨_, hright, hsides⟩⟩

/-- The column of the joined table is the second one if that belongs to it, otherwise the first. -/
theorem sides_eq_ok : sides table (.column first) (.column second) = .ok (own, foreign) ↔
    (second.table = table ∧ own = first ∧ foreign = second) ∨
      (second.table ≠ table ∧ first.table = table ∧ own = second ∧ foreign = first) := by
  unfold sides
  by_cases hsecond : second.table = table
  · simp [hsecond, eq_comm]
  · by_cases hfirst : first.table = table
    · simp [hsecond, hfirst, eq_comm]
    · simp [hsecond, hfirst, undecodable]

/-- One of the columns belongs to the joined table, and the other one only if both do. -/
theorem own_of_sides
    (h : sides table (.column first) (.column second) = .ok (own, foreign)) :
    ((own = first ∧ foreign = second) ∨ (own = second ∧ foreign = first)) ∧ foreign.table = table ∧
      (own.table = table ↔ first.table = table ∧ second.table = table) := by
  obtain ⟨hsecond, rfl, rfl⟩ | ⟨hsecond, hfirst, rfl, rfl⟩ := sides_eq_ok.mp h
  · exact ⟨.inl ⟨rfl, rfl⟩, hsecond, (and_iff_left hsecond).symm⟩
  · exact ⟨.inr ⟨rfl, rfl⟩, hfirst, (and_iff_right hfirst).symm⟩

/-- Unless both columns belong to the joined table, it does not matter which one stands first. -/
theorem sides_exchange (h : sides table (.column first) (.column second) = .ok (own, foreign))
    (hown : ¬ (first.table = table ∧ second.table = table)) :
    sides table (.column second) (.column first) = .ok (own, foreign) := by
  obtain ⟨hsecond, rfl, rfl⟩ | ⟨-, hfirst, rfl, rfl⟩ := sides_eq_ok.mp h
  · exact sides_eq_ok.mpr (.inr ⟨fun hfirst => hown ⟨hfirst, hsecond⟩, hsecond, rfl, rfl⟩)
  · exact sides_eq_ok.mpr (.inl ⟨hfirst, rfl, rfl⟩)

theorem sides_of_own (hsecond : second.table = table) :
    sides table (.column first) (.column second) = .ok (first, second) :=
  sides_eq_ok.mpr (.inl ⟨hsecond, rfl, rfl⟩)

end Condition

/-! ### Reading a join -/

section Reading

variable {r : Reading} {c : TokenCursor} {join : Join} {t u : Token} {own foreign : Column}

theorem Reads.on_eq (h : Reads r c join t own foreign) : join.on own foreign = join :=
  (congrArg (fun join : Join => join.on own foreign) h.join_eq).trans h.join_eq.symm

theorem Reads.readAt_eq (h : Reads r c join t own foreign) (columns : Columns) :
    readAt r columns c.tokens c.position = .ok (join.fill columns) := by
  rw [readAt, Join.read_eq_ok.mpr ⟨⟨t, own, foreign, h⟩, rfl, rfl⟩]
  rfl

/-- With another condition the join is read on other columns. -/
theorem Reads.recondition {own' foreign' : Column} (h : Reads r c join t own foreign)
    (hcolumns : Join.columns ⟨enter join.table r.scope, false, r.subselect⟩ join.table.visible
      (unwrap u) = .ok (own', foreign')) :
    Reads r { c with tokens := c.tokens.set (c.position + 3) u } (join.on own' foreign') u
      own' foreign' := by
  have hpeek {ahead : Nat} (hahead : c.position + 3 ≠ c.position + ahead) :
      TokenCursor.peekAt { c with tokens := c.tokens.set (c.position + 3) u } ahead =
        c.peekAt ahead :=
    getElem?_set_ne hahead
  exact {
    kind := by rw [TokenCursor.peek, hpeek (by simp)]; exact h.kind
    table := by rw [hpeek (by simp)]; exact h.table
    keyword := by rw [hpeek (by simp)]; exact h.keyword
    condition := getElem?_set_self (List.getElem?_eq_some_iff.mp h.condition).1
    columns_eq := hcolumns
    join_eq := by rw [h.join_eq]; rfl }

end Reading

end Join

/-! ### The joins of a query -/

namespace Select

variable {join : Join} {before after : List Join} {q : Select}
variable {scope : Scope} {subselect : List Token → Compiled Subselect}

/-- Each of the joins is read from a place of its own, in the scope of the tables before it. -/
theorem exists_reads_of_readJoins : ∀ {fuel : Nat} {r : Reading} {c c' : TokenCursor},
    readJoins r fuel c = .ok (before ++ join :: after, scope, c') →
    ∃ (place : TokenCursor) (t : Token) (own foreign : Column), c.Reaches place ∧
      Join.Reads { r with scope := Join.enterAll before r.scope } place join t own foreign := by
  -- by induction on the joins before, from the place of the first one on
  induction before with
  | nil =>
    intro fuel r c c' h
    obtain ⟨fuel, t, own, foreign, rfl, hreads, -⟩ := readJoins_cons.mp h
    exact ⟨c, t, own, foreign, .refl c, hreads⟩
  | cons earlier before ih =>
    intro fuel r c c' h
    obtain ⟨fuel, u, own₁, foreign₁, rfl, hearlier, hrest⟩ := readJoins_cons.mp h
    obtain ⟨place, t, own, foreign, hreaches, hreads⟩ := ih hrest
    exact ⟨place, t, own, foreign, hearlier.covers.toReaches.trans hreaches, hreads⟩

/-- A join of the query is read at the place where its span starts. -/
theorem Course.exists_reads {tokens : List Token} (C : Course subselect scope tokens q)
    (hjoins : q.joins = before ++ join :: after) :
    ∃ (read : Join) (t : Token) (own foreign : Column), join = read.fill q.columns ∧
      Join.Reads ⟨Join.enterAll before (q.source.enter scope), false, subselect⟩
        ⟨tokens, join.span.start⟩ read t own foreign := by
  -- the joins as they are read, before they know the SELECT list
  obtain ⟨before, rest, hread, rfl, hrest⟩ := map_eq_append_iff.mp (C.fill_eq.symm.trans hjoins)
  obtain ⟨read, after, rfl, rfl, rfl⟩ := map_eq_cons_iff.mp hrest
  have hjoins_eq := C.joins_eq
  rw [hread] at hjoins_eq
  obtain ⟨place, t, own, foreign, hreaches, hreads⟩ := exists_reads_of_readJoins hjoins_eq
  refine ⟨read, t, own, foreign, by rw [C.items_eq]; rfl, ?_⟩
  have hplace : place = ⟨tokens, read.span.start⟩ := by
    have htokens : place.tokens = tokens := by
      rw [hreaches.tokens, (Source.read_covers C.source_eq).tokens, C.covers_columns.tokens,
        C.covers_distinct.tokens, C.start_eq.2]
    rw [hreads.join_eq, ← htokens]
  rw [hplace] at hreads
  rw [Join.enterAll, foldl_map]
  exact hreads

/-- The names of the first table and of the tables of some joins. -/
def tableNames (q : Select) (joins : List Join) : List String :=
  q.source.table.visible :: joins.map fun join => join.table.visible

theorem hasColumn_iff {c : Column} : q.HasColumn c ↔
    c.path = (if c.table = q.source.table.visible then c.column else c.table ++ "." ++ c.column) ∧
      c.table ∈ q.tableNames q.joins := by
  unfold HasColumn tableNames
  split <;> simp [*]

/-- The table and the name of a column determine its path. -/
theorem HasColumn.eq {c c' : Column} (h : q.HasColumn c) (h' : q.HasColumn c')
    (htable : c.table = c'.table) (hcolumn : c.column = c'.column) : c = c' := by
  have hpath : c.path = c'.path := by
    rw [(hasColumn_iff.mp h).1, (hasColumn_iff.mp h').1, htable, hcolumn]
  cases c
  cases c'
  simp_all

/-- With one join more there are only the columns of its table more. -/
theorem hasColumn_concat {c : Column} (h : HasColumn { q with joins := before ++ [join] } c) :
    HasColumn { q with joins := before } c ↔
      c.table ≠ join.table.visible ∨ join.table.visible ∈ q.tableNames before := by
  obtain ⟨hpath, htable⟩ := hasColumn_iff.mp h
  rw [hasColumn_iff, and_iff_right hpath]
  by_cases hown : c.table = join.table.visible
  · rw [hown]
    exact (or_iff_right fun hne => hne rfl).symm
  · refine iff_of_true ?_ (.inl hown)
    simpa [tableNames, hown] using htable

/-- A condition names columns of the tables up to its join. -/
theorem serves_enter (q : Select) (before : List Join) (join : Join) (params : List Value) :
    Serves { q with joins := before ++ [join] }
      (Join.enter join.table (Join.enterAll before (q.source.enter { params }))) := by
  have hserves := serves_enterAll q (before ++ [join]) params
  rwa [Join.enterAll, foldl_append] at hserves

/-- Each join of an accepted query compares two columns in its last token.  One is a column of its
own table, its `foreignField`, and the other one gives `leftTable` and `localField`.  That is a
column of the first table or of an earlier join, at its path in the documents, unless both columns
belong to the joined table and its name is new.  Exchanging the sides gives the same join, unless
both columns belong to the joined table and differ; the two then trade places. -/
theorem compile_join_sides {params : List Value} {tokens : List Token} {q : Select}
    {before after : List Join} {join : Join} (h : Select.compile params tokens = .ok q)
    (hjoins : q.joins = before ++ join :: after) :
    let r : Reading := ⟨Join.enterAll before (q.source.enter { params }), false,
      subselectWithin params (Token.depthAll tokens)⟩
    let readAt (tokens : List Token) := Join.readAt r q.columns tokens join.span.start
    readAt tokens = .ok join ∧
    ∃ (t : Token) (first second own foreign : Column),
      tokens[join.span.stop - 1]? = some t ∧
      Join.Compares { r with scope := Join.enter join.table r.scope } t first second ∧
      ((own = first ∧ foreign = second) ∨ (own = second ∧ foreign = first)) ∧
      join = join.on own foreign ∧
      foreign.table = join.table.visible ∧
      (own.table = join.table.visible ↔ join.OwnOnly first second) ∧
      (HasColumn { q with joins := before } own ↔
        ¬ (join.OwnOnly first second ∧ join.table.visible ∉ q.tableNames before)) ∧
      (readAt (tokens.set (join.span.stop - 1) (Join.exchange t)) = .ok join ↔
        ¬ (join.OwnOnly first second ∧ first.column ≠ second.column)) ∧
      (join.OwnOnly first second → join = join.on first second ∧
        readAt (tokens.set (join.span.stop - 1) (Join.exchange t)) =
          .ok (join.on second first)) := by
  obtain ⟨C⟩ := course_of_read h
  obtain ⟨read, t, own, foreign, rfl, hreads⟩ := C.exists_reads hjoins
  intro r readAt
  have hstop : (read.fill q.columns).span.stop - 1 = (read.fill q.columns).span.start + 3 := by
    have hspan := congrArg Join.span hreads.join_eq
    rw [Join.fill, hspan]
    rfl
  have hon : (read.fill q.columns).on own foreign = read.fill q.columns :=
    congrArg (fun join : Join => join.fill q.columns) hreads.on_eq
  obtain ⟨first, second, hcompares, hsides⟩ := Join.columns_eq_ok.mp hreads.columns_eq
  obtain ⟨hpair, hforeign, hown⟩ := Join.own_of_sides hsides
  rw [hstop]
  have hexchange (own' foreign' : Column) (h : Join.sides read.table.visible (.column second)
      (.column first) = .ok (own', foreign')) :
      readAt (tokens.set ((read.fill q.columns).span.start + 3) (Join.exchange t)) =
        .ok ((read.fill q.columns).on own' foreign') :=
    (hreads.recondition (Join.columns_eq_ok.mpr ⟨_, _, hcompares.exchange, h⟩)).readAt_eq q.columns
  have hserves := serves_enter q before (read.fill q.columns) params
  have hfirst := hserves.hasColumn hcompares.names.1
  have hsecond := hserves.hasColumn hcompares.names.2
  have hcolumn : HasColumn { q with joins := before ++ [read.fill q.columns] } own := by
    rcases hpair with ⟨rfl, -⟩ | ⟨rfl, -⟩
    · exact hfirst
    · exact hsecond
  have hboth (hown : (read.fill q.columns).OwnOnly first second) :
      read.fill q.columns = (read.fill q.columns).on first second ∧
      readAt (tokens.set ((read.fill q.columns).span.start + 3) (Join.exchange t)) =
        .ok ((read.fill q.columns).on second first) := by
    obtain ⟨hleft, hright⟩ :=
      Prod.mk.inj (Except.ok.inj (hsides.symm.trans (Join.sides_of_own hown.2)))
    rw [hleft, hright] at hon
    exact ⟨hon.symm, hexchange second first (Join.sides_of_own hown.1)⟩
  refine ⟨hreads.readAt_eq q.columns, t, first, second, own, foreign, hreads.condition, hcompares,
    hpair, hon.symm, hforeign, hown, ?_, ?_, hboth⟩
  · rw [hasColumn_concat hcolumn, Ne, not_and_or, not_not]
    exact or_congr (not_congr hown) .rfl
  · by_cases hown : (read.fill q.columns).OwnOnly first second
    · obtain ⟨hjoin, hturned⟩ := hboth hown
      rw [hturned, Except.ok.injEq]
      constructor
      · rintro hsame ⟨-, hne⟩
        exact hne (congrArg Join.foreignField (hsame.trans hjoin))
      · intro hcolumns
        have heq : first = second := by
          refine hfirst.eq hsecond (hown.1.trans hown.2.symm) ?_
          by_contra hne
          exact hcolumns ⟨hown, hne⟩
        rw [heq] at hjoin ⊢
        exact hjoin.symm
    · rw [hexchange own foreign (Join.sides_exchange hsides hown), hon]
      exact ⟨fun _ h => hown h.1, fun _ => rfl⟩

end Select

/-! ### A condition on the joined table alone

The second join compares two columns of its own table. -/

namespace Join.Sample

def tokens : List Token := [.keyword .SELECT, .name (some "a") "x", .keyword .FROM, .name none "a",
    .keyword .JOIN, .name none "b", .keyword .ON,
    .paren [.comparison (.name (some "b") "i") .eq (.name (some "a") "j")],
    .keyword .LEFT_JOIN, .name none "c", .keyword .ON,
    .comparison (.name (some "c") "u") .eq (.name (some "c") "v")]

def earlier : Join :=
  { kind := .inner, leftTable := "a", table := ⟨"b", "b"⟩, localField := "j", foreignField := "i"
    span := ⟨4, 8⟩ }

def late : Join :=
  { kind := .outer, leftTable := "c", table := ⟨"c", "c"⟩, localField := "c.u", foreignField := "v"
    span := ⟨8, 12⟩ }

def query : Select where
  source := ⟨⟨"a", "a"⟩, ⟨2, 4⟩⟩
  joins := [earlier, late]
  nested := []
  columns := { items := [⟨.column ⟨"a", "x", "x"⟩, "x", none⟩], span := ⟨1, 2⟩ }
  filter := none
  grouping := none
  having := none
  distinct := none
  sorting := none
  window := none
  shape := .documents ["x"] none

set_option maxRecDepth 8000 in
theorem compiles : Select.compile [] tokens = .ok query := by with_unfolding_all rfl

/-- The column that the rows so far are joined by is of no table before, and with the sides
exchanged they are joined by another one. -/
theorem late_reads_own_column :
    Select.compile [] tokens = .ok query ∧ query.joins = [earlier] ++ late :: [] ∧
      (∃ own : Column, late.localField = own.path ∧ own.table = "c" ∧
        ¬ Select.HasColumn { query with joins := [earlier] } own) ∧
      ∃ r t, tokens[11]? = some t ∧ readAt r query.columns tokens 8 = .ok late ∧
        readAt r query.columns (tokens.set 11 (exchange t)) 8 =
          .ok { late with localField := "c.v", foreignField := "u" } := by
  obtain ⟨hread, t, first, second, own, foreign, ht, ⟨left, right, hunwrap, hleft, hright⟩, -,
    hjoin, -, htable, hearlier, -, hturned⟩ := Select.compile_join_sides compiles
      (show query.joins = [earlier] ++ late :: [] from rfl)
  obtain rfl : Token.comparison (.name (some "c") "u") .eq (.name (some "c") "v") = t :=
    Option.some.inj ht
  cases hunwrap
  cases hleft
  cases hright
  have hown : late.OwnOnly ⟨"c", "u", "c.u"⟩ ⟨"c", "v", "c.v"⟩ := ⟨rfl, rfl⟩
  refine ⟨compiles, rfl, ⟨own, congrArg Join.localField hjoin, htable.mpr hown, fun h => ?_⟩,
    _, _, ht, hread, (hturned hown).2⟩
  exact hearlier.mp h ⟨hown, by decide⟩

end Join.Sample

end DocSql
