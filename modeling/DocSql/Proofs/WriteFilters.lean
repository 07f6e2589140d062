import Mathlib
import DocSql.Command.Write
import DocSql.Proofs.ClauseReading
import DocSql.Proofs.ConditionShape
import DocSql.Select.Compile

/-! # The filters of writes

A write changes every document that its filter lets through, and the empty filter lets through all
of them.  So the filter must be that of the whole WHERE clause whenever there is one: `Guarded` says
this of a filter and the tokens of a statement, and `Update.compile` and `Delete.compile` give no
other filters.
-/
namespace DocSql
open Compiled List

variable {c after : TokenCursor}

/-! ### Where clauses end -/

namespace TokenCursor

/-- A clause ends before the next WHERE. -/
theorem where_not_mem_takeUntil (c : TokenCursor) :
    .keyword .WHERE ∉ (c.takeUntil isClauseKeyword).1 := by
  intro h
  have hstop := mem_takeWhile_imp h
  cases hstop

end TokenCursor

/-! ### Filters of whole clauses -/

/-- A filter lets everything through only where no WHERE stands in the tokens.  Otherwise it is the
filter of the condition of the one WHERE, which goes on to the end of the tokens, and of which no part
is a sub-select. -/
inductive Guarded (r : Reading) (tokens : List Token) : Value → Prop
  | everything (unguarded : .keyword .WHERE ∉ tokens) : Guarded r tokens .empty
  | selected (before after : List Token) {condition : Condition} {name : String} {value : Value}
    (place : tokens = before ++ .keyword .WHERE :: after)
    (first : .keyword .WHERE ∉ before) (last : .keyword .WHERE ∉ after)
    (read : r.condition after = .ok condition)
    (written : condition.filter = .ok (.field name value))
    (joins : name = "$and" ∨ name = "$or" →
      ((∃ items, value = .array items ∧ 2 ≤ items.length) ↔ name ∉ condition.fields))
    (listed : condition.Looks Members.Listed) : Guarded r tokens (.field name value)

section

variable {r : Reading} {v : Value}

theorem Guarded.prepend {tokens : List Token} (h : Guarded r tokens v) (before : List Token)
    (hbefore : .keyword .WHERE ∉ before) : Guarded r (before ++ tokens) v := by
  cases h with
  | everything unguarded =>
    exact .everything fun h => (mem_append.mp h).elim hbefore unguarded
  | selected inner after place first last read written joins listed =>
    refine .selected (before ++ inner) after ?_ ?_ last read written joins listed
    · rw [place, append_assoc]
    · exact fun h => (mem_append.mp h).elim hbefore first

/-- The filter of a condition that is read up to the end of the tokens. -/
theorem Guarded.of_condition {tokens : List Token} {condition : Condition}
    (hread : r.condition tokens = .ok condition) (hfilter : condition.filter = .ok v)
    (hlast : .keyword .WHERE ∉ tokens) : Guarded r (.keyword .WHERE :: tokens) v := by
  obtain ⟨name, value, rfl, hjoins⟩ :=
    (Condition.renders_filter hfilter).joins (Reading.branches_condition hread)
  exact .selected [] tokens rfl not_mem_nil hlast hread hfilter hjoins
    (Condition.listed_of_filter hfilter (Reading.unnested_condition hread))

/-- A WHERE clause is read from WHERE on up to the next clause. -/
theorem Filter.read?_cases {clause : Option Filter} {scope : Scope}
    (h : Filter.read? r c = .ok (clause, scope, after)) :
    (clause = none ∧ after = c) ∨
      ∃ tokens condition span, c.rest = .keyword .WHERE :: tokens ++ after.rest ∧
        .keyword .WHERE ∉ tokens ∧
        Reading.condition { r with aliases := false } tokens = .ok condition ∧
        clause = some ⟨(condition.registerNested r.scope).1, span⟩ := by
  obtain ⟨rfl, -, rfl⟩ | ⟨afterWhere, condition, heat, hcondition, rfl, rfl, -⟩ :=
    Filter.read?_eq_ok h
  · exact .inl ⟨rfl, rfl⟩
  · exact .inr ⟨_, condition, _, TokenCursor.rest_eat_takeUntil heat,
      TokenCursor.where_not_mem_takeUntil afterWhere, hcondition, rfl⟩

theorem guarded_writeFilter (h : writeFilter r c = .ok v) :
    Guarded { r with aliases := false } c.rest v := by
  obtain ⟨⟨clause, scope, after⟩, hread, hrun⟩ := bind_eq_ok.mp h
  obtain ⟨rfl, rfl⟩ | ⟨tokens, condition, span, hrest, hlast, hcondition, rfl⟩ :=
    Filter.read?_cases hread
  · obtain ⟨_, ⟨⟩, hrun⟩ := bind_eq_ok.mp hrun
    split at hrun
    · cases hrun
    · rename_i hend
      cases hrun
      rw [TokenCursor.rest_of_peek_none hend]
      exact .everything not_mem_nil
  · dsimp only at hrun
    split at hrun
    · cases hrun
    · rename_i hnested
      obtain ⟨filter, hfilter, hrun⟩ := bind_eq_ok.mp hrun
      rw [Condition.registerNested_of_not_hasNested (Bool.not_eq_true _ ▸ hnested)] at hfilter
      split at hrun
      · cases hrun
      · rename_i hend
        cases hrun
        rw [hrest, TokenCursor.rest_of_peek_none hend, append_nil]
        exact .of_condition hcondition hfilter hlast

end

/-! ### Writes -/

/-- A token that names a table is no keyword. -/
theorem TableRef.ne_keyword_of_ofToken {t : Token} {table : TableRef} (h : ofToken t = .ok table)
    (k : Keyword) : t ≠ .keyword k := by
  rintro rfl
  cases h

/-- How the clauses of a write of a table are read. -/
def Reading.onTable (r : Reading) (table : TableRef) : Reading :=
  { r with scope := r.scope.setLeftTable table.visible table.collection, aliases := false }

/-- The tokens begin with the heading of a write, which names its table, and the filter is that of
their WHERE clause. -/
def Writes (r : Reading) (tokens : List Token) (heading : Token → List Token) (collection : String)
    (filter : Value) : Prop :=
  ∃ t table, heading t <+: tokens ∧ TableRef.ofToken t = .ok table ∧
    table.collection = collection ∧ Guarded (r.onTable table) tokens filter

theorem Assignments.rest_read {r : Reading} {a : Assignments}
    (h : Assignments.read r c = .ok (a, after)) :
    ∃ tokens, c.rest = .keyword .SET :: tokens ++ after.rest ∧ .keyword .WHERE ∉ tokens := by
  unfold Assignments.read at h
  split at h
  · cases h
  · rename_i afterSet heat
    dsimp only at h
    split at h
    · cases h
    · obtain ⟨a', -, h⟩ := bind_eq_ok.mp h
      cases h
      exact ⟨_, TokenCursor.rest_eat_takeUntil heat, TokenCursor.where_not_mem_takeUntil afterSet⟩

theorem Source.rest_read {source : Source} (h : Source.read c = .ok (source, after)) :
    ∃ t, c.rest = .keyword .FROM :: t :: after.rest ∧ TableRef.ofToken t = .ok source.table := by
  obtain ⟨hfrom, ⟨t, ht, htable⟩, -, rfl⟩ := Source.read_eq_ok.mp h
  refine ⟨t, ?_, htable⟩
  rw [TokenCursor.rest_of_peek hfrom,
    TokenCursor.rest_of_peek (c := c.past 1) ht]

section

variable {r : Reading} {tokens : List Token}

theorem Update.writes_compile {u : Update} (h : Update.compile r tokens = .ok u) :
    Writes r tokens (fun t => [.keyword .UPDATE, t, .keyword .SET]) u.collection u.filter := by
  unfold Update.compile at h
  split at h
  · cases h
  · rename_i start hstart
    split at h
    · cases h
    · rename_i t after hnext
      obtain ⟨table, htable, ⟨a, behind⟩, hset, filter, hfilter, rfl⟩ := bind₃_eq_ok.mp h
      obtain ⟨assigned, hassigned, hwhere⟩ := Assignments.rest_read hset
      have htokens : tokens = (.keyword .UPDATE :: t :: .keyword .SET :: assigned) ++ behind.rest :=
        calc tokens = .keyword .UPDATE :: start.rest := TokenCursor.rest_eat hstart
          _ = .keyword .UPDATE :: t :: after.rest := by rw [TokenCursor.rest_next hnext]
          _ = _ := by rw [hassigned]; rfl
      have hguarded := (guarded_writeFilter hfilter).prepend
        (.keyword .UPDATE :: t :: .keyword .SET :: assigned)
        (by simp [hwhere, (TableRef.ne_keyword_of_ofToken htable .WHERE).symm])
      refine ⟨t, table, ?_, htable, rfl, htokens ▸ hguarded⟩
      rw [htokens]
      exact ⟨assigned ++ behind.rest, rfl⟩

theorem Delete.writes_compile {d : Delete} (h : Delete.compile r tokens = .ok d) :
    Writes r tokens (fun t => [.keyword .DELETE, .keyword .FROM, t]) d.collection d.filter := by
  unfold Delete.compile at h
  split at h
  · cases h
  · rename_i start hstart
    obtain ⟨⟨source, after⟩, hsource, filter, hfilter, rfl⟩ := bind₂_eq_ok.mp h
    obtain ⟨t, hrest, htable⟩ := Source.rest_read hsource
    have htokens : tokens = [.keyword .DELETE, .keyword .FROM, t] ++ after.rest :=
      calc tokens = .keyword .DELETE :: start.rest := TokenCursor.rest_eat hstart
        _ = _ := by rw [hrest]; rfl
    have hguarded := (guarded_writeFilter hfilter).prepend
      [.keyword .DELETE, .keyword .FROM, t]
      (by simp [(TableRef.ne_keyword_of_ofToken htable .WHERE).symm])
    exact ⟨t, source.table, ⟨after.rest, htokens.symm⟩, htable, rfl, htokens ▸ hguarded⟩

end

/-- A write never loses its WHERE: behind the name of its table stands one WHERE clause, whose filter is
that of the write, or none, and then the write is of all documents. -/
theorem write_keeps_where (r : Reading) (tokens : List Token) :
    (∀ u, Update.compile r tokens = .ok u →
      Writes r tokens (fun t => [.keyword .UPDATE, t, .keyword .SET]) u.collection u.filter) ∧
    (∀ d, Delete.compile r tokens = .ok d →
      Writes r tokens (fun t => [.keyword .DELETE, .keyword .FROM, t]) d.collection d.filter) :=
  ⟨fun _ h => Update.writes_compile h, fun _ h => Delete.writes_compile h⟩

namespace Writes.Sample

/-- A reading without tables and parameters. -/
def reading : Reading := Scope.reading { params := [] } false []

/-- The tokens of an UPDATE whose condition has connectives, a list and a negation. -/
def raise : List Token := [.keyword .UPDATE, .name none "t", .keyword .SET,
    .comparison (.name none "n") .eq (.operation (.name none "n") .add (.literal (.int 1))),
    .keyword .WHERE, .comparison (.name none "a") .eq (.literal (.int 1)), .keyword .AND,
    .paren [.name none "b", .keyword .IN,
      .paren [.literal (.int 1), .punctuation ',', .literal (.int 2)], .keyword .OR,
      .keyword .NOT, .name none "c", .keyword .IS, .literal .null]]

/-- The UPDATE that they compile to. -/
def raised : Update where
  collection := "t"
  filter := .field "$and" (.array [.field "a" (.field "$eq" (.int 1)),
    .field "$or" (.array [.field "b" (.field "$in" (.array [.int 1, .int 2])),
      .field "c" (.field "$ne" .null)])])
  update := .field "$inc" (.field "n" (.int 1))

theorem raise_guarded : Update.compile reading raise = .ok raised ∧
    Writes reading raise (fun t => [.keyword .UPDATE, t, .keyword .SET]) "t" raised.filter := by
  have hcompiles : Update.compile reading raise = .ok raised := by cbv
  exact ⟨hcompiles, (write_keeps_where reading raise).1 raised hcompiles⟩

/-- The tokens of a DELETE with a test of a column that has the name of a connective. -/
def purge : List Token := [.keyword .DELETE, .keyword .FROM, .name none "t", .keyword .WHERE,
    .comparison (.name none "$and") .eq (.literal (.int 1))]

/-- The field of its filter has the name of a connective and holds no filters. -/
theorem purge_joins_nothing : ∃ value,
    Delete.compile reading purge = .ok { collection := "t", filter := .field "$and" value } ∧
      ¬∃ items, value = .array items ∧ 2 ≤ items.length := by
  refine ⟨.field "$eq" (.int 1), by cbv, ?_⟩
  rintro ⟨items, hitems, -⟩
  cases hitems

end Writes.Sample

end DocSql
