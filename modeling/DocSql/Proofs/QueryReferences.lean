import DocSql.Proofs.AliasReading
import DocSql.Proofs.ClauseReading
import DocSql.Proofs.ReadingTraits
import DocSql.Proofs.TermReferences

/-! # What the clauses of a query refer to

What is read refers to what its names stand for.  In a query a name stands for a column of one of
its tables, with the path that documents hold the columns of that table at (`Select.HasColumn`), or,
in a clause that may use them, for an alias.  The SELECT list itself uses no aliases.
-/
namespace DocSql
open Compiled List

variable {r : Reading} {c c' : TokenCursor} {label : String}

/-! ### Names -/

namespace Reading

/-- Some name stands for the term. -/
def Names (r : Reading) (t : Term) : Prop := ∃ qualifier name, r.name qualifier name = .ok t

/-- Columns and fields that are referred to are what names stand for. -/
def Refers (r : Reading) : Reference → Prop
  | .column c => r.Names (.column c)
  | .field name => r.Names (.field name)
  | .text _ => True

/-- A field that a name stands for is an alias. -/
theorem Names.declared (h : r.Names (.field label)) :
    r.aliases = true ∧ r.scope.aliases.contains label = true := by
  obtain ⟨qualifier, name, h⟩ := h
  obtain ⟨_, hcolumn, -⟩ | ⟨hfield, hdeclared⟩ := name_eq_ok h
  · cases hcolumn
  · cases hfield
    exact hdeclared

theorem mem_tables_of_resolveTable {s : Scope} {qualifier table : String}
    (h : s.resolveTable qualifier = .ok table) : table ∈ s.tables.keys := by
  unfold Scope.resolveTable at h
  split at h
  · rename_i hcontains
    cases h
    obtain ⟨collection, hcollection⟩ := Option.isSome_iff_exists.mp hcontains
    exact Entries.mem_keys_of_get? hcollection
  · split at h
    · rename_i visible collection hfind
      cases h
      exact mem_map_of_mem (mem_of_find?_eq_some hfind)
    · cases h

/-- A column that a name stands for is one of the first table or of a table in scope. -/
theorem Names.column {c : Column} (h : r.Names (.column c)) :
    (r.scope.isLeft c.table = true ∨ c.table ∈ r.scope.tables.keys) ∧
      c.path = if r.scope.isLeft c.table then c.column else c.table ++ "." ++ c.column := by
  obtain ⟨qualifier, name, h⟩ := h
  obtain ⟨table, hcolumn, htable⟩ | ⟨hfield, -⟩ := name_eq_ok h
  · cases hcolumn
    refine ⟨?_, rfl⟩
    rcases htable with htable | ⟨q, htable⟩
    · unfold Scope.leftTable at htable
      split at htable
      · rename_i visible hleft
        cases htable
        simp [Scope.isLeft, hleft]
      · cases htable
    · exact .inr (mem_tables_of_resolveTable htable)
  · cases hfield

end Reading

/-- Reading refers to what names stand for. -/
def Trait.refers (r : Reading) : Trait r where
  term t := ∀ ref ∈ t.references, r.Refers ref
  arms arms := ∀ ref ∈ arms.references, r.Refers ref
  condition c := ∀ ref ∈ c.references, r.Refers ref
  members m := ∀ ref ∈ m.references, r.Refers ref
  column h := forall_mem_singleton.mpr ⟨_, _, h⟩
  field h := forall_mem_singleton.mpr ⟨_, _, h⟩
  const _ := forall_mem_map.mpr fun _ _ => trivial
  param _ _ := forall_mem_map.mpr fun _ _ => trivial
  countAll := nofun
  compare _ _ _ hlhs hrhs := forall_mem_append.mpr ⟨hlhs, hrhs⟩
  aggregate _ _ _ harg := harg
  dateTrunc _ _ harg := harg
  arith _ _ _ hleft hright := forall_mem_append.mpr ⟨hleft, hright⟩
  caseOf h := h
  done := nofun
  otherwise h := h
  arm hc ht hrest := forall_mem_append.mpr ⟨forall_mem_append.mpr ⟨hc, ht⟩, hrest⟩
  list h := by
    rw [Members.references]
    split
    · exact forall_mem_map.mpr fun _ _ => trivial
    · intro ref href
      obtain ⟨t, ht, href⟩ := mem_termReferences.mp href
      exact h t ht ref href
  subselect _ := nofun
  tested h := h
  truth _ h := h
  isNull _ h := h
  between _ ht hlow hhigh := forall_mem_append.mpr ⟨forall_mem_append.mpr ⟨ht, hlow⟩, hhigh⟩
  like _ _ ht hp := forall_mem_append.mpr ⟨ht, hp⟩
  member _ ht hm := forall_mem_append.mpr ⟨ht, hm⟩
  negate hc h := by
    rwa [Condition.eq_flipped_of_negate h, Condition.references_flipped]
  and hlhs hrhs := by
    rw [Condition.references_and]
    exact forall_mem_append.mpr ⟨hlhs, hrhs⟩
  or hlhs hrhs := by
    rw [Condition.references_or]
    exact forall_mem_append.mpr ⟨hlhs, hrhs⟩

/-- The items of the SELECT list refer to columns and not to aliases. -/
theorem Columns.refers_items {tokens : List Token} {start : Nat} {columns : Columns}
    (h : Columns.read r tokens start = .ok columns) : ∀ item ∈ columns.items,
      ∀ ref ∈ item.term.references, Reading.Refers { r with aliases := false } ref := by
  have hitems : ∀ {pieces : List (List Token)} {taken : List String} {place : Nat}
      {items : List SelectItem},
      SelectItem.readAll { r with aliases := false } taken place pieces = .ok items →
      ∀ item ∈ items, ∀ ref ∈ item.term.references,
        Reading.Refers { r with aliases := false } ref := by
    intro pieces
    induction pieces with
    | nil =>
      rintro taken place items ⟨⟩
      exact nofun
    | cons piece pieces ih =>
      intro taken place items h
      obtain ⟨⟨t, label⟩, -, term, hterm, rest, hrest, rfl⟩ := bind₃_eq_ok.mp h
      exact forall_mem_cons.mpr ⟨(Trait.refers _).term_resolve hterm, ih hrest⟩
  unfold Columns.read at h
  split at h
  · cases h
  · obtain ⟨items, hread, rfl⟩ := bind₁_eq_ok.mp h
    exact hitems hread

/-- The keys of an order refer to columns and aliases. -/
theorem Sorting.refers_keys {sorting : Sorting} (h : Sorting.read? r c = .ok (some sorting, c')) :
    ∀ key ∈ sorting.keys,
      ∀ ref ∈ key.term.references, Reading.Refers { r with aliases := true } ref := by
  obtain ⟨hnone, -⟩ | ⟨_, keys, -, -, hkeys, -, hsome⟩ := Sorting.read?_eq_ok h
  · cases hnone
  · cases hsome
    intro key hkey
    obtain ⟨piece, -, hread⟩ := exists_of_mapM hkeys key hkey
    obtain ⟨⟨tokens, direction⟩, -, term, hterm, rfl⟩ := bind₂_eq_ok.mp hread
    exact (Trait.refers _).term_resolveOne hterm

/-! ### The scopes of a query -/

/-- A WHERE clause adds only its sub-selects to the scope. -/
theorem Filter.scope_read {filter : Option Filter} {scope : Scope}
    (h : Filter.read? r c = .ok (filter, scope, c')) :
    ∃ nested, scope = { r.scope with nested } := by
  obtain ⟨-, rfl, -⟩ | ⟨_, condition, -, -, -, -, rfl⟩ := Filter.read?_eq_ok h
  · exact ⟨_, rfl⟩
  · exact ⟨_, condition.scope_registerNested r.scope⟩

namespace Select

/-- The column belongs to a table of the query, and has the path that the documents of the query
hold it at: its own name in the first table, and below the name of the table in a joined one. -/
def HasColumn (q : Select) (c : Column) : Prop :=
  if c.table = q.source.table.visible then c.path = c.column
  else c.path = c.table ++ "." ++ c.column ∧ ∃ join ∈ q.joins, join.table.visible = c.table

/-- The tables of the scope are those of the query. -/
structure Serves (q : Select) (s : Scope) : Prop where
  left : s.left = some q.source.table.visible
  tables : ∀ visible ∈ s.tables.keys,
    visible = q.source.table.visible ∨ ∃ join ∈ q.joins, join.table.visible = visible

variable {subselect : List Token → Compiled Subselect} {params : List Value} {tokens : List Token}
variable {q : Select}

theorem serves_enterAll (q : Select) (joins : List Join) (params : List Value) :
    Serves { q with joins } (Join.enterAll joins (q.source.enter { params })) := by
  obtain ⟨tables, hscope, htables⟩ := @Join.scope_enterAll joins (q.source.enter { params })
  rw [hscope]
  exact ⟨rfl, fun visible h => (htables visible h).imp_left mem_singleton.mp⟩

/-- In the scope of a query a name stands for a column of the query. -/
theorem Serves.hasColumn (hs : q.Serves r.scope) {c : Column} (h : r.Names (.column c)) :
    q.HasColumn c := by
  obtain ⟨htable, hpath⟩ := h.column
  have hleft : r.scope.isLeft c.table = true ↔ c.table = q.source.table.visible := by
    rw [Scope.isLeft, hs.left, beq_iff_eq, Option.some.injEq, eq_comm]
  rw [HasColumn]
  split
  · rename_i hfirst
    rwa [if_pos (hleft.mpr hfirst)] at hpath
  · rename_i hother
    rw [if_neg fun h => hother (hleft.mp h)] at hpath
    refine ⟨hpath, ?_⟩
    rcases htable with h | hmem
    · exact absurd (hleft.mp h) hother
    · exact (hs.tables _ hmem).resolve_left hother

namespace Course

variable (C : Course subselect { params } tokens q)
variable {item : SelectItem}

theorem nested_eq_enter : ∃ nested, C.nested = { C.columns.enter C.tables with nested } :=
  Filter.scope_read C.filter_eq

theorem serves_tables : q.Serves C.tables := by
  rw [(readJoins_covers C.joins_eq).2]
  obtain ⟨hleft, htables⟩ := serves_enterAll q C.joins params
  refine ⟨hleft, fun visible hvisible => (htables visible hvisible).imp_right ?_⟩
  rintro ⟨join, hjoin, rfl⟩
  exact ⟨join.fill C.columns, C.fill_eq ▸ mem_map_of_mem hjoin, rfl⟩

theorem serves_nested : q.Serves C.nested := by
  obtain ⟨nested, hnested⟩ := C.nested_eq_enter
  rw [hnested]
  exact ⟨C.serves_tables.left, C.serves_tables.tables⟩

/-- An alias in the scope stands for the last item of the SELECT list that declares it. -/
theorem get?_aliases (label : String) :
    C.nested.aliases.get? label = (C.columns.lastLabelled? label).map (·.term) := by
  have hnone : C.tables.aliases = [] := by
    obtain ⟨tables, hscope, -⟩ := Join.scope_enterAll
    rw [(readJoins_covers C.joins_eq).2.trans hscope]
    rfl
  obtain ⟨nested, hnested⟩ := C.nested_eq_enter
  rw [hnested]
  refine (Columns.get?_aliases_enter C.columns C.tables label).trans ?_
  rw [hnone, Entries.get?_nil, Option.or_none]

theorem item_of_alias {t : Term} (h : C.nested.aliases.get? label = some t) :
    ∃ item ∈ C.columns.items, item.label = some label ∧ item.term = t := by
  rw [C.get?_aliases] at h
  obtain ⟨item, hitem, hterm⟩ := Option.map_eq_some_iff.mp h
  exact ⟨item, mem_reverse.mp (mem_of_find?_eq_some hitem), by simpa using find?_some hitem, hterm⟩

/-- An alias that a name stands for is declared in the SELECT list. -/
theorem declares {aliases : Bool} (h : Reading.Names ⟨C.nested, aliases, subselect⟩ (.field label))
    : ∃ item ∈ C.columns.items, item.label = some label := by
  obtain ⟨t, ht⟩ := Option.isSome_iff_exists.mp h.declared.2
  obtain ⟨item, hitem, hlabel, -⟩ := C.item_of_alias ht
  exact ⟨item, hitem, hlabel⟩

theorem refers_item (h : item ∈ C.columns.items) :
    ∀ ref ∈ item.term.references, Reading.Refers ⟨C.tables, false, subselect⟩ ref :=
  Columns.refers_items C.columns_eq item h

/-- No item of the SELECT list refers to an alias. -/
theorem field_not_mem_item (h : item ∈ C.columns.items) (name : String) :
    .field name ∉ item.term.references := by
  intro hmem
  have halias : false = true := (Reading.Names.declared (C.refers_item h _ hmem)).1
  cases halias

theorem hasColumn_item (h : item ∈ C.columns.items) {c : Column}
    (hc : .column c ∈ item.term.references) : q.HasColumn c :=
  C.serves_tables.hasColumn (C.refers_item h _ hc)

theorem refers_sorting {sorting : Sorting} (h : C.sorting = some sorting) : ∀ key ∈ sorting.keys,
    ∀ ref ∈ key.term.references, Reading.Refers ⟨C.nested, true, subselect⟩ ref :=
  Sorting.refers_keys (h ▸ C.sorting_eq)

end Course

end Select

end DocSql
