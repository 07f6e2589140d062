import DocSql.Select.Basic

/-! # Compiling SELECT statements

The clauses are read in the order of the text, except for the SELECT list, which is read when the
tables are known.  A sub-select is compiled in the same way; it stands inside a parenthesis, so the
depth of the tokens bounds how often that happens.
-/
namespace DocSql

namespace Select

/-- Reads the joins that are next.  Every join takes a token, so the number of tokens is fuel
enough. -/
def readJoins (r : Reading) : Nat → TokenCursor → Compiled (List Join × Scope × TokenCursor)
  | 0, c => .ok ([], r.scope, c)
  | fuel + 1, c =>
    match c.peek.bind JoinKind.ofToken? with
    | none => .ok ([], r.scope, c)
    | some _ => do
      let (join, scope, c) ← Join.read r c
      let (joins, scope, c) ← readJoins { r with scope } fuel c
      return (join :: joins, scope, c)

/-- Reads DISTINCT, where it is next: whether it was there, and the place behind it. -/
def readDistinct (c : TokenCursor) : Bool × TokenCursor :=
  match c.eat? .DISTINCT with
  | some c => (true, c)
  | none => (false, c)

/-- What the grouping of a query depends on: the GROUP BY clause, whether HAVING is next, and
whether DISTINCT is asked for. -/
structure Outline where
  columns : Columns
  grouping : Option Grouping
  having : Bool
  distinct : Bool

namespace Outline

/-- Whether the items are read from the documents as they are. -/
def isUngrouped (o : Outline) : Bool := o.grouping.isNone && !o.having && !o.distinct

/-- Whether the query only counts rows. -/
def countsOnly (o : Outline) : Bool := o.isUngrouped && o.columns.isCountAll

/-- The values of the row, if it is the same for each document. -/
def constants? (o : Outline) : Option (List Value) :=
  if o.isUngrouped then o.columns.constants? else none

/-- The grouping of the query: that of the GROUP BY clause, or the one that aggregates or HAVING ask
for. -/
def plan (o : Outline) (position : Nat) : Option Grouping :=
  match o.grouping with
  | some g => some g
  | none =>
    if !o.countsOnly && (o.having || o.columns.hasAggregates) then some (.implicit position)
    else none

end Outline

/-- Reads HAVING, where there is a grouping. -/
def readHaving (r : Reading) (columns : Columns) :
    Option Grouping → TokenCursor → Compiled (Option Having × Option Grouping × TokenCursor)
  | none, c => .ok (none, none, c)
  | some g, c => do
    let (having, g, c) ← Having.read? r columns g c
    return (having, some g, c)

/-- Resolves the keys of an order against what the stages before leave. -/
def resolveSorting (columns : Columns) (distinct : Bool) :
    Option Sorting → Option Grouping → Compiled (Option Sorting × Option Grouping)
  | none, g => .ok (none, g)
  | some sorting, g =>
    match distinct, g with
    | true, g => do
      let sorting ← sorting.resolveDistinct columns
      return (some sorting, g)
    | false, some g => do
      let (sorting, g) ← sorting.resolveGrouped columns g
      return (some sorting, some g)
    | false, none => do
      let sorting ← sorting.resolvePlain columns
      return (some sorting, none)

/-- The row of a result without documents.  A single group has a row even over no rows, unless HAVING
or OFFSET takes it away. -/
def emptyRow? (columns : Columns) (grouping : Option Grouping) (having : Option Having)
    (window : Option Window) : Option (List Value) :=
  match grouping, having with
  | some g, none =>
    if !g.explicit && !(window.any fun w => w.skipsFirstRow) then some (Grouping.emptyRow columns)
    else none
  | _, _ => none

/-- Reads a SELECT.  `subselect` compiles the sub-selects in it. -/
def read (subselect : List Token → Compiled Subselect) (scope : Scope) (tokens : List Token) :
    Compiled Select := do
  let reading (scope : Scope) : Reading := { scope, aliases := false, subselect }
  match TokenCursor.eat? { tokens } .SELECT with
  | none => undecodable .expectedSelect
  | some start =>
    -- the list is passed over until the tables are known
    let (isDistinct, listStart) := readDistinct start
    let (list, c) := listStart.takeUntil (Token.isKeyword .FROM)
    let (source, c) ← Source.read c
    let (joins, scope, c) ← readJoins (reading (source.enter scope)) tokens.length c
    let columns ← Columns.read (reading scope) list listStart.position
    let scope := columns.enter scope
    let joins := joins.map fun join => join.fill columns
    let (filter, scope, c) ← Filter.read? (reading scope) c
    let (explicit, c) ← Grouping.read? (reading scope) columns c
    let outline : Outline :=
      { columns, grouping := explicit, having := c.isKeyword .HAVING, distinct := isDistinct }
    let grouping ← (outline.plan c.position).mapM fun g => g.addOutputs columns
    let (having, grouping, c) ← readHaving (reading scope) columns grouping c
    -- from here on the items are fields, where there is a grouping
    let columns := { columns with materialized := grouping.isSome }
    let distinct ←
      if isDistinct then some <$> Distinct.ofColumns columns start.position else pure none
    let columns := { columns with materialized := grouping.isSome || isDistinct }
    let (sorting, c) ← Sorting.read? (reading scope) c
    let (sorting, grouping) ← resolveSorting columns isDistinct sorting grouping
    let (window, c) ← Window.read? scope c
    match c.peek with
    | some t => undecodable (.unexpectedAt t c.position)
    | none =>
      let shape : RowShape :=
        if outline.countsOnly then .count
        else match outline.constants? with
          | some values => .constant values
          | none => .documents columns.names (emptyRow? columns grouping having window)
      return { source, joins, nested := scope.nested, columns, filter, grouping, having, distinct,
               sorting, window, shape }

/-- Compiles a sub-select.  The fuel bounds the depth of its tokens. -/
def subselectWithin (params : List Value) : Nat → List Token → Compiled Subselect
  | 0, _ => undecodable .expectedSelect
  | fuel + 1, tokens => do
    let q ← read (subselectWithin params fuel) { params } tokens
    q.toSubselect

/-- Compiles a SELECT in a scope. -/
def compileIn (scope : Scope) (tokens : List Token) : Compiled Select :=
  read (subselectWithin scope.params (Token.depthAll tokens)) scope tokens

/-- Compiles a SELECT with bound parameters. -/
def compile (params : List Value) (tokens : List Token) : Compiled Select :=
  compileIn { params } tokens

end Select

/-- How tokens, and the sub-selects in them, are read in a scope. -/
def Scope.reading (s : Scope) (aliases : Bool) (tokens : List Token) : Reading where
  scope := s
  aliases
  subselect := Select.subselectWithin s.params (Token.depthAll tokens)

end DocSql
