import DocSql.Clause.Columns
import DocSql.Clause.Source

/-! # JOIN

A joined table is looked up by one column and put under the name that the table has in the query.
An outer join keeps the rows without a partner; the columns of the table that the SELECT list reads
are then null.
-/
namespace DocSql

/-- What happens to a row without a partner. -/
inductive JoinKind where
  | inner
  | outer
  deriving DecidableEq

/-- The join that a keyword starts. -/
def JoinKind.ofKeyword? : Keyword → Option (Compiled JoinKind)
  | .JOIN | .INNER_JOIN => some (.ok .inner)
  | .LEFT_JOIN | .LEFT_OUTER_JOIN => some (.ok .outer)
  | .RIGHT_JOIN => some (unsupported (.join .RIGHT_JOIN))
  | .RIGHT_OUTER_JOIN => some (unsupported (.join .RIGHT_OUTER_JOIN))
  | .FULL_JOIN => some (unsupported (.join .FULL_JOIN))
  | .FULL_OUTER_JOIN => some (unsupported (.join .FULL_OUTER_JOIN))
  | .CROSS_JOIN => some (unsupported (.join .CROSS_JOIN))
  | _ => none

/-- The join that a token starts. -/
def JoinKind.ofToken? : Token → Option (Compiled JoinKind)
  | .keyword k => JoinKind.ofKeyword? k
  | _ => none

/-- A joined table. -/
structure Join where
  kind : JoinKind
  /-- The name of the table that holds the local field. -/
  leftTable : String
  table : TableRef
  /-- The path by which the rows so far are joined. -/
  localField : String
  /-- The column of the joined table that equals it. -/
  foreignField : String
  /-- The columns of the joined table that the SELECT list reads. -/
  backfill : List String := []
  span : Span

mutual

/-- The columns of a table that a term reads.  The conditions of a CASE term are not looked at. -/
def Term.columnsOf (table : String) : Term → List String
  | .column c => if c.table = table then [c.column] else []
  | .aggregate _ _ arg => arg.columnsOf table
  | .dateTrunc _ arg => arg.columnsOf table
  | .arith _ left right => left.columnsOf table ++ right.columnsOf table
  | .compare lhs _ rhs => lhs.columnsOf table ++ rhs.columnsOf table
  | .caseOf arms => arms.columnsOf table
  | _ => []

/-- The columns of a table that the results of branches read. -/
def Arms.columnsOf (table : String) : Arms → List String
  | .done => []
  | .otherwise t => t.columnsOf table
  | .arm _ t rest => t.columnsOf table ++ rest.columnsOf table

end

namespace Join

/-- The condition in a parenthesis of one token. -/
def unwrap : Token → Token
  | .paren [t] => t
  | t => t

/-- The two columns of a join condition, the one of the joined table last. -/
def sides (table : String) : Term → Term → Compiled (Column × Column)
  | .column l, .column r =>
    if r.table = table then .ok (l, r)
    else if l.table = table then .ok (r, l)
    else undecodable (.joinWithoutOwnColumn table)
  | _, _ => undecodable (.joinWithoutOwnColumn table)

/-- Reads the kind of a join. -/
def readKind (c : TokenCursor) : Compiled (JoinKind × TokenCursor) :=
  match c.next with
  | (some t, after) =>
    match JoinKind.ofToken? t with
    | some kind => do return (← kind, after)
    | none => undecodable .expectedJoin
  | (none, _) => undecodable .expectedJoin

/-- Reads the table of a join. -/
def readTable (c : TokenCursor) : Compiled (TableRef × TokenCursor) :=
  match c.next with
  | (some t, after) => do return (← TableRef.ofToken t, after)
  | (none, _) => undecodable .joinWithoutTable

/-- Reads the condition of a join. -/
def readCondition (c : TokenCursor) : Compiled (Token × TokenCursor) :=
  match c.eat? .ON with
  | none => unsupported .joinWithoutOn
  | some c =>
    match c.next with
    | (some t, after) => .ok (unwrap t, after)
    | (none, _) => undecodable .joinWithoutCondition

/-- The local column and the column of the joined table that a condition compares. -/
def columns (r : Reading) (table : String) : Token → Compiled (Column × Column)
  | .comparison left .eq right => do
    let lhs ← r.resolve left
    let rhs ← r.resolve right
    sides table lhs rhs
  | t => unsupported (.joinCondition t)

/-- The scope in which the joined table is known. -/
def enter (table : TableRef) (s : Scope) : Scope := s.addTable table.visible table.collection

/-- Reads a join.  The table is in scope of its own condition and of all that follows. -/
def read (r : Reading) (c : TokenCursor) : Compiled (Join × Scope × TokenCursor) := do
  let (kind, afterKind) ← readKind c
  let (table, afterTable) ← readTable afterKind
  let scope := enter table r.scope
  let (condition, after) ← readCondition afterTable
  let (own, foreign) ← columns { r with scope, aliases := false } table.visible condition
  let join : Join :=
    { kind, table, leftTable := own.table, localField := own.path, foreignField := foreign.column,
      span := .between c after }
  return (join, scope, after)

/-- The join with the columns that the SELECT list reads. -/
def fill (join : Join) (columns : Columns) : Join :=
  { join with
    backfill :=
      (columns.items.flatMap fun item => item.term.columnsOf join.table.visible).eraseDups }

/-- The stage that looks the partners up. -/
def lookupStage (join : Join) : Value :=
  .field "$lookup" (.object
    [("from", .string join.table.collection), ("localField", .string join.localField),
      ("foreignField", .string join.foreignField), ("as", .string join.table.visible)])

/-- The document that stands for a missing partner. -/
def missing (join : Join) : Value := .object (join.backfill.map fun column => (column, .null))

/-- The stages of a join. -/
def stages (join : Join) : List Value :=
  let path := Value.path join.table.visible
  match join.kind with
  | .inner =>
    [.field "$match" (.field join.localField (.object [("$ne", .null), ("$exists", .bool true)])),
      join.lookupStage,
      .field "$unwind" path]
  | .outer =>
    [join.lookupStage,
      .field "$unwind" (.object [("path", path), ("preserveNullAndEmptyArrays", .bool true)]),
      .field "$addFields"
        (.field join.table.visible (.field "$ifNull" (.array [path, join.missing])))]

end Join

instance : Clause Join where
  span := Join.span
  stages join := .ok join.stages

end DocSql
