import DocSql.Clause.Distinct
import DocSql.Clause.Filter
import DocSql.Clause.Having
import DocSql.Clause.Join
import DocSql.Clause.Sorting
import DocSql.Clause.Window

/-! # SELECT statements

A compiled SELECT holds its clauses.  It runs as a plain search if no clause needs more than that,
and else as a pipeline, whose stages have a fixed order: joins, sub-selects, WHERE, grouping, HAVING,
DISTINCT, sorting, window, and last the projection or the count.
-/
namespace DocSql

/-- How the documents of a result become rows. -/
inductive RowShape where
  /-- One row with the number of documents. -/
  | count
  /-- The same row for each document. -/
  | constant (values : List Value)
  /-- A row for each document, of the fields at the given paths.  `emptyRow` is the row of a result
  without documents. -/
  | documents (columns : List String) (emptyRow : Option (List Value))

/-- Whether a row is made from each document. -/
def RowShape.isDocuments : RowShape → Bool
  | .documents .. => true
  | _ => false

/-- A compiled SELECT. -/
structure Select where
  source : Source
  joins : List Join
  nested : List NestedList
  columns : Columns
  filter : Option Filter
  grouping : Option Grouping
  having : Option Having
  distinct : Option Distinct
  sorting : Option Sorting
  window : Option Window
  shape : RowShape

/-- What a SELECT asks the document store. -/
inductive SelectCommand where
  | find (collection : String) (args : FindArgs)
  | aggregate (collection : String) (pipeline : List Value)

/-- The command as a document. -/
def SelectCommand.toValue : SelectCommand → Value
  | .find collection args =>
    .field "find" (.object [("collection", .string collection), ("args", args.toValue)])
  | .aggregate collection pipeline =>
    .field "aggregate"
      (.object [("collection", .string collection), ("pipeline", .array pipeline)])

namespace Select

/-- The collection of the first table. -/
def collection (q : Select) : String := q.source.table.collection

/-- The collections that the query reads, each once. -/
def collections (q : Select) : List String :=
  (q.collection ::
    (q.joins.map (·.table.collection) ++ q.nested.map (·.subselect.collection))).eraseDups

/-- Whether a plain search is not enough. -/
def needsPipeline (q : Select) : Bool :=
  !q.joins.isEmpty || !q.nested.isEmpty || q.grouping.isSome || q.distinct.isSome ||
    !q.shape.isDocuments || q.columns.needsPipeline ||
    q.sorting.any fun sorting => sorting.needsPipeline

/-- The query as the arguments of a search. -/
def findArgs (q : Select) : Compiled FindArgs := do
  let args ← Clause.find q.columns {}
  let args ← Clause.findOf q.filter args
  let args ← Clause.findOf q.sorting args
  Clause.findOf q.window args

/-- The last stages: the projection to the SELECT list, or the number of documents. -/
def lastStages (q : Select) : Compiled (List Value) :=
  if q.shape.isDocuments then Clause.stages q.columns
  else .ok [.field "$count" (.string "_count")]

/-- The query as a pipeline. -/
def pipeline (q : Select) : Compiled (List Value) := do
  let joins := q.joins.flatMap Join.stages
  let nested := q.nested.flatMap NestedList.stages
  let filter ← Clause.stagesOf q.filter
  let grouping ← Clause.stagesOf q.grouping
  let having ← Clause.stagesOf q.having
  let distinct ← Clause.stagesOf q.distinct
  let sorting ← Clause.stagesOf q.sorting
  let window ← Clause.stagesOf q.window
  let last ← q.lastStages
  return joins ++ nested ++ filter ++ grouping ++ having ++ distinct ++ sorting ++ window ++ last

/-- The command that the query is for the document store. -/
def command (q : Select) : Compiled SelectCommand :=
  if q.needsPipeline then do
    let pipeline ← q.pipeline
    return .aggregate q.collection pipeline
  else do
    let args ← q.findArgs
    return .find q.collection args

/-- The query as a sub-select, which has one column. -/
def toSubselect (q : Select) : Compiled Subselect :=
  match q.columns.items with
  | [item] =>
    if q.shape.isDocuments then do
      let pipeline ← q.pipeline
      return { collection := q.collection, pipeline, field := item.name }
    else unsupported (.subselectShape item.name)
  | _ => undecodable .subselectWidth

end Select

end DocSql
