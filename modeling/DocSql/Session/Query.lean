import DocSql.Command.Basic
import DocSql.Session.Rows

/-! # Queries in a session

A session holds the document store and what is known of its collections.  A query is compiled when
it is made; it meets the store when it is run.
-/
namespace DocSql

/-- The version that errors report. -/
def version : String := "0.1.0"

/-- A fault of a query, with the query. -/
structure QueryError where
  fault : Fault
  sql : String
  params : List Value

/-- The error in words. -/
def QueryError.text (e : QueryError) : String :=
  e.fault.message ++ "\n  sql: " ++ e.sql ++ "\n  params: " ++ Dump.list (Dump.values e.params) ++
    "\n  version: " ++ version

/-- A store, and how it is used. -/
structure Session where
  store : Store := {}
  /-- Whether missing columns and collections are faults. -/
  enforceSchema : Bool := false
  /-- The collections that are known to exist, each once. -/
  cached : List String := []

/-- Something done in a session.  The state is kept when it fails. -/
abbrev SessionM := ExceptT Fault (StateM Session)

namespace Session

/-- Adds a name to a list of names, where it is not there yet. -/
def addName (names : List String) (name : String) : List String :=
  if names.contains name then names else names ++ [name]

/-- Does something with the store of the session. -/
def onStore {α : Type} (act : StoreM α) : SessionM α := do
  let s ← get
  let (result, store) := act.run.run s.store
  set { s with store }
  match result with
  | .ok a => return a
  | .error fault => throw fault

/-- Remembers that collections exist. -/
def remember (names : List String) : SessionM Unit :=
  modify fun s => { s with cached := names.foldl addName s.cached }

/-- The first of some collections that is not known. -/
def unknown? (s : Session) (collections : List String) : Option String :=
  collections.find? fun c => !s.cached.contains c

/-- Checks that collections exist.  The store is asked once, if one of them is not known. -/
def checkCollections (collections : List String) : SessionM Unit := do
  match (← get).unknown? collections with
  | none => return ()
  | some _ =>
    let names ← onStore Store.listCollectionNames
    remember names
    match (← get).unknown? collections with
    | none => return ()
    | some missing => throw (.migration (.collection missing))

end Session

/-- A compiled query. -/
structure Query where
  sql : String
  params : List Value
  command : Command
  /-- The id or number of the last row that the query has inserted. -/
  lastRowId : Option Value := none

namespace Query

/-- Compiles a query. -/
def compile (sql : String) (params : List Value) : Except QueryError Query :=
  let compiled : Compiled Command := do
    let statement ← Compiled.ofParse (Statement.parse sql)
    Command.compile statement params
  match compiled with
  | .ok command => .ok { sql, params, command }
  | .error fault => .error { fault, sql, params }

/-- Asks the store for the documents of a SELECT. -/
def openCursor : SelectCommand → StoreM ResultCursor
  | .find collection args => Store.find collection args
  | .aggregate collection pipeline => Store.aggregate collection pipeline

/-- Runs a SELECT. -/
def rows (q : Query) : SessionM Rows := do
  match q.command with
  | .select query command =>
    if (← get).enforceSchema then Session.checkCollections query.collections
    let cursor ← Session.onStore (openCursor command)
    return { cursor, shape := query.shape, enforceSchema := (← get).enforceSchema, sql := q.sql,
             params := q.params }
  | _ => throw (.undecodable .rowsOfCommand)

/-- Runs any other command, and gives the number of documents and the query after it. -/
def execute (q : Query) : SessionM (Nat × Query) := do
  match q.command with
  | .select .. => throw (.undecodable .executeSelect)
  | .insert i =>
    let outcome ← Session.onStore i.execute
    Session.remember [i.collection]
    return (outcome.count, { q with lastRowId := outcome.lastRowId })
  | .update u => return (← Session.onStore u.execute, q)
  | .delete d => return (← Session.onStore d.execute, q)
  | .schema _ => return (0, q)

end Query

end DocSql
