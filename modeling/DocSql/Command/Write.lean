import DocSql.Clause.Assignments
import DocSql.Clause.Filter
import DocSql.Clause.Source
import DocSql.Store.Basic

/-! # UPDATE and DELETE -/
namespace DocSql

/-- The filter of a write, and the end of the statement behind it.  A sub-select would need a
pipeline, which a write does not have. -/
def writeFilter (r : Reading) (c : TokenCursor) : Compiled Value := do
  let (clause, _, c) ← Filter.read? r c
  let filter ← match clause with
    | none => pure .empty
    | some clause =>
      if clause.condition.hasNested then unsupported .subselectInWrite else clause.condition.filter
  match c.peek with
  | some t => undecodable (.unexpectedAt t c.position)
  | none => return filter

/-- A compiled UPDATE. -/
structure Update where
  collection : String
  filter : Value
  update : Value

namespace Update

/-- Compiles an UPDATE. -/
def compile (r : Reading) (tokens : List Token) : Compiled Update :=
  match TokenCursor.eat? { tokens } .UPDATE with
  | none => undecodable .expectedUpdate
  | some c =>
    match c.next with
    | (none, _) => undecodable .updateWithoutTable
    | (some t, c) => do
      let table ← TableRef.ofToken t
      let r := { r with scope := r.scope.setLeftTable table.visible table.collection }
      let (assignments, c) ← Assignments.read r c
      let filter ← writeFilter r c
      return { collection := table.collection, filter, update := assignments.document }

/-- Runs an UPDATE, and gives the number of documents that it met. -/
def execute (u : Update) : StoreM Nat := Store.updateMany u.collection u.filter u.update

end Update

/-- A compiled DELETE. -/
structure Delete where
  collection : String
  filter : Value

namespace Delete

/-- Compiles a DELETE. -/
def compile (r : Reading) (tokens : List Token) : Compiled Delete :=
  match TokenCursor.eat? { tokens } .DELETE with
  | none => undecodable .expectedDelete
  | some c => do
    let (source, c) ← Source.read c
    let filter ← writeFilter { r with scope := source.enter r.scope } c
    return { collection := source.table.collection, filter }

/-- Runs a DELETE, and gives the number of documents that it removed. -/
def execute (d : Delete) : StoreM Nat := Store.deleteMany d.collection d.filter

end Delete

end DocSql
