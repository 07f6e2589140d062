import DocSql.Clause.Basic
import DocSql.Scope

/-! # FROM -/
namespace DocSql

/-- A table of a query: its collection, and the name that it has in the query. -/
structure TableRef where
  collection : String
  visible : String
  deriving DecidableEq

namespace TableRef

/-- The fault of a token that is no table. -/
def refuse {α : Type} (t : Token) : Compiled α :=
  if t.isSubselect then unsupported .subselectAsTable else undecodable (.expectedTable t)

/-- The table that a token names. -/
def ofToken : Token → Compiled TableRef
  | .name none collection => .ok ⟨collection, collection⟩
  | .aliased (.name none collection) label => .ok ⟨collection, label⟩
  | .aliased t _ => refuse t
  | t => refuse t

end TableRef

/-- The FROM clause. -/
structure Source where
  table : TableRef
  span : Span

namespace Source

/-- Reads FROM and its table. -/
def read (c : TokenCursor) : Compiled (Source × TokenCursor) :=
  match c.eat? .FROM with
  | none => undecodable .selectWithoutFrom
  | some afterFrom =>
    match afterFrom.next with
    | (none, _) => undecodable .fromWithoutTable
    | (some t, after) => do
      let table ← TableRef.ofToken t
      return ({ table, span := .between c after }, after)

/-- The scope in which the table is the first one. -/
def enter (source : Source) (s : Scope) : Scope :=
  s.setLeftTable source.table.visible source.table.collection

end Source

/-- A search names its collection apart, so the clause adds nothing. -/
instance : Clause Source where
  span := Source.span
  stages _ := .ok []
  find _ args := .ok args

end DocSql
