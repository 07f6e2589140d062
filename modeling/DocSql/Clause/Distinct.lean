import DocSql.Clause.Columns

/-! # DISTINCT

Equal rows are made one by grouping on the whole row.
-/
namespace DocSql

/-- The DISTINCT clause: the fields of a row and their values. -/
structure Distinct where
  shape : List (String × Value)
  span : Span

namespace Distinct

/-- The value of an item in the row. -/
def itemValue (columns : Columns) (item : SelectItem) : Compiled (String × Value) := do
  let value ← if columns.materialized then pure (.path item.name) else item.term.expression
  return (item.name, value)

/-- The rows of a SELECT list made different.  DISTINCT is one token. -/
def ofColumns (columns : Columns) (start : Nat) : Compiled Distinct := do
  let shape ← columns.items.mapM (itemValue columns)
  return { shape, span := ⟨start, start + 1⟩ }

/-- The row as a document.  A dotted name is a field of a field, so that the same path reads it
afterwards. -/
def row (d : Distinct) : Fields :=
  d.shape.foldl (fun fields item => fields.insertPath item.1 item.2) []

end Distinct

instance : Clause Distinct where
  span := Distinct.span
  stages d := .ok
    [.field "$group" (.field "_id" (.object d.row)),
      .field "$replaceRoot" (.field "newRoot" (.path "_id"))]

end DocSql
