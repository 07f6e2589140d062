import DocSql.Clause.Grouping

/-! # HAVING

The condition is about the outputs of the grouping: each operand that the grouping knows becomes the
output that holds it.
-/
namespace DocSql

/-- The HAVING clause. -/
structure Having where
  condition : Condition
  span : Span

namespace Having

/-- Reads HAVING and its condition up to the next clause, where HAVING is next. -/
def read? (r : Reading) (columns : Columns) (g : Grouping) (c : TokenCursor) :
    Compiled (Option Having × Grouping × TokenCursor) :=
  match c.eat? .HAVING with
  | none => .ok (none, g, c)
  | some afterHaving => do
    let (tokens, after) := afterHaving.takeUntil isClauseKeyword
    let condition ← { r with aliases := true }.condition tokens
    let (condition, g) ← (condition.transform (Grouping.exposeNode columns) false).run g
    if condition.containsAggregate then undecodable .unresolvedHaving
    else return (some { condition, span := .between c after }, g, after)

end Having

instance : Clause Having where
  span := Having.span
  stages having := do
    let test ← having.condition.filter
    return [.field "$match" test]

end DocSql
