import DocSql.Clause.Basic
import DocSql.Term.Expression
import DocSql.Term.Resolve

/-! # WHERE

The sub-selects of a condition are given fields of their own before it is written: `registerNested`
leaves the name of the field in their place.
-/
namespace DocSql

mutual

/-- Gives the sub-selects of a condition fields of their own, from left to right. -/
def Condition.registerNested : Condition → Scope → Condition × Scope
  | .all cs, s =>
    let (cs, s) := registerAll cs s
    (.all cs, s)
  | .any cs, s =>
    let (cs, s) := registerAll cs s
    (.any cs, s)
  | .member t (.subselect sub) negated, s =>
    let (name, s) := s.addNested sub
    (.member t (.nested name) negated, s)
  | c, s => (c, s)

/-- Gives the sub-selects of each of the conditions fields of their own. -/
def registerAll : List Condition → Scope → List Condition × Scope
  | [], s => ([], s)
  | c :: cs, s =>
    let (c, s) := c.registerNested s
    let (cs, s) := registerAll cs s
    (c :: cs, s)

end

mutual

/-- Whether the condition looks for a term in a sub-select with a field of its own. -/
def Condition.hasNested : Condition → Bool
  | .all cs => anyHasNested cs
  | .any cs => anyHasNested cs
  | .member _ (.nested _) _ => true
  | _ => false

/-- Whether one of the conditions does. -/
def anyHasNested : List Condition → Bool
  | [] => false
  | c :: cs => c.hasNested || anyHasNested cs

end

/-- The WHERE clause. -/
structure Filter where
  condition : Condition
  span : Span

namespace Filter

/-- Reads WHERE and its condition up to the next clause, where WHERE is next. -/
def read? (r : Reading) (c : TokenCursor) : Compiled (Option Filter × Scope × TokenCursor) :=
  match c.eat? .WHERE with
  | none => .ok (none, r.scope, c)
  | some afterWhere => do
    let (tokens, after) := afterWhere.takeUntil isClauseKeyword
    let condition ← { r with aliases := false }.condition tokens
    let (condition, scope) := condition.registerNested r.scope
    return (some { condition, span := .between c after }, scope, after)

end Filter

instance : Clause Filter where
  span := Filter.span
  stages filter := do
    let test ← filter.condition.filter
    return [.field "$match" test]
  find filter args := do
    let test ← filter.condition.filter
    return { args with filter := some test }

end DocSql
