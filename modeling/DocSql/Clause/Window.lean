import DocSql.Clause.Basic
import DocSql.Scope

/-! # LIMIT and OFFSET

Both may be given, in either order, and each once.  Zero as a limit would mean no limit to the
document store.
-/
namespace DocSql

/-- The LIMIT and OFFSET clauses. -/
structure Window where
  limit : Option Nat
  offset : Option Nat
  span : Span

namespace Window

/-- The number of rows that a token stands for. -/
def rowCount (s : Scope) (t : Token) : Compiled Nat := do
  let value ← match t with
    | .literal (.int n) => pure (.int n)
    | .placeholder index => s.param index
    | t => undecodable (.expectedRowCount t)
  match value.asNat64? with
  | some n => return n
  | none => undecodable (.negativeRowCount value)

/-- The bounds that are read, and the tokens behind them. -/
structure Bounds where
  limit : Option Nat
  offset : Option Nat
  rest : List Token

/-- Why a bound without a value is refused. -/
def refuseBound {α : Type} (given : Option Nat) : Compiled α :=
  undecodable (if given.isSome then .windowTwice else .windowWithoutValue)

/-- The value of a bound that is not given yet. -/
def newBound (s : Scope) (given : Option Nat) (t : Token) : Compiled Nat :=
  if given.isSome then undecodable .windowTwice else rowCount s t

/-- Reads the bounds that are next. -/
def readBounds (s : Scope) (limit offset : Option Nat) : List Token → Compiled Bounds
  | .keyword .LIMIT :: t :: rest => do
    let n ← newBound s limit t
    readBounds s (some n) offset rest
  | [.keyword .LIMIT] => refuseBound limit
  | .keyword .OFFSET :: t :: rest => do
    let n ← newBound s offset t
    readBounds s limit (some n) rest
  | [.keyword .OFFSET] => refuseBound offset
  | rest => .ok ⟨limit, offset, rest⟩

/-- Reads LIMIT and OFFSET, where one of them is next. -/
def read? (s : Scope) (c : TokenCursor) : Compiled (Option Window × TokenCursor) := do
  let bounds ← readBounds s none none c.rest
  if bounds.limit = some 0 then unsupported .limitZero
  else
    let after := c.skip (c.rest.length - bounds.rest.length)
    if bounds.limit.isNone && bounds.offset.isNone then return (none, c)
    else return (some ⟨bounds.limit, bounds.offset, .between c after⟩, after)

/-- Whether the first row is left out. -/
def skipsFirstRow (w : Window) : Bool := w.offset.any fun n => 0 < n

end Window

/-- Rows are left out before the rest is cut off. -/
instance : Clause Window where
  span := Window.span
  stages w := .ok
    ((w.offset.toList.map fun (n : Nat) => Value.field "$skip" (.int n)) ++
      w.limit.toList.map fun (n : Nat) => Value.field "$limit" (.int n))
  find w args := .ok { args with limit := w.limit, skip := w.offset }

end DocSql
