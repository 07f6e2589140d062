import DocSql.Fault
import DocSql.FindArgs
import DocSql.Token.Cursor

/-! # Clauses

A clause of a statement is read from a span of its tokens, and is written in up to two forms: as an
argument of a plain search, and as stages of a pipeline.
-/
namespace DocSql

/-- The tokens from `start` up to, and not including, `stop`. -/
structure Span where
  start : Nat
  stop : Nat
  deriving DecidableEq

/-- A clause of a statement. -/
class Clause (α : Type) where
  span : α → Span
  /-- The clause as stages of a pipeline. -/
  stages : α → Compiled (List Value)
  /-- The clause added to the arguments of a search.  Most clauses have no such form. -/
  find : α → FindArgs → Compiled FindArgs := fun clause _ =>
    undecodable (.clauseNeedsPipeline (span clause).start (span clause).stop)

/-- The stages of a clause that may be absent. -/
def Clause.stagesOf {α : Type} [Clause α] : Option α → Compiled (List Value)
  | some clause => Clause.stages clause
  | none => .ok []

/-- The arguments of a search with a clause that may be absent. -/
def Clause.findOf {α : Type} [Clause α] : Option α → FindArgs → Compiled FindArgs
  | some clause, args => Clause.find clause args
  | none, args => .ok args

/-- The span of the tokens between two places. -/
def Span.between (before after : TokenCursor) : Span := ⟨before.position, after.position⟩

end DocSql
