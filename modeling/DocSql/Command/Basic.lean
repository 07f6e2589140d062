import DocSql.Command.Insert
import DocSql.Command.Schema
import DocSql.Command.Write
import DocSql.Select.Compile

/-! # Commands

A statement compiles to a command for the document store.
-/
namespace DocSql

/-- A compiled statement. -/
inductive Command where
  | select (query : Select) (command : SelectCommand)
  | insert (i : Insert)
  | update (u : Update)
  | delete (d : Delete)
  | schema (hint : SchemaHint)

namespace Command

/-- Compiles tokens as a statement of the given kind. -/
def ofTokens (kind : StatementKind) (params : List Value) (tokens : List Token) :
    Compiled Command := do
  let r := Scope.reading { params } false tokens
  match kind with
  | .select =>
    let query ← Select.compile params tokens
    let command ← query.command
    return .select query command
  | .insert => return .insert (← Insert.compile r tokens)
  | .update => return .update (← Update.compile r tokens)
  | .delete => return .delete (← Delete.compile r tokens)
  | kind => return .schema (← SchemaHint.compile kind tokens)

/-- Compiles a statement.  There must be a parameter for each placeholder, and no other. -/
def compile (statement : Statement) (params : List Value) : Compiled Command :=
  if params.length = statement.placeholders then
    ofTokens statement.kind params statement.tokens
  else undecodable (.parameterCount params.length statement.placeholders)

end Command

end DocSql
