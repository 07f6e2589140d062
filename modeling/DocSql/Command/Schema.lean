import DocSql.Fault

/-! # Schema statements

Collections have no schema.  A statement that only adds a constraint to a table is accepted as a
hint, and any other is refused.
-/
namespace DocSql

/-- A constraint that a statement asks for. -/
structure SchemaHint where
  table : String
  hint : String

namespace SchemaHint

/-- Whether NOT NULL stands somewhere in the tokens. -/
def hasNotNull : List Token → Bool
  | [] => false
  | .keyword .NOT :: .literal .null :: _ => true
  | _ :: rest => hasNotNull rest

/-- Whether a token names a constraint. -/
def namesConstraint (t : Token) : Bool :=
  t.isKeyword .CONSTRAINT || t.isKeyword .CHECK || t.isKeyword .UNIQUE

/-- Compiles a schema statement. -/
def compile (kind : StatementKind) (tokens : List Token) : Compiled SchemaHint :=
  match kind.isSchema, tokens with
  | true, .keyword .ALTER :: .keyword .TABLE :: .name _ table :: rest =>
    if rest.any namesConstraint || hasNotNull rest then
      .ok { table, hint := " ".intercalate (rest.map Token.text) }
    else unsupported (.statement kind)
  | _, _ => unsupported (.statement kind)

end SchemaHint

end DocSql
