import DocSql.Token.Group

/-! # Statements

A statement is known by its first keyword.  The semicolons at its end do not belong to it.
-/
namespace DocSql

/-- What a statement does. -/
inductive StatementKind where
  | select | insert | update | delete | create | alter | drop
  deriving DecidableEq

namespace StatementKind

/-- The kind that a keyword starts. -/
def ofKeyword? : Keyword → Option StatementKind
  | .SELECT => some .select
  | .INSERT => some .insert
  | .UPDATE => some .update
  | .DELETE => some .delete
  | .CREATE => some .create
  | .ALTER => some .alter
  | .DROP => some .drop
  | _ => none

/-- Whether the statement changes the schema rather than rows. -/
def isSchema : StatementKind → Bool
  | .create | .alter | .drop => true
  | _ => false

/-- The name of the kind. -/
def name : StatementKind → String
  | .select => "Select"
  | .insert => "Insert"
  | .update => "Update"
  | .delete => "Delete"
  | .create => "Create"
  | .alter => "Alter"
  | .drop => "Drop"

end StatementKind

/-- A statement in tokens. -/
structure Statement where
  kind : StatementKind
  tokens : List Token
  sql : String
  /-- The number of parameters that its placeholders ask for. -/
  placeholders : Nat

namespace Statement

/-- The tokens without the semicolons at their end. -/
def trimSemicolons (tokens : List Token) : List Token :=
  (tokens.reverse.dropWhile fun t => t.isPunctuation ';').reverse

/-- The kind of a list of tokens. -/
def kindOf? : List Token → Option StatementKind
  | .keyword k :: _ => StatementKind.ofKeyword? k
  | _ => none

/-- The text of the first token. -/
def headText : List Token → String
  | t :: _ => t.text
  | [] => ""

/-- Reads a statement. -/
def parse (sql : String) : Except ParseError Statement := do
  let (tokens, placeholders) ← Token.ofText sql
  let tokens := trimSemicolons tokens
  match kindOf? tokens with
  | some kind => return { kind, tokens, sql, placeholders }
  | none => .error { reason := .unrecognisedStatement, text := headText tokens }

end Statement

end DocSql
