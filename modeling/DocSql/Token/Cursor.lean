import DocSql.Token.Basic

/-! # Reading tokens from left to right

The clauses of a statement are read with a cursor: the tokens, and how many of them are behind it.
Every reading function gives the cursor after it back.
-/
namespace DocSql

/-- A place in a list of tokens. -/
structure TokenCursor where
  tokens : List Token
  position : Nat := 0

namespace TokenCursor

/-- The tokens that are not read yet. -/
def rest (c : TokenCursor) : List Token := c.tokens.drop c.position

/-- Moves to a position, at most to the end. -/
def seek (c : TokenCursor) (position : Nat) : TokenCursor :=
  { c with position := min position c.tokens.length }

/-- Moves on over some tokens, at most to the end. -/
def skip (c : TokenCursor) (count : Nat) : TokenCursor := c.seek (c.position + count)

/-- Whether all tokens are read. -/
def atEnd (c : TokenCursor) : Bool := c.tokens.length ≤ c.position

/-- The token some places ahead. -/
def peekAt (c : TokenCursor) (ahead : Nat) : Option Token := c.tokens[c.position + ahead]?

/-- The next token. -/
def peek (c : TokenCursor) : Option Token := c.peekAt 0

/-- Takes the next token. -/
def next (c : TokenCursor) : Option Token × TokenCursor :=
  match c.peek with
  | some t => (some t, { c with position := c.position + 1 })
  | none => (none, c)

/-- The tokens between two positions. -/
def slice (c : TokenCursor) (start stop : Nat) : List Token :=
  (c.tokens.take stop).drop start

/-- Whether the next token is the given keyword. -/
def isKeyword (c : TokenCursor) (k : Keyword) : Bool :=
  match c.peek with
  | some t => t.isKeyword k
  | none => false

/-- The cursor after the given keyword, where that is next. -/
def eat? (c : TokenCursor) (k : Keyword) : Option TokenCursor :=
  if c.isKeyword k then some { c with position := c.position + 1 } else none

/-- Takes the tokens up to the first one that `stop` accepts. -/
def takeUntil (c : TokenCursor) (stop : Token → Bool) : List Token × TokenCursor :=
  let taken := c.rest.takeWhile fun t => !stop t
  (taken, { c with position := c.position + taken.length })

end TokenCursor

/-- Whether a token is a keyword that ends the clause before it. -/
def isClauseKeyword : Token → Bool
  | .keyword k =>
    match k with
    | .FROM | .WHERE | .GROUP_BY | .HAVING | .ORDER_BY | .LIMIT | .OFFSET | .RETURNING
    | .JOIN | .INNER_JOIN | .LEFT_JOIN | .LEFT_OUTER_JOIN | .RIGHT_JOIN | .RIGHT_OUTER_JOIN
    | .FULL_JOIN | .FULL_OUTER_JOIN | .CROSS_JOIN => true
    | _ => false
  | _ => false

end DocSql
