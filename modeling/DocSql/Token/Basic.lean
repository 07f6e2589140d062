import DocSql.Lexeme.Keyword
import DocSql.Token.Literal

/-! # Tokens

A statement is a list of tokens.  Names, parentheses, function calls, arithmetic, comparisons, CASE
expressions and aliases are each one token that holds the tokens inside it; everything else is a
token of its own.  `Token.text` writes a token as query text again.
-/
namespace DocSql

mutual

/-- A token of a statement. -/
inductive Token where
  | keyword (k : Keyword)
  /-- A name, with the table it is qualified by. -/
  | name (qualifier : Option String) (name : String)
  | literal (l : Literal)
  | placeholder (index : Nat)
  /-- A star where no operator can stand. -/
  | wildcard
  | punctuation (c : Char)
  /-- An operator that has not found its operands. -/
  | operator (op : String)
  | paren (inner : List Token)
  /-- A function call, with the tokens of each argument. -/
  | call (name : String) (args : List (List Token))
  | comparison (left : Token) (op : Comparison) (right : Token)
  | operation (left : Token) (op : Arithmetic) (right : Token)
  /-- A CASE expression; a searched one has no tokens of an operand. -/
  | caseOf (operand : List Token) (arms : TokenArms)
  | aliased (token : Token) (label : String)

/-- The branches of a CASE expression. -/
inductive TokenArms where
  /-- The end of the branches, without ELSE. -/
  | done
  /-- The ELSE branch, which stands last. -/
  | otherwise (body : List Token)
  /-- A WHEN branch and the branches after it. -/
  | arm (condition result : List Token) (rest : TokenArms)

end

namespace Token

/-- Whether the token is the given keyword. -/
def isKeyword (k : Keyword) : Token → Bool
  | .keyword k' => k' = k
  | _ => false

/-- Whether the token is the given punctuation. -/
def isPunctuation (c : Char) : Token → Bool
  | .punctuation c' => c' = c
  | _ => false

/-- Whether the token can stand beside an operator. -/
def isOperand : Token → Bool
  | .name .. | .literal _ | .placeholder _ | .paren _ | .call .. | .operation .. | .caseOf .. => true
  | _ => false

/-- Whether the tokens of a parenthesis are a sub-select. -/
def startsSelect : List Token → Bool
  | .keyword .SELECT :: _ => true
  | _ => false

/-- Whether the token is a sub-select in parentheses. -/
def isSubselect : Token → Bool
  | .paren inner => startsSelect inner
  | _ => false

/-- The pieces between the commas; no pieces where there are no tokens. -/
def splitCommas (tokens : List Token) : List (List Token) :=
  if tokens.isEmpty then [] else pieces tokens
where
  /-- The pieces between the commas, at least one. -/
  pieces : List Token → List (List Token)
    | [] => [[]]
    | t :: rest =>
      if t.isPunctuation ',' then [] :: pieces rest
      else match pieces rest with
        | [] => [[t]]
        | piece :: more => (t :: piece) :: more

/-! ### Text -/

mutual

/-- The token as query text. -/
def text : Token → String
  | .keyword k => k.text
  | .name (some table) column => "\"" ++ table ++ "\".\"" ++ column ++ "\""
  | .name none column => "\"" ++ column ++ "\""
  | .literal l => l.text
  | .placeholder index => "%(" ++ toString index ++ ")s"
  | .wildcard => "*"
  | .punctuation c => String.singleton c
  | .operator op => op
  | .paren inner => "(" ++ textAll inner ++ ")"
  | .call fn args => fn ++ "(" ++ textArgs args ++ ")"
  | .comparison left op right => text left ++ " " ++ op.text ++ " " ++ text right
  | .operation left op right => text left ++ " " ++ op.text ++ " " ++ text right
  | .caseOf operand arms =>
    "CASE" ++ (if operand.isEmpty then "" else " ") ++ textAll operand ++ textArms arms ++ " END"
  | .aliased token label => text token ++ " AS \"" ++ label ++ "\""

/-- Tokens with one space between them, and none before a comma. -/
def textAll : List Token → String
  | [] => ""
  | t :: rest => text t ++ textMore rest

/-- The tokens after the first one. -/
def textMore : List Token → String
  | [] => ""
  | t :: rest => (if t.isPunctuation ',' then "" else " ") ++ text t ++ textMore rest

/-- The arguments of a call. -/
def textArgs : List (List Token) → String
  | [] => ""
  | [arg] => textAll arg
  | arg :: rest => textAll arg ++ ", " ++ textArgs rest

/-- The branches of a CASE expression. -/
def textArms : TokenArms → String
  | .done => ""
  | .otherwise body => " ELSE " ++ textAll body
  | .arm condition result rest =>
    " WHEN " ++ textAll condition ++ " THEN " ++ textAll result ++ textArms rest

end

/-! ### Depth -/

mutual

/-- How deep parentheses are nested in the token. -/
def depth : Token → Nat
  | .paren inner => depthAll inner + 1
  | .call _ args => depthArgs args
  | .comparison left _ right => max (depth left) (depth right)
  | .operation left _ right => max (depth left) (depth right)
  | .caseOf operand arms => max (depthAll operand) (depthArms arms)
  | .aliased token _ => depth token
  | _ => 0

/-- How deep parentheses are nested in the tokens. -/
def depthAll : List Token → Nat
  | [] => 0
  | t :: rest => max (depth t) (depthAll rest)

/-- How deep parentheses are nested in the arguments of a call. -/
def depthArgs : List (List Token) → Nat
  | [] => 0
  | arg :: rest => max (depthAll arg) (depthArgs rest)

/-- How deep parentheses are nested in the branches of a CASE expression. -/
def depthArms : TokenArms → Nat
  | .done => 0
  | .otherwise body => depthAll body
  | .arm condition result rest => max (depthAll condition) (max (depthAll result) (depthArms rest))

end

end Token

end DocSql
