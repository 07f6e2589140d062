/-! # Texts that cannot be read

A text is refused either by the division into lexemes, which knows the place of the fault, or by the
grouping of lexemes into tokens, which often knows the faulty text only and then gives the place as
zero.
-/
namespace DocSql

/-- Why a text cannot be read. -/
inductive Misreading where
  | unexpectedCharacter
  | unterminatedQuoted
  | unterminatedString
  | invalidPlaceholder
  | invalidOperator
  | unbalancedParenthesis
  | unclosedParenthesis
  | invalidNumber
  | unexpectedDot
  | columnAfterDot
  | caseWithoutEnd
  | whenWithoutThen
  | malformedCase
  | caseWithoutWhen
  | unrecognisedStatement
  deriving DecidableEq

/-- The reason in words. -/
def Misreading.message : Misreading → String
  | .unexpectedCharacter => "Unexpected character"
  | .unterminatedQuoted => "Unterminated quoted identifier"
  | .unterminatedString => "Unterminated string literal"
  | .invalidPlaceholder => "Invalid placeholder index"
  | .invalidOperator => "Invalid operator"
  | .unbalancedParenthesis => "Unbalanced parenthesis"
  | .unclosedParenthesis => "Unclosed parenthesis"
  | .invalidNumber => "Invalid number"
  | .unexpectedDot => "Unexpected '.'"
  | .columnAfterDot => "Expected a column after '.'"
  | .caseWithoutEnd => "CASE without END"
  | .whenWithoutThen => "WHEN without THEN"
  | .malformedCase => "Malformed CASE expression"
  | .caseWithoutWhen => "CASE without WHEN"
  | .unrecognisedStatement => "Unrecognised statement"

/-- A refused text: the reason, the faulty text and its place in characters. -/
structure ParseError where
  reason : Misreading
  text : String
  start : Nat := 0
  stop : Nat := 0
  deriving DecidableEq

/-- The whole report of a refused text. -/
def ParseError.message (e : ParseError) : String :=
  s!"ParseError: {e.reason.message}\n  at [{e.start}:{e.stop}] -> '{e.text}'"

end DocSql
