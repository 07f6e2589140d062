import DocSql.Lexeme.Basic
import DocSql.Token.Basic

/-! # Grouping lexemes into tokens

Lexemes become tokens in two movements.  `assemble` walks over the lexemes with a stack of open
parentheses and calls, and puts names, calls and parentheses together.  `finish` then folds each
level, as soon as it is closed: CASE expressions first, then multiplicative and additive arithmetic,
comparisons, and aliases.
-/
namespace DocSql

namespace Token

/-! ### Folding operators and aliases -/

/-- Joins the last token of `out` and `right` by the operator `t`, where `select` knows it and both
are operands. -/
def joinOver? (select : String → Option (Token → Token → Token)) (out : List Token)
    (t right : Token) : Option (List Token) :=
  match t, out with
  | .operator op, left :: out' =>
    match select op with
    | some build => if left.isOperand && right.isOperand then some (build left right :: out') else none
    | none => none
  | _, _ => none

/-- Folds `left op right` into one token wherever that is possible, from left to right.  `out` holds
the tokens that are done, the last one first. -/
def foldBinary (select : String → Option (Token → Token → Token)) :
    List Token → List Token → List Token
  | out, [] => out.reverse
  | out, [t] => (t :: out).reverse
  | out, t :: right :: rest =>
    match joinOver? select out t right with
    | some out' => foldBinary select out' rest
    | none => foldBinary select (t :: out) (right :: rest)

/-- The arithmetic of one strength. -/
def arithmeticOf (multiplicative : Bool) (op : String) : Option (Token → Token → Token) :=
  match Arithmetic.ofOperator? op with
  | some a =>
    if a.isMultiplicative = multiplicative then some fun left right => .operation left a right
    else none
  | none => none

/-- The comparisons. -/
def comparisonOf (op : String) : Option (Token → Token → Token) :=
  (Comparison.ofOperator? op).map fun c left right => .comparison left c right

/-- Whether a name after the token is its alias. -/
def isAliasable : Token → Bool
  | .name .. | .call .. | .paren _ | .caseOf .. | .operation .. => true
  | _ => false

/-- Gives the last token of `out` the alias that stands after AS. -/
def aliasAfterAs? (out : List Token) (t next : Token) : Option (List Token) :=
  match t, next, out with
  | .keyword .AS, .name none label, target :: out' =>
    if target.isAliasable then some (.aliased target label :: out') else none
  | _, _, _ => none

/-- Adds a token to `out`; a bare name is the alias of a token that can have one. -/
def pushAlias (out : List Token) (t : Token) : List Token :=
  match t, out with
  | .name none label, target :: out' =>
    if target.isAliasable then .aliased target label :: out' else t :: out
  | _, _ => t :: out

/-- Folds `token AS name` and `token name` into one token.  `out` holds the tokens that are done, the
last one first. -/
def foldAliases : List Token → List Token → List Token
  | out, [] => out.reverse
  | out, [t] => (pushAlias out t).reverse
  | out, t :: next :: rest =>
    match aliasAfterAs? out t next with
    | some out' => foldAliases out' rest
    | none => foldAliases (pushAlias out t) (next :: rest)

/-- Folds a level that holds no CASE keyword any more. -/
def foldLevel (tokens : List Token) : List Token :=
  let tokens := foldBinary (arithmeticOf true) [] tokens
  let tokens := foldBinary (arithmeticOf false) [] tokens
  let tokens := foldBinary comparisonOf [] tokens
  foldAliases [] tokens

/-! ### CASE expressions -/

/-- Splits the tokens after a CASE keyword at its own END; `open_` counts the CASE keywords inside
that are still open. -/
def splitCase (open_ : Nat) : List Token → Option (List Token × List Token)
  | [] => none
  | t :: rest =>
    if t.isKeyword .END then
      match open_ with
      | 0 => some ([], rest)
      | n + 1 => (splitCase n rest).map fun (body, after) => (t :: body, after)
    else if t.isKeyword .CASE then
      (splitCase (open_ + 1) rest).map fun (body, after) => (t :: body, after)
    else (splitCase open_ rest).map fun (body, after) => (t :: body, after)

/-- A keyword that starts a part of a CASE expression. -/
inductive CaseMark where
  | whenPart | thenPart | elsePart
  deriving DecidableEq

/-- The mark that a token is. -/
def caseMark? : Token → Option CaseMark
  | .keyword .WHEN => some .whenPart
  | .keyword .THEN => some .thenPart
  | .keyword .ELSE => some .elsePart
  | _ => none

/-- The tokens before the first mark, and each mark with the tokens after it.  Marks inside a nested
CASE, of which `open_` are open, do not count. -/
def caseParts (open_ : Nat) : List Token → List Token × List (CaseMark × List Token)
  | [] => ([], [])
  | t :: rest =>
    let mark := if open_ = 0 then caseMark? t else none
    let open' :=
      if t.isKeyword .CASE then open_ + 1 else if t.isKeyword .END then open_ - 1 else open_
    let (lead, parts) := caseParts open' rest
    match mark with
    | some m => ([], (m, lead) :: parts)
    | none => (t :: lead, parts)

/-- Puts branches before an ELSE branch. -/
def armsOf (branches : List (List Token × List Token)) (otherwise : Option (List Token)) :
    TokenArms :=
  branches.foldr (fun (condition, result) rest => .arm condition result rest)
    (match otherwise with
      | some body => .otherwise body
      | none => .done)

/-- Reads the marked parts of a CASE expression.  There must be a branch, every WHEN has a THEN with
tokens, and ELSE stands at most once, in any place. -/
def readArms (finish : List Token → Except ParseError (List Token)) :
    List (CaseMark × List Token) → List (List Token × List Token) → Option (List Token) →
      Except ParseError TokenArms
  | [], branches, otherwise =>
    if branches.isEmpty then .error { reason := .caseWithoutWhen, text := "CASE" }
    else .ok (armsOf branches.reverse otherwise)
  | (.whenPart, condition) :: (.thenPart, t :: result) :: rest, branches, otherwise => do
    let condition ← finish condition
    let result ← finish (t :: result)
    readArms finish rest ((condition, result) :: branches) otherwise
  | (.whenPart, _) :: _, _, _ => .error { reason := .whenWithoutThen, text := "WHEN" }
  | (.elsePart, body) :: rest, branches, none => do
    let body ← finish body
    readArms finish rest branches (some body)
  | _, _, _ => .error { reason := .malformedCase, text := "CASE" }

/-- Reads what stands between CASE and END. -/
def readCase (finish : List Token → Except ParseError (List Token)) (body : List Token) :
    Except ParseError Token := do
  let (lead, parts) := caseParts 0 body
  let operand ← if lead.isEmpty then pure [] else finish lead
  let arms ← readArms finish parts [] none
  return .caseOf operand arms

/-- Folds each CASE expression of a level into one token.  Every step takes a token, so the number of
tokens is fuel enough. -/
def foldCases (finish : List Token → Except ParseError (List Token)) :
    Nat → List Token → Except ParseError (List Token)
  | 0, tokens => .ok tokens
  | _, [] => .ok []
  | fuel + 1, t :: rest =>
    if t.isKeyword .CASE then
      match splitCase 0 rest with
      | none => .error { reason := .caseWithoutEnd, text := "CASE" }
      | some (body, after) => do
        let token ← readCase finish body
        let after ← foldCases finish fuel after
        return token :: after
    else do
      let rest ← foldCases finish fuel rest
      return t :: rest

/-- Folds a level whose CASE expressions are nested at most `fuel` deep. -/
def finishWithin : Nat → List Token → Except ParseError (List Token)
  | 0, tokens => .ok (foldLevel tokens)
  | fuel + 1, tokens => do
    let tokens ← foldCases (finishWithin fuel) tokens.length tokens
    return foldLevel tokens

/-- Folds a level.  A nested CASE has fewer tokens than the one around it, so the number of tokens
bounds the nesting. -/
def finish (tokens : List Token) : Except ParseError (List Token) :=
  finishWithin tokens.length tokens

/-! ### Assembling lexemes -/

/-- An open parenthesis: the function it is the argument list of, and the tokens before it on its
level, the last one first. -/
structure Frame where
  call : Option String
  before : List Token

/-- The error for a text that stands at a lexeme. -/
def errorAt (reason : Misreading) (text : String) (start : Nat) : ParseError :=
  { reason, text, start, stop := start + text.length }

/-- The token of a closed parenthesis. -/
def closeFrame (frame : Frame) (inner : List Token) : Except ParseError Token :=
  match frame.call with
  | none => do
    let inner ← finish inner
    return .paren inner
  | some fn => do
    let args ← (splitCommas inner).mapM finish
    return .call fn args

/-- The name of a column after a dot. -/
def memberName? : LexemeKind → Option String
  | .name text | .quoted text => some text
  | .keyword k => some k.text.toLower
  | .star => some "*"
  | _ => none

/-- The token of a lexeme that stands for itself. -/
def ofLexeme (before : List Token) (lexeme : Lexeme) : Except ParseError Token :=
  match lexeme.kind with
  | .keyword k => .ok (.keyword k)
  | .string text => .ok (.literal (.string text))
  | .number text =>
    match Literal.ofNumber? text with
    | some l => .ok (.literal l)
    | none => .error (errorAt .invalidNumber text lexeme.start)
  | .null => .ok (.literal .null)
  | .bool b => .ok (.literal (.bool b))
  | .placeholder index => .ok (.placeholder index)
  | .operator op => .ok (.operator op)
  | .star =>
    match before with
    | last :: _ => if last.isOperand then .ok (.operator "*") else .ok .wildcard
    | [] => .ok .wildcard
  | .comma => .ok (.punctuation ',')
  | .semicolon => .ok (.punctuation ';')
  | .name text | .quoted text => .ok (.name none text)
  | .dot | .lparen | .rparen => .error (errorAt .unexpectedDot "." lexeme.start)

/-- The state of the assembly: the open parentheses, the innermost first, and the tokens that are
done on the innermost level, the last one first. -/
structure Assembly where
  stack : List Frame
  before : List Token

/-- A name, which goes on with its column where a dot follows; also the number of lexemes taken from
`rest`. -/
def readName (first : String) (rest : List Lexeme) : Except ParseError (Token × Nat) :=
  match rest with
  | ⟨.dot, _, _⟩ :: member :: _ =>
    match memberName? member.kind with
    | some column => .ok (.name (some first) column, 2)
    | none => .error (errorAt .columnAfterDot first member.start)
  | [⟨.dot, _, _⟩] => .error { reason := .columnAfterDot, text := first }
  | _ => .ok (.name none first, 0)

/-- Takes one lexeme, and possibly some of those after it, whose number is given back. -/
def assembleOne (state : Assembly) (lexeme : Lexeme) (rest : List Lexeme) :
    Except ParseError (Assembly × Nat) :=
  match lexeme.kind with
  | .lparen => .ok (⟨⟨none, state.before⟩ :: state.stack, []⟩, 0)
  | .rparen =>
    match state.stack with
    | [] => .error (errorAt .unbalancedParenthesis ")" lexeme.start)
    | frame :: stack => do
      let token ← closeFrame frame state.before.reverse
      return (⟨stack, token :: frame.before⟩, 0)
  | .name first =>
    match rest with
    | ⟨.lparen, false, _⟩ :: _ => .ok (⟨⟨some first, state.before⟩ :: state.stack, []⟩, 1)
    | _ => do
      let (token, taken) ← readName first rest
      return (⟨state.stack, token :: state.before⟩, taken)
  | .quoted first => do
    let (token, taken) ← readName first rest
    return (⟨state.stack, token :: state.before⟩, taken)
  | _ => do
    let token ← ofLexeme state.before lexeme
    return (⟨state.stack, token :: state.before⟩, 0)

/-- Assembles lexemes to the end, where every parenthesis must be closed. -/
def assemble (state : Assembly) (lexemes : List Lexeme) : Except ParseError (List Token) :=
  match lexemes with
  | [] =>
    if state.stack.isEmpty then .ok state.before.reverse
    else .error { reason := .unclosedParenthesis, text := "(" }
  | lexeme :: rest =>
    match assembleOne state lexeme rest with
    | .ok (state, taken) => assemble state (rest.drop taken)
    | .error e => .error e
termination_by lexemes.length
decreasing_by
  rw [List.length_drop, List.length_cons]
  omega

/-- The tokens of a list of lexemes. -/
def group (lexemes : List Lexeme) : Except ParseError (List Token) := do
  let tokens ← assemble ⟨[], []⟩ lexemes
  finish tokens

/-- The tokens of a piece of query text, and the number of its placeholders. -/
def ofText (sql : String) : Except ParseError (List Token × Nat) := do
  let (lexemes, holes) ← lex sql
  let tokens ← group lexemes
  return (tokens, holes)

end Token

end DocSql
