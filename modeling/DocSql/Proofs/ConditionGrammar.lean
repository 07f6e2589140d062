import DocSql.Term.Resolve

/-! # The grammar of conditions

A condition is a row of alternatives joined by OR.  Each alternative is a row of factors joined by
AND, and each factor is an atom behind any number of NOTs.  The trees of this module are the
sentences of that grammar: `tokens` writes a tree down as a token sequence, and `read` is its
meaning by recursive descent, without cells, operators or precedences.
-/
namespace DocSql

/-- Whether a token can be an operand of a test: it is no keyword, no punctuation and no
parenthesis. -/
def Token.isTerm : Token → Bool
  | .keyword _ | .punctuation _ | .paren _ => false
  | _ => true

/-- Whether a token can bound a range: a parenthesis can, too. -/
def Token.isBound : Token → Bool
  | .keyword _ | .punctuation _ => false
  | _ => true

/-- A token that is an operand of a test. -/
abbrev TermToken := { t : Token // t.isTerm = true }

/-- A token that bounds a range. -/
abbrev BoundToken := { t : Token // t.isBound = true }

namespace Grammar

/-! ### Sentences -/

/-- What is asked of the operand before it. -/
inductive Test where
  | isNull (negated : Bool)
  | isBool (value negated : Bool)
  | between (low high : BoundToken) (negated : Bool)
  | like (pattern : TermToken) (ignoreCase negated : Bool)
  /-- IN and a parenthesis: a list of values or a sub-select. -/
  | inside (inner : List Token) (negated : Bool)
  /-- IN and a single value. -/
  | inTerm (value : TermToken) (negated : Bool)

mutual

/-- A condition without connectives. -/
inductive Atom where
  | comparison (left : Token) (op : Comparison) (right : Token)
  | name (qualifier : Option String) (name : String)
  | paren (inner : Disjunction)
  | test (operand : TermToken) (test : Test)

/-- An atom behind NOTs. -/
inductive Negation where
  | atom (a : Atom)
  | not (n : Negation)

/-- Factors joined by AND. -/
inductive Conjunction where
  | one (n : Negation)
  | and (n : Negation) (rest : Conjunction)

/-- Alternatives joined by OR. -/
inductive Disjunction where
  | one (c : Conjunction)
  | or (c : Conjunction) (rest : Disjunction)

end

/-! ### Writing a sentence down -/

/-- The NOT of a negated test. -/
def notToken (negated : Bool) : List Token := if negated then [.keyword .NOT] else []

/-- The tokens of a test. -/
def Test.tokens : Test → List Token
  | .isNull negated => .keyword .IS :: (notToken negated ++ [.literal .null])
  | .isBool value negated => .keyword .IS :: (notToken negated ++ [.literal (.bool value)])
  | .between low high negated =>
    notToken negated ++ [.keyword .BETWEEN, low.val, .keyword .AND, high.val]
  | .like pattern ignoreCase negated =>
    notToken negated ++ [.keyword (if ignoreCase then .ILIKE else .LIKE), pattern.val]
  | .inside inner negated => notToken negated ++ [.keyword .IN, .paren inner]
  | .inTerm value negated => notToken negated ++ [.keyword .IN, value.val]

mutual

/-- The tokens of an atom. -/
def Atom.tokens : Atom → List Token
  | .comparison left op right => [.comparison left op right]
  | .name qualifier name => [.name qualifier name]
  | .paren inner => [.paren inner.tokens]
  | .test operand test => operand.val :: test.tokens

/-- The tokens of a factor. -/
def Negation.tokens : Negation → List Token
  | .atom a => a.tokens
  | .not n => .keyword .NOT :: n.tokens

/-- The tokens of factors joined by AND. -/
def Conjunction.tokens : Conjunction → List Token
  | .one n => n.tokens
  | .and n rest => n.tokens ++ .keyword .AND :: rest.tokens

/-- The tokens of alternatives joined by OR. -/
def Disjunction.tokens : Disjunction → List Token
  | .one c => c.tokens
  | .or c rest => c.tokens ++ .keyword .OR :: rest.tokens

end

/-! ### Reading a sentence by recursive descent -/

/-- What the tokens of a parenthesis behind IN stand for. -/
def members (r : Reading) (inner : List Token) : Compiled Members :=
  if Token.startsSelect inner then do
    let s ← r.subselect inner
    return .subselect s
  else do
    let terms ← (Token.splitCommas inner).mapM r.resolveOne
    return .list terms

/-- The condition that a test of a term stands for. -/
def Test.read (r : Reading) (t : Term) : Test → Compiled Condition
  | .isNull negated => return .isNull t negated
  | .isBool value negated =>
    return .compare t (if negated then .ne else .eq) (.const (.bool value))
  | .between low high negated => do
    let low ← r.resolve low.val
    let high ← r.resolve high.val
    return .between t low high negated
  | .like pattern ignoreCase negated => do
    let pattern ← r.resolve pattern.val
    return .like t pattern ignoreCase negated
  | .inside inner negated => do
    let m ← members r inner
    return .member t m negated
  | .inTerm value negated => do
    let value ← r.resolve value.val
    return .member t (.list [value]) negated

/-- Conditions joined into one.  Those that are made by the same `join` add their own `parts`. -/
def joined (join : List Condition → Condition) (parts : Condition → List Condition) :
    List Condition → Condition
  | [c] => c
  | cs => join (cs.flatMap parts)

/-- Conditions that must all hold. -/
def allOf : List Condition → Condition := joined .all Condition.conjuncts

/-- Conditions of which one must hold. -/
def anyOf : List Condition → Condition := joined .any Condition.disjuncts

/-- Whether a factor is a bare parenthesis. -/
def Negation.isParen : Negation → Bool
  | .atom (.paren _) => true
  | _ => false

mutual

/-- The condition that an atom stands for. -/
def Atom.read (r : Reading) : Atom → Compiled Condition
  | .comparison left op right => do
    let lhs ← r.resolve left
    let rhs ← r.resolve right
    return .compare lhs op rhs
  | .name qualifier name => do
    let t ← r.name qualifier name
    return .truth t false
  | .paren inner => do
    let cs ← inner.readAll r
    return anyOf cs
  | .test operand test => do
    let t ← r.resolve operand.val
    test.read r t

/-- The condition that a factor stands for.  A NOT is pushed into what is behind it. -/
def Negation.read (r : Reading) : Negation → Compiled Condition
  | .atom a => a.read r
  | .not n => do
    let c ← n.read r
    c.negate n.isParen

/-- The conditions that factors stand for. -/
def Conjunction.readAll (r : Reading) : Conjunction → Compiled (List Condition)
  | .one n => do
    let c ← n.read r
    return [c]
  | .and n rest => do
    let c ← n.read r
    let cs ← rest.readAll r
    return c :: cs

/-- The conditions that alternatives stand for. -/
def Disjunction.readAll (r : Reading) : Disjunction → Compiled (List Condition)
  | .one c => do
    let cs ← c.readAll r
    return [allOf cs]
  | .or c rest => do
    let cs ← c.readAll r
    let more ← rest.readAll r
    return allOf cs :: more

end

/-- The condition that a sentence stands for. -/
def Disjunction.read (r : Reading) (e : Disjunction) : Compiled Condition := do
  let cs ← e.readAll r
  return anyOf cs

end Grammar

end DocSql
