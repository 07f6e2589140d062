import DocSql.Condition.Reduce
import DocSql.Scope

/-! # From tokens to terms and conditions

`resolve` gives the term that a token stands for, and `condition` the condition that a list of
tokens stands for, in a scope.  A sub-select is a statement of its own: how it is compiled is given
by the `Reading`, so that nothing here depends on it.
-/
namespace DocSql

/-- A function that a query can call. -/
inductive Function where
  | aggregate (fn : Aggregate)
  | dateTrunc
  deriving DecidableEq

namespace Function

/-- All functions, in the order of their names. -/
def all : List Function :=
  [.aggregate .avg, .aggregate .count, .dateTrunc, .aggregate .max, .aggregate .min, .aggregate .sum]

/-- The name of a function. -/
def name : Function → String
  | .aggregate fn => fn.name
  | .dateTrunc => "date_trunc"

/-- Whether the function is one of the rows of a group. -/
def isAggregate : Function → Bool
  | .aggregate _ => true
  | .dateTrunc => false

/-- The function with the given name, in any case. -/
def ofName? (text : String) : Option Function :=
  all.find? fun fn => fn.name == text.toLower

/-- The name of an aggregate where its number of arguments is wrong. -/
def argumentName : Aggregate → String
  | .count => "COUNT"
  | fn => fn.name

end Function

/-- What tokens are read in: the scope, whether a bare name can be an alias of the SELECT list, and
how a sub-select is compiled. -/
structure Reading where
  scope : Scope
  aliases : Bool
  subselect : List Token → Compiled Subselect

namespace Reading

/-- The column or alias that a name stands for. -/
def name (r : Reading) (qualifier : Option String) (name : String) : Compiled Term :=
  if name = "*" then unsupported .selectStar
  else match qualifier with
    | some qualifier => do
      let table ← r.scope.resolveTable qualifier
      return r.scope.column table name
    | none =>
      if r.aliases && r.scope.aliases.contains name then .ok (.field name)
      else do
        let table ← r.scope.leftTable
        return r.scope.column table name

/-- The unit of time that a term names. -/
def dateUnit (t : Term) : Compiled DateUnit :=
  match t.constant? with
  | some (.string text) =>
    match DateUnit.ofName? text.toLower with
    | some unit => .ok unit
    | none => unsupported (.dateTruncUnit text.toLower)
  | _ => undecodable .dateTruncUnit

mutual

/-- The term that a token stands for. -/
def resolve (r : Reading) : Token → Compiled Term
  | .name qualifier column => r.name qualifier column
  | .wildcard => unsupported .selectStar
  | .literal l => .ok (.const l.toValue)
  | .placeholder index => do
    let value ← r.scope.param index
    return .param index value
  | .paren inner =>
    if Token.startsSelect inner then unsupported (.scalarSubselect (.paren inner))
    else resolveOne r inner
  | .call fn args =>
    match Function.ofName? fn with
    | none => unsupported (.function fn)
    | some fn => resolveCall r fn args
  | .comparison left op right => do
    let lhs ← resolve r left
    let rhs ← resolve r right
    return .compare lhs op rhs
  | .operation left op right => do
    let lhs ← resolve r left
    let rhs ← resolve r right
    return .arith op lhs rhs
  | .caseOf operand arms => do
    match operand with
    | [] => return .caseOf (← resolveArms r none arms)
    | t :: rest =>
      let operand ← resolveOne r (t :: rest)
      return .caseOf (← resolveArms r (some operand) arms)
  | t => undecodable (.unrecognisedToken t)

/-- The term that a list of one token stands for. -/
def resolveOne (r : Reading) : List Token → Compiled Term
  | [] => undecodable .expectedExpression
  | [t] => resolve r t
  | first :: _ => undecodable (.unexpectedAfter first)

/-- The term that a call with the given arguments stands for. -/
def resolveCall (r : Reading) : Function → List (List Token) → Compiled Term
  | .aggregate .count, [[.wildcard]] => .ok .countAll
  | .aggregate fn, [.keyword .DISTINCT :: arg] => do
    let arg ← resolveOne r arg
    return .aggregate fn true arg
  | .aggregate fn, [arg] => do
    let arg ← resolveOne r arg
    return .aggregate fn false arg
  | .aggregate fn, _ => undecodable (.oneArgument (Function.argumentName fn))
  | .dateTrunc, [unit, column] => do
    let unit ← dateUnit (← resolveOne r unit)
    let arg ← resolveOne r column
    return .dateTrunc unit arg
  | .dateTrunc, _ => undecodable .dateTruncArguments

/-- The branches of a CASE expression.  With an operand, each WHEN holds a value to compare it
with. -/
def resolveArms (r : Reading) (operand : Option Term) : TokenArms → Compiled Arms
  | .done => .ok .done
  | .otherwise body => do
    let result ← resolveOne r body
    return .otherwise result
  | .arm condition result rest => do
    let condition ← match operand with
      | some operand => do
        let value ← resolveOne r condition
        pure (.compare operand .eq value)
      | none => do
        let cells ← cells r false condition
        reduce cells
    let result ← resolveOne r result
    let rest ← resolveArms r operand rest
    return .arm condition result rest

/-- The terms between commas. -/
def resolveList (r : Reading) : List Token → Compiled (List Term)
  | [] => undecodable .expectedExpression
  | [t] => do
    let t ← if t.isPunctuation ',' then undecodable .expectedExpression else resolve r t
    return [t]
  | t :: next :: rest =>
    if t.isPunctuation ',' then undecodable .expectedExpression
    else if next.isPunctuation ',' then do
      let t ← resolve r t
      let ts ← resolveList r rest
      return t :: ts
    else undecodable (.unexpectedAfter t)

/-- The cells of a condition.  A parenthesis right after IN (`afterIn`) holds what the term is looked
for in; any other holds a condition. -/
def cells (r : Reading) (afterIn : Bool) : List Token → Compiled (List Cell)
  | [] => .ok []
  | .keyword k :: rest =>
    match k, rest with
    | .AND, rest => return .operator .and :: (← cells r false rest)
    | .OR, rest => return .operator .or :: (← cells r false rest)
    | .IN, rest => return .operator (.member false) :: (← cells r true rest)
    | .LIKE, rest => return .operator (.like false false) :: (← cells r false rest)
    | .ILIKE, rest => return .operator (.like true false) :: (← cells r false rest)
    | .BETWEEN, low :: .keyword .AND :: high :: rest => do
      let low ← resolve r low
      let high ← resolve r high
      return .operator (.between low high false) :: (← cells r false rest)
    | .BETWEEN, _ => undecodable .betweenWithoutBounds
    | .NOT, .keyword .IN :: rest => return .operator (.member true) :: (← cells r true rest)
    | .NOT, .keyword .LIKE :: rest => return .operator (.like false true) :: (← cells r false rest)
    | .NOT, .keyword .ILIKE :: rest => return .operator (.like true true) :: (← cells r false rest)
    | .NOT, .keyword .BETWEEN :: low :: .keyword .AND :: high :: rest => do
      let low ← resolve r low
      let high ← resolve r high
      return .operator (.between low high true) :: (← cells r false rest)
    | .NOT, .keyword .BETWEEN :: _ => undecodable .betweenWithoutBounds
    | .NOT, rest => return .operator .not :: (← cells r false rest)
    | .IS, .literal .null :: rest => return .operator (.isNull false) :: (← cells r false rest)
    | .IS, .literal (.bool b) :: rest =>
      return .operator (.isBool b false) :: (← cells r false rest)
    | .IS, .keyword .NOT :: .literal .null :: rest =>
      return .operator (.isNull true) :: (← cells r false rest)
    | .IS, .keyword .NOT :: .literal (.bool b) :: rest =>
      return .operator (.isBool b true) :: (← cells r false rest)
    | .IS, _ => undecodable .isWithoutValue
    | k, _ => undecodable (.keywordInCondition k)
  | .paren inner :: rest => do
    let operand ←
      if afterIn then
        if Token.startsSelect inner then do
          let s ← r.subselect inner
          pure (.members (.subselect s))
        else match inner with
          | [] => pure (.members (.list []))
          | t :: more => do
            let terms ← resolveList r (t :: more)
            pure (.members (.list terms))
      else if Token.startsSelect inner then unsupported .subselectOutsideIn
      else do
        let cells ← cells r false inner
        let c ← reduce cells
        pure (.condition c true)
    return .operand operand :: (← cells r false rest)
  | .punctuation c :: _ => undecodable (.punctuationInCondition c)
  | t :: rest => do
    let t ← resolve r t
    return .operand (.term t) :: (← cells r false rest)

end

/-- The condition that a list of tokens stands for. -/
def condition (r : Reading) (tokens : List Token) : Compiled Condition := do
  let cells ← r.cells false tokens
  reduce cells

end Reading

end DocSql
