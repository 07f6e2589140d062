import DocSql.Term.Basic

/-! # Transforming terms

A term is transformed from the outside to the inside: where `f` gives a replacement, it is taken as it
is, and otherwise the parts of the term are transformed from left to right.
-/
namespace DocSql

variable {m : Type → Type} [Monad m]

/-- The replacement of a term, or else what its parts make of it. -/
def replaceOr (f : Term → m (Option Term)) (t : Term) (parts : m Term) : m Term := do
  match ← f t with
  | some replacement => return replacement
  | none => parts

mutual

/-- Transforms a term.  The argument of a call is transformed only if `intoCalls` says so, and that of
an aggregate never. -/
def Term.transform (f : Term → m (Option Term)) (intoCalls : Bool) : Term → m Term
  | .compare lhs op rhs => replaceOr f (.compare lhs op rhs) do
    let lhs ← lhs.transform f intoCalls
    let rhs ← rhs.transform f intoCalls
    return .compare lhs op rhs
  | .arith op left right => replaceOr f (.arith op left right) do
    let left ← left.transform f intoCalls
    let right ← right.transform f intoCalls
    return .arith op left right
  | .dateTrunc unit arg => replaceOr f (.dateTrunc unit arg) do
    if intoCalls then
      let arg ← arg.transform f intoCalls
      return .dateTrunc unit arg
    else return .dateTrunc unit arg
  | .caseOf arms => replaceOr f (.caseOf arms) do
    let arms ← arms.transform f intoCalls
    return .caseOf arms
  | t => replaceOr f t (return t)

/-- Transforms the branches of a CASE term. -/
def Arms.transform (f : Term → m (Option Term)) (intoCalls : Bool) : Arms → m Arms
  | .done => return .done
  | .otherwise t => do
    let t ← t.transform f intoCalls
    return .otherwise t
  | .arm c t rest => do
    let c ← c.transform f intoCalls
    let t ← t.transform f intoCalls
    let rest ← rest.transform f intoCalls
    return .arm c t rest

/-- Transforms the operands of a condition.  What a term is looked for in stays as it is. -/
def Condition.transform (f : Term → m (Option Term)) (intoCalls : Bool) : Condition → m Condition
  | .all cs => do
    let cs ← transformAll f intoCalls cs
    return .all cs
  | .any cs => do
    let cs ← transformAll f intoCalls cs
    return .any cs
  | .compare lhs op rhs => do
    let lhs ← lhs.transform f intoCalls
    let rhs ← rhs.transform f intoCalls
    return .compare lhs op rhs
  | .member t values negated => do
    let t ← t.transform f intoCalls
    return .member t values negated
  | .isNull t negated => do
    let t ← t.transform f intoCalls
    return .isNull t negated
  | .between t low high negated => do
    let t ← t.transform f intoCalls
    let low ← low.transform f intoCalls
    let high ← high.transform f intoCalls
    return .between t low high negated
  | .like t pattern ignoreCase negated => do
    let t ← t.transform f intoCalls
    let pattern ← pattern.transform f intoCalls
    return .like t pattern ignoreCase negated
  | .truth t negated => do
    let t ← t.transform f intoCalls
    return .truth t negated

/-- Transforms each of the conditions. -/
def transformAll (f : Term → m (Option Term)) (intoCalls : Bool) :
    List Condition → m (List Condition)
  | [] => return []
  | c :: cs => do
    let c ← c.transform f intoCalls
    let cs ← transformAll f intoCalls cs
    return c :: cs

end

end DocSql
