import DocSql.Condition.Like

/-! # Expressions and filters of the document store

A term becomes an expression.  A condition has two forms: as an expression, and as a filter, which
names the field it tests and so needs no expression wherever a field is tested against constants.
-/
namespace DocSql

/-- A constant inside an expression.  A text that starts with `$` would read a field. -/
def literal : Value → Value
  | .string s => if s.toList.head? = some '$' then .field "$literal" (.string s) else .string s
  | v => v

/-- An operator applied to two expressions. -/
def binary (op : String) (lhs rhs : Value) : Value := .field op (.array [lhs, rhs])

/-- The negation of an expression. -/
def notExpression (negated : Bool) (test : Value) : Value :=
  if negated then .field "$not" (.array [test]) else test

/-- The values of a list of constants, where it has no other terms.  A parameter bound to a list
stands for the items of the list. -/
def constants? : List Term → Option (List Value)
  | [] => some []
  | t :: ts => do
    let values ← match t with
      | .param _ (.array items) => some items
      | t => t.constant?.map fun v => [v]
    let rest ← constants? ts
    return values ++ rest

mutual

/-- The expression of a term. -/
def Term.expression : Term → Compiled Value
  | .column c => .ok (.path c.path)
  | .field name => .ok (.path name)
  | .const value => .ok (literal value)
  | .param _ value => .ok (literal value)
  | .compare lhs op rhs => do
    let lhs ← lhs.expression
    let rhs ← rhs.expression
    return binary op.operator lhs rhs
  | .arith op left right => do
    let left ← left.expression
    let right ← right.expression
    return binary op.operator left right
  | .countAll => undecodable (.aggregateOutsideGroup Aggregate.count.name)
  | .aggregate fn _ _ => undecodable (.aggregateOutsideGroup fn.name)
  | .dateTrunc unit arg => do
    let arg ← arg.expression
    return .field "$dateFromString" (.field "dateString" (.field "$dateToString"
      (.object [("format", .string unit.format), ("date", arg)])))
  | .caseOf arms => arms.expression

/-- The expression of the branches of a CASE term, the last one innermost. -/
def Arms.expression : Arms → Compiled Value
  | .done => .ok .null
  | .otherwise t => t.expression
  | .arm c t rest => do
    let rest ← rest.expression
    let c ← c.expression
    let t ← t.expression
    return .field "$cond" (.object [("if", c), ("then", t), ("else", rest)])

/-- The expression of a condition. -/
def Condition.expression : Condition → Compiled Value
  | .all cs => do
    let cs ← expressions cs
    return .field "$and" (.array cs)
  | .any cs => do
    let cs ← expressions cs
    return .field "$or" (.array cs)
  | .compare lhs op rhs => do
    let lhs ← lhs.expression
    let rhs ← rhs.expression
    return binary op.operator lhs rhs
  | .member t m negated => do
    let list ← m.expression
    let t ← t.expression
    return notExpression negated (binary "$in" t list)
  | .isNull t negated => do
    let t ← t.expression
    -- a missing field is below null as well
    return binary (if negated then "$gt" else "$lte") t .null
  | .between t low high negated => do
    let t ← t.expression
    let low ← low.expression
    let high ← high.expression
    return notExpression negated
      (.field "$and" (.array [binary "$gte" t low, binary "$lte" t high]))
  | .like t pattern ignoreCase negated => do
    let t ← t.expression
    let regex ← pattern.likeRegex
    let options := if ignoreCase then [("options", Value.string "i")] else []
    return notExpression negated
      (.field "$regexMatch" (.object ([("input", t), ("regex", .string regex)] ++ options)))
  | .truth t negated => do
    let t ← t.expression
    return binary (if negated then "$ne" else "$eq") t (.bool true)

/-- The expression of what a term is looked for in. -/
def Members.expression : Members → Compiled Value
  | .list ts =>
    match constants? ts with
    | some values => .ok (.array (values.map literal))
    | none => do
      let ts ← termExpressions ts
      return .array ts
  | .nested name => .ok (.path name)
  | .subselect _ => unsupported .subselectInExpression

/-- The expressions of a list of terms. -/
def termExpressions : List Term → Compiled (List Value)
  | [] => .ok []
  | t :: ts => do
    let t ← t.expression
    let ts ← termExpressions ts
    return t :: ts

/-- The expressions of a list of conditions. -/
def expressions : List Condition → Compiled (List Value)
  | [] => .ok []
  | c :: cs => do
    let c ← c.expression
    let cs ← expressions cs
    return c :: cs

end

/-! ### Filters -/

/-- The filter of a comparison of a field with a value.  A document of one field is compared inside
the field. -/
def compareField (field : String) (op : Comparison) (value : Value) : Value :=
  match value with
  | .object [(sub, inner)] => .field (field ++ "." ++ sub) (.field op.operator inner)
  | value => .field field (.field op.operator value)

namespace Condition

/-- The filter that tests an expression. -/
def expressionFilter (c : Condition) : Compiled Value := do
  let e ← c.expression
  return .field "$expr" e

/-- The filter of a test other than a conjunction or a disjunction. -/
def testFilter (c : Condition) : Compiled Value :=
  match c with
  | .compare lhs op rhs =>
    match lhs.fieldPath?, rhs.constant?, rhs.fieldPath?, lhs.constant? with
    | some field, some value, _, _ => .ok (compareField field op value)
    | _, _, some field, some value => .ok (compareField field op.swap value)
    | _, _, _, _ => c.expressionFilter
  | .member t (.list ts) negated =>
    match t.fieldPath?, constants? ts with
    | some field, some values =>
      .ok (.field field (.field (if negated then "$nin" else "$in") (.array values)))
    | _, _ => c.expressionFilter
  | .isNull t negated =>
    match t.fieldPath? with
    | some field => .ok (.field field (.field (if negated then "$ne" else "$eq") .null))
    | none => c.expressionFilter
  | .between t low high negated =>
    match t.fieldPath?, low.constant?, high.constant? with
    | some field, some low, some high =>
      let range := Value.object [("$gte", low), ("$lte", high)]
      .ok (.field field (if negated then .field "$not" range else range))
    | _, _, _ => c.expressionFilter
  | .like t pattern ignoreCase negated =>
    match t.fieldPath? with
    | none => unsupported .likeOnComputed
    | some field => do
      let regex ← pattern.likeRegex
      let options := if ignoreCase then [("$options", Value.string "i")] else []
      let test := Value.object (("$regex", .string regex) :: options)
      return .field field (if negated then .field "$not" test else test)
  | .truth t negated =>
    match t.fieldPath? with
    | some field => .ok (.field field (.field (if negated then "$ne" else "$eq") (.bool true)))
    | none => c.expressionFilter
  | c => c.expressionFilter

end Condition

mutual

/-- The filter of a condition. -/
def Condition.filter : Condition → Compiled Value
  | .all cs => do
    let cs ← filters cs
    return .field "$and" (.array cs)
  | .any cs => do
    let cs ← filters cs
    return .field "$or" (.array cs)
  | c => c.testFilter

/-- The filters of a list of conditions. -/
def filters : List Condition → Compiled (List Value)
  | [] => .ok []
  | c :: cs => do
    let c ← c.filter
    let cs ← filters cs
    return c :: cs

end

/-! ### Projected values -/

/-- The value of a term in a projection, where a bare number would choose a field. -/
def Term.projected (t : Term) : Compiled Value :=
  match t.constant? with
  | some value => .ok (.field "$literal" value)
  | none => t.expression

/-! ### Aggregates -/

namespace Term

/-- What a group collects for a call.  The only call that is no aggregate is the one that cuts a
date. -/
def accumulator : Term → Compiled Value
  | .countAll => .ok (.field "$sum" (.int 1))
  | .aggregate .count true arg => do
    let arg ← arg.expression
    return .field "$addToSet" arg
  | .aggregate .count false arg => do
    let arg ← arg.expression
    -- null and missing fields do not count
    return .field "$sum" (.field "$cond"
      (.object [("if", binary "$gt" arg .null), ("then", .int 1), ("else", .int 0)]))
  | .aggregate fn true _ => unsupported (.distinctAggregate fn)
  | .aggregate fn false arg => do
    let arg ← arg.expression
    return .field ("$" ++ fn.name) arg
  | _ => undecodable (.notAnAggregate "date_trunc")

/-- How the collected field becomes the value of the term, where it is not the value itself: a set
of distinct values is counted, without null. -/
def finalizer? (t : Term) (field : String) : Option Value :=
  match t with
  | .aggregate .count true _ =>
    some (.field "$size" (.field "$setDifference" (.array [.path field, .array [.null]])))
  | _ => none

/-- The value of a term over no rows: a count is zero, and there is no other value. -/
def emptyValue : Term → Value
  | .countAll => .int 0
  | .aggregate .count .. => .int 0
  | _ => .null

end Term

end DocSql
