import DocSql.Clause.Basic
import DocSql.Term.Resolve

/-! # SET

An assignment of a constant sets a field.  Adding a number to a field, taking one away and
multiplying by one are done by the document store itself.
-/
namespace DocSql

/-- The SET clause of an update. -/
structure Assignments where
  set : Fields := []
  inc : Fields := []
  mul : Fields := []
  span : Span

namespace Assignments

/-- The number with the other sign.  A whole number too large for a sign becomes a floating point
number. -/
def negateNumber : Value → Value
  | .int n => if n < signedBound then .int (-n) else .float (Double.ofRatio true n.toNat 1)
  | .float x => .float x.negate
  | v => v

/-- The number of an operation of a field with a number. -/
def amount? (field : String) (op : Arithmetic) (left right : Term) : Option Value :=
  let ofField (t : Term) : Bool := t.fieldPath? == some field
  let amount := match ofField left, ofField right, op with
    | true, false, .add | true, false, .sub | true, false, .mul => right.constant?
    | false, true, .add | false, true, .mul => left.constant?
    | _, _, _ => none
  amount.filter Value.isNumber

/-- Adds the assignment of a term to a field. -/
def assign (a : Assignments) (field : String) (t : Term) : Compiled Assignments :=
  match t.constant?, t with
  | some value, _ => .ok { a with set := a.set.insert field value }
  | none, .arith op left right =>
    match amount? field op left right, op with
    | none, _ => unsupported (.computedAssignment field)
    | some amount, .add => .ok { a with inc := a.inc.insert field amount }
    | some amount, .sub => .ok { a with inc := a.inc.insert field (negateNumber amount) }
    | some amount, _ => .ok { a with mul := a.mul.insert field amount }
  | none, _ => unsupported (.computedAssignment field)

/-- Adds an assignment. -/
def readOne (r : Reading) (a : Assignments) : List Token → Compiled Assignments
  | [.comparison left .eq right] => do
    match ← r.resolve left with
    | .column c =>
      let t ← r.resolve right
      a.assign c.path t
    | _ => undecodable (.expectedColumn left)
  | _ => undecodable .expectedAssignment

/-- Reads SET and its assignments up to the next clause. -/
def read (r : Reading) (c : TokenCursor) : Compiled (Assignments × TokenCursor) :=
  match c.eat? .SET with
  | none => undecodable .updateWithoutSet
  | some afterSet =>
    let (tokens, after) := afterSet.takeUntil isClauseKeyword
    if tokens.isEmpty then undecodable .setWithoutAssignments
    else do
      let a ← (Token.splitCommas tokens).foldlM (readOne { r with aliases := false })
        { span := .between c after }
      return (a, after)

/-- The document that tells the store what to change. -/
def document (a : Assignments) : Value :=
  .object ([("$set", a.set), ("$inc", a.inc), ("$mul", a.mul)].filterMap fun (operator, fields) =>
    if fields.isEmpty then none else some (operator, .object fields))

end Assignments

/-- An update has no pipeline. -/
instance : Clause Assignments where
  span := Assignments.span
  stages _ := undecodable .setWithoutPipeline

end DocSql
