import DocSql.Document.Path
import DocSql.Token.Literal

/-! # Terms and conditions

The meaning of tokens in a query.  A *term* stands for a value: a column, a constant, a parameter,
a computation, an aggregate over rows.  A *condition* stands for a truth value.  The two are defined
together, because a CASE term chooses by conditions and a condition compares terms.

`Term.same` and `Condition.same` are equality up to the equality of values.
-/
namespace DocSql

/-- A column of a table of the query. -/
structure Column where
  /-- The name that the table has in the query. -/
  table : String
  column : String
  /-- Where documents hold the column: under its own name for the first table, and below the name of
  the table for a joined one. -/
  path : String
  deriving DecidableEq

/-- A function of the rows of a group. -/
inductive Aggregate where
  | count | sum | avg | min | max
  deriving DecidableEq

/-- The name of an aggregate. -/
def Aggregate.name : Aggregate → String
  | .count => "count"
  | .sum => "sum"
  | .avg => "avg"
  | .min => "min"
  | .max => "max"

/-- What a point in time can be cut down to. -/
inductive DateUnit where
  | year | month | day | hour | minute | second
  deriving DecidableEq

namespace DateUnit

/-- The name of a unit. -/
def name : DateUnit → String
  | .year => "year"
  | .month => "month"
  | .day => "day"
  | .hour => "hour"
  | .minute => "minute"
  | .second => "second"

/-- The unit with the given name. -/
def ofName? (text : String) : Option DateUnit :=
  [.year, .month, .day, .hour, .minute, .second].find? fun (u : DateUnit) => u.name == text

/-- The format that keeps a point in time down to the unit. -/
def format : DateUnit → String
  | .year => "%Y-01-01"
  | .month => "%Y-%m-01"
  | .day => "%Y-%m-%d"
  | .hour => "%Y-%m-%dT%H:00:00"
  | .minute => "%Y-%m-%dT%H:%M:00"
  | .second => "%Y-%m-%dT%H:%M:%S"

end DateUnit

/-- A compiled sub-select: its collection, its stages, and the field that holds its one column. -/
structure Subselect where
  collection : String
  pipeline : List Value
  field : String

mutual

/-- What stands for a value. -/
inductive Term where
  | column (c : Column)
  | compare (lhs : Term) (op : Comparison) (rhs : Term)
  /-- The number of rows. -/
  | countAll
  | aggregate (fn : Aggregate) (distinct : Bool) (arg : Term)
  | dateTrunc (unit : DateUnit) (arg : Term)
  | arith (op : Arithmetic) (left right : Term)
  | caseOf (arms : Arms)
  /-- A placeholder, with the value bound to it. -/
  | param (index : Nat) (value : Value)
  | const (value : Value)
  /-- A field that an earlier stage has made. -/
  | field (name : String)

/-- The branches of a CASE term. -/
inductive Arms where
  /-- The end of the branches, without ELSE. -/
  | done
  | otherwise (result : Term)
  | arm (condition : Condition) (result : Term) (rest : Arms)

/-- What stands for a truth value. -/
inductive Condition where
  | all (children : List Condition)
  | any (children : List Condition)
  | compare (lhs : Term) (op : Comparison) (rhs : Term)
  | member (operand : Term) (values : Members) (negated : Bool)
  | isNull (operand : Term) (negated : Bool)
  | between (operand low high : Term) (negated : Bool)
  | like (operand pattern : Term) (ignoreCase negated : Bool)
  /-- A term that stands where a condition is asked for. -/
  | truth (operand : Term) (negated : Bool)

/-- What a term is looked for in. -/
inductive Members where
  | list (terms : List Term)
  | subselect (s : Subselect)
  /-- A sub-select that an earlier stage has put into a field. -/
  | nested (name : String)

end

/-! ### Equality -/

/-- Equality of sub-selects. -/
def Subselect.same (s s' : Subselect) : Bool :=
  s.collection == s'.collection && Value.sameItems s.pipeline s'.pipeline && s.field == s'.field

mutual

/-- Equality of terms. -/
def Term.same : Term → Term → Bool
  | .column c, .column c' => c == c'
  | .compare l op r, .compare l' op' r' => l.same l' && op == op' && r.same r'
  | .countAll, .countAll => true
  | .aggregate fn d a, .aggregate fn' d' a' => fn == fn' && d == d' && a.same a'
  | .dateTrunc u a, .dateTrunc u' a' => u == u' && a.same a'
  | .arith op l r, .arith op' l' r' => op == op' && l.same l' && r.same r'
  | .caseOf arms, .caseOf arms' => arms.same arms'
  | .param i v, .param i' v' => i == i' && v.same v'
  | .const v, .const v' => v.same v'
  | .field n, .field n' => n == n'
  | _, _ => false
termination_by structural x => x

/-- Equality of branches. -/
def Arms.same : Arms → Arms → Bool
  | .done, .done => true
  | .otherwise t, .otherwise t' => t.same t'
  | .arm c t rest, .arm c' t' rest' => c.same c' && t.same t' && rest.same rest'
  | _, _ => false
termination_by structural x => x

/-- Equality of conditions. -/
def Condition.same : Condition → Condition → Bool
  | .all cs, .all cs' => sameConditions cs cs'
  | .any cs, .any cs' => sameConditions cs cs'
  | .compare l op r, .compare l' op' r' => l.same l' && op == op' && r.same r'
  | .member t m n, .member t' m' n' => t.same t' && m.same m' && n == n'
  | .isNull t n, .isNull t' n' => t.same t' && n == n'
  | .between t a b n, .between t' a' b' n' => t.same t' && a.same a' && b.same b' && n == n'
  | .like t p i n, .like t' p' i' n' => t.same t' && p.same p' && i == i' && n == n'
  | .truth t n, .truth t' n' => t.same t' && n == n'
  | _, _ => false
termination_by structural x => x

/-- Equality of what a term is looked for in. -/
def Members.same : Members → Members → Bool
  | .list ts, .list ts' => sameTerms ts ts'
  | .subselect s, .subselect s' => s.same s'
  | .nested n, .nested n' => n == n'
  | _, _ => false
termination_by structural x => x

/-- Equality of lists of terms. -/
def sameTerms : List Term → List Term → Bool
  | [], [] => true
  | t :: ts, t' :: ts' => t.same t' && sameTerms ts ts'
  | _, _ => false
termination_by structural x => x

/-- Equality of lists of conditions. -/
def sameConditions : List Condition → List Condition → Bool
  | [], [] => true
  | c :: cs, c' :: cs' => c.same c' && sameConditions cs cs'
  | _, _ => false
termination_by structural x => x

end

/-! ### Views -/

namespace Term

/-- The field that the term reads, where it does nothing else. -/
def fieldPath? : Term → Option String
  | .column c => some c.path
  | .field name => some name
  | _ => none

/-- The value of a constant or a bound parameter. -/
def constant? : Term → Option Value
  | .const value => some value
  | .param _ value => some value
  | _ => none

/-- Whether the term counts all rows. -/
def isCountAll : Term → Bool
  | .countAll => true
  | _ => false

/-- Whether the term is an aggregate of rows. -/
def isAggregate : Term → Bool
  | .countAll | .aggregate .. => true
  | _ => false

/-- The name of a call on an argument with the given name. -/
def callName (fn : String) : Option String → String
  | some arg => fn ++ "_" ++ replaceDots "_" arg
  | none => fn

/-- The name that a column of the result gets from the term alone. -/
def defaultName? : Term → Option String
  | .column c => some c.path
  | .countAll => some "count_all"
  | .aggregate fn _ arg => some (callName fn.name (defaultName? arg))
  | .dateTrunc _ arg => some (callName "date_trunc" (defaultName? arg))
  | .field name => some name
  | _ => none

end Term

mutual

/-- Whether an aggregate decides the value of the term.  The argument of a call is not looked at. -/
def Term.containsAggregate : Term → Bool
  | .countAll | .aggregate .. => true
  | .compare l _ r => l.containsAggregate || r.containsAggregate
  | .arith _ l r => l.containsAggregate || r.containsAggregate
  | .caseOf arms => arms.containsAggregate
  | _ => false

/-- Whether an aggregate stands in a branch. -/
def Arms.containsAggregate : Arms → Bool
  | .done => false
  | .otherwise t => t.containsAggregate
  | .arm c t rest => c.containsAggregate || t.containsAggregate || rest.containsAggregate

/-- Whether an aggregate stands in the condition: on either side of a comparison, or as the first
operand of any other test. -/
def Condition.containsAggregate : Condition → Bool
  | .all cs => anyContainsAggregate cs
  | .any cs => anyContainsAggregate cs
  | .compare l _ r => l.containsAggregate || r.containsAggregate
  | .member t _ _ => t.containsAggregate
  | .isNull t _ => t.containsAggregate
  | .between t _ _ _ => t.containsAggregate
  | .like t _ _ _ => t.containsAggregate
  | .truth t _ => t.containsAggregate

/-- Whether an aggregate stands in one of the conditions. -/
def anyContainsAggregate : List Condition → Bool
  | [] => false
  | c :: cs => c.containsAggregate || anyContainsAggregate cs

end

end DocSql
