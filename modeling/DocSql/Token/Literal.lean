import DocSql.Document.Json
import DocSql.Number.Numeral
import DocSql.Number.Shortest

/-! # Literals and operators

The values and the signs that a query can write down, with their text in a query and their name in
an expression of the document store.
-/
namespace DocSql

/-- Numbers in query texts: the larger one of two equally near decimals, never with an exponent, and
without a fraction where there is none. -/
def queryNumber : Layout where
  tie := .up
  positional _ := true
  pointZero := false

/-- A value written in a query. -/
inductive Literal where
  | null
  | bool (b : Bool)
  /-- A whole number that fits 64 bits with its sign. -/
  | int (n : Int)
  | float (x : Double)
  | string (s : String)
  deriving DecidableEq

namespace Literal

/-- The literal of a number as it is written: whole where it is written without point and exponent
and fits 64 bits. -/
def ofNumber? (text : String) : Option Literal :=
  (Numeral.read? text.toList).map fun numeral =>
    match numeral.toInt? with
    | some n => if -signedBound ≤ n && n < signedBound then .int n else .float numeral.toDouble
    | none => .float numeral.toDouble

/-- The value of a literal; a number that is too large has none. -/
def toValue : Literal → Value
  | .null => .null
  | .bool b => .bool b
  | .int n => .int n
  | .float x => if x.isFinite then .float x else .null
  | .string s => .string s

/-- A text as it stands in a query, with its quotes doubled. -/
def quote (s : String) : String :=
  String.ofList
    ('\x27' :: (s.toList.flatMap fun c => if c = '\x27' then [c, c] else [c]) ++ ['\x27'])

/-- The literal as it stands in a query. -/
def text : Literal → String
  | .null => "NULL"
  | .bool b => if b then "TRUE" else "FALSE"
  | .int n => toString n
  | .float x => queryNumber.text x
  | .string s => quote s

end Literal

/-- A comparison of two values. -/
inductive Comparison where
  | eq | ne | lt | le | gt | ge
  deriving DecidableEq

namespace Comparison

/-- The comparison that an operator writes. -/
def ofOperator? (op : String) : Option Comparison :=
  if op = "=" then some .eq
  else if op = "<>" ∨ op = "!=" then some .ne
  else if op = "<" then some .lt
  else if op = "<=" then some .le
  else if op = ">" then some .gt
  else if op = ">=" then some .ge
  else none

/-- The comparison that holds exactly where the given one fails. -/
def negate : Comparison → Comparison
  | .eq => .ne
  | .ne => .eq
  | .lt => .ge
  | .le => .gt
  | .gt => .le
  | .ge => .lt

/-- The comparison with its two sides exchanged. -/
def swap : Comparison → Comparison
  | .eq => .eq
  | .ne => .ne
  | .lt => .gt
  | .le => .ge
  | .gt => .lt
  | .ge => .le

@[simp] theorem negate_negate (op : Comparison) : op.negate.negate = op := by
  cases op <;> rfl

@[simp] theorem swap_swap (op : Comparison) : op.swap.swap = op := by
  cases op <;> rfl

/-- The comparison as it stands in a query. -/
def text : Comparison → String
  | .eq => "="
  | .ne => "<>"
  | .lt => "<"
  | .le => "<="
  | .gt => ">"
  | .ge => ">="

/-- The name of the comparison in the document store. -/
def operator : Comparison → String
  | .eq => "$eq"
  | .ne => "$ne"
  | .lt => "$lt"
  | .le => "$lte"
  | .gt => "$gt"
  | .ge => "$gte"

/-- No comparison has the name that keeps its operand from being evaluated. -/
theorem operator_ne_literal (op : Comparison) : op.operator ≠ "$literal" := by
  cases op <;> decide

end Comparison

/-- An arithmetic operation on two values. -/
inductive Arithmetic where
  | add | sub | mul | div | mod
  deriving DecidableEq

namespace Arithmetic

/-- The operation that an operator writes. -/
def ofOperator? (op : String) : Option Arithmetic :=
  if op = "+" then some .add
  else if op = "-" then some .sub
  else if op = "*" then some .mul
  else if op = "/" then some .div
  else if op = "%" then some .mod
  else none

/-- Whether the operation binds tighter than addition. -/
def isMultiplicative : Arithmetic → Bool
  | .mul | .div | .mod => true
  | .add | .sub => false

/-- The operation as it stands in a query. -/
def text : Arithmetic → String
  | .add => "+"
  | .sub => "-"
  | .mul => "*"
  | .div => "/"
  | .mod => "%"

/-- The name of the operation in the document store. -/
def operator : Arithmetic → String
  | .add => "$add"
  | .sub => "$subtract"
  | .mul => "$multiply"
  | .div => "$divide"
  | .mod => "$mod"

/-- No operation has the name that keeps its operand from being evaluated. -/
theorem operator_ne_literal (op : Arithmetic) : op.operator ≠ "$literal" := by
  cases op <;> decide

end Arithmetic

end DocSql
