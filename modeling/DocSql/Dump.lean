import DocSql.Document.Json
import DocSql.Term.Basic
import DocSql.Text.Visible

/-! # Dumps

A few messages show a term or a list of parameters as it is built: every constructor by its name,
every field by its name, and texts in quotes with all that does not show by itself written by its
number.
-/
namespace DocSql.Dump

/-- The hexadecimal digits of a number. -/
def hex (n : Nat) : List Char := Nat.toDigits 16 n

/-- A character inside a quoted text. -/
def char (c : Char) : List Char :=
  if c = '\x22' then ['\\', '\x22']
  else if c = '\\' then ['\\', '\\']
  else if c = '\n' then ['\\', 'n']
  else if c = '\t' then ['\\', 't']
  else if c = '\x0d' then ['\\', 'r']
  else if c = '\x00' then ['\\', '0']
  else if Text.isVisible c then [c]
  else ['\\', 'u', '\x7b'] ++ hex c.toNat ++ ['\x7d']

/-- A text in quotes. -/
def quote (s : String) : String :=
  String.ofList ('\x22' :: (s.toList.flatMap char ++ ['\x22']))

/-- A truth value. -/
def bool (b : Bool) : String := if b then "true" else "false"

/-- Dumps with commas between them. -/
def commas (xs : List String) : String := ", ".intercalate xs

/-- A constructor with named fields. -/
def record (name : String) (fields : List (String × String)) : String :=
  name ++ " \x7b " ++ commas (fields.map fun (k, v) => k ++ ": " ++ v) ++ " \x7d"

/-- A constructor with one unnamed field. -/
def wrap (name : String) (arg : String) : String := name ++ "(" ++ arg ++ ")"

/-- An optional dump. -/
def option : Option String → String
  | some x => wrap "Some" x
  | none => "None"

/-- A list of dumps. -/
def list (xs : List String) : String := "[" ++ commas xs ++ "]"

mutual

/-- A value. -/
def value : Value → String
  | .null => "Null"
  | .bool b => wrap "Bool" (bool b)
  | .int n => wrap "Number" (toString n)
  | .float x => wrap "Number" (documentNumber.text x)
  | .string s => wrap "String" (quote s)
  | .array items => "Array " ++ list (values items)
  | .object fields => "Object \x7b" ++ commas (entries fields) ++ "\x7d"

/-- The items of an array. -/
def values : List Value → List String
  | [] => []
  | v :: rest => value v :: values rest

/-- The fields of a document. -/
def entries : List (String × Value) → List String
  | [] => []
  | (k, v) :: rest => (quote k ++ ": " ++ value v) :: entries rest

end

/-- A comparison. -/
def comparison : Comparison → String
  | .eq => "Eq"
  | .ne => "NotEq"
  | .lt => "Lt"
  | .le => "LtEq"
  | .gt => "Gt"
  | .ge => "GtEq"

/-- An arithmetic operation. -/
def arithmetic : Arithmetic → String
  | .add => "Add"
  | .sub => "Sub"
  | .mul => "Mul"
  | .div => "Div"
  | .mod => "Mod"

/-- A call of a function. -/
def call (name : String) (arg : Option String) (distinct : Bool) (unit : Option String) : String :=
  wrap "Function" (record "FunctionCall"
    [("name", quote name), ("arg", option arg), ("distinct", bool distinct),
      ("unit", option (unit.map quote))])

/-- A sub-select. -/
def subselect (s : Subselect) : String :=
  record "Subquery"
    [("collection", quote s.collection), ("pipeline", list (values s.pipeline)),
      ("field", quote s.field)]

mutual

/-- A term. -/
def term : Term → String
  | .column c =>
    wrap "Identifier" (record "ColumnRef"
      [("table", quote c.table), ("column", quote c.column), ("path", quote c.path)])
  | .compare l op r =>
    record "Comparison" [("lhs", term l), ("op", comparison op), ("rhs", term r)]
  | .countAll => call "count" none false none
  | .aggregate fn distinct arg => call fn.name (some (term arg)) distinct none
  | .dateTrunc unit arg => call "date_trunc" (some (term arg)) false (some unit.name)
  | .arith op l r =>
    record "Operation" [("op", arithmetic op), ("left", term l), ("right", term r)]
  | .caseOf arms =>
    record "CaseExpr" [("branches", list (branches arms)), ("otherwise", option (fallback arms))]
  | .param index v =>
    record "Placeholder" [("index", toString index), ("value", value v)]
  | .const v => wrap "Const" (value v)
  | .field name => wrap "Alias" (quote name)

/-- The WHEN branches. -/
def branches : Arms → List String
  | .done => []
  | .otherwise _ => []
  | .arm c t rest => ("(" ++ condition c ++ ", " ++ term t ++ ")") :: branches rest

/-- The ELSE branch. -/
def fallback : Arms → Option String
  | .done => none
  | .otherwise t => some (term t)
  | .arm _ _ rest => fallback rest

/-- A condition. -/
def condition : Condition → String
  | .all cs => wrap "And" (list (conditions cs))
  | .any cs => wrap "Or" (list (conditions cs))
  | .compare l op r => record "Compare" [("lhs", term l), ("op", comparison op), ("rhs", term r)]
  | .member t m n =>
    record "In" [("operand", term t), ("values", members m), ("negated", bool n)]
  | .isNull t n => record "IsNull" [("operand", term t), ("negated", bool n)]
  | .between t a b n =>
    record "Between"
      [("operand", term t), ("low", term a), ("high", term b), ("negated", bool n)]
  | .like t p i n =>
    record "Like"
      [("operand", term t), ("pattern", term p), ("ilike", bool i), ("negated", bool n)]
  | .truth t n => record "Truth" [("operand", term t), ("negated", bool n)]

/-- What a term is looked for in. -/
def members : Members → String
  | .list ts => wrap "List" (list (terms ts))
  | .subselect s => subselect s
  | .nested name => wrap "Nested" (quote name)

/-- A list of terms. -/
def terms : List Term → List String
  | [] => []
  | t :: rest => term t :: terms rest

/-- A list of conditions. -/
def conditions : List Condition → List String
  | [] => []
  | c :: rest => condition c :: conditions rest

end

end DocSql.Dump
