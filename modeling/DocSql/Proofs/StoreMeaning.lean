import DocSql.Document.Path
import DocSql.Token.Literal

/-! # What the document store makes of expressions and filters

The store evaluates an expression in a document, and accepts or refuses a document by a filter.  This
module says what the operators mean that conditions are written with: comparisons, `$in`, `$and`,
`$or` and `$not`, whole arithmetic, `$cond` and `$literal` in expressions; field tests, `$and`, `$or`
and `$expr` in filters.  Nothing is said where the result is `none`.
-/
namespace DocSql
namespace Meaning

/-! ### The order of values -/

/-- The place of a value among values of other kinds: null first, then numbers. -/
def rank : Value → Nat
  | .null => 0
  | .int _ | .float _ => 1
  | .string _ => 2
  | .object _ => 3
  | .array _ => 4
  | .bool _ => 5

/-- The order of two values.  Values of one kind are compared where they are whole numbers, texts or
truth values. -/
def order? (a b : Value) : Option Ordering :=
  if rank a = rank b then
    match a, b with
    | .null, .null => some .eq
    | .int a, .int b => some (compare a b)
    | .string a, .string b => some (compare a b)
    | .bool a, .bool b => some (compare a b)
    | _, _ => none
  else some (compare (rank a) (rank b))

/-- Whether a comparison holds of two values in the given order. -/
def ordered : Comparison → Ordering → Bool
  | .eq, o => o.isEq
  | .ne, o => o.isNe
  | .lt, o => o.isLT
  | .le, o => o.isLE
  | .gt, o => o.isGT
  | .ge, o => o.isGE

/-- The comparison that an operator of the store names. -/
def comparison? (name : String) : Option Comparison :=
  if name = "$eq" then some .eq
  else if name = "$ne" then some .ne
  else if name = "$lt" then some .lt
  else if name = "$lte" then some .le
  else if name = "$gt" then some .gt
  else if name = "$gte" then some .ge
  else none

/-- Whether a value equals one of the others. -/
def among? (v : Value) : List Value → Option Bool
  | [] => some false
  | w :: ws => do
    let here ← order? v w
    let there ← among? v ws
    return here.isEq || there

/-! ### Expressions -/

/-- The truth values that values are. -/
def truths? (values : List Value) : Option (List Bool) := values.mapM fun
    | .bool b => some b
    | _ => none

/-- The operation on whole numbers that an operator names. -/
def arithmetic? (name : String) : Option (Int → Int → Int) :=
  if name = "$add" then some (· + ·)
  else if name = "$subtract" then some (· - ·)
  else if name = "$multiply" then some (· * ·)
  else none

/-- The value of an operator with two operands. -/
def appliedBinary? (name : String) (a b : Value) : Option Value :=
  match comparison? name, arithmetic? name, a, b with
  | some op, _, a, b => do
    let o ← order? a b
    return .bool (ordered op o)
  | none, some f, .int a, .int b => some (.int (f a b))
  | none, none, a, .array items => do
    if name = "$in" then
      let found ← among? a items
      return .bool found
    else none
  | _, _, _, _ => none

/-- The value of an operator applied to values. -/
def applied? (name : String) (args : List Value) : Option Value :=
  if name = "$and" then do
    let truths ← truths? args
    return .bool (truths.all id)
  else if name = "$or" then do
    let truths ← truths? args
    return .bool (truths.any id)
  else match args with
    | [.bool b] => if name = "$not" then some (.bool (!b)) else none
    | [a, b] => appliedBinary? name a b
    | _ => none

/-- The value at a path of a document. -/
def read? (document : Value) (path : List Char) : Option Value :=
  Value.walk (segments (String.ofList path)) document

mutual

/-- The value of an expression in a document.  A text that starts with `$` reads a path. -/
def eval? (document : Value) : Value → Option Value
  | .string s =>
    match s.toList with
    | '$' :: path => read? document path
    | _ => some (.string s)
  | .array items => do
    let values ← evalItems? document items
    return .array values
  | .object [(name, arg)] =>
    if name = "$literal" then some arg
    else match arg with
      | .array args => do
        let values ← evalItems? document args
        applied? name values
      | .object [(first, test), (second, yes), (third, no)] =>
        if name = "$cond" ∧ first = "if" ∧ second = "then" ∧ third = "else" then do
          match ← eval? document test with
          | .bool true => eval? document yes
          | .bool false => eval? document no
          | _ => none
        else none
      | _ => none
  | .object _ => none
  | v => some v

/-- The values of expressions in a document. -/
def evalItems? (document : Value) : List Value → Option (List Value)
  | [] => some []
  | e :: es => do
    let v ← eval? document e
    let vs ← evalItems? document es
    return v :: vs

end

/-! ### Filters -/

/-- Whether a value passes a comparison.  Only values of one kind are larger or smaller than each
other. -/
def passesComparison? (op : Comparison) (v operand : Value) : Option Bool := do
  let o ← order? v operand
  match op with
  | .eq | .ne => return ordered op o
  | _ => return rank v == rank operand && ordered op o

mutual

/-- Whether the value of a field passes all of the given tests. -/
def passes? (v : Value) : List (String × Value) → Option Bool
  | [] => some true
  | (name, operand) :: rest => do
    let here ← passesOne? v name operand
    let there ← passes? v rest
    return here && there

/-- Whether the value of a field passes a test. -/
def passesOne? (v : Value) (name : String) : Value → Option Bool
  | .object tests =>
    if name = "$not" then do
      let passed ← passes? v tests
      return !passed
    else none
  | .array items =>
    if name = "$in" then among? v items
    else if name = "$nin" then do
      let found ← among? v items
      return !found
    else none
  | operand => do
    let op ← comparison? name
    passesComparison? op v operand

end

mutual

/-- Whether a filter accepts a document. -/
def accepts? (document : Value) : Value → Option Bool
  | .object fields => acceptsFields? document fields
  | _ => none

/-- Whether all parts of a filter accept a document.  A name that does not start with `$` is that of
the field to test. -/
def acceptsFields? (document : Value) : List (String × Value) → Option Bool
  | [] => some true
  | (name, operand) :: rest => do
    let here ←
      if name.toList.head? = some '$' then
        if name = "$expr" then
          match eval? document operand with
          | some (.bool b) => some b
          | _ => none
        else match operand with
          | .array filters => do
            let accepted ← acceptsItems? document filters
            if name = "$and" then some (accepted.all id)
            else if name = "$or" then some (accepted.any id)
            else none
          | _ => none
      else match operand with
        | .object tests => do
          let v ← read? document name.toList
          passes? v tests
        | _ => none
    let there ← acceptsFields? document rest
    return here && there

/-- Which of the filters accept a document. -/
def acceptsItems? (document : Value) : List Value → Option (List Bool)
  | [] => some []
  | f :: fs => do
    let b ← accepts? document f
    let bs ← acceptsItems? document fs
    return b :: bs

end

end Meaning
end DocSql
