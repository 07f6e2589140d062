import DocSql.Document.Entries
import DocSql.Number.Double

/-! # Document values

The values that documents, parameters and filters are made of.  Whole numbers and floating point
numbers are different values even where they are equal as numbers.  `Value.same` is the equality of
values: the order of the fields of a document does not matter, and neither does the sign of a
floating point zero.
-/
namespace DocSql

/-- A value of a document. -/
inductive Value where
  | null
  | bool (b : Bool)
  /-- A whole number that fits 64 bits, with or without a sign. -/
  | int (n : Int)
  /-- A finite floating point number. -/
  | float (x : Double)
  | string (s : String)
  | array (items : List Value)
  /-- A document: its fields in order, each name once. -/
  | object (fields : List (String × Value))

instance : Inhabited Value := ⟨.null⟩

/-- The fields of a document. -/
abbrev Fields := Entries Value

namespace Value

/-- The document without fields. -/
def empty : Value := .object []

/-- The document with one field. -/
def field (name : String) (value : Value) : Value := .object [(name, value)]

/-- A text that reads a field in an expression. -/
def path (name : String) : Value := .string ("$" ++ name)

/-! ### Views -/

/-- The whole number with a sign that the value holds. -/
def asInt64? : Value → Option Int
  | .int n => if n < signedBound then some n else none
  | _ => none

/-- The whole number without a sign that the value holds. -/
def asNat64? : Value → Option Nat
  | .int n => if 0 ≤ n then some n.toNat else none
  | _ => none

/-- The fields of a document. -/
def asObject? : Value → Option Fields
  | .object fields => some fields
  | _ => none

/-- The items of an array. -/
def asArray? : Value → Option (List Value)
  | .array items => some items
  | _ => none

/-- The text that the value holds. -/
def asString? : Value → Option String
  | .string s => some s
  | _ => none

/-- Whether the value is a number. -/
def isNumber : Value → Bool
  | .int _ | .float _ => true
  | _ => false

/-- The field of a document; nothing for other values. -/
def get? (value : Value) (name : String) : Option Value :=
  value.asObject?.bind fun fields => fields.get? name

/-! ### Equality -/

mutual

/-- Equality of values. -/
def same : Value → Value → Bool
  | .null, .null => true
  | .bool a, .bool b => a == b
  | .int a, .int b => a == b
  | .float a, .float b => a.same b
  | .string a, .string b => a == b
  | .array a, .array b => sameItems a b
  | .object a, .object b => a.length == b.length && sameFields a b
  | _, _ => false

/-- Equality of arrays, item by item. -/
def sameItems : List Value → List Value → Bool
  | [], [] => true
  | a :: as, b :: bs => same a b && sameItems as bs
  | _, _ => false

/-- Whether each field on the left has an equal one on the right. -/
def sameFields : List (String × Value) → List (String × Value) → Bool
  | [], _ => true
  | (k, v) :: rest, other =>
    (match other.lookup k with
      | some w => same v w
      | none => false) && sameFields rest other

end

end Value

end DocSql
