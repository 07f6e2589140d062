import DocSql.Document.Value
import DocSql.Number.Shortest
import DocSql.Number.Numeral

/-! # The text of a value

Values are written and read as JSON.  The written text has no blanks, keeps the order of the fields
and escapes only what has to be escaped.  Reading keeps whole numbers that fit 64 bits apart from
all other numbers; a field that is given twice keeps its first place and its last value.
-/
namespace DocSql

/-- Numbers in documents: the even one of two equally near decimals; from `0.00001` to below
`10 ^ 16` without an exponent; and always with a fractional digit or an exponent. -/
def documentNumber : Layout where
  tie := .even
  positional e := -5 ≤ e && e < 16
  pointZero := true

namespace Value

/-! ### Writing -/

/-- The hexadecimal digit of a number below sixteen. -/
def hexDigit (n : Nat) : Char := Nat.digitChar (n % 16)

/-- A character inside a quoted text. -/
def quoteChar (c : Char) : List Char :=
  if c = '\x22' then ['\\', '\x22']
  else if c = '\\' then ['\\', '\\']
  else if c = '\x08' then ['\\', 'b']
  else if c = '\x0c' then ['\\', 'f']
  else if c = '\n' then ['\\', 'n']
  else if c = '\x0d' then ['\\', 'r']
  else if c = '\t' then ['\\', 't']
  else if c.toNat < 0x20 then ['\\', 'u', '0', '0', hexDigit (c.toNat / 16), hexDigit c.toNat]
  else [c]

/-- A text in quotes. -/
def quote (s : String) : String :=
  String.ofList ('\x22' :: (s.toList.flatMap quoteChar ++ ['\x22']))

mutual

/-- The text of a value. -/
def text : Value → String
  | .null => "null"
  | .bool b => if b then "true" else "false"
  | .int n => toString n
  | .float x => documentNumber.text x
  | .string s => quote s
  | .array items => "[" ++ textItems items ++ "]"
  | .object fields => "\x7b" ++ textFields fields ++ "\x7d"

/-- The items of an array, with commas between them. -/
def textItems : List Value → String
  | [] => ""
  | [v] => text v
  | v :: rest => text v ++ "," ++ textItems rest

/-- The fields of a document, with commas between them. -/
def textFields : List (String × Value) → String
  | [] => ""
  | [(k, v)] => quote k ++ ":" ++ text v
  | (k, v) :: rest => quote k ++ ":" ++ text v ++ "," ++ textFields rest

end

/-! ### Reading numbers

A fraction, or a whole number beyond 64 bits, is read as its leading digits, as many as fit a word
of 64 bits, scaled by a power of ten.  The digits are rounded to a floating point number first, and
the scaling rounds once more.
-/

/-- Takes digits into `acc` as long as it stays below `2 ^ 64`; also gives the digits left over. -/
def takeDigits : Nat → List Char → Nat × List Char
  | acc, [] => (acc, [])
  | acc, c :: cs =>
    let next := 10 * acc + digitsValue [c]
    if next < unsignedBound then takeDigits next cs else (acc, c :: cs)

/-- `x * 10 ^ exponent`, in steps of at most `10 ^ 308`; nothing where it is too large.  Every
number below `2 ^ 64` is zero after three steps down. -/
def scaleTen : Nat → Double → Int → Option Double
  | 0, x, _ => some x
  | fuel + 1, x, exponent =>
    if exponent.natAbs ≤ 308 then
      let power := Double.ofDecimal false 1 exponent.natAbs
      if 0 ≤ exponent then
        let y := x.mul power
        if y.isFinite then some y else none
      else some (x.div power)
    else if x.same (Double.zero false) then some x
    else if 0 ≤ exponent then none
    else scaleTen fuel (x.div (Double.ofDecimal false 1 308)) (exponent + 308)

/-- The floating point number that a numeral is read as. -/
def readFloat? (n : Numeral) : Option Value :=
  let (lead, left) := takeDigits 0 n.whole
  let (all, leftFraction) := takeDigits lead n.fraction
  let exponent := n.exponent + left.length - (n.fraction.length - leftFraction.length : Nat)
  (scaleTen 4 (Double.ofRatio false all 1) exponent).map fun x =>
    .float (if n.negative then x.negate else x)

/-- The number that a numeral is read as. -/
def ofNumeral? (n : Numeral) : Option Value :=
  match n.toInt? with
  | some i =>
    if n.negative && (i == 0 || i < -signedBound) || unsignedBound ≤ i then readFloat? n else some (.int i)
  | none => readFloat? n

/-! ### Reading -/

/-- What stands after the blanks between the parts of a text. -/
def skipBlanks (cs : List Char) : List Char :=
  cs.dropWhile fun c => c = ' ' || c = '\t' || c = '\n' || c = '\x0d'

/-- Whether a character may stand in a number. -/
def isNumeralChar (c : Char) : Bool :=
  c.isDigit || c = '-' || c = '+' || c = '.' || c = 'e' || c = 'E'

/-- The value of a hexadecimal digit. -/
def hexValue? (c : Char) : Option Nat :=
  if c.isDigit then some (c.toNat - '0'.toNat)
  else if 'a' ≤ c ∧ c ≤ 'f' then some (c.toNat - 'a'.toNat + 10)
  else if 'A' ≤ c ∧ c ≤ 'F' then some (c.toNat - 'A'.toNat + 10)
  else none

/-- Four hexadecimal digits. -/
def readUnit? : List Char → Option (Nat × List Char)
  | a :: b :: c :: d :: rest => do
    let a ← hexValue? a
    let b ← hexValue? b
    let c ← hexValue? c
    let d ← hexValue? d
    return (((a * 16 + b) * 16 + c) * 16 + d, rest)
  | _ => none

/-- The character that an escape stands for, after its backslash. -/
def readEscape? : List Char → Option (Char × List Char)
  | '\x22' :: rest => some ('\x22', rest)
  | '\\' :: rest => some ('\\', rest)
  | '/' :: rest => some ('/', rest)
  | 'b' :: rest => some ('\x08', rest)
  | 'f' :: rest => some ('\x0c', rest)
  | 'n' :: rest => some ('\n', rest)
  | 'r' :: rest => some ('\x0d', rest)
  | 't' :: rest => some ('\t', rest)
  | 'u' :: rest => do
    let (high, rest) ← readUnit? rest
    if 0xD800 ≤ high ∧ high < 0xDC00 then
      match rest with
      | '\\' :: 'u' :: rest =>
        let (low, rest) ← readUnit? rest
        if 0xDC00 ≤ low ∧ low < 0xE000 then
          return (Char.ofNat (0x10000 + (high - 0xD800) * 0x400 + (low - 0xDC00)), rest)
        else none
      | _ => none
    else if 0xDC00 ≤ high ∧ high < 0xE000 then none
    else return (Char.ofNat high, rest)
  | _ => none

/-- A text up to its closing quote; `fuel` is at least the number of characters. -/
def readText? : Nat → List Char → Option (List Char × List Char)
  | 0, _ => none
  | fuel + 1, cs =>
    match cs with
    | [] => none
    | '\x22' :: rest => some ([], rest)
    | '\\' :: rest => do
      let (c, rest) ← readEscape? rest
      let (text, rest) ← readText? fuel rest
      return (c :: text, rest)
    | c :: rest => do
      let (text, rest) ← readText? fuel rest
      return (c :: text, rest)

/-- A word of letters, and what follows it. -/
def readWord? (word : String) (value : Value) (cs : List Char) : Option (Value × List Char) :=
  if word.toList.isPrefixOf cs then some (value, cs.drop word.length) else none

mutual

/-- One value, and what follows it.  Every step takes a character, so the number of characters is
fuel enough. -/
def read? : Nat → List Char → Option (Value × List Char)
  | 0, _ => none
  | fuel + 1, cs =>
    match skipBlanks cs with
    | '\x22' :: rest => do
      let (text, rest) ← readText? fuel rest
      return (.string (String.ofList text), rest)
    | '[' :: rest =>
      match skipBlanks rest with
      | ']' :: rest => some (.array [], rest)
      | rest => do
        let (items, rest) ← readItems? fuel rest
        return (.array items, rest)
    | '\x7b' :: rest =>
      match skipBlanks rest with
      | '\x7d' :: rest => some (.object [], rest)
      | rest => do
        let (fields, rest) ← readFields? fuel [] rest
        return (.object fields, rest)
    | 'n' :: rest => readWord? "null" .null ('n' :: rest)
    | 't' :: rest => readWord? "true" (.bool true) ('t' :: rest)
    | 'f' :: rest => readWord? "false" (.bool false) ('f' :: rest)
    | cs => do
      let numeral ← Numeral.read? (cs.takeWhile isNumeralChar)
      let value ← ofNumeral? numeral
      return (value, cs.dropWhile isNumeralChar)

/-- The items of an array up to its closing bracket. -/
def readItems? : Nat → List Char → Option (List Value × List Char)
  | 0, _ => none
  | fuel + 1, cs => do
    let (item, rest) ← read? fuel cs
    match skipBlanks rest with
    | ']' :: rest => return ([item], rest)
    | ',' :: rest =>
      let (items, rest) ← readItems? fuel rest
      return (item :: items, rest)
    | _ => none

/-- The fields of a document up to its closing brace. -/
def readFields? : Nat → Fields → List Char → Option (Fields × List Char)
  | 0, _, _ => none
  | fuel + 1, fields, cs =>
    match skipBlanks cs with
    | '\x22' :: rest => do
      let (name, rest) ← readText? fuel rest
      match skipBlanks rest with
      | ':' :: rest =>
        let (value, rest) ← read? fuel rest
        let fields := fields.insert (String.ofList name) value
        match skipBlanks rest with
        | '\x7d' :: rest => return (fields, rest)
        | ',' :: rest => readFields? fuel fields rest
        | _ => none
      | _ => none
    | _ => none

end

/-- The value that a text stands for. -/
def ofText? (text : String) : Option Value :=
  let cs := text.toList
  match read? (cs.length + 1) cs with
  | some (value, rest) => if (skipBlanks rest).isEmpty then some value else none
  | none => none

end Value

end DocSql
