import DocSql.Number.Double

/-! # Numerals

A numeral is written `-12.5e-3`: an optional minus sign, digits with at most one point among them,
and an optional exponent.  `Numeral.read` takes a text apart, and `toInt?` and `toDouble` give its
value.
-/
namespace DocSql

/-- The value of a run of decimal digits. -/
def digitsValue (ds : List Char) : Nat :=
  ds.foldl (fun n c => 10 * n + (c.toNat - '0'.toNat)) 0

/-- The parts of a numeral. -/
structure Numeral where
  negative : Bool
  /-- The digits before the point. -/
  whole : List Char
  /-- The digits after the point. -/
  fraction : List Char
  /-- Whether a point or an exponent was written. -/
  fractional : Bool
  exponent : Int
  deriving DecidableEq

namespace Numeral

/-- Reads `[+|-] digits` to the end of the text. -/
def readExponent? (cs : List Char) : Option Int :=
  let (negative, ds) := match cs with
    | '-' :: rest => (true, rest)
    | '+' :: rest => (false, rest)
    | rest => (false, rest)
  if !ds.isEmpty && ds.all Char.isDigit then
    some (if negative then -(digitsValue ds : Int) else digitsValue ds)
  else none

/-- Takes a text apart, if all of it is a numeral. -/
def read? (text : List Char) : Option Numeral :=
  let (negative, cs) := match text with
    | '-' :: rest => (true, rest)
    | rest => (false, rest)
  let whole := cs.takeWhile Char.isDigit
  let cs := cs.dropWhile Char.isDigit
  let (pointed, fraction, cs) := match cs with
    | '.' :: rest => (true, rest.takeWhile Char.isDigit, rest.dropWhile Char.isDigit)
    | rest => (false, [], rest)
  if whole.isEmpty && fraction.isEmpty then none
  else match cs with
    | [] => some ⟨negative, whole, fraction, pointed, 0⟩
    | c :: rest =>
      if c = 'e' ∨ c = 'E' then
        (readExponent? rest).map fun exponent => ⟨negative, whole, fraction, true, exponent⟩
      else none

/-- The value of a numeral without point and exponent. -/
def toInt? (n : Numeral) : Option Int :=
  if n.fractional then none
  else some (if n.negative then -(digitsValue n.whole : Int) else digitsValue n.whole)

/-- The floating point number nearest to the numeral. -/
def toDouble (n : Numeral) : Double :=
  Double.ofDecimal n.negative (digitsValue (n.whole ++ n.fraction)) (n.exponent - n.fraction.length)

end Numeral

end DocSql
