import DocSql.Number.Power

/-! # Binary floating point numbers of 64 bits

A finite number is a sign, a significand below `2 ^ 53` and a binary exponent that is never below
`-1074`; it stands for `± significand * 2 ^ exponent`.  A number that is too large for the format is
infinite.  No operation of a program's own floating point unit is used: every number is made by
`ofRatio`, which rounds an exact quotient to the nearest number and a half to the even one.
-/
namespace DocSql

/-- A floating point number of 64 bits that is not the result of an invalid operation. -/
inductive Double where
  /-- The number `± significand * 2 ^ exponent`. -/
  | finite (negative : Bool) (significand : Nat) (exponent : Int)
  /-- A number beyond the largest finite one. -/
  | infinite (negative : Bool)
  deriving DecidableEq

namespace Double

/-- The smallest binary exponent. -/
def minExponent : Int := -1074

/-- The largest binary exponent. -/
def maxExponent : Int := 971

/-- Zero with the given sign. -/
def zero (negative : Bool) : Double := .finite negative 0 minExponent

/-- Whether the number is finite. -/
def isFinite : Double → Bool
  | .finite .. => true
  | .infinite _ => false

/-- The number with the other sign. -/
def negate : Double → Double
  | .finite s m e => .finite (!s) m e
  | .infinite s => .infinite (!s)

theorem negate_negate (x : Double) : x.negate.negate = x := by
  cases x <;> simp [negate]

/-- Equality as numbers: the two zeros are equal. -/
def same : Double → Double → Bool
  | .finite s m e, .finite s' m' e' => (m == 0 && m' == 0) || (s == s' && m == m' && e == e')
  | .infinite s, .infinite s' => s == s'
  | _, _ => false

theorem same_refl (x : Double) : x.same x = true := by
  cases x <;> simp [same]

/-! ### Rounding -/

/-- The integer nearest to `num / den`; a half goes to the even neighbour. -/
def roundQuotient (num den : Nat) : Nat :=
  let q := num / den
  let r := num % den
  if 2 * r < den then q
  else if den < 2 * r then q + 1
  else if q % 2 = 0 then q else q + 1

/-- The pair `(a, b)` with `a / b = num / den / 2 ^ e`. -/
def scaleDown (num den : Nat) (e : Int) : Nat × Nat :=
  if 0 ≤ e then (num, den * powerOfTwo e.toNat) else (num * powerOfTwo (-e).toNat, den)

/-- The number with significand `m` and exponent `e`, infinite where `e` is too large. -/
def pack (negative : Bool) (m : Nat) (e : Int) : Double :=
  if maxExponent < e then .infinite negative else .finite negative m e

/-- The number nearest to `± num / den`.  The exponent is chosen so that the significand has 53
bits, or is the smallest one. -/
def ofRatio (negative : Bool) (num den : Nat) : Double :=
  if num = 0 then zero negative
  else
    let e₀ : Int := (num.log2 : Int) - (den.log2 : Int) - 53
    let (a, b) := scaleDown num den e₀
    let e := max (if powerOfTwo 53 ≤ a / b then e₀ + 1 else e₀) minExponent
    let (a, b) := scaleDown num den e
    let m := roundQuotient a b
    if m = powerOfTwo 53 then pack negative (powerOfTwo 52) (e + 1) else pack negative m e

/-- The magnitude of a finite number as a quotient. -/
def ratio (m : Nat) (e : Int) : Nat × Nat :=
  if 0 ≤ e then (m * powerOfTwo e.toNat, 1) else (m, powerOfTwo (-e).toNat)

/-- The product, rounded once. -/
def mul : Double → Double → Double
  | .finite s m e, .finite s' m' e' =>
    let (a, b) := ratio m e
    let (c, d) := ratio m' e'
    ofRatio (s != s') (a * c) (b * d)
  | .finite s .., .infinite s' | .infinite s, .finite s' .. | .infinite s, .infinite s' =>
    .infinite (s != s')

/-- The quotient by a finite number other than zero, rounded once. -/
def div : Double → Double → Double
  | .finite s m e, .finite s' m' e' =>
    let (a, b) := ratio m e
    let (c, d) := ratio m' e'
    ofRatio (s != s') (a * d) (b * c)
  | .infinite s, .finite s' .. | .infinite s, .infinite s' => .infinite (s != s')
  | .finite s .., .infinite s' => zero (s != s')

/-! ### Decimal numerals -/

/-- The number of decimal digits of `n`. -/
def decimalWidth (n : Nat) : Int := (Nat.toDigits 10 n).length

/-- The number nearest to `± digits * 10 ^ exponent`.  Magnitudes beyond `10 ^ 310` are infinite and
those below `10 ^ (-330)` are zero, which is decided before any power is formed. -/
def ofDecimal (negative : Bool) (digits : Nat) (exponent : Int) : Double :=
  if digits = 0 then zero negative
  else if 310 < decimalWidth digits + exponent then .infinite negative
  else if decimalWidth digits + exponent < -330 then zero negative
  else if 0 ≤ exponent then ofRatio negative (digits * powerOfTen exponent.toNat) 1
  else ofRatio negative digits (powerOfTen (-exponent).toNat)

example : ofDecimal false 1 0 = .finite false (powerOfTwo 52) (-52) := by decide +kernel
example : ofDecimal false 1 400 = .infinite false := by decide +kernel
example : ofDecimal true 5 (-324) = .finite true 1 (-1074) := by decide +kernel

end Double

end DocSql
