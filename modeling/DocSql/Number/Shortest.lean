import DocSql.Number.Double

/-! # Shortest decimal text of a number

A finite number is the rounding of a whole interval of reals.  Its shortest decimal form is the
decimal with the fewest digits in that interval, and among those the nearest to the number.
`Decimal.shortest` finds it by trying ever finer decimal grids: on each it looks at the two grid
points beside the number.  How the digits are then written down is a `Layout`.
-/
namespace DocSql

/-- The positive decimal `digits * 10 ^ exponent`. -/
structure Decimal where
  digits : Nat
  exponent : Int
  deriving DecidableEq

/-- What becomes of a number exactly between two decimals of the same length. -/
inductive Tie where
  /-- The decimal with the even last digit. -/
  | even
  /-- The larger decimal. -/
  | up
  deriving DecidableEq

namespace Decimal

/-- The reals that round to `± m * 2 ^ e`: the interval from `low / scale` to `high / scale`, whose
ends belong to it when `closed`; the number itself is `mid / scale`. -/
structure Interval where
  low : Nat
  mid : Nat
  high : Nat
  scale : Nat
  closed : Bool

/-- The interval of a number other than zero.  Below a power of two the numbers lie twice as
close. -/
def Interval.ofDouble (m : Nat) (e : Int) : Interval :=
  let step := if m = powerOfTwo 52 ∧ Double.minExponent < e then 1 else 2
  let up := (e - 2).toNat
  let down := (2 - e).toNat
  { low := (4 * m - step) * powerOfTwo up
    mid := 4 * m * powerOfTwo up
    high := (4 * m + 2) * powerOfTwo up
    scale := powerOfTwo down
    closed := m % 2 == 0 }

/-- Whether `num / den` lies in the interval. -/
def Interval.holds (i : Interval) (num den : Nat) : Bool :=
  if i.closed then i.low * den ≤ num * i.scale && num * i.scale ≤ i.high * den
  else i.low * den < num * i.scale && num * i.scale < i.high * den

/-- The power of ten `10 ^ g` as a quotient. -/
def power (g : Int) : Nat × Nat := (powerOfTen g.toNat, powerOfTen (-g).toNat)

/-- The point of the grid `10 ^ g * ℕ` that is chosen for the interval, if one lies in it. -/
def onGrid? (tie : Tie) (i : Interval) (g : Int) : Option Nat :=
  let (a, b) := power g
  -- `c` is the last grid point that is not above the number
  let c := i.mid * b / (i.scale * a)
  let below := i.holds (c * a) b
  let above := i.holds ((c + 1) * a) b
  if below && above then
    -- twice the number against the sum of the two points
    let twice := 2 * i.mid * b
    let sum := (2 * c + 1) * a * i.scale
    if twice < sum then some c
    else if sum < twice then some (c + 1)
    else match tie with
      | .even => some (if c % 2 = 0 then c else c + 1)
      | .up => some (c + 1)
  else if below then some c
  else if above then some (c + 1)
  else none

/-- Removes the zeros at the end of the digits; `fuel` is at least their number. -/
def trim : Nat → Decimal → Decimal
  | 0, d => d
  | fuel + 1, d =>
    if d.digits ≠ 0 ∧ d.digits % 10 = 0 then trim fuel ⟨d.digits / 10, d.exponent + 1⟩ else d

/-- A power of ten not far above the number: at most two grids are coarser than its first digit. -/
def startGrid (m : Nat) (e : Int) : Int :=
  ((m.log2 : Int) + e) * 30103 / 100000 + 1

/-- The shortest decimal that rounds to `m * 2 ^ e`, for `m` other than zero.  Seventeen digits are
always enough, so one of the twenty grids has a point in the interval. -/
def shortest (tie : Tie) (m : Nat) (e : Int) : Decimal :=
  let i := Interval.ofDouble m e
  let start := startGrid m e
  let found := (List.range 20).findSome? fun (n : Nat) =>
    let g := start - (n : Int)
    (onGrid? tie i g).map fun c => (⟨c, g⟩ : Decimal)
  trim 20 (found.getD ⟨0, 0⟩)

end Decimal

/-! ### Layouts -/

/-- How the digits of a number are written down. -/
structure Layout where
  /-- The choice between two equally near decimals. -/
  tie : Tie
  /-- Whether a first digit of the weight `10 ^ e` is written without an exponent. -/
  positional : Int → Bool
  /-- Whether a number without fractional digits gets the fraction `.0`. -/
  pointZero : Bool

namespace Layout

/-- The digits `ds` with the first one at the weight `10 ^ e`, without an exponent. -/
def plain (l : Layout) (ds : List Char) (e : Int) : List Char :=
  let ending := if l.pointZero then ['.', '0'] else []
  if e < 0 then '0' :: '.' :: (List.replicate (-e - 1).toNat '0' ++ ds)
  else
    let whole := e.toNat + 1
    if ds.length ≤ whole then ds ++ List.replicate (whole - ds.length) '0' ++ ending
    else ds.take whole ++ '.' :: ds.drop whole

/-- The digits `ds` with one digit before the point and the exponent `e`. -/
def scientific (ds : List Char) (e : Int) : List Char :=
  let fraction := match ds.drop 1 with
    | [] => []
    | rest => '.' :: rest
  let mark := if e < 0 then ['e', '-'] else ['e', '+']
  ds.take 1 ++ fraction ++ mark ++ Nat.toDigits 10 e.natAbs

/-- The text of a number. -/
def text (l : Layout) : Double → String
  | .infinite s => if s then "-inf" else "inf"
  | .finite s m e =>
    let body :=
      if m = 0 then l.plain ['0'] 0
      else
        let d := Decimal.shortest l.tie m e
        let ds := Nat.toDigits 10 d.digits
        let first := d.exponent + ds.length - 1
        if l.positional first then l.plain ds first else scientific ds first
    String.ofList (if s then '-' :: body else body)

end Layout

end DocSql
