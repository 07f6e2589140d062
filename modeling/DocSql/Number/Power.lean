/-! # Powers and bounds -/
namespace DocSql

/-- The number `2 ^ n`. -/
def powerOfTwo (n : Nat) : Nat := Nat.pow 2 n

/-- The number `10 ^ n`. -/
def powerOfTen (n : Nat) : Nat := Nat.pow 10 n

/-- The least whole number that is too large for 64 bits with a sign, `2 ^ 63`. -/
def signedBound : Int := 9223372036854775808

/-- The least whole number that is too large for 64 bits without a sign, `2 ^ 64`. -/
def unsignedBound : Nat := 18446744073709551616

end DocSql
