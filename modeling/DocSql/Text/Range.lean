/-! # Ranges of code points

A character class of the Unicode standard is a union of intervals of code points.  Each class
is kept as the list of its intervals in increasing order, both ends included, and membership is
decided by looking for the interval that holds the character.
-/
namespace DocSql.Text

/-- Whether the code point of `c` lies in one of the intervals. -/
def inRanges (ranges : List (Nat × Nat)) (c : Char) : Bool :=
  ranges.any fun (low, high) => low ≤ c.toNat && c.toNat ≤ high

theorem inRanges_iff {ranges : List (Nat × Nat)} {c : Char} :
    inRanges ranges c = true ↔ ∃ r ∈ ranges, r.1 ≤ c.toNat ∧ c.toNat ≤ r.2 := by
  simp [inRanges]

end DocSql.Text
