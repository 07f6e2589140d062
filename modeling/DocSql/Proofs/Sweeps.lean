import DocSql.Condition.Reduce
import DocSql.Proofs.Steps

/-! # Sweeps

The compiler of conditions lays the operands and operators of a token sequence out in a row and
applies the operators by precedence, each to the nearest operands left beside it.  The number of cells
is fuel enough for a sweep (`sweep_fuel`), so that `fullSweep` goes on from cell to cell without it.
-/
namespace DocSql
open Compiled

/-! ### Sweeps without fuel -/

theorem nearest_eq_ok {cells skipped beyond : List Cell} {o : Operand}
    (h : nearest cells = .ok (skipped, o, beyond)) :
    cells = skipped ++ .operand o :: beyond := by
  unfold nearest at h
  split at h
  · rename_i found hfound
    cases h
    exact nearest?_eq_some hfound
  · cases h

@[simp] theorem nearest_operand (o : Operand) (rest : List Cell) :
    nearest (.operand o :: rest) = .ok ([], o, rest) := rfl

/-- The negation of an operand, as NOT takes it. -/
def Operand.negate : Operand → Compiled Condition
  | .condition c grouped => c.negate grouped
  | o => do
    let c ← o.toCondition
    c.negate false

theorem apply_not (left right : List Cell) : Connective.not.apply left right = do
      let (skipped, o, beyond) ← nearest right
      let c ← o.negate
      return (left, skipped ++ .ofCondition c :: beyond) := by
  rw [Connective.apply]
  refine congrArg (nearest right >>= ·) (funext fun found => ?_)
  obtain ⟨skipped, o, beyond⟩ := found
  cases o <;> simp [Operand.negate]

/-- An operator that is applied adds no cell on its right. -/
theorem Connective.apply_length {op : Connective} {left right left' right' : List Cell}
    (h : op.apply left right = .ok (left', right')) : right'.length ≤ right.length := by
  cases op with
  | not =>
    rw [apply_not] at h
    obtain ⟨⟨skipped, o, beyond⟩, hright, c, _, h⟩ := bind₂_eq_ok.mp h
    cases h
    rw [nearest_eq_ok hright]
    simp
  | isNull negated | isBool value negated | between low high negated =>
    obtain ⟨⟨skipped, o, beyond⟩, _, t, _, h⟩ := bind₂_eq_ok.mp h
    cases h
    exact Nat.le_refl _
  | like ignoreCase negated | member negated | and | or =>
    obtain ⟨⟨skipped, o, beyond⟩, _, h⟩ := bind_eq_ok.mp h
    obtain ⟨⟨skipped', o', beyond'⟩, hright, h⟩ := bind_eq_ok.mp h
    obtain ⟨x, _, y, _, h⟩ := bind₂_eq_ok.mp h
    cases h
    rw [nearest_eq_ok hright]
    simp

/-- More fuel than cells changes nothing. -/
theorem sweep_fuel (precedence fuel : Nat) (left right : List Cell) (h : right.length ≤ fuel) :
    sweep precedence fuel left right = sweep precedence right.length left right := by
  induction fuel using Nat.strongRecOn generalizing left right with
  | ind fuel ih =>
    cases right with
    | nil => cases fuel <;> simp [sweep]
    | cons cell right =>
      obtain ⟨fuel, rfl⟩ : ∃ k, fuel = k + 1 := ⟨fuel - 1, by simp at h; omega⟩
      have hle : right.length ≤ fuel := by simpa using h
      cases cell with
      | operand o => exact ih fuel (Nat.lt_succ_self _) _ _ hle
      | operator op =>
        simp only [List.length_cons, sweep]
        split
        · -- both sides go on behind the operator, with less than it had on its right
          cases hstep : op.apply left right with
          | error e => rfl
          | ok after =>
            obtain ⟨left', right'⟩ := after
            have hlen := Connective.apply_length hstep
            show sweep precedence fuel left' right' = sweep precedence right.length left' right'
            rw [ih fuel (Nat.lt_succ_self _) left' right' (by omega)]
            by_cases heq : right.length = fuel
            · rw [heq, ih fuel (Nat.lt_succ_self _) left' right' (by omega)]
            · exact (ih right.length (by omega) left' right' hlen).symm
        · exact ih fuel (Nat.lt_succ_self _) _ _ hle

/-- A sweep over the cells on the right, with fuel enough. -/
def fullSweep (precedence : Nat) (left right : List Cell) : Compiled (List Cell) :=
  sweep precedence right.length left right

@[simp] theorem fullSweep_nil (precedence : Nat) (left : List Cell) :
    fullSweep precedence left [] = .ok left.reverse := by
  simp [fullSweep, sweep]

theorem fullSweep_operator_of_ne {precedence : Nat} {op : Connective} (h : op.precedence ≠ precedence)
    (left right : List Cell) :
    fullSweep precedence left (.operator op :: right) =
      fullSweep precedence (.operator op :: left) right := by
  simp only [fullSweep, List.length_cons, sweep, if_neg h]

theorem fullSweep_operator {precedence : Nat} {op : Connective} (h : op.precedence = precedence)
    (left right : List Cell) :
    fullSweep precedence left (.operator op :: right) =
      op.apply left right >>= fun after => fullSweep precedence after.1 after.2 := by
  simp only [fullSweep, List.length_cons, sweep, if_pos h]
  cases hstep : op.apply left right with
  | error e => rfl
  | ok after => exact sweep_fuel _ _ _ _ (Connective.apply_length hstep)

end DocSql
