import DocSql.Proofs.Sweeps

/-! # Reading a row of cells in one pass

The compiler of conditions sweeps over a row of cells once for each precedence.  Here the row is read
once, from left to right.  What has been read is held as the alternatives and factors that are
complete, the atom that was read last, and the operators that wait for an operand: a test that lacks
its right operand, and how many NOTs, ANDs and ORs there are.  The next operand goes to the test if
there is one, else to an AND, else to an OR; the NOTs go with it.  The places of the operators between
two operands do not matter, and neither does whether an operator stands before or behind an operand
that goes to a tighter one.

This module says so of the reader (`run_swap`, `run_pass`).  `onePass_eq`, two modules on, says that the
reader accepts what the sweeps accept, and gives the same condition.
-/
namespace DocSql

/-! ### The operators -/

namespace Connective

variable {op : Connective}

/-- Whether the operator is a test of a term. -/
def isTest : Connective → Bool
  | .not | .and | .or => false
  | _ => true

/-- Whether the operator takes an operand on each side. -/
def isBinary : Connective → Bool
  | .like .. | .member _ | .and | .or => true
  | _ => false

/-- What a test without a right operand makes of its operand. -/
def unary (op : Connective) (o : Operand) : Compiled Condition := do
  let t ← o.toTerm
  match op with
  | .isNull negated => return .isNull t negated
  | .isBool value negated => return .compare t (if negated then .ne else .eq) (.const (.bool value))
  | .between low high negated => return .between t low high negated
  | _ => undecodable .missingOperand

/-- What an operator makes of its two operands. -/
def binary (op : Connective) (o o' : Operand) : Compiled Condition :=
  match op with
  | .like ignoreCase negated => do
    let pattern ← o'.toTerm
    let t ← o.toTerm
    return .like t pattern ignoreCase negated
  | .member negated => do
    let m ← o'.toMembers
    let t ← o.toTerm
    return .member t m negated
  | .and => do
    let rhs ← o'.toCondition
    let lhs ← o.toCondition
    return lhs.and rhs
  | .or => do
    let rhs ← o'.toCondition
    let lhs ← o.toCondition
    return lhs.or rhs
  | _ => undecodable .missingOperand

theorem apply_unary (htest : op.isTest = true) (hbinary : op.isBinary = false)
    (left right : List Cell) :
    op.apply left right = do
      let found ← nearest left
      let c ← op.unary found.2.1
      return (found.1 ++ .ofCondition c :: found.2.2, right) := by
  cases op with
  | isNull | isBool | between => simp [apply, unary]
  | like | member => cases hbinary
  | not | and | or => cases htest

theorem apply_binary (h : op.isBinary = true) (left right : List Cell) : op.apply left right = do
      let found ← nearest left
      let found' ← nearest right
      let c ← op.binary found.2.1 found'.2.1
      return (found.1 ++ .ofCondition c :: found.2.2, found'.1 ++ found'.2.2) := by
  cases op with
  | like | member | and | or => simp [apply, binary]
  | isNull | isBool | between | not => cases h

/-- A test is made of a term only. -/
theorem binary_of_isTest (h : op.isTest = true) {o : Operand} {fault : Fault}
    (ho : o.toTerm = .error fault) (o' : Operand) : (op.binary o o').toOption = none := by
  cases op with
  | like =>
    simp only [binary, ho]
    cases o'.toTerm <;> rfl
  | member =>
    simp only [binary, ho]
    cases o'.toMembers <;> rfl
  | isNull | isBool | between => rfl
  | not | and | or => cases h

theorem isTest_iff : op.isTest = true ↔ 4 ≤ op.precedence := by
  cases op with
  | member negated => cases negated <;> simp [isTest, precedence]
  | _ => simp [isTest, precedence]

end Connective

/-! ### The reader -/

/-- An operand after a number of NOTs, as a condition. -/
def Operand.negated : Nat → Operand → Option Condition
  | 0, o => o.toCondition.toOption
  | k + 1, o => o.negate.toOption.bind fun c => negated k (.condition c false)

/-- A condition behind others that must hold as well. -/
def joinAnd : Option Condition → Condition → Condition
  | none, c => c
  | some d, c => d.and c

/-- A condition behind others that may hold instead. -/
def joinOr : Option Condition → Condition → Condition
  | none, c => c
  | some d, c => d.or c

/-- What has been read of a row. -/
structure OnePass where
  /-- The alternatives that are complete. -/
  done : Option Condition := none
  /-- The factors of the last alternative that are complete. -/
  factors : Option Condition := none
  /-- The number of NOTs that the atom stands behind. -/
  negations : Nat := 0
  /-- The operand that was read last, with the tests of it. -/
  atom : Option Operand := none
  /-- The test that waits for its right operand. -/
  test : Option Connective := none
  /-- The numbers of NOTs, ANDs and ORs that wait for an operand. -/
  nots : Nat := 0
  ands : Nat := 0
  ors : Nat := 0

namespace OnePass

/-- The condition of the last alternative. -/
def alternative (s : OnePass) : Option Condition := do
  let o ← s.atom
  let c ← o.negated s.negations
  return joinAnd s.factors c

/-- The condition of all that has been read. -/
def total (s : OnePass) : Option Condition := s.alternative.map (joinOr s.done)

/-- A connective waits. -/
def defer (s : OnePass) : Connective → OnePass
  | .not => { s with nots := s.nots + 1 }
  | .and => { s with ands := s.ands + 1 }
  | .or => { s with ors := s.ors + 1 }
  | _ => s

/-- The atom, if it is a term that no test is made of. -/
def term? (s : OnePass) : Option Term :=
  match s.test, s.atom with
  | none, some (.term t) => some t
  | _, _ => none

/-- The atom has become a condition. -/
def close (s : OnePass) (c : Condition) : OnePass :=
  { s with atom := some (.condition c false), test := none }

/-- A test is made of the atom.  It waits if it lacks an operand. -/
def ask (s : OnePass) (op : Connective) : Option OnePass := s.term?.bind fun t =>
    if op.isBinary then some { s with test := some op }
    else (op.unary (.term t)).toOption.map s.close

/-- An operand completes the test that waits. -/
def answer (s : OnePass) (op : Connective) (o : Operand) : Option OnePass :=
  (s.atom.bind fun left => if op.isTest then (op.binary left o).toOption else none).map s.close

/-- Makes room for another operand: the first one, or that of an AND, or that of an OR. -/
def vacate (s : OnePass) : Option OnePass :=
  if s.atom.isNone then
    if s.ands = 0 ∧ s.ors = 0 then some s else none
  else if 0 < s.ands then
    s.alternative.map fun c => { s with factors := some c, ands := s.ands - 1 }
  else if 0 < s.ors then
    s.total.map fun c => { s with done := some c, factors := none, ors := s.ors - 1 }
  else none

/-- Puts the next atom in. -/
def seat (s : OnePass) (o : Operand) : OnePass :=
  { s with atom := some o, negations := s.nots, nots := 0 }

/-- Reads a cell. -/
def step (s : OnePass) : Cell → Option OnePass
  | .operator op => if op.isTest then s.ask op else some (s.defer op)
  | .operand o =>
    match s.test with
    | some op => s.answer op o
    | none => s.vacate.map fun t => t.seat o

/-- Reads cells. -/
def run (s : OnePass) (cells : List Cell) : Option OnePass := cells.foldlM step s

/-- The condition that has been read, if nothing waits. -/
def finish (s : OnePass) : Option Condition :=
  if s.test.isNone ∧ s.nots = 0 ∧ s.ands = 0 ∧ s.ors = 0 then s.total else none

/-- The condition of what has been read and the cells behind it. -/
def reads (s : OnePass) (cells : List Cell) : Option Condition := (s.run cells).bind finish

end OnePass

/-- The condition of a row, read in one pass. -/
def onePass (cells : List Cell) : Option Condition := OnePass.reads {} cells

namespace OnePass

variable {s t : OnePass} {cells : List Cell} {o : Operand} {op : Connective}
variable {x : Connective}

@[simp] theorem run_nil (s : OnePass) : s.run [] = some s := rfl

@[simp] theorem run_cons (s : OnePass) (cell : Cell) (cells : List Cell) :
    s.run (cell :: cells) = (s.step cell).bind fun t => t.run cells := by
  rw [run, List.foldlM_cons]
  rfl

@[simp] theorem run_append (s : OnePass) (cells cells' : List Cell) :
    s.run (cells ++ cells') = (s.run cells).bind fun t => t.run cells' := by
  rw [run, List.foldlM_append]
  rfl

theorem reads_append (s : OnePass) (cells cells' : List Cell) :
    s.reads (cells ++ cells') = (s.run cells).bind fun t => t.reads cells' := by
  rw [reads, run_append, Option.bind_assoc]
  rfl

/-! ### The order of operators does not matter -/

theorem defer_comm (s : OnePass) (x y : Connective) : (s.defer x).defer y = (s.defer y).defer x := by
  cases x <;> cases y <;> rfl

@[simp] theorem term?_defer (s : OnePass) (x : Connective) : (s.defer x).term? = s.term? := by
  cases x <;> rfl

theorem close_defer (s : OnePass) (x : Connective) :
    (s.defer x).close = fun c => (s.close c).defer x := by
  cases x <;> rfl

theorem ask_defer (s : OnePass) (x y : Connective) :
    (s.defer x).ask y = (s.ask y).map fun t => t.defer x := by
  rw [ask, ask, term?_defer, close_defer]
  cases s.term? with
  | none => rfl
  | some t =>
    cases hy : y.isBinary with
    | false => simp [Function.comp_def]
    | true => cases x <;> simp [defer]

/-- One test closes the atom to others. -/
theorem term?_ask (h : s.ask op = some t) : t.term? = none := by
  obtain ⟨t', -, h⟩ := Option.bind_eq_some_iff.mp h
  split at h
  · cases h
    rfl
  · obtain ⟨c, -, rfl⟩ := Option.map_eq_some_iff.mp h
    rfl

/-- Two operators side by side may stand the other way round. -/
theorem run_swap (s : OnePass) (x y : Connective) :
    s.run [.operator x, .operator y] = s.run [.operator y, .operator x] := by
  have hclosed (x y : Connective) : ((s.ask x).bind fun t => t.ask y) = none := by
    cases h : s.ask x with
    | none => rfl
    | some t => simp [ask, term?_ask h]
  cases hx : x.isTest <;> cases hy : y.isTest
  · simp [step, hx, hy, defer_comm s x y]
  · simp [step, hx, hy, ask_defer, Option.map_eq_bind, Function.comp_def]
  · simp [step, hx, hy, ask_defer, Option.map_eq_bind, Function.comp_def]
  · simp [step, hx, hy, hclosed]

/-! ### An operator may stand behind an operand that goes to a tighter one -/

theorem answer_defer (s : OnePass) (x op : Connective) (o : Operand) :
    (s.defer x).answer op o = (s.answer op o).map fun t => t.defer x := by
  have hatom : (s.defer x).atom = s.atom := by cases x <;> rfl
  rw [answer, answer, hatom, close_defer, Option.map_map]
  rfl

theorem term?_answer (h : s.answer op o = some t) : t.term? = none := by
  obtain ⟨c, -, rfl⟩ := Option.map_eq_some_iff.mp h
  rfl

theorem vacate_start (h : s.atom = none) :
    s.vacate = if s.ands = 0 ∧ s.ors = 0 then some s else none := by
  rw [vacate, h]
  rfl

theorem vacate_and (hatom : s.atom = some o) (h : 0 < s.ands) :
    s.vacate = s.alternative.map fun c => { s with factors := some c, ands := s.ands - 1 } := by
  rw [vacate, hatom, if_neg (by simp), if_pos h]

theorem vacate_or (hatom : s.atom = some o) (hands : s.ands = 0) (h : 0 < s.ors) :
    s.vacate = s.total.map fun c => { s with done := some c, factors := none, ors := s.ors - 1 } := by
  rw [vacate, hatom, if_neg (by simp), if_neg (by omega), if_pos h]

theorem vacate_none (hatom : s.atom = some o) (hands : s.ands = 0) (hors : s.ors = 0) :
    s.vacate = none := by
  rw [vacate, hatom, if_neg (by simp), if_neg (by omega), if_neg (by omega)]

/-- An AND waits behind another AND, and an OR behind both. -/
theorem vacate_defer (h : 0 < s.ands ∧ (x = .and ∨ x = .or) ∨ 0 < s.ors ∧ x = .or) :
    (s.defer x).vacate = s.vacate.map fun t => t.defer x := by
  cases hatom : s.atom with
  | none =>
    rw [vacate_start hatom, vacate_start (by cases x <;> exact hatom), if_neg, if_neg]
    · rfl
    · omega
    · rcases h with ⟨h, rfl | rfl⟩ | ⟨h, rfl⟩ <;> simp only [defer] <;> omega
  | some o =>
    by_cases hands : 0 < s.ands
    · obtain rfl | rfl : x = .and ∨ x = .or := by
        rcases h with ⟨-, h⟩ | ⟨-, h⟩
        · exact h
        · exact .inr h
      · have hsub : s.ands + 1 - 1 = s.ands - 1 + 1 := by omega
        rw [vacate_and hatom hands, vacate_and (s := s.defer .and) hatom (Nat.succ_pos _),
          Option.map_map]
        exact congrArg (fun n => s.alternative.map fun c =>
          ({ s with factors := some c, ands := n } : OnePass)) hsub
      · rw [vacate_and hatom hands, vacate_and (s := s.defer .or) hatom hands, Option.map_map]
        rfl
    · obtain ⟨hors, rfl⟩ : 0 < s.ors ∧ x = .or := by
        rcases h with ⟨h, -⟩ | h
        · exact absurd h hands
        · exact h
      have hands : s.ands = 0 := by omega
      have hsub : s.ors + 1 - 1 = s.ors - 1 + 1 := by omega
      rw [vacate_or hatom hands hors, vacate_or (s := s.defer .or) hatom hands (Nat.succ_pos _),
        Option.map_map]
      exact congrArg (fun n => s.total.map fun c =>
        ({ s with done := some c, factors := none, ors := n } : OnePass)) hsub

theorem seat_defer (h : x ≠ .not) (s : OnePass) (o : Operand) :
    (s.defer x).seat o = (s.seat o).defer x := by
  cases x with
  | not => exact absurd rfl h
  | _ => rfl

theorem step_operator_of_test (h : op.isTest = true) (s : OnePass) :
    s.step (.operator op) = s.ask op := if_pos h

theorem step_operator (h : op.isTest = false) (s : OnePass) :
    s.step (.operator op) = some (s.defer op) := if_neg (by simp [h])

theorem step_operand_of_test (h : s.test = some op) (o : Operand) :
    s.step (.operand o) = s.answer op o := by
  rw [step, h]

theorem step_operand (h : s.test = none) (o : Operand) :
    s.step (.operand o) = s.vacate.map fun t => t.seat o := by
  rw [step, h]

/-- A connective that waits does not keep an operand from a tighter one. -/
theorem step_defer (hx : x.isTest = false)
    (h : s.test.isSome ∨ 0 < s.ands ∧ (x = .and ∨ x = .or) ∨ 0 < s.ors ∧ x = .or) :
    (s.defer x).step (.operand o) = (s.step (.operand o)).map fun t => t.defer x := by
  have htest : (s.defer x).test = s.test := by cases x <;> rfl
  cases hs : s.test with
  | some op =>
    rw [step_operand_of_test hs, step_operand_of_test (htest.trans hs), answer_defer]
  | none =>
    have h : 0 < s.ands ∧ (x = .and ∨ x = .or) ∨ 0 < s.ors ∧ x = .or := by simpa [hs] using h
    have hnot : x ≠ .not := by rcases h with ⟨-, rfl | rfl⟩ | ⟨-, rfl⟩ <;> exact nofun
    rw [step_operand hs, step_operand (htest.trans hs), vacate_defer h, Option.map_map, Option.map_map]
    exact congrArg (fun f => s.vacate.map f) (funext fun t => seat_defer hnot t o)

/-- An operator may stand before or behind an operand that goes to an operator before it, if that one
binds as tight as it does. -/
theorem run_pass (s : OnePass) (hop : op.isBinary = true) (hx : x.precedence ≤ op.precedence)
    (o : Operand) :
    s.run [.operator op, .operator x, .operand o] = s.run [.operator op, .operand o, .operator x] := by
  cases htest : op.isTest with
  | true =>
    simp only [run_cons, run_nil, step_operator_of_test htest]
    cases hask : s.ask op with
    | none => rfl
    | some t =>
      have hwaits : t.test = some op := by
        obtain ⟨_, -, h⟩ := Option.bind_eq_some_iff.mp hask
        rw [if_pos hop] at h
        cases h
        rfl
      cases hxtest : x.isTest with
      | true =>
        -- neither order leaves a term for the second test
        have hsecond : t.ask x = none := by rw [ask, term?_ask hask]; rfl
        have hanswer : ((t.answer op o).bind fun u => u.ask x) = none := by
          cases hu : t.answer op o with
          | none => rfl
          | some u => rw [Option.bind_some, ask, term?_answer hu]; rfl
        simp [step_operator_of_test hxtest, step_operand_of_test hwaits, hsecond, hanswer]
      | false =>
        have hstep := step_defer (s := t) (o := o) hxtest (.inl (by rw [hwaits]; rfl))
        simp [step_operator hxtest, hstep, Option.map_eq_bind, Function.comp_def]
  | false =>
    have hxtest : x.isTest = false := by
      rw [← Bool.not_eq_true, Connective.isTest_iff]
      rw [← Bool.not_eq_true, Connective.isTest_iff] at htest
      omega
    have hwaits : 0 < (s.defer op).ands ∧ (x = .and ∨ x = .or) ∨ 0 < (s.defer op).ors ∧ x = .or := by
      cases op with
      | and | or => cases x <;> simp_all [Connective.precedence, Connective.isTest, defer]
      | _ => simp_all [Connective.isTest, Connective.isBinary]
    have hstep := step_defer (o := o) hxtest (.inr hwaits)
    simp [step_operator htest, step_operator hxtest, hstep, Option.map_eq_bind, Function.comp_def]

/-- An operator may stand first among those before an operand. -/
theorem run_operators (s : OnePass) (ops : List Connective) (op : Connective) (rest : List Cell) :
    s.run (ops.map .operator ++ .operator op :: rest) =
      s.run (.operator op :: (ops.map .operator ++ rest)) := by
  induction ops generalizing s with
  | nil => rfl
  | cons x ops ih =>
    have hswap := s.run_swap x op
    simp only [run_cons, run_nil, Option.bind_fun_some] at hswap
    calc s.run (.operator x :: (ops.map .operator ++ .operator op :: rest))
      _ = (s.step (.operator x)).bind fun t => t.run (.operator op :: (ops.map .operator ++ rest)) := by
        rw [run_cons]
        exact congrArg _ (funext fun t => ih t)
      _ = ((s.step (.operator x)).bind fun t => t.step (.operator op)).bind fun t =>
            t.run (ops.map .operator ++ rest) := by
        rw [Option.bind_assoc]
        simp only [run_cons]
      _ = s.run (.operator op :: .operator x :: (ops.map .operator ++ rest)) := by
        rw [hswap, Option.bind_assoc]
        simp only [run_cons]

/-- Operators may stand before or behind an operand that goes to an operator before them. -/
theorem run_pass_all (s : OnePass) {ops : List Connective} (hop : op.isBinary = true)
    (hops : ∀ x ∈ ops, x.precedence ≤ op.precedence) (o : Operand) (rest : List Cell) :
    s.run (.operator op :: (ops.map .operator ++ .operand o :: rest)) =
      s.run (.operator op :: .operand o :: (ops.map .operator ++ rest)) := by
  induction ops generalizing s rest with
  | nil => rfl
  | cons x ops ih =>
    obtain ⟨hx, hops⟩ := List.forall_mem_cons.mp hops
    have hswap (rest : List Cell) : s.run (.operator op :: .operator x :: rest) =
        s.run (.operator x :: .operator op :: rest) := (s.run_operators [x] op rest).symm
    calc s.run (.operator op :: .operator x :: (ops.map .operator ++ .operand o :: rest))
      _ = (s.step (.operator x)).bind fun t =>
            t.run (.operator op :: .operand o :: (ops.map .operator ++ rest)) := by
        rw [hswap, run_cons]
        exact congrArg _ (funext fun t => ih t hops rest)
      _ = s.run ([.operator op, .operator x, .operand o] ++ (ops.map .operator ++ rest)) := by
        rw [← run_cons, ← hswap]
        rfl
      _ = s.run ([.operator op, .operand o, .operator x] ++ (ops.map .operator ++ rest)) := by
        rw [run_append, run_append, s.run_pass hop hx]

end OnePass
end DocSql
