import DocSql.Proofs.OnePass

/-! # Operators read in one pass

An operator of the tightest precedence that is left in a row takes the nearest operands.  Reading the
row in one pass gives the same as reading it with what the operator makes of them in their place:
`reads_unary` for a test, `reads_binary` for an operator between two operands, `reads_negated` for NOT.

For a test the reader is in the same state afterwards.  For a connective it is not, because the reader
has yet to join what the operator has joined; but the states agree in all that the rest of the row
depends on (`Agree`).
-/
namespace DocSql
open List

variable {p : Nat} {cells : List Cell}

namespace OnePass

variable {s t : OnePass} {o : Operand} {op : Connective}

/-! ### An operator and its operands are read as what it makes of them -/

theorem vacate_test (h : s.vacate = some t) : t.test = s.test ∧ t.nots = s.nots := by
  cases hatom : s.atom with
  | none =>
    rw [vacate_start hatom] at h
    split at h
    · cases h
      exact ⟨rfl, rfl⟩
    · cases h
  | some o =>
    rw [vacate, hatom, if_neg (by simp)] at h
    split at h
    · obtain ⟨c, -, rfl⟩ := Option.map_eq_some_iff.mp h
      exact ⟨rfl, rfl⟩
    · split at h
      · obtain ⟨c, -, rfl⟩ := Option.map_eq_some_iff.mp h
        exact ⟨rfl, rfl⟩
      · cases h

/-- A condition does not complete a test. -/
theorem answer_condition (s : OnePass) (op : Connective) (c : Condition) (grouped : Bool) :
    s.answer op (.condition c grouped) = none := by
  rw [answer]
  cases s.atom with
  | none => rfl
  | some left => cases op <;> rfl

/-- An operand that goes to a test is open to no other test. -/
theorem ask_of_test (h : s.test = some op) (x : Connective) :
    ((s.step (.operand o)).bind fun t => t.ask x) = none := by
  rw [step_operand_of_test h]
  cases ht : s.answer op o with
  | none => rfl
  | some t =>
    rw [Option.bind_some, ask, term?_answer ht]
    rfl

theorem run_unary (s : OnePass) (htest : op.isTest = true) (hbinary : op.isBinary = false)
    (o : Operand) :
    s.run [.operand o, .operator op] =
      (op.unary o).toOption.bind fun c => s.run [.ofCondition c] := by
  simp only [run_cons, run_nil, Option.bind_fun_some, step_operator_of_test htest, Cell.ofCondition]
  cases hs : s.test with
  | some waiting =>
    rw [ask_of_test hs]
    simp [step_operand_of_test hs, answer_condition]
  | none =>
    rw [step_operand hs]
    cases ht : s.vacate with
    | none => simp [step_operand hs, ht]
    | some t =>
      have htest : t.test = none := (vacate_test ht).1.trans hs
      cases o with
      | term term =>
        have hterm : (t.seat (.term term)).term? = some term := by simp [term?, seat, htest]
        simp only [Option.map_some, Option.bind_some, ask, hterm, hbinary, step_operand hs, ht]
        cases op.unary (.term term) with
        | error fault => rfl
        | ok c => simp [close, seat, htest, Except.toOption]
      | condition c grouped | members m =>
        simp [ask, term?, seat, htest, Connective.unary, Operand.toTerm, undecodable, Except.toOption]

theorem run_binary_of_test (s : OnePass) (htest : op.isTest = true) (hbinary : op.isBinary = true)
    (o o' : Operand) :
    s.run [.operand o, .operator op, .operand o'] =
      (op.binary o o').toOption.bind fun c => s.run [.ofCondition c] := by
  simp only [run_cons, run_nil, Option.bind_fun_some, step_operator_of_test htest, Cell.ofCondition]
  cases hs : s.test with
  | some waiting =>
    rw [← Option.bind_assoc, ask_of_test hs]
    simp [step_operand_of_test hs, answer_condition]
  | none =>
    rw [step_operand hs]
    cases ht : s.vacate with
    | none => simp [step_operand hs, ht]
    | some t =>
      have hwaits : t.test = none := (vacate_test ht).1.trans hs
      cases o with
      | term term =>
        have hterm : (t.seat (.term term)).term? = some term := by simp [term?, seat, hwaits]
        simp only [Option.map_some, Option.bind_some, ask, hterm, hbinary, step_operand hs, ht, if_true]
        rw [step_operand_of_test rfl]
        cases hc : op.binary (.term term) o' with
        | error fault => simp [answer, seat, htest, hc, Except.toOption]
        | ok c => simp [answer, close, seat, hwaits, htest, hc, Except.toOption]
      | condition c grouped | members m =>
        rw [Connective.binary_of_isTest htest rfl]
        simp [ask, term?, seat, hwaits]

end OnePass

/-- All operators of a row bind less tight than a precedence. -/
def Below (p : Nat) (cells : List Cell) : Prop := ∀ op, .operator op ∈ cells → op.precedence < p

theorem Below.mono {q : Nat} (h : Below p cells) (hpq : p ≤ q) : Below q cells :=
  fun op hop => Nat.lt_of_lt_of_le (h op hop) hpq

theorem below_cons {cell : Cell} : Below p (cell :: cells) ↔ Below p [cell] ∧ Below p cells := by
  simp only [Below, mem_cons, not_mem_nil, or_false]
  exact ⟨fun h => ⟨fun op hop => h op (.inl hop), fun op hop => h op (.inr hop)⟩,
    fun h op hop => hop.elim (h.1 op) (h.2 op)⟩

@[simp] theorem below_operand (p : Nat) (o : Operand) : Below p [.operand o] := by
  intro op hop
  simp at hop

theorem below_reverse : Below p cells.reverse ↔ Below p cells := by
  simp only [Below, mem_reverse]

theorem below_append {cells' : List Cell} :
    Below p (cells ++ cells') ↔ Below p cells ∧ Below p cells' := by
  simp only [Below, mem_append]
  exact ⟨fun h => ⟨fun op hop => h op (.inl hop), fun op hop => h op (.inr hop)⟩,
    fun h op hop => hop.elim (h.1 op) (h.2 op)⟩

namespace OnePass

variable {s t : OnePass} {o : Operand} {op : Connective}
variable {ops : List Connective}

theorem isTest_of_below (h : Below 4 cells) (hop : .operator op ∈ cells) : op.isTest = false := by
  rw [← Bool.not_eq_true, Connective.isTest_iff]
  have hlt := h op hop
  omega

/-- Nothing waits that an operator of the precedence or a tighter one left. -/
structure Quiet (p : Nat) (s : OnePass) : Prop where
  test : p ≤ 4 → s.test = none
  nots : p ≤ 3 → s.nots = 0
  ands : p ≤ 2 → s.ands = 0 ∧ s.factors = none

theorem Quiet.vacate (h : Quiet p s) (ht : s.vacate = some t) : Quiet p t := by
  obtain ⟨htest, hnots⟩ := vacate_test ht
  refine ⟨fun hp => htest.trans (h.test hp), fun hp => hnots.trans (h.nots hp), fun hp => ?_⟩
  obtain ⟨hands, hfactors⟩ := h.ands hp
  cases hatom : s.atom with
  | none =>
    rw [vacate_start hatom] at ht
    split at ht
    · cases ht
      exact h.ands hp
    · cases ht
  | some o =>
    rw [OnePass.vacate, hatom, if_neg (by simp), if_neg (by omega)] at ht
    split at ht
    · obtain ⟨c, -, rfl⟩ := Option.map_eq_some_iff.mp ht
      exact ⟨hands, rfl⟩
    · cases ht

theorem Quiet.defer (h : Quiet p s) (hop : op.precedence < p) : Quiet p (s.defer op) := by
  refine ⟨fun hp => ?_, fun hp => ?_, fun hp => ?_⟩
  · rw [← h.test hp]
    cases op <;> rfl
  · cases op with
    | not => exact absurd hop (by simp only [Connective.precedence]; omega)
    | _ => exact h.nots hp
  · cases op with
    | and => exact absurd hop (by simp only [Connective.precedence]; omega)
    | _ => exact h.ands hp

theorem quiet_of_isTest (htest : op.isTest = true) (hop : op.precedence < p) (s : OnePass) :
    Quiet p s := by
  rw [Connective.isTest_iff] at htest
  exact ⟨fun _ => by omega, fun _ => by omega, fun _ => by omega⟩

theorem Quiet.step {cell : Cell} (h : Quiet p s) (hcell : Below p [cell])
    (ht : s.step cell = some t) : Quiet p t := by
  cases cell with
  | operator op =>
    have hop := hcell op mem_cons_self
    cases htest : op.isTest with
    | true => exact quiet_of_isTest htest hop t
    | false =>
      rw [step_operator htest] at ht
      cases ht
      exact h.defer hop
  | operand o =>
    cases hs : s.test with
    | some op =>
      rw [step_operand_of_test hs] at ht
      obtain ⟨c, -, rfl⟩ := Option.map_eq_some_iff.mp ht
      exact ⟨fun _ => rfl, h.nots, h.ands⟩
    | none =>
      rw [step_operand hs] at ht
      obtain ⟨u, hu, rfl⟩ := Option.map_eq_some_iff.mp ht
      have hu := h.vacate hu
      exact ⟨hu.test, fun _ => rfl, hu.ands⟩

theorem Quiet.run (h : Quiet p s) (hcells : Below p cells) (ht : s.run cells = some t) :
    Quiet p t := by
  induction cells generalizing s with
  | nil =>
    cases ht
    exact h
  | cons cell cells ih =>
    obtain ⟨hcell, hcells⟩ := below_cons.mp hcells
    obtain ⟨u, hu, ht⟩ := Option.bind_eq_some_iff.mp ht
    exact ih (h.step hcell hu) hcells ht

theorem quiet_start (p : Nat) : Quiet p {} := ⟨fun _ => rfl, fun _ => rfl, fun _ => ⟨rfl, rfl⟩⟩

/-! ### What the rest of a row depends on -/

theorem reads_nil (s : OnePass) : s.reads [] = s.finish := rfl

theorem reads_cons (s : OnePass) (cell : Cell) (cells : List Cell) :
    s.reads (cell :: cells) = (s.step cell).bind fun t => t.reads cells := by
  rw [reads, run_cons, Option.bind_assoc]
  rfl

/-- Two readers that go on alike: the same operators wait, and what is read makes the same condition. -/
structure Agree (s t : OnePass) : Prop where
  atom : s.atom.isSome ∧ t.atom.isSome
  test : s.test = none ∧ t.test = none
  nots : s.nots = t.nots
  ands : s.ands = t.ands
  ors : s.ors = t.ors
  total : s.total = t.total

theorem alternative_defer (s : OnePass) (op : Connective) :
    (s.defer op).alternative = s.alternative := by
  cases op <;> rfl

theorem total_defer (s : OnePass) (op : Connective) : (s.defer op).total = s.total := by
  cases op <;> rfl

theorem Agree.defer (h : Agree s t) (op : Connective) : Agree (s.defer op) (t.defer op) := by
  have htotal : (s.defer op).total = (t.defer op).total := by
    rw [total_defer, total_defer, h.total]
  obtain ⟨hatom, htest, hnots, hands, hors, -⟩ := h
  cases op with
  | not => exact ⟨hatom, htest, congrArg (· + 1) hnots, hands, hors, htotal⟩
  | and => exact ⟨hatom, htest, hnots, congrArg (· + 1) hands, hors, htotal⟩
  | or => exact ⟨hatom, htest, hnots, hands, congrArg (· + 1) hors, htotal⟩
  | _ => exact ⟨hatom, htest, hnots, hands, hors, htotal⟩

/-- The next operand leaves no difference. -/
theorem Agree.step_operand (h : Agree s t)
    (hs : s.ands = 0 ∨ s.done = t.done ∧ s.alternative = t.alternative) (o : Operand) :
    s.step (.operand o) = t.step (.operand o) := by
  obtain ⟨a, ha⟩ := Option.isSome_iff_exists.mp h.atom.1
  obtain ⟨b, hb⟩ := Option.isSome_iff_exists.mp h.atom.2
  rw [OnePass.step_operand h.test.1, OnePass.step_operand h.test.2]
  by_cases hands : 0 < s.ands
  · obtain ⟨hdone, halternative⟩ : s.done = t.done ∧ s.alternative = t.alternative := by
      rcases hs with hs | hs
      · omega
      · exact hs
    rw [vacate_and ha hands, vacate_and hb (h.ands ▸ hands), halternative]
    simp [seat, hdone, h.nots, h.ands, h.ors, h.test.1, h.test.2, Function.comp_def]
  · have hzero : s.ands = 0 := by omega
    by_cases hors : 0 < s.ors
    · rw [vacate_or ha hzero hors, vacate_or hb (h.ands ▸ hzero) (h.ors ▸ hors), h.total]
      simp [seat, h.nots, h.ands, h.ors, h.test.1, h.test.2, Function.comp_def]
    · simp [vacate, ha, hb, ← h.ands, ← h.ors, hands, hors]

/-- Readers that agree read the rest of a row alike, if no AND is to come, or if they have the same
last alternative. -/
theorem Agree.reads (h : Agree s t)
    (hcells : Below 2 cells ∧ s.ands = 0 ∨
      Below 4 cells ∧ s.done = t.done ∧ s.alternative = t.alternative) :
    s.reads cells = t.reads cells := by
  induction cells generalizing s t with
  | nil => simp [reads_nil, finish, h.test.1, h.test.2, h.nots, h.ands, h.ors, h.total]
  | cons cell cells ih =>
    rw [reads_cons, reads_cons]
    cases cell with
    | operator op =>
      have hbelow : Below 4 (.operator op :: cells) := by
        rcases hcells with ⟨hbelow, -⟩ | ⟨hbelow, -⟩
        · exact hbelow.mono (by omega)
        · exact hbelow
      have htest := isTest_of_below hbelow mem_cons_self
      rw [step_operator htest, step_operator htest, Option.bind_some, Option.bind_some]
      refine ih (h.defer op) ?_
      rcases hcells with ⟨hbelow, hands⟩ | ⟨hbelow, hdone, halternative⟩
      · have hop : op.precedence < 2 := hbelow op mem_cons_self
        refine .inl ⟨(below_cons.mp hbelow).2, ?_⟩
        cases op with
        | and => exact absurd hop (by decide)
        | _ => exact hands
      · refine .inr ⟨(below_cons.mp hbelow).2, ?_, ?_⟩
        · cases op <;> exact hdone
        · rw [alternative_defer, alternative_defer, halternative]
    | operand o =>
      have hs : s.ands = 0 ∨ s.done = t.done ∧ s.alternative = t.alternative :=
        hcells.imp (fun h => h.2) (fun h => h.2)
      rw [h.step_operand hs]

/-- What cannot be a condition cannot become one. -/
theorem reads_of_alternative (hatom : s.atom.isSome) (htest : s.test = none)
    (h : s.alternative = none) (hcells : Below 4 cells) : s.reads cells = none := by
  induction cells generalizing s with
  | nil => simp [reads_nil, finish, total, h]
  | cons cell cells ih =>
    rw [reads_cons]
    cases cell with
    | operator op =>
      rw [step_operator (isTest_of_below hcells mem_cons_self), Option.bind_some]
      refine ih ?_ ?_ ?_ (below_cons.mp hcells).2
      · cases op <;> exact hatom
      · cases op <;> exact htest
      · rw [alternative_defer, h]
    | operand o =>
      have hvacate : s.vacate = none := by
        obtain ⟨a, ha⟩ := Option.isSome_iff_exists.mp hatom
        simp [vacate, ha, h, total]
      rw [OnePass.step_operand htest, hvacate]
      rfl

/-! ### The connectives -/

theorem joinOr_or (d : Option Condition) (c c' : Condition) :
    joinOr d (c.or c') = (joinOr d c).or c' := by
  cases d with
  | none => rfl
  | some d => simp [joinOr, Condition.or, Condition.disjuncts]

/-- What an AND or an OR makes of two conditions. -/
def joins : Connective → Condition → Condition → Condition
  | .and => Condition.and
  | _ => Condition.or

theorem toOption_binary (hop : op = .and ∨ op = .or) (o o' : Operand) : (op.binary o o').toOption =
      o.toCondition.toOption.bind fun c => o'.toCondition.toOption.map (joins op c) := by
  rcases hop with rfl | rfl <;> cases ho : o.toCondition <;> cases ho' : o'.toCondition <;>
    simp [Connective.binary, joins, ho, ho', Except.toOption]

theorem alternative_seat (h : s.nots = 0) (o : Operand) :
    (s.seat o).alternative = o.toCondition.toOption.map fun c => joinAnd s.factors c := by
  simp [alternative, seat, h, Operand.negated, Option.map_eq_bind, Function.comp_def]

/-- The first operand of an AND has joined the factors, that of an OR the alternatives. -/
def joined (t : OnePass) : Connective → Condition → OnePass
  | .and, c => { t with factors := some c }
  | _, c => { t with done := some (joinOr t.done c) }

theorem seat_second (hop : op = .and ∨ op = .or) (ht : Quiet 2 t) (o o' : Operand) :
    (((t.seat o).defer op).vacate.map fun u => u.seat o') =
      o.toCondition.toOption.map fun c => (t.joined op c).seat o' := by
  have hnots : t.nots = 0 := ht.nots (by omega)
  obtain ⟨hands, hfactors⟩ := ht.ands (Nat.le_refl 2)
  have hfirst := alternative_seat hnots o
  rw [hfactors] at hfirst
  rcases hop with rfl | rfl
  · rw [vacate_and (s := (t.seat o).defer .and) rfl (Nat.succ_pos _), alternative_defer, hfirst]
    simp [Function.comp_def, seat, defer, joined, joinAnd, hnots]
  · rw [vacate_or (s := (t.seat o).defer .or) rfl hands (Nat.succ_pos _), total_defer, total, hfirst]
    simp [Function.comp_def, seat, defer, joined, joinAnd, hnots, hfactors]

/-- An AND or an OR and its operands are read as the condition that it makes of them. -/
theorem reads_connective (hop : op = .and ∨ op = .or) (hs : Quiet 2 s)
    (hcells : Below (op.precedence + 1) cells) (o o' : Operand) :
    s.reads (.operand o :: .operator op :: .operand o' :: cells) =
      (op.binary o o').toOption.bind fun c => s.reads (.ofCondition c :: cells) := by
  rw [toOption_binary hop]
  simp only [reads_cons, Cell.ofCondition, step_operand (hs.test (by omega))]
  cases hv : s.vacate with
  | none => simp
  | some t =>
    have ht := hs.vacate hv
    have htest : t.test = none := ht.test (by omega)
    have hnots : t.nots = 0 := ht.nots (by omega)
    obtain ⟨hands, hfactors⟩ := ht.ands (Nat.le_refl 2)
    have hwaits : ((t.seat o).defer op).test = none := by
      rcases hop with rfl | rfl <;> exact htest
    rw [Option.map_some, Option.bind_some, step_operator (by rcases hop with rfl | rfl <;> rfl),
      Option.bind_some, step_operand hwaits, seat_second hop ht]
    cases o.toCondition.toOption with
    | none => rfl
    | some c =>
      have hsecond := alternative_seat (s := t.joined op c)
        (by rcases hop with rfl | rfl <;> exact hnots) o'
      rw [Option.map_some, Option.bind_some, Option.bind_some]
      cases hc' : o'.toCondition.toOption with
      | none =>
        rw [hc'] at hsecond
        refine reads_of_alternative rfl ?_ hsecond (hcells.mono ?_)
        · rcases hop with rfl | rfl <;> exact htest
        · rcases hop with rfl | rfl <;> decide
      | some c' =>
        rw [hc'] at hsecond
        have hone := alternative_seat hnots (.condition (joins op c c') false)
        rw [hfactors] at hone
        rcases hop with rfl | rfl
        · have hjoined := hsecond.trans hone.symm
          refine Agree.reads ⟨⟨rfl, rfl⟩, ⟨htest, htest⟩, rfl, rfl, rfl, ?_⟩
            (.inr ⟨hcells.mono (by decide), rfl, hjoined⟩)
          rw [total, hjoined]
          rfl
        · refine Agree.reads ⟨⟨rfl, rfl⟩, ⟨htest, htest⟩, rfl, rfl, rfl, ?_⟩ (.inl ⟨hcells, hands⟩)
          have hfactors : (t.joined .or c).factors = none := hfactors
          rw [hfactors] at hsecond
          rw [total, total, hsecond, hone]
          exact congrArg some (joinOr_or t.done c c').symm

theorem vacate_not (s : OnePass) : (s.defer .not).vacate = s.vacate.map fun t => t.defer .not := by
  cases hatom : s.atom with
  | none =>
    rw [vacate_start hatom, vacate_start (s := s.defer .not) hatom]
    by_cases h : s.ands = 0 ∧ s.ors = 0
    · rw [if_pos h]
      exact if_pos h
    · rw [if_neg h]
      exact if_neg h
  | some o =>
    by_cases hands : 0 < s.ands
    · rw [vacate_and hatom hands, vacate_and (s := s.defer .not) hatom hands, Option.map_map]
      rfl
    · have hands : s.ands = 0 := by omega
      by_cases hors : 0 < s.ors
      · rw [vacate_or hatom hands hors, vacate_or (s := s.defer .not) hatom hands hors, Option.map_map]
        rfl
      · have hors : s.ors = 0 := by omega
        rw [vacate_none hatom hands hors, vacate_none (s := s.defer .not) hatom hands hors]
        rfl

/-- A NOT and its operand are read as the condition that it makes of it. -/
theorem reads_not (hs : s.test = none) (hcells : Below 4 cells) (o : Operand) :
    s.reads (.operator .not :: .operand o :: cells) =
      o.negate.toOption.bind fun c => s.reads (.ofCondition c :: cells) := by
  have hwaits : (s.defer .not).test = none := hs
  simp only [reads_cons, Cell.ofCondition, step_operand hs]
  rw [step_operator rfl, Option.bind_some, step_operand hwaits, vacate_not]
  cases hv : s.vacate with
  | none => simp
  | some t =>
    have ht : t.test = none := (vacate_test hv).1.trans hs
    simp only [Option.map_some, Option.bind_some]
    cases hc : o.negate.toOption with
    | none =>
      refine reads_of_alternative rfl ht ?_ hcells
      simp [alternative, seat, defer, Operand.negated, hc]
    | some c =>
      have halternative : ((t.defer .not).seat o).alternative =
          (t.seat (.condition c false)).alternative := by
        simp [alternative, seat, defer, Operand.negated, hc]
      refine Agree.reads ⟨⟨rfl, rfl⟩, ⟨ht, ht⟩, rfl, rfl, rfl, ?_⟩ (.inr ⟨hcells, rfl, halternative⟩)
      rw [total, halternative]
      rfl

/-! ### All operators -/

/-- A test stands anywhere behind its operand. -/
theorem reads_unary (s : OnePass) (htest : op.isTest = true) (hbinary : op.isBinary = false)
    (o : Operand) (ops : List Connective) (rest : List Cell) :
    s.reads (.operand o :: (ops.map .operator ++ .operator op :: rest)) =
      (op.unary o).toOption.bind fun c => s.reads (.ofCondition c :: (ops.map .operator ++ rest)) := by
  have hfront : s.reads (.operand o :: (ops.map .operator ++ .operator op :: rest)) =
      s.reads ([.operand o, .operator op] ++ (ops.map .operator ++ rest)) := by
    simp only [reads, run_cons, run_operators, cons_append, nil_append]
  rw [hfront, reads_append, run_unary s htest hbinary, Option.bind_assoc]
  refine congrArg _ (funext fun c => ?_)
  rw [← reads_append]
  rfl

/-- An operator and its operands side by side. -/
theorem reads_joined (hbinary : op.isBinary = true) (hs : Quiet op.precedence s)
    (hcells : Below (op.precedence + 1) cells) (o o' : Operand) :
    s.reads (.operand o :: .operator op :: .operand o' :: cells) =
      (op.binary o o').toOption.bind fun c => s.reads (.ofCondition c :: cells) := by
  cases htest : op.isTest with
  | true =>
    have hfront : s.reads (.operand o :: .operator op :: .operand o' :: cells) =
        s.reads ([.operand o, .operator op, .operand o'] ++ cells) := rfl
    rw [hfront, reads_append, run_binary_of_test s htest hbinary, Option.bind_assoc]
    refine congrArg _ (funext fun c => ?_)
    rw [← reads_append]
    rfl
  | false =>
    cases op with
    | and => exact reads_connective (.inl rfl) hs hcells o o'
    | or =>
      have hs : Quiet 2 s := ⟨fun _ => hs.test (by decide), fun _ => hs.nots (by decide),
        fun _ => hs.ands (by decide)⟩
      exact reads_connective (.inr rfl) hs hcells o o'
    | like | member => cases htest
    | isNull | isBool | between | not => cases hbinary

/-- An operator stands anywhere between its operands. -/
theorem reads_binary (hbinary : op.isBinary = true) (hs : Quiet op.precedence s)
    {ops' : List Connective} (hops : Below (op.precedence + 1) (ops.map .operator))
    (hops' : Below (op.precedence + 1) (ops'.map .operator))
    (hcells : Below (op.precedence + 1) cells) (o o' : Operand) :
    s.reads (.operand o ::
        (ops.map .operator ++ .operator op :: (ops'.map .operator ++ .operand o' :: cells))) =
      (op.binary o o').toOption.bind fun c =>
        s.reads (.ofCondition c :: (ops.map .operator ++ (ops'.map .operator ++ cells))) := by
  have hle : ∀ x ∈ ops ++ ops', x.precedence ≤ op.precedence := by
    intro x hx
    rw [mem_append] at hx
    rcases hx with hx | hx
    · exact Nat.le_of_lt_succ (hops x (mem_map_of_mem hx))
    · exact Nat.le_of_lt_succ (hops' x (mem_map_of_mem hx))
  have hfront (t : OnePass) :
      t.run (ops.map .operator ++ .operator op :: (ops'.map .operator ++ .operand o' :: cells)) =
        t.run (.operator op :: .operand o' :: (ops.map .operator ++ (ops'.map .operator ++ cells))) := by
    have hpass := t.run_pass_all hbinary hle o' cells
    rw [map_append, append_assoc, append_assoc] at hpass
    rw [run_operators, hpass]
  rw [← reads_joined hbinary hs (below_append.mpr ⟨hops, below_append.mpr ⟨hops', hcells⟩⟩)]
  rw [reads, run_cons, reads, run_cons]
  simp only [hfront]

/-- A NOT stands anywhere before its operand. -/
theorem reads_negated (hs : s.test = none) (hops : Below 4 (ops.map .operator))
    (hcells : Below 4 cells) (o : Operand) :
    s.reads (.operator .not :: (ops.map .operator ++ .operand o :: cells)) =
      o.negate.toOption.bind fun c => s.reads (ops.map .operator ++ .ofCondition c :: cells) := by
  have hfront : s.reads (.operator .not :: (ops.map .operator ++ .operand o :: cells)) =
      s.reads (ops.map .operator ++ .operator .not :: .operand o :: cells) := by
    rw [reads, reads, run_operators]
  simp only [hfront, reads_append]
  cases ht : s.run (ops.map .operator) with
  | none => simp
  | some t =>
    have hquiet : Quiet 4 s := ⟨fun _ => hs, fun h => by omega, fun h => by omega⟩
    exact reads_not ((hquiet.run hops ht).test (Nat.le_refl 4)) hcells o

end OnePass
end DocSql
