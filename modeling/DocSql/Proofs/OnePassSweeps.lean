import DocSql.Proofs.OnePassOperators

/-! # Sweeping and reading in one pass

Applying an operator does not change what is read in one pass, and an operator that cannot be applied
makes the row unreadable.  So no sweep changes what is read, and after the last sweep there are no
operators left: what is read of the operands is what the compiler of conditions makes of them.
-/
namespace DocSql
open Compiled List

variable {cells : List Cell} {ops : List Connective}

namespace OnePass

variable {s t : OnePass} {o : Operand} {op : Connective}

/-! ### Operators without operands -/

/-- Something waits for an operand. -/
def Waits (s : OnePass) : Prop := s.test.isSome ∨ 0 < s.nots ∨ 0 < s.ands ∨ 0 < s.ors

theorem Waits.finish (h : s.Waits) : s.finish = none := by
  refine if_neg ?_
  rintro ⟨htest, hnots, hands, hors⟩
  rcases h with h | h | h | h
  · rw [Option.isNone_iff_eq_none.mp htest] at h
    cases h
  all_goals omega

theorem Waits.step (h : s.Waits) (ht : s.step (.operator op) = some t) : t.Waits := by
  cases htest : op.isTest with
  | true =>
    rw [step_operator_of_test htest] at ht
    obtain ⟨term, hterm, ht⟩ := Option.bind_eq_some_iff.mp ht
    have hs : s.test = none := by
      cases hs : s.test with
      | none => rfl
      | some waiting => simp [term?, hs] at hterm
    have h : 0 < s.nots ∨ 0 < s.ands ∨ 0 < s.ors := by simpa [Waits, hs] using h
    split at ht
    · cases ht
      exact .inl rfl
    · obtain ⟨c, -, rfl⟩ := Option.map_eq_some_iff.mp ht
      exact .inr h
  | false =>
    rw [step_operator htest] at ht
    cases ht
    cases op with
    | not | and | or =>
      simp only [Waits, defer] at h ⊢
      omega
    | _ => exact h

/-- Operators do not end the waiting. -/
theorem Waits.reads (h : s.Waits) (ops : List Connective) : s.reads (ops.map .operator) = none := by
  induction ops generalizing s with
  | nil => exact h.finish
  | cons op ops ih =>
    rw [map_cons, reads_cons]
    cases ht : s.step (.operator op) with
    | none => rfl
    | some t => exact ih (h.step ht)

/-- An operator that lacks a right operand is refused. -/
theorem reads_of_no_right (h : op = .not ∨ op.isBinary = true) (s : OnePass) (ops : List Connective) :
    s.reads (.operator op :: ops.map .operator) = none := by
  rw [reads_cons]
  cases ht : s.step (.operator op) with
  | none => rfl
  | some t =>
    refine Waits.reads (s := t) ?_ ops
    cases htest : op.isTest with
    | true =>
      have hbinary : op.isBinary = true := by
        rcases h with rfl | h
        · cases htest
        · exact h
      rw [step_operator_of_test htest] at ht
      obtain ⟨_, -, ht⟩ := Option.bind_eq_some_iff.mp ht
      rw [if_pos hbinary] at ht
      cases ht
      exact .inl rfl
    | false =>
      rw [step_operator htest] at ht
      cases ht
      cases op with
      | not => exact .inr (.inl (Nat.succ_pos _))
      | and => exact .inr (.inr (.inl (Nat.succ_pos _)))
      | or => exact .inr (.inr (.inr (Nat.succ_pos _)))
      | _ => cases htest

theorem ask_of_no_atom (h : s.atom = none) (op : Connective) : s.ask op = none := by
  rw [ask, term?, h]
  cases s.test <;> rfl

/-- Operators alone make no atom. -/
theorem atom_run (h : s.atom = none) (ht : s.run (ops.map .operator) = some t) : t.atom = none := by
  induction ops generalizing s with
  | nil =>
    cases ht
    exact h
  | cons op ops ih =>
    rw [map_cons, run_cons] at ht
    obtain ⟨u, hu, ht⟩ := Option.bind_eq_some_iff.mp ht
    refine ih ?_ ht
    cases htest : op.isTest with
    | true =>
      rw [step_operator_of_test htest, ask_of_no_atom h] at hu
      cases hu
    | false =>
      rw [step_operator htest] at hu
      cases hu
      cases op <;> exact h

/-- An AND or OR that lacks a left operand gets none. -/
theorem reads_of_no_atom (h : s.atom = none) (hwaits : 0 < s.ands ∨ 0 < s.ors) (cells : List Cell) :
    s.reads cells = none := by
  induction cells generalizing s with
  | nil => simp [reads_nil, finish, total, alternative, h]
  | cons cell cells ih =>
    rw [reads_cons]
    cases cell with
    | operator op =>
      cases htest : op.isTest with
      | true =>
        rw [step_operator_of_test htest, ask_of_no_atom h]
        rfl
      | false =>
        rw [step_operator htest, Option.bind_some]
        refine ih (by cases op <;> exact h) ?_
        cases op <;> simp only [defer] <;> omega
    | operand o =>
      cases hs : s.test with
      | some waiting => simp [step_operand_of_test hs, answer, h]
      | none =>
        have hvacate : s.vacate = none := by
          rw [vacate_start h]
          exact if_neg (by omega)
        rw [step_operand hs, hvacate]
        rfl

/-- An operator that lacks a left operand is refused. -/
theorem reads_of_no_left (hop : op.isTest = true ∨ op.isBinary = true) (h : s.atom = none)
    (cells : List Cell) : s.reads (.operator op :: cells) = none := by
  rw [reads_cons]
  cases htest : op.isTest with
  | true =>
    rw [step_operator_of_test htest, ask_of_no_atom h]
    rfl
  | false =>
    have hbinary : op.isBinary = true := by simpa [htest] using hop
    rw [step_operator htest, Option.bind_some]
    cases op with
    | and => exact reads_of_no_atom (s := s.defer .and) h (.inl (Nat.succ_pos _)) cells
    | or => exact reads_of_no_atom (s := s.defer .or) h (.inr (Nat.succ_pos _)) cells
    | like | member => cases htest
    | isNull | isBool | between | not => cases hbinary

end OnePass

/-! ### Applying an operator -/

/-- Either there are only operators in a row, or the nearest operand stands behind some. -/
theorem nearest_cases (cells : List Cell) :
    (∃ ops : List Connective, cells = ops.map .operator ∧ nearest cells = undecodable .missingOperand) ∨
    ∃ (ops : List Connective) (o : Operand) (beyond : List Cell),
      cells = ops.map .operator ++ .operand o :: beyond ∧
        nearest cells = .ok (ops.map .operator, o, beyond) := by
  have h : (∃ ops : List Connective, cells = ops.map .operator ∧ nearest? cells = none) ∨
      ∃ (ops : List Connective) (o : Operand) (beyond : List Cell),
        cells = ops.map .operator ++ .operand o :: beyond ∧
          nearest? cells = some (ops.map .operator, o, beyond) := by
    induction cells with
    | nil => exact .inl ⟨[], rfl, rfl⟩
    | cons cell cells ih =>
      cases cell with
      | operand o => exact .inr ⟨[], o, cells, rfl, rfl⟩
      | operator op =>
        rcases ih with ⟨ops, hcells, hnone⟩ | ⟨ops, o, beyond, hcells, hsome⟩
        · exact .inl ⟨op :: ops, by rw [hcells]; rfl, by rw [nearest?, hnone]; rfl⟩
        · exact .inr ⟨op :: ops, o, beyond, by rw [hcells]; rfl, by rw [nearest?, hsome]; rfl⟩
  rcases h with ⟨ops, hcells, hnone⟩ | ⟨ops, o, beyond, hcells, hsome⟩
  · exact .inl ⟨ops, hcells, by rw [nearest, hnone]⟩
  · exact .inr ⟨ops, o, beyond, hcells, by rw [nearest, hsome]⟩

section

variable {op : Connective} {left right : List Cell}

/-- The rest of a row can be replaced by what is read alike behind the same cells. -/
theorem onePass_append_congr (before : List Cell) {front : List Cell} {x : Option Condition}
    {back : Condition → List Cell}
    (h : ∀ s, OnePass.run {} before = some s → s.reads front = x.bind fun c => s.reads (back c)) :
    onePass (before ++ front) = x.bind fun c => onePass (before ++ back c) := by
  simp only [onePass, OnePass.reads_append]
  cases hrun : OnePass.run {} before with
  | none => simp
  | some s => exact h s hrun

theorem reverse_operators (ops : List Connective) (cell : Cell) (beyond : List Cell) :
    (ops.map Cell.operator ++ cell :: beyond).reverse =
      beyond.reverse ++ cell :: ops.reverse.map Cell.operator := by
  simp

/-- A row where an operator lacks its left operand is refused. -/
theorem onePass_of_no_left (hop : op.isTest = true ∨ op.isBinary = true)
    (hleft : left = ops.map .operator) (right : List Cell) :
    onePass (left.reverse ++ .operator op :: right) = none := by
  rw [onePass, OnePass.reads_append, hleft, ← map_reverse]
  cases hrun : OnePass.run {} (ops.reverse.map .operator) with
  | none => rfl
  | some s => exact OnePass.reads_of_no_left hop (OnePass.atom_run rfl hrun) right

/-- A row where an operator lacks its right operand is refused. -/
theorem onePass_of_no_right (hop : op = .not ∨ op.isBinary = true) (left : List Cell)
    (hright : right = ops.map .operator) :
    onePass (left.reverse ++ .operator op :: right) = none := by
  rw [onePass, OnePass.reads_append, hright]
  cases hrun : OnePass.run {} left.reverse with
  | none => rfl
  | some s => exact OnePass.reads_of_no_right hop s ops

theorem onePass_apply_unary (htest : op.isTest = true) (hbinary : op.isBinary = false)
    (left right : List Cell) :
    onePass (left.reverse ++ .operator op :: right) =
      (op.apply left right).toOption.bind fun after => onePass (after.1.reverse ++ after.2) := by
  rw [Connective.apply_unary htest hbinary]
  rcases nearest_cases left with ⟨ops, hleft, hnearest⟩ | ⟨ops, o, beyond, hleft, hnearest⟩
  · rw [onePass_of_no_left (.inl htest) hleft, hnearest]
    rfl
  · have hread := onePass_append_congr beyond.reverse fun s _ =>
      s.reads_unary htest hbinary o ops.reverse right
    rw [hnearest, ok_bind, toOption_bind, Option.bind_assoc, hleft, reverse_operators,
      append_assoc, cons_append, hread]
    refine congrArg _ (funext fun c => ?_)
    simp

theorem onePass_apply_binary (hbinary : op.isBinary = true) (hleft : Below op.precedence left)
    (hright : Below (op.precedence + 1) right) :
    onePass (left.reverse ++ .operator op :: right) =
      (op.apply left right).toOption.bind fun after => onePass (after.1.reverse ++ after.2) := by
  rw [Connective.apply_binary hbinary]
  rcases nearest_cases left with ⟨ops, hops, hnearest⟩ | ⟨ops, o, beyond, hops, hnearest⟩
  · rw [onePass_of_no_left (.inr hbinary) hops, hnearest]
    rfl
  · rcases nearest_cases right with ⟨ops', hops', hnearest'⟩ | ⟨ops', o', beyond', hops', hnearest'⟩
    · rw [onePass_of_no_right (.inr hbinary) left hops', hnearest, hnearest']
      rfl
    · rw [hops, below_append] at hleft
      rw [hops', below_append] at hright
      have hops₁ : Below (op.precedence + 1) (ops.reverse.map .operator) := fun x hx =>
        Nat.lt_succ_of_lt (hleft.1 x (by simpa using hx))
      have hbeyond : Below op.precedence beyond.reverse := below_reverse.mpr (below_cons.mp hleft.2).2
      have hread := onePass_append_congr beyond.reverse fun s hs =>
        OnePass.reads_binary hbinary ((OnePass.quiet_start _).run hbeyond hs) hops₁ hright.1
          (below_cons.mp hright.2).2 o o'
      rw [hnearest, hnearest', ok_bind, ok_bind, toOption_bind,
        Option.bind_assoc, hops, hops', reverse_operators, append_assoc, cons_append, hread]
      refine congrArg _ (funext fun c => ?_)
      simp

theorem onePass_apply_not (hleft : Below 3 left) (hright : Below 4 right) :
    onePass (left.reverse ++ .operator .not :: right) =
      (Connective.not.apply left right).toOption.bind fun after =>
        onePass (after.1.reverse ++ after.2) := by
  rw [apply_not]
  rcases nearest_cases right with ⟨ops, hops, hnearest⟩ | ⟨ops, o, beyond, hops, hnearest⟩
  · rw [onePass_of_no_right (.inl rfl) left hops, hnearest]
    rfl
  · rw [hops, below_append] at hright
    have hleft : Below 3 left.reverse := below_reverse.mpr hleft
    have hread := onePass_append_congr left.reverse fun s hs =>
      OnePass.reads_negated (((OnePass.quiet_start 3).run hleft hs).test (by omega)) hright.1
        (below_cons.mp hright.2).2 o
    rw [hnearest, ok_bind, toOption_bind, Option.bind_assoc, hops, hread]
    rfl

/-- An operator of the tightest precedence that is left is read as what applying it makes. -/
theorem onePass_apply (hleft : Below op.precedence left) (hright : Below (op.precedence + 1) right) :
    onePass (left.reverse ++ .operator op :: right) =
      (op.apply left right).toOption.bind fun after => onePass (after.1.reverse ++ after.2) := by
  cases hbinary : op.isBinary with
  | true => exact onePass_apply_binary hbinary hleft hright
  | false =>
    cases op with
    | isNull | isBool | between => exact onePass_apply_unary rfl rfl left right
    | not => exact onePass_apply_not hleft hright
    | like | member | and | or => cases hbinary

theorem below_replace {p : Nat} {skipped beyond : List Cell} {o : Operand} (h : Below p cells)
    (hnearest : nearest cells = .ok (skipped, o, beyond)) (c : Condition) :
    Below p (skipped ++ .ofCondition c :: beyond) ∧ Below p (skipped ++ beyond) := by
  rw [nearest_eq_ok hnearest, below_append, below_cons] at h
  rw [below_append, below_cons, below_append]
  exact ⟨⟨h.1, below_operand p _, h.2.2⟩, h.1, h.2.2⟩

/-- Applying an operator leaves operators that were there. -/
theorem below_apply {p q : Nat} {after : List Cell × List Cell} (hleft : Below p left)
    (hright : Below q right) (h : op.apply left right = .ok after) :
    Below p after.1 ∧ Below q after.2 := by
  cases hbinary : op.isBinary with
  | true =>
    rw [Connective.apply_binary hbinary] at h
    obtain ⟨found, hnearest, found', hnearest', c, -, rfl⟩ := bind₃_eq_ok.mp h
    exact ⟨(below_replace hleft hnearest c).1, (below_replace hright hnearest' c).2⟩
  | false =>
    cases op with
    | isNull | isBool | between =>
      rw [Connective.apply_unary rfl rfl] at h
      obtain ⟨found, hnearest, c, -, rfl⟩ := bind₂_eq_ok.mp h
      exact ⟨(below_replace hleft hnearest c).1, hright⟩
    | not =>
      rw [apply_not] at h
      obtain ⟨found, hnearest, c, -, rfl⟩ := bind₂_eq_ok.mp h
      exact ⟨hleft, (below_replace hright hnearest c).1⟩
    | like | member | and | or => cases hbinary

end

/-! ### Sweeping -/

/-- A sweep does not change what is read, and leaves no operator of its precedence. -/
theorem onePass_sweep {p : Nat} {left right : List Cell} (hleft : Below p left)
    (hright : Below (p + 1) right) :
    onePass (left.reverse ++ right) = (fullSweep p left right).toOption.bind onePass ∧
      ∀ out, fullSweep p left right = .ok out → Below p out := by
  induction hn : right.length using Nat.strongRecOn generalizing left right with
  | ind n ih =>
    cases right with
    | nil =>
      rw [fullSweep_nil, append_nil]
      refine ⟨rfl, fun out hout => ?_⟩
      cases hout
      exact below_reverse.mpr hleft
    | cons cell right =>
      obtain ⟨hcell, hrest⟩ := below_cons.mp hright
      have hpush (hcell : Below p [cell]) := ih right.length (by simp at hn; omega)
        (below_cons.mpr ⟨hcell, hleft⟩) hrest rfl
      rw [reverse_cons, append_assoc] at hpush
      cases cell with
      | operand o => exact hpush (below_operand p o)
      | operator op =>
        have hle : op.precedence < p + 1 := hcell op mem_cons_self
        by_cases hop : op.precedence = p
        · subst hop
          rw [fullSweep_operator rfl, onePass_apply hleft hrest, toOption_bind]
          cases hafter : op.apply left right with
          | error fault => exact ⟨rfl, nofun⟩
          | ok after =>
            obtain ⟨hleft', hright'⟩ := below_apply hleft hrest hafter
            have hlength : after.2.length ≤ right.length := Connective.apply_length hafter
            exact ih after.2.length (by simp at hn; omega) hleft' hright' rfl
        · rw [fullSweep_operator_of_ne hop]
          refine hpush fun x hx => ?_
          cases mem_singleton.mp hx
          omega

/-- The precedences from one down. -/
def downFrom : Nat → List Nat
  | 0 => []
  | p + 1 => (p + 1) :: downFrom p

/-- Sweeps down to the last precedence do not change what is read, and leave no operators. -/
theorem onePass_sweeps (p : Nat) (h : Below (p + 1) cells) :
    let swept := (downFrom p).foldlM (fun cells p => sweep p cells.length [] cells) cells
    onePass cells = swept.toOption.bind onePass ∧ ∀ out, swept = .ok out → Below 1 out := by
  induction p generalizing cells with
  | zero =>
    refine ⟨rfl, fun out hout => ?_⟩
    cases hout
    exact h
  | succ p ih =>
    have hnil : Below (p + 1) [] := nofun
    obtain ⟨hread, hbelow⟩ := onePass_sweep hnil h
    rw [reverse_nil, nil_append] at hread
    show onePass cells = (fullSweep (p + 1) [] cells >>= _ : Compiled _).toOption.bind onePass ∧
      ∀ out, (fullSweep (p + 1) [] cells >>= _ : Compiled _) = .ok out → Below 1 out
    cases hswept : fullSweep (p + 1) [] cells with
    | error fault =>
      rw [hread, hswept]
      exact ⟨rfl, nofun⟩
    | ok out =>
      rw [hread, hswept]
      exact ih (hbelow out hswept)

/-- A row without operators. -/
theorem eq_map_of_below (h : Below 1 cells) : ∃ os : List Operand, cells = os.map .operand := by
  induction cells with
  | nil => exact ⟨[], rfl⟩
  | cons cell cells ih =>
    obtain ⟨hcell, hcells⟩ := below_cons.mp h
    obtain ⟨os, rfl⟩ := ih hcells
    cases cell with
    | operand o => exact ⟨o :: os, rfl⟩
    | operator op =>
      have hlt : op.precedence < 1 := hcell op mem_cons_self
      have hpos : 0 < op.precedence := by
        cases op with
        | member negated => cases negated <;> decide
        | _ => simp [Connective.precedence]
      omega

theorem operandsOf_map (os : List Operand) : operandsOf (os.map .operand) = os := by
  rw [operandsOf, filterMap_map]
  exact filterMap_some

/-- One operand is read as the condition that it stands for. -/
theorem onePass_operand (o : Operand) : onePass [.operand o] = o.toCondition.toOption := by
  have halternative := OnePass.alternative_seat (s := {}) rfl o
  have hread : onePass [.operand o] = (OnePass.seat {} o).total := rfl
  rw [hread, OnePass.total, halternative]
  cases o.toCondition <;> rfl

/-- **Reading in one pass.**  The row of a condition is accepted exactly if reading it in one pass
accepts it, and then with the same condition. -/
theorem onePass_eq (cells : List Cell) : onePass cells = (reduce cells).toOption := by
  have hbelow : Below 9 cells := by
    intro op _
    cases op with
    | member negated => cases negated <;> decide
    | _ => simp [Connective.precedence]
  obtain ⟨hread, hlast⟩ := onePass_sweeps 8 hbelow
  rw [hread, reduce, toOption_bind]
  show (sweepAll cells).toOption.bind onePass = _
  cases hswept : sweepAll cells with
  | error fault => rfl
  | ok out =>
    obtain ⟨os, rfl⟩ := eq_map_of_below (hlast out hswept)
    rw [toOption_ok, Option.bind_some, Option.bind_some, operandsOf_map]
    rcases os with _ | ⟨o, _ | ⟨o', os⟩⟩
    · rfl
    · exact onePass_operand o
    · -- nothing waits for the second operand
      rfl

end DocSql
