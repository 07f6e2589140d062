import Mathlib.Data.List.Chain
import Mathlib.Data.List.Perm.Basic
import Mathlib.Logic.Relation
import DocSql.Proofs.SentenceRows

/-! # Misplaced operators

The compiler of conditions accepts every sentence of the grammar, but not only sentences: an operator
takes the nearest operands, whatever other operators stand between.  So `a AND OR b c` is taken for
`a AND b OR c`.  This module says exactly what is accepted: the rows of operands and operators that
become the row of a sentence by moves of two kinds.  Two operators side by side may change places.
And an operator may move behind an operand that goes to an operator directly before it, if that one
binds as tight.  Where operators stand side by side only as they do in sentences, nothing has to be
moved: an accepted row is then the row of a sentence.
-/
namespace DocSql
open Compiled List

variable {cells cells' : List Cell} {c : Condition} {ops : List Connective} {op : Connective}

/-- A move of an operator in a row. -/
inductive Move : List Cell → List Cell → Prop
  /-- Two operators side by side change places. -/
  | swap (before : List Cell) (x y : Connective) (after : List Cell) :
    Move (before ++ .operator x :: .operator y :: after) (before ++ .operator y :: .operator x :: after)
  /-- An operator moves behind an operand that goes to the operator before it. -/
  | pass (before : List Cell) {op x : Connective} (hop : op.isBinary = true)
    (hx : x.precedence ≤ op.precedence) (o : Operand) (after : List Cell) :
    Move (before ++ .operator op :: .operator x :: .operand o :: after)
      (before ++ .operator op :: .operand o :: .operator x :: after)

/-- Moves of operators, one after the other. -/
abbrev Moves : List Cell → List Cell → Prop := Relation.ReflTransGen Move

/-! ### Moves do not change what is read -/

theorem onePass_of_run (h : ∀ s : OnePass, s.run cells = s.run cells') (before after : List Cell) :
    onePass (before ++ (cells ++ after)) = onePass (before ++ (cells' ++ after)) := by
  simp only [onePass, OnePass.reads_append, h]

theorem onePass_of_move (h : Move cells cells') : onePass cells = onePass cells' := by
  cases h with
  | swap before x y after => exact onePass_of_run (fun s => s.run_swap x y) before after
  | pass before hop hx o after => exact onePass_of_run (fun s => s.run_pass hop hx o) before after

theorem onePass_of_moves (h : Moves cells cells') : onePass cells = onePass cells' := by
  induction h with
  | refl => rfl
  | tail _ hmove ih => rw [ih, onePass_of_move hmove]

/-! ### Moves of several operators -/

theorem reduce_of_moves (h : Moves cells cells') :
    reduce cells = .ok c ↔ reduce cells' = .ok c := by
  rw [← toOption_eq_some, ← toOption_eq_some, ← onePass_eq, ← onePass_eq, onePass_of_moves h]

namespace Moves

theorem append_left (front : List Cell) (h : Moves cells cells') :
    Moves (front ++ cells) (front ++ cells') := by
  induction h with
  | refl => exact .refl
  | tail _ hmove ih =>
    refine ih.tail ?_
    cases hmove with
    | swap before x y after =>
      rw [← append_assoc, ← append_assoc]
      exact .swap (front ++ before) x y after
    | pass before hop hx o after =>
      rw [← append_assoc, ← append_assoc]
      exact .pass (front ++ before) hop hx o after

/-- The operators between two operands may stand in any order. -/
theorem perm {ops' : List Connective} (h : ops.Perm ops') (rest : List Cell) :
    Moves (ops.map .operator ++ rest) (ops'.map .operator ++ rest) := by
  induction h generalizing rest with
  | nil => exact .refl
  | cons x _ ih => exact (ih rest).append_left [.operator x]
  | swap x y ops => exact .single (.swap [] y x (ops.map Cell.operator ++ rest))
  | trans _ _ ih ih' => exact (ih rest).trans (ih' rest)

/-- Operators may move behind an operand that goes to an operator before them. -/
theorem pass_all (hop : op.isBinary = true) (hops : ∀ x ∈ ops, x.precedence ≤ op.precedence)
    (o : Operand) (rest : List Cell) :
    Moves (.operator op :: (ops.map .operator ++ .operand o :: rest))
      (.operator op :: .operand o :: (ops.map .operator ++ rest)) := by
  induction ops generalizing rest with
  | nil => exact .refl
  | cons x ops ih =>
    obtain ⟨hx, hops⟩ := forall_mem_cons.mp hops
    -- `x` steps aside, and comes back to move last
    have haside : Moves (.operator op :: .operator x :: (ops.map .operator ++ .operand o :: rest))
        (.operator x :: .operator op :: (ops.map .operator ++ .operand o :: rest)) :=
      .single (.swap [] op x _)
    have hothers := (ih hops rest).append_left [.operator x]
    have hback : Moves (.operator x :: .operator op :: .operand o :: (ops.map .operator ++ rest))
        (.operator op :: .operator x :: .operand o :: (ops.map .operator ++ rest)) :=
      .single (.swap [] x op _)
    exact haside.trans (hothers.trans (hback.tail (.pass [] hop hx o _)))

end Moves

/-! ### The sentence of an accepted row -/

namespace Grammar

variable {o : Operand}

/-- An atom that starts with a condition is that condition. -/
theorem Leaf.eq_nil_of_condition {l : Leaf} {grouped : Bool} {suffix : List Cell}
    (h : l.cellsFrom 9 = .operand (.condition c grouped) :: suffix) : suffix = [] := by
  cases l with
  | operand o => exact (cons.inj h).2.symm
  | test t op args c' tight applies =>
    rw [Leaf.cellsFrom] at h
    split at h
    · cases h
      rfl
    · cases h

theorem leaf_of_unary (hop : op.isTest = true) (hbinary : op.isBinary = false) {t : Term}
    (hc : op.unary (.term t) = .ok c) :
    ∃ l : Leaf, l.cellsFrom 9 = [.operand (.term t), .operator op] := by
  have happlies (left right : List Cell) :
      op.apply (.operand (.term t) :: left) (([] : List Operand).map .operand ++ right) =
        .ok (.ofCondition c :: left, right) := by
    simp [Connective.apply_unary hop hbinary, hc]
  exact ⟨.test t op [] c (Connective.isTest_iff.mp hop) happlies, cellsFrom_test⟩

theorem leaf_of_binary (hop : op.isTest = true) (hbinary : op.isBinary = true) {t : Term}
    (hc : op.binary (.term t) o = .ok c) :
    ∃ l : Leaf, l.cellsFrom 9 = [.operand (.term t), .operator op, .operand o] := by
  have happlies (left right : List Cell) :
      op.apply (.operand (.term t) :: left) ([o].map .operand ++ right) =
        .ok (.ofCondition c :: left, right) := by
    simp [Connective.apply_binary hbinary, hc]
  exact ⟨.test t op [o] c (Connective.isTest_iff.mp hop) happlies, cellsFrom_test⟩

/-- The operators that wait. -/
def waiting (s : OnePass) : List Connective :=
  replicate s.nots .not ++ (replicate s.ands .and ++ replicate s.ors .or)

theorem waiting_defer (s : OnePass) (h : op.isTest = false) :
    (waiting s ++ [op]).Perm (waiting (s.defer op)) := by
  have hfirst : (waiting s ++ [op]).Perm (op :: waiting s) := perm_append_singleton op (waiting s)
  refine hfirst.trans ?_
  cases op with
  | not => exact .refl _
  | and => exact perm_middle.symm
  | or =>
    rw [waiting, waiting, ← append_assoc, ← append_assoc]
    exact perm_middle.symm
  | _ => cases h

theorem precedence_waiting {s : OnePass} {x : Connective} (h : x ∈ waiting s) : x.precedence ≤ 3 := by
  simp only [waiting, mem_append, mem_replicate] at h
  rcases h with ⟨-, rfl⟩ | ⟨-, rfl⟩ | ⟨-, rfl⟩ <;> decide

/-- What is read as a condition stands for one. -/
theorem toCondition_of_negated {n : Nat} (h : o.negated n = some c) :
    ∃ d, o.toCondition = .ok d := by
  cases n with
  | zero => exact ⟨c, toOption_eq_some.mp h⟩
  | succ n =>
    obtain ⟨d, hd, -⟩ := Option.bind_eq_some_iff.mp h
    have hd := toOption_eq_some.mp hd
    cases o with
    | condition c' grouped => exact ⟨c', rfl⟩
    | term t | members m =>
      obtain ⟨d', hd', -⟩ := bind_eq_ok.mp hd
      exact ⟨d', hd'⟩

/-- What is left of a row becomes the rest of the last atom, and further factors and alternatives. -/
def Completes (s : OnePass) (a : Operand) (rest : List Cell) : Prop :=
  ∃ (l : Leaf) (suffix : List Cell) (fs : List Factor) (cs : List (Chain Factor)),
    l.cellsFrom 9 = .operand a :: suffix ∧
      Moves (s.test.toList.map .operator ++ ((waiting s).map .operator ++ rest))
        (suffix ++ tailCells fs cs)

variable {s t : OnePass} {a : Operand} {rest : List Cell}

/-- A test is made of a term that no other test is made of. -/
theorem ask_eq_some (h : s.ask op = some t) : ∃ term, s.test = none ∧ s.atom = some (.term term) ∧
      (op.isBinary = true ∧ t = { s with test := some op } ∨
        op.isBinary = false ∧ ∃ c, op.unary (.term term) = .ok c ∧ t = s.close c) := by
  obtain ⟨term, hterm, h⟩ := Option.bind_eq_some_iff.mp h
  obtain ⟨hs, hatom⟩ : s.test = none ∧ s.atom = some (.term term) := by
    unfold OnePass.term? at hterm
    split at hterm
    · cases hterm
      exact ⟨‹_›, ‹_›⟩
    · cases hterm
  refine ⟨term, hs, hatom, ?_⟩
  cases hbinary : op.isBinary with
  | true =>
    rw [if_pos hbinary] at h
    exact .inl ⟨rfl, (Option.some.inj h).symm⟩
  | false =>
    rw [if_neg (by simp [hbinary])] at h
    obtain ⟨c, hc, rfl⟩ := Option.map_eq_some_iff.mp h
    exact .inr ⟨rfl, c, toOption_eq_some.mp hc, rfl⟩

/-- A test that waits has a term on its left. -/
theorem answer_eq_some (h : s.answer op o = some t) :
    ∃ term c, s.atom = some (.term term) ∧ op.isTest = true ∧ op.isBinary = true ∧
      op.binary (.term term) o = .ok c ∧ t = s.close c := by
  obtain ⟨c, hc, rfl⟩ := Option.map_eq_some_iff.mp h
  obtain ⟨a, ha, hc⟩ := Option.bind_eq_some_iff.mp hc
  split at hc
  · rename_i hop
    have hc' := toOption_eq_some.mp hc
    have hbinary : op.isBinary = true := by
      cases op with
      | like | member | and | or => rfl
      | isNull | isBool | between | not => cases hc'
    cases a with
    | term term => exact ⟨term, c, ha, hop, hbinary, hc', rfl⟩
    | condition | members =>
      rw [Connective.binary_of_isTest hop rfl] at hc
      cases hc
  · cases hc

/-- An atom that no test is made of. -/
theorem leaf_of_alternative (ha : s.atom = some a) (h : s.alternative = some c) :
    ∃ l : Leaf, l.cellsFrom 9 = [.operand a] := by
  obtain ⟨b, hb, h⟩ := Option.bind_eq_some_iff.mp h
  cases ha.symm.trans hb
  obtain ⟨d, hd, -⟩ := Option.bind_eq_some_iff.mp h
  obtain ⟨c', hc'⟩ := toCondition_of_negated hd
  exact ⟨.operand ⟨a, c', hc'⟩, rfl⟩

/-- A connective that waits is used up: an AND, or else an OR. -/
def UsesUp (s t : OnePass) : Prop := 0 < s.ands ∧ t.ands = s.ands - 1 ∧ t.ors = s.ors ∨
    s.ands = 0 ∧ 0 < s.ors ∧ t.ands = 0 ∧ t.ors = s.ors - 1

/-- An atom makes room for the next if it is a condition and a connective waits. -/
theorem usesUp_of_vacate (ha : s.atom = some a) (h : s.vacate = some t) :
    (∃ l : Leaf, l.cellsFrom 9 = [.operand a]) ∧ UsesUp s t := by
  by_cases hands : 0 < s.ands
  · rw [OnePass.vacate_and ha hands] at h
    obtain ⟨c, hc, rfl⟩ := Option.map_eq_some_iff.mp h
    exact ⟨leaf_of_alternative ha hc, .inl ⟨hands, rfl, rfl⟩⟩
  · have hands : s.ands = 0 := by omega
    by_cases hors : 0 < s.ors
    · rw [OnePass.vacate_or ha hands hors] at h
      obtain ⟨c, hc, rfl⟩ := Option.map_eq_some_iff.mp h
      obtain ⟨c', hc', -⟩ := Option.map_eq_some_iff.mp hc
      exact ⟨leaf_of_alternative ha hc', .inr ⟨hands, hors, hands, rfl⟩⟩
    · rw [OnePass.vacate_none ha hands (by omega)] at h
      cases h

theorem completes_nil (ha : s.atom = some a) (h : s.finish = some c) : Completes s a [] := by
  rw [OnePass.finish] at h
  split at h
  · rename_i hdone
    obtain ⟨htest, hnots, hands, hors⟩ := hdone
    obtain ⟨d, hd, -⟩ := Option.map_eq_some_iff.mp h
    obtain ⟨l, hl⟩ := leaf_of_alternative ha hd
    refine ⟨l, [], [], [], hl, ?_⟩
    rw [Option.isNone_iff_eq_none.mp htest, waiting, hnots, hands, hors]
    exact .refl
  · cases h

/-- A connective waits. -/
theorem completes_defer (hop : op.isTest = false) (h : Completes (s.defer op) a rest) :
    Completes s a (.operator op :: rest) := by
  obtain ⟨l, suffix, fs, cs, hl, hmoves⟩ := h
  have htest : (s.defer op).test = s.test := by cases op <;> rfl
  rw [htest] at hmoves
  have hwaits := Moves.perm (waiting_defer s hop) rest
  rw [map_append, append_assoc] at hwaits
  exact ⟨l, suffix, fs, cs, hl, (hwaits.append_left _).trans hmoves⟩

/-- A test moves to the term that it is made of. -/
theorem moves_test (hs : s.test = none) (op : Connective) (rest : List Cell) :
    Moves (s.test.toList.map .operator ++ ((waiting s).map .operator ++ .operator op :: rest))
      (.operator op :: ((waiting s).map .operator ++ rest)) := by
  have hfirst := Moves.perm (perm_append_singleton op (waiting s)) rest
  rw [map_append, append_assoc] at hfirst
  rw [hs]
  exact hfirst

theorem completes_ask (hop : op.isTest = true) (ha : s.atom = some a) (ht : s.ask op = some t)
    (h : ∀ b, t.atom = some b → Completes t b rest) : Completes s a (.operator op :: rest) := by
  obtain ⟨term, hs, hatom, hcases⟩ := ask_eq_some ht
  cases ha.symm.trans hatom
  have hmoves := moves_test hs op rest
  rcases hcases with ⟨-, rfl⟩ | ⟨hbinary, c, hc, rfl⟩
  · obtain ⟨l, suffix, fs, cs, hl, hrest⟩ := h _ hatom
    exact ⟨l, suffix, fs, cs, hl, hmoves.trans hrest⟩
  · obtain ⟨l, suffix, fs, cs, hl, hrest⟩ := h _ rfl
    cases Leaf.eq_nil_of_condition hl
    obtain ⟨l', hl'⟩ := leaf_of_unary hop hbinary hc
    exact ⟨l', [.operator op], fs, cs, hl', hmoves.trans (hrest.append_left [.operator op])⟩

/-- The right operand moves to its test. -/
theorem completes_answer (hs : s.test = some op) (ha : s.atom = some a)
    (ht : s.answer op o = some t) (h : ∀ b, t.atom = some b → Completes t b rest) :
    Completes s a (.operand o :: rest) := by
  obtain ⟨term, c, hatom, hop, hbinary, hc, rfl⟩ := answer_eq_some ht
  cases ha.symm.trans hatom
  obtain ⟨l, suffix, fs, cs, hl, hrest⟩ := h _ rfl
  cases Leaf.eq_nil_of_condition hl
  obtain ⟨l', hl'⟩ := leaf_of_binary hop hbinary hc
  refine ⟨l', [.operator op, .operand o], fs, cs, hl', ?_⟩
  have hle : ∀ x ∈ waiting s, x.precedence ≤ op.precedence := fun x hx => by
    have hx := precedence_waiting hx
    rw [Connective.isTest_iff] at hop
    omega
  rw [hs]
  exact (Moves.pass_all hbinary hle o rest).trans (hrest.append_left [.operator op, .operand o])

/-- The next operand moves to the connective that it goes to, with the NOTs before it. -/
theorem moves_next (hop : op.isBinary = true) {n : Nat}
    (hops : ∀ x ∈ ops, x.precedence ≤ op.precedence) {l : Leaf} {suffix tail : List Cell}
    (hl : l.cellsFrom 9 = .operand o :: suffix)
    (hrest : Moves (ops.map .operator ++ rest) (suffix ++ tail)) :
    Moves ((replicate n Connective.not ++ op :: ops).map .operator ++ .operand o :: rest)
      (.operator op :: (Factor.cellsFrom 9 (n, l) ++ tail)) := by
  have hpass := (Moves.pass_all hop hops o rest).append_left (replicate n (.operator .not))
  have hfirst := Moves.perm (perm_append_singleton op (replicate n Connective.not))
    (.operand o :: (ops.map .operator ++ rest))
  have hrest := hrest.append_left (.operator op :: (replicate n (.operator .not) ++ [.operand o]))
  simp only [map_append, map_cons, map_replicate, map_nil, append_assoc,
    cons_append, nil_append, Factor.cellsFrom, hl] at hpass hfirst hrest ⊢
  exact hpass.trans (hfirst.trans hrest)

/-- The next operand goes to an AND, or to an OR. -/
theorem completes_next (hs : s.test = none) (ha : s.atom = some a) (ht : s.vacate = some t)
    (h : Completes (t.seat o) o rest) : Completes s a (.operand o :: rest) := by
  obtain ⟨l, suffix, fs, cs, hl, hrest⟩ := h
  have htest : (t.seat o).test = none := (OnePass.vacate_test ht).1.trans hs
  have hseat : waiting (t.seat o) = replicate t.ands .and ++ replicate t.ors .or := rfl
  rw [htest, hseat] at hrest
  obtain ⟨⟨l', hl'⟩, ⟨hands, htands, htors⟩ | ⟨hands, hors, htands, htors⟩⟩ := usesUp_of_vacate ha ht
  · have hwaits : waiting s = replicate s.nots .not ++
          .and :: (replicate t.ands .and ++ replicate t.ors .or) := by
      rw [waiting, htors, show s.ands = t.ands + 1 by omega]
      rfl
    have hle : ∀ x ∈ replicate t.ands Connective.and ++ replicate t.ors Connective.or,
        x.precedence ≤ Connective.and.precedence := fun x hx => by
      simp only [mem_append, mem_replicate] at hx
      rcases hx with ⟨-, rfl⟩ | ⟨-, rfl⟩ <;> decide
    refine ⟨l', [], (s.nots, l) :: fs, cs, hl', ?_⟩
    rw [hs, hwaits]
    simpa [tailCells] using moves_next rfl hle hl hrest
  · have hwaits : waiting s = replicate s.nots .not ++ .or :: replicate t.ors .or := by
      rw [waiting, hands, show s.ors = t.ors + 1 by omega]
      rfl
    have hle : ∀ x ∈ replicate t.ors Connective.or, x.precedence ≤ Connective.or.precedence :=
      fun x hx => Nat.le_of_eq (congrArg Connective.precedence (eq_of_mem_replicate hx))
    refine ⟨l', [], [], ((s.nots, l), fs) :: cs, hl', ?_⟩
    rw [htands] at hrest
    rw [hs, hwaits]
    simpa [tailCells, Chain.cells] using moves_next rfl hle hl hrest

/-- What is left of an accepted row completes the atom, and goes on as a sentence. -/
theorem completes_of_reads (ha : s.atom = some a) (h : s.reads rest = some c) : Completes s a rest := by
  induction rest generalizing s a with
  | nil => exact completes_nil ha h
  | cons cell rest ih =>
    rw [OnePass.reads_cons] at h
    obtain ⟨t, ht, hread⟩ := Option.bind_eq_some_iff.mp h
    cases cell with
    | operator op =>
      cases hop : op.isTest with
      | true =>
        rw [OnePass.step_operator_of_test hop] at ht
        exact completes_ask hop ha ht fun b hb => ih hb hread
      | false =>
        rw [OnePass.step_operator hop] at ht
        cases ht
        exact completes_defer hop (ih (by cases op <;> exact ha) hread)
    | operand o =>
      cases hs : s.test with
      | some op =>
        rw [OnePass.step_operand_of_test hs] at ht
        exact completes_answer hs ha ht fun b hb => ih hb hread
      | none =>
        rw [OnePass.step_operand hs] at ht
        obtain ⟨u, hu, rfl⟩ := Option.map_eq_some_iff.mp ht
        exact completes_next hs ha hu (ih rfl hread)

/-- Before the first operand of an accepted row there are only NOTs. -/
theorem first_operand {n : Nat} (h : OnePass.reads { nots := n } rest = some c) :
    ∃ k o rest', rest = replicate k (.operator .not) ++ .operand o :: rest' ∧
      (OnePass.seat { nots := n + k } o).reads rest' = some c := by
  induction rest generalizing n with
  | nil =>
    rw [OnePass.reads_nil, OnePass.finish] at h
    split at h <;> cases h
  | cons cell rest ih =>
    cases cell with
    | operator op =>
      cases op with
      | not =>
        obtain ⟨k, o, rest', rfl, hread⟩ := ih (n := n + 1) h
        rw [Nat.add_right_comm] at hread
        exact ⟨k + 1, o, rest', rfl, hread⟩
      | _ =>
        rw [OnePass.reads_of_no_left (by simp [Connective.isTest, Connective.isBinary]) rfl] at h
        cases h
    | operand o => exact ⟨0, o, rest, rfl, h⟩

theorem reads_of_reduce (h : reduce cells = .ok c) :
    OnePass.reads { nots := 0 } cells = some c := by
  have hread := onePass_eq cells
  rw [h] at hread
  exact hread

/-- **What is accepted.**  A row of operands and operators is reduced to a condition exactly if its
operators can be moved such that it becomes the row of a sentence, and the sentence has that
condition. -/
theorem reduce_iff_moves (cells : List Cell) (c : Condition) :
    reduce cells = .ok c ↔ ∃ row : Resolved, Moves cells row.cells ∧ row.condition = .ok c := by
  constructor
  · intro h
    obtain ⟨n, o, rest, rfl, hread⟩ := first_operand (reads_of_reduce h)
    obtain ⟨l, suffix, fs, cs, hl, hmoves⟩ := completes_of_reads rfl hread
    have hrow : Moves (replicate n (.operator .not) ++ .operand o :: rest)
        (Resolved.cells (((n, l), fs), cs)) := by
      rw [cells_eq, hl]
      exact (hmoves.append_left [.operand o]).append_left _
    refine ⟨_, hrow, ?_⟩
    rw [← Resolved.reduce_eq_ok_iff, ← reduce_of_moves hrow]
    exact h
  · rintro ⟨row, hmoves, hrow⟩
    rw [reduce_of_moves hmoves, Resolved.reduce_eq_ok_iff]
    exact hrow

end Grammar

/-! ### Operators in place -/

/-- Whether a sentence has the two operators side by side anywhere: a NOT behind a connective, or a
connective behind a test that has no right operand. -/
def Connective.beside : Connective → Connective → Bool
  | x, .not => !x.isTest
  | x, .and | x, .or => x.isTest && !x.isBinary
  | _, _ => false

/-- Whether two cells may stand side by side, as far as operators are concerned. -/
def Cell.beside : Cell → Cell → Bool
  | .operator x, .operator y => x.beside y
  | _, _ => true

/-- No two operators stand side by side that do not so in a sentence. -/
abbrev InPlace (cells : List Cell) : Prop := cells.IsChain fun x y => x.beside y = true

/-- Whether an operator stands before the other one if both are in place between two operands. -/
def Connective.before : Connective → Connective → Bool
  | x, .not => !(x.isTest && x.isBinary)
  | x, .and | x, .or => x.isTest && !x.isBinary
  | _, _ => false

/-- Whether a cell stands before another one that no operand is between. -/
def Cell.before : Cell → Cell → Bool
  | .operator x, .operator y => x.before y
  | .operator _, .operand _ => true
  | .operand _, _ => false

namespace Cell

variable {x y z : Cell}

theorem before_trans (h : x.before y = true) (h' : y.before z = true) : x.before z = true := by
  cases x with
  | operand => cases h
  | operator x =>
    cases y with
    | operand => cases h'
    | operator y =>
      cases z with
      | operand => rfl
      | operator z => cases y <;> cases z <;> simp_all [before, Connective.before, Connective.isTest]

theorem before_antisymm (h : x.before y = true) (h' : y.before x = true) : x = y := by
  cases x with
  | operand => cases h
  | operator x =>
    cases y with
    | operand => cases h'
    | operator y => cases x <;> cases y <;> simp_all [before, Connective.before, Connective.isTest]

theorem before_of_beside {op : Connective} (h : (operator op).beside y = true) :
    (operator op).before y = true := by
  cases y with
  | operand o => rfl
  | operator y => cases y <;> cases op <;> first | rfl | cases h

end Cell

/-- The cells of a row, each with the number of operands before it. -/
def indexed (n : Nat) : List Cell → List (Nat × Cell)
  | [] => []
  | .operator op :: rest => (n, .operator op) :: indexed n rest
  | .operand o :: rest => (n, .operand o) :: indexed (n + 1) rest

/-- The order of indexed cells where the operators are in place. -/
def InOrder (a b : Nat × Cell) : Prop := a.1 < b.1 ∨ a.1 = b.1 ∧ a.2.before b.2 = true

instance : Trans InOrder InOrder InOrder where
  trans h h' := by
    rcases h with h | ⟨h, hbefore⟩
    · rcases h' with h' | ⟨h', -⟩
      · exact .inl (h.trans h')
      · exact .inl (h' ▸ h)
    · rcases h' with h' | ⟨h', hbefore'⟩
      · exact .inl (h ▸ h')
      · exact .inr ⟨h.trans h', Cell.before_trans hbefore hbefore'⟩

theorem map_indexed (n : Nat) (cells : List Cell) : (indexed n cells).map (·.2) = cells := by
  induction cells generalizing n with
  | nil => rfl
  | cons cell cells ih => cases cell <;> exact congrArg _ (ih _)

theorem pairwise_indexed (h : InPlace cells) (n : Nat) : (indexed n cells).Pairwise InOrder := by
  refine isChain_iff_pairwise.mp ?_
  induction cells generalizing n with
  | nil => exact .nil
  | cons cell cells ih =>
    have hhead (m : Nat) :
        ∀ next ∈ (indexed m cells).head?, next.1 = m ∧ cell.beside next.2 = true := by
      cases cells with
      | nil => simp [indexed]
      | cons next cells =>
        have hbeside := (isChain_cons_cons.mp h).1
        cases next <;> rintro _ ⟨⟩ <;> exact ⟨rfl, hbeside⟩
    cases cell with
    | operator op =>
      refine isChain_cons.mpr ⟨fun next hnext => ?_, ih h.tail n⟩
      obtain ⟨heq, hbeside⟩ := hhead n next hnext
      exact .inr ⟨heq.symm, Cell.before_of_beside hbeside⟩
    | operand o =>
      refine isChain_cons.mpr ⟨fun next hnext => .inl ?_, ih h.tail (n + 1)⟩
      rw [(hhead (n + 1) next hnext).1]
      exact Nat.lt_succ_self n

theorem Connective.not_before {x : Connective} (hop : op.isBinary = true)
    (hx : x.precedence ≤ op.precedence) : op.before x = false ∧ x.before op = false := by
  cases op <;> cases x <;> simp_all [before, isTest, isBinary, precedence]

/-- Operators that are in order but for their order between two operands only move there. -/
theorem perm_indexed (h : Move cells cells') {n : Nat}
    (hordered : (indexed n cells).Pairwise fun a b => InOrder a b ∨ InOrder b a) :
    (indexed n cells).Perm (indexed n cells') := by
  cases h with
  | swap before x y after =>
    clear hordered
    induction before generalizing n with
    | nil => exact .swap _ _ _
    | cons cell before ih => cases cell <;> exact ih.cons _
  | @pass before op x hop hx o after =>
    induction before generalizing n with
    | nil =>
      obtain ⟨hafter, hbefore⟩ := Connective.not_before hop hx
      have hpair := (pairwise_cons.mp hordered).1 _ mem_cons_self
      simp [InOrder, Cell.before, hafter, hbefore] at hpair
    | cons cell before ih => cases cell <;> exact (ih (pairwise_cons.mp hordered).2).cons _

theorem eq_of_moves (h : Moves cells cells') (hplace : InPlace cells) (hplace' : InPlace cells') :
    cells = cells' := by
  have hordered := pairwise_indexed hplace 0
  have hperm : (indexed 0 cells).Perm (indexed 0 cells') := by
    clear hplace'
    induction h with
    | refl => exact .refl _
    | tail _ hmove ih =>
      refine ih.trans (perm_indexed hmove ?_)
      exact ih.pairwise (hordered.imp .inl) Or.symm
  have hsame := hperm.eq_of_pairwise (fun a b _ _ h h' => ?_) hordered (pairwise_indexed hplace' 0)
  · rw [← map_indexed 0 cells, hsame, map_indexed]
  · rcases h with h | ⟨heq, h⟩
    · rcases h' with h' | ⟨heq', -⟩ <;> omega
    · rcases h' with h' | ⟨-, h'⟩
      · omega
      · exact Prod.ext heq (Cell.before_antisymm h h')

namespace Grammar

/-- A stretch of a sentence between two connectives: its operators are in place, and stay so if
connectives are put around it. -/
structure Fits (cells : List Cell) : Prop where
  inPlace : InPlace cells
  head : ∃ cell rest, cells = cell :: rest ∧
    ∀ op : Connective, op.isTest = false → (Cell.operator op).beside cell = true
  last : ∃ front cell, cells = front ++ [cell] ∧ cell.beside (.operator .and) = true ∧
    cell.beside (.operator .or) = true

namespace Fits

theorem cons (h : Fits cells) {cell : Cell}
    (hcell : ∀ next rest, cells = next :: rest → cell.beside next = true)
    (hhead : ∀ op : Connective, op.isTest = false → (Cell.operator op).beside cell = true) :
    Fits (cell :: cells) := by
  obtain ⟨next, rest, rfl, -⟩ := h.head
  obtain ⟨front, lastCell, hlast, hands, hors⟩ := h.last
  exact
    { inPlace := isChain_cons_cons.mpr ⟨hcell next rest rfl, h.inPlace⟩
      head := ⟨cell, _, rfl, hhead⟩
      last := ⟨cell :: front, lastCell, by rw [hlast]; rfl, hands, hors⟩ }

theorem operand (o : Operand) : Fits [.operand o] :=
  { inPlace := isChain_singleton _
    head := ⟨_, _, rfl, fun _ _ => rfl⟩
    last := ⟨[], _, rfl, rfl, rfl⟩ }

theorem not (h : Fits cells) : Fits (.operator .not :: cells) := by
  refine h.cons ?_ fun op hop => ?_
  · rintro next rest rfl
    obtain ⟨cell, rest', hcells, hhead⟩ := h.head
    cases hcells
    exact hhead .not rfl
  · simp [Cell.beside, Connective.beside, hop]

theorem join (h : Fits cells) (h' : Fits cells') (hop : op = .and ∨ op = .or) :
    Fits (cells ++ .operator op :: cells') := by
  obtain ⟨front, lastCell, rfl, hands, hors⟩ := h.last
  obtain ⟨cell, rest, rfl, hhead⟩ := h'.head
  obtain ⟨first, more, hfirst, hopens⟩ := h.head
  obtain ⟨front', lastCell', hlast', hcloses⟩ := h'.last
  have htest : op.isTest = false := by rcases hop with rfl | rfl <;> rfl
  have hbefore : lastCell.beside (.operator op) = true := by
    rcases hop with rfl | rfl
    · exact hands
    · exact hors
  have hplace : InPlace ((front ++ [lastCell]) ++ .operator op :: cell :: rest) := by
    have hbehind : InPlace (.operator op :: cell :: rest) :=
      isChain_cons_cons.mpr ⟨hhead op htest, h'.inPlace⟩
    refine isChain_append.mpr ⟨h.inPlace, hbehind, ?_⟩
    intro x hx y hy
    simp only [getLast?_append, getLast?_singleton, Option.some_or, Option.mem_def,
      Option.some.injEq, head?_cons] at hx hy
    subst hx hy
    exact hbefore
  exact
    { inPlace := hplace
      head := ⟨first, more ++ .operator op :: cell :: rest, by rw [hfirst]; rfl, hopens⟩
      last := ⟨(front ++ [lastCell]) ++ .operator op :: front', lastCell', by simp [hlast'], hcloses⟩ }

theorem leaf (l : Leaf) : Fits (l.cellsFrom 9) := by
  cases l with
  | operand o => exact operand o.operand
  | test t op args c tight applies =>
    have hop : op.isTest = true := Connective.isTest_iff.mpr tight
    rw [cellsFrom_test]
    cases hbinary : op.isBinary with
    | true =>
      obtain ⟨o, rfl, -⟩ := args_of_binary applies hbinary
      have hplace : InPlace [.operand (.term t), .operator op, .operand o] := by
        simp [InPlace, Cell.beside]
      exact ⟨hplace, ⟨_, _, rfl, fun _ _ => rfl⟩, ⟨[_, _], _, rfl, rfl, rfl⟩⟩
    | false =>
      obtain ⟨rfl, -⟩ := args_of_unary applies hop hbinary
      have hplace : InPlace [.operand (.term t), .operator op] := by simp [InPlace, Cell.beside]
      have hlast : op.isTest && !op.isBinary := by simp [hop, hbinary]
      exact ⟨hplace, ⟨_, _, rfl, fun _ _ => rfl⟩, ⟨[_], _, rfl, hlast, hlast⟩⟩

theorem factor (f : Factor) : Fits (f.cellsFrom 9) := by
  obtain ⟨k, l⟩ := f
  induction k with
  | zero => exact leaf l
  | succ k ih => exact ih.not

theorem chain {α : Type} (hop : op = .and ∨ op = .or) {f : α → List Cell} (hf : ∀ a, Fits (f a))
    (c : Chain α) : Fits (c.cells op f) := by
  obtain ⟨a, as⟩ := c
  induction as generalizing a with
  | nil => simpa [Chain.cells] using hf a
  | cons a' as ih =>
    exact (hf a).join (ih a') hop

end Fits

/-- The operators of a sentence are in place. -/
theorem inPlace_cells (row : Resolved) : InPlace row.cells :=
  (Fits.chain (.inr rfl) (fun c => Fits.chain (.inl rfl) Fits.factor c) row).inPlace

/-- An accepted row whose operators are in place is the row of a sentence. -/
theorem row_of_inPlace (hplace : InPlace cells) (h : reduce cells = .ok c) :
    ∃ row : Resolved, row.cells = cells := by
  obtain ⟨row, hmoves, -⟩ := (reduce_iff_moves cells c).mp h
  exact ⟨row, (eq_of_moves hmoves hplace (inPlace_cells row)).symm⟩

end Grammar

end DocSql
