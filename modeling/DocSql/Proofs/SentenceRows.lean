import DocSql.Proofs.ConditionGrammar
import DocSql.Proofs.OnePassSweeps

/-! # The rows of sentences

A sentence of the grammar is laid out as a row of cells: its atoms with the operators of their tests,
NOTs before them, and AND and OR between them.  Reading such a row in one pass gives the condition of
the sentence (`onePass_cells`): an atom is read as what its test makes of it, and the reader
comes from factor to factor with nothing waiting.
-/
namespace DocSql
open Compiled List

namespace Grammar

/-! ### Rows joined by a connective -/

/-- A row that is not empty: its first member and those behind it. -/
abbrev Chain (α : Type) := α × List α

namespace Chain

variable {α β : Type}

/-- The members of a row. -/
def toList (c : Chain α) : List α := c.1 :: c.2

/-- The cells of a row whose members are joined by a connective. -/
def cells (op : Connective) (f : α → List Cell) (c : Chain α) : List Cell :=
  f c.1 ++ c.2.flatMap fun a => .operator op :: f a

/-- A step for each member of a row, from left to right. -/
def traverse (g : α → Compiled β) (c : Chain α) : Compiled (Chain β) := do
  let b ← g c.1
  let bs ← c.2.mapM g
  return (b, bs)

theorem mapM_toList (g : α → Compiled β) (c : Chain α) :
    c.toList.mapM g = do return (← c.traverse g).toList := by
  simp [toList, traverse, mapM_cons]

end Chain

/-! ### The parts of a sentence -/

/-- An operand that stands for a condition. -/
structure Tested where
  operand : Operand
  condition : Condition
  converts : operand.toCondition = .ok condition

/-- A condition that an operator has made. -/
def Tested.ofCondition (c : Condition) : Tested := ⟨.condition c false, c, rfl⟩

/-- What an atom of a sentence puts into the row. -/
inductive Leaf where
  /-- An operand that stands for a condition by itself. -/
  | operand (o : Tested)
  /-- A term, the operator of a test, and what else the operator takes. -/
  | test (t : Term) (op : Connective) (args : List Operand) (c : Condition)
      (tight : 4 ≤ op.precedence)
      (applies : ∀ left right, op.apply (.operand (.term t) :: left) (args.map .operand ++ right) =
          .ok (.ofCondition c :: left, right))

namespace Leaf

/-- What is left of the atom when its operator has been applied. -/
def result : Leaf → Tested
  | .operand o => o
  | .test _ _ _ c _ _ => .ofCondition c

/-- The cells of the atom when the operators from a precedence on have been applied. -/
def cellsFrom (precedence : Nat) : Leaf → List Cell
  | .operand o => [.operand o.operand]
  | .test t op args c _ _ =>
    if precedence ≤ op.precedence then [.ofCondition c]
    else .operand (.term t) :: .operator op :: args.map .operand

end Leaf

/-- An atom and the number of NOTs before it. -/
abbrev Factor := Nat × Leaf

namespace Factor

/-- The cells of a factor when the operators from a precedence on have been applied. -/
def cellsFrom (precedence : Nat) (f : Factor) : List Cell :=
  replicate f.1 (.operator .not) ++ f.2.cellsFrom precedence

end Factor

/-- The operand after a number of negations.  The first of them sees whether the operand is a
parenthesis, and the others see a condition that NOT has made. -/
def Tested.negateTimes : Nat → Tested → Compiled Tested
  | 0, o => .ok o
  | k + 1, o => do
    let c ← o.operand.negate
    negateTimes k (.ofCondition c)

/-- The operand of a factor after its NOTs. -/
def Factor.negated (f : Factor) : Compiled Tested := f.2.result.negateTimes f.1

/-- A sentence whose atoms are resolved. -/
abbrev Resolved := Chain (Chain Factor)

namespace Resolved

/-- The cells of a sentence when the operators from a precedence on have been applied. -/
def cellsFrom (precedence : Nat) (row : Resolved) : List Cell :=
  Chain.cells .or (Chain.cells .and (Factor.cellsFrom precedence)) row

/-- The cells of a sentence. -/
def cells (row : Resolved) : List Cell := row.cellsFrom 9

/-- Applies the NOTs of a sentence. -/
def negated (row : Resolved) : Compiled (Chain (Chain Tested)) :=
  Chain.traverse (Chain.traverse Factor.negated) row

/-- The condition of a sentence. -/
def condition (row : Resolved) : Compiled Condition := do
  let row ← row.negated
  return anyOf (row.toList.map fun c => allOf (c.toList.map Tested.condition))

end Resolved

/-- The cells of further factors and alternatives. -/
def tailCells (fs : List Factor) (cs : List (Chain Factor)) : List Cell :=
  fs.flatMap (fun f => .operator .and :: f.cellsFrom 9) ++
    cs.flatMap fun c => .operator .or :: Chain.cells .and (Factor.cellsFrom 9) c

theorem cells_eq (n : Nat) (l : Leaf) (fs : List Factor) (cs : List (Chain Factor)) :
    Resolved.cells (((n, l), fs), cs) =
      replicate n (.operator .not) ++ (l.cellsFrom 9 ++ tailCells fs cs) := by
  simp [Resolved.cells, Resolved.cellsFrom, Chain.cells, Factor.cellsFrom, tailCells]

theorem cellsFrom_test {t : Term} {op : Connective} {args : List Operand} {c : Condition}
    {tight : 4 ≤ op.precedence}
    {applies : ∀ left right, op.apply (.operand (.term t) :: left) (args.map .operand ++ right) =
        .ok (.ofCondition c :: left, right)} :
    (Leaf.test t op args c tight applies).cellsFrom 9 =
      .operand (.term t) :: .operator op :: args.map .operand := by
  have hle : op.precedence ≤ 8 := by
    cases op with
    | member negated => cases negated <;> decide
    | _ => simp [Connective.precedence]
  exact if_neg (by omega)

section

variable {t : Term} {op : Connective} {args : List Operand} {c : Condition}
  (applies : ∀ left right, op.apply (.operand (.term t) :: left) (args.map .operand ++ right) =
    .ok (.ofCondition c :: left, right))

include applies

/-- A test makes one condition only. -/
theorem eq_of_applies {c' : Condition}
    (h : op.apply [.operand (.term t)] (args.map .operand ++ []) = .ok ([.ofCondition c'], [])) :
    c' = c := by
  have happlies := applies [] []
  rw [h] at happlies
  cases happlies
  rfl

/-- A test that takes no right operand has none. -/
theorem args_of_unary (hop : op.isTest = true) (hbinary : op.isBinary = false) :
    args = [] ∧ op.unary (.term t) = .ok c := by
  have happlies := applies [] []
  rw [Connective.apply_unary hop hbinary, nearest_operand, ok_bind] at happlies
  obtain ⟨d, hd, happlies⟩ := bind_eq_ok.mp happlies
  cases args with
  | nil =>
    cases happlies
    exact ⟨rfl, hd⟩
  | cons o args => cases happlies

/-- A test that takes a right operand has just one. -/
theorem args_of_binary (hbinary : op.isBinary = true) :
    ∃ o, args = [o] ∧ op.binary (.term t) o = .ok c := by
  have happlies := applies [] []
  rw [Connective.apply_binary hbinary, nearest_operand, ok_bind] at happlies
  cases args with
  | nil => cases happlies
  | cons o args =>
    rw [map_cons, cons_append, nearest_operand, ok_bind] at happlies
    obtain ⟨d, hd, happlies⟩ := bind_eq_ok.mp happlies
    cases args with
    | nil =>
      cases happlies
      exact ⟨o, rfl, hd⟩
    | cons o' args => cases happlies

end

/-! ### Reading a sentence -/

/-- An atom is read as what its test makes of it. -/
theorem Leaf.run_cells (l : Leaf) (s : OnePass) :
    s.run (l.cellsFrom 9) = s.run [.operand l.result.operand] := by
  cases l with
  | operand o => rfl
  | test t op args c tight applies =>
    have hop : op.isTest = true := Connective.isTest_iff.mpr tight
    rw [cellsFrom_test]
    cases hbinary : op.isBinary with
    | true =>
      obtain ⟨o, rfl, hc⟩ := args_of_binary applies hbinary
      rw [map_singleton, s.run_binary_of_test hop hbinary, hc]
      rfl
    | false =>
      obtain ⟨rfl, hc⟩ := args_of_unary applies hop hbinary
      rw [map_nil, s.run_unary hop hbinary, hc]
      rfl

theorem run_nots (s : OnePass) (n : Nat) :
    s.run (replicate n (.operator .not)) = some { s with nots := s.nots + n } := by
  induction n generalizing s with
  | zero => rfl
  | succ n ih =>
    rw [replicate_succ, OnePass.run_cons, OnePass.step_operator rfl, Option.bind_some, ih,
      OnePass.defer, Nat.add_right_comm]
    rfl

/-- The state of the reader behind a factor, where nothing waits. -/
def behind (done factors : Option Condition) (f : Factor) : OnePass :=
  { done, factors, negations := f.1, atom := some f.2.result.operand }

/-- The condition of a factor, if it has one. -/
def Factor.condition? (f : Factor) : Option Condition := f.2.result.operand.negated f.1

variable {done factors : Option Condition} {f : Factor}

theorem alternative_behind :
    (behind done factors f).alternative = f.condition?.map (joinAnd factors) := by
  rw [Option.map_eq_bind]
  rfl

/-- A factor is read as its operand, with its NOTs waiting. -/
theorem Factor.run_cells (f : Factor) {s : OnePass} (htest : s.test = none) :
    s.run (f.cellsFrom 9) =
      ({ s with nots := s.nots + f.1 } : OnePass).vacate.map fun t => t.seat f.2.result.operand := by
  have hoperand := OnePass.step_operand (s := { s with nots := s.nots + f.1 }) htest
    f.2.result.operand
  rw [Factor.cellsFrom, OnePass.run_append, run_nots, Option.bind_some, Leaf.run_cells,
    OnePass.run_cons, hoperand]
  exact Option.bind_fun_some _

theorem run_first (f : Factor) : OnePass.run {} (f.cellsFrom 9) = some (behind none none f) := by
  rw [Factor.run_cells f rfl]
  simp [OnePass.vacate, OnePass.seat, behind]

/-- Behind an AND the alternative so far becomes the factors before the next one. -/
theorem run_and (f' : Factor) : (behind done factors f).run (.operator .and :: f'.cellsFrom 9) =
    (behind done factors f).alternative.map fun c => behind done (some c) f' := by
  rw [OnePass.run_cons, OnePass.step_operator rfl, Option.bind_some, Factor.run_cells f' rfl,
    OnePass.vacate_and rfl Nat.one_pos, Option.map_map]
  simp only [OnePass.defer, behind, Nat.zero_add]
  rfl

/-- Behind an OR all that was read becomes the alternatives before the next one. -/
theorem run_or (f' : Factor) : (behind done factors f).run (.operator .or :: f'.cellsFrom 9) =
    (behind done factors f).total.map fun c => behind (some c) none f' := by
  rw [OnePass.run_cons, OnePass.step_operator rfl, Option.bind_some, Factor.run_cells f' rfl,
    OnePass.vacate_or rfl rfl Nat.one_pos, Option.map_map]
  simp only [OnePass.defer, behind, Nat.zero_add]
  rfl

/-- The condition of the factors behind others, joined from the left. -/
def conjoined (factors : Option Condition) : Factor → List Factor → Option Condition
  | f, [] => f.condition?.map (joinAnd factors)
  | f, f' :: fs => (f.condition?.map (joinAnd factors)).bind fun c => conjoined (some c) f' fs

/-- The condition of the alternatives behind others, joined from the left. -/
def disjoined (done : Condition) : List (Chain Factor) → Option Condition
  | [] => some done
  | c :: cs => (conjoined none c.1 c.2).bind fun alternative => disjoined (done.or alternative) cs

theorem reads_factors {rest : List Cell} {after : Condition → Option Condition}
    (hrest : ∀ factors f,
      (behind done factors f).reads rest = (behind done factors f).alternative.bind after)
    (fs : List Factor) :
    (behind done factors f).reads (fs.flatMap (fun f => .operator .and :: f.cellsFrom 9) ++ rest) =
      (conjoined factors f fs).bind after := by
  induction fs generalizing factors f with
  | nil => rw [flatMap_nil, nil_append, hrest, alternative_behind, conjoined]
  | cons f' fs ih =>
    rw [flatMap_cons, append_assoc, OnePass.reads_append, run_and, alternative_behind,
      conjoined, Option.bind_assoc, Option.bind_map]
    exact congrArg _ (funext fun c => ih)

/-- What stands behind a factor is read as the factors and alternatives that it is made of. -/
theorem reads_behind (fs : List Factor) (cs : List (Chain Factor)) :
    (behind done factors f).reads (tailCells fs cs) =
      (conjoined factors f fs).bind fun c => disjoined (joinOr done c) cs := by
  induction cs generalizing done factors f fs with
  | nil =>
    have hend (factors : Option Condition) (f : Factor) : (behind done factors f).reads [] =
        (behind done factors f).alternative.bind fun c => disjoined (joinOr done c) [] :=
      Option.map_eq_bind
    exact reads_factors hend fs
  | cons c cs ih =>
    refine reads_factors (fun factors f => ?_) fs
    obtain ⟨f', fs'⟩ := c
    have htail : (behind done factors f).reads
        (.operator .or :: Chain.cells .and (Factor.cellsFrom 9) (f', fs') ++
          cs.flatMap fun c => .operator .or :: Chain.cells .and (Factor.cellsFrom 9) c) =
        ((behind done factors f).total.map fun c => behind (some c) none f').bind
          fun s => s.reads (tailCells fs' cs) := by
      rw [← run_or, ← OnePass.reads_append, Chain.cells, tailCells, cons_append, append_assoc]
      rfl
    rw [flatMap_cons, htail, OnePass.total, Option.map_map, Option.bind_map]
    exact congrArg _ (funext fun c => ih fs')

theorem onePass_cells (row : Resolved) :
    onePass row.cells = (conjoined none row.1.1 row.1.2).bind fun c => disjoined c row.2 := by
  obtain ⟨⟨⟨n, l⟩, fs⟩, cs⟩ := row
  have hfirst := run_first (n, l)
  rw [Factor.cellsFrom] at hfirst
  rw [cells_eq, ← append_assoc, onePass, OnePass.reads_append, hfirst]
  exact reads_behind fs cs

/-! ### The condition of a sentence -/

theorem joined_cons_join {join : List Condition → Condition} {parts : Condition → List Condition}
    (hparts : ∀ cs, parts (join cs) = cs) (c d : Condition) (cs : List Condition) :
    joined join parts (join (parts c ++ parts d) :: cs) = joined join parts (c :: d :: cs) := by
  cases cs <;> simp [joined, hparts]

theorem map_mapM_cons {α β γ : Type} (g : α → Option β) (h : List β → γ) (a : α) (as : List α) :
    ((a :: as).mapM g).map h = (g a).bind fun b => (as.mapM g).map fun bs => h (b :: bs) := by
  rw [mapM_cons]
  cases g a <;> cases as.mapM g <;> rfl

theorem conjoined_some (d : Condition) (f : Factor) (fs : List Factor) : conjoined (some d) f fs =
      ((f :: fs).mapM Factor.condition?).map fun cs => allOf (d :: cs) := by
  induction fs generalizing d f with
  | nil =>
    rw [map_mapM_cons, conjoined, Option.map_eq_bind]
    refine congrArg _ (funext fun c => congrArg some ?_)
    exact @joined_cons_join .all Condition.conjuncts (fun _ => rfl) d c []
  | cons f' fs ih =>
    rw [map_mapM_cons, conjoined, Option.bind_map]
    refine congrArg _ (funext fun c => (ih (d.and c) f').trans ?_)
    exact congrArg (Option.map · _) (funext (joined_cons_join (fun _ => rfl) d c))

/-- The condition of an alternative, if it has one. -/
def Chain.condition? (c : Chain Factor) : Option Condition :=
  (c.toList.mapM Factor.condition?).map allOf

theorem conjoined_none (c : Chain Factor) : conjoined none c.1 c.2 = c.condition? := by
  obtain ⟨f, _ | ⟨f', fs⟩⟩ := c
  · rw [Chain.condition?, Chain.toList, map_mapM_cons, conjoined, Option.map_eq_bind]
    rfl
  · rw [Chain.condition?, Chain.toList, map_mapM_cons, conjoined, Option.bind_map]
    exact congrArg _ (funext fun c => conjoined_some c f' fs)

theorem disjoined_eq (d : Condition) (cs : List (Chain Factor)) :
    disjoined d cs = (cs.mapM Chain.condition?).map fun cs => anyOf (d :: cs) := by
  induction cs generalizing d with
  | nil => rfl
  | cons c cs ih =>
    rw [map_mapM_cons, disjoined, conjoined_none]
    refine congrArg _ (funext fun e => (ih (d.or e)).trans ?_)
    exact congrArg (Option.map · _) (funext (joined_cons_join (fun _ => rfl) d e))

theorem Tested.toOption_negateTimes (k : Nat) (o : Tested) :
    (o.negateTimes k).toOption.map Tested.condition = o.operand.negated k := by
  induction k generalizing o with
  | zero => rw [Operand.negated, o.converts]; rfl
  | succ k ih =>
    rw [Tested.negateTimes, Operand.negated, toOption_bind, Option.map_bind]
    exact congrArg _ (funext fun c => ih (.ofCondition c))

theorem Chain.toOption_traverse {α β γ : Type} (g : α → Compiled β) (h : β → γ) (c : Chain α) :
    (c.traverse g).toOption.map (fun b => b.toList.map h) =
      c.toList.mapM fun a => (g a).toOption.map h := by
  have hlist (as : List α) : (as.mapM g).toOption.map (map h) =
      as.mapM fun a => (g a).toOption.map h := by
    induction as with
    | nil => rfl
    | cons a as ih =>
      rw [mapM_cons, mapM_cons, ← ih]
      cases g a <;> cases as.mapM g <;> rfl
  rw [← hlist, Chain.mapM_toList]
  cases c.traverse g <;> rfl

/-- The cells of a sentence are reduced to its condition. -/
theorem Resolved.reduce_cells (row : Resolved) :
    (reduce row.cells).toOption = row.condition.toOption := by
  have hfactor (f : Factor) : f.negated.toOption.map Tested.condition = f.condition? :=
    Tested.toOption_negateTimes f.1 f.2.result
  have hchain (c : Chain Factor) : (c.traverse Factor.negated).toOption.map
        (fun c => allOf (c.toList.map Tested.condition)) = c.condition? := by
    rw [Chain.condition?, ← funext hfactor, ← Chain.toOption_traverse, Option.map_map]
    rfl
  have hrow : row.condition.toOption = (row.toList.mapM Chain.condition?).map anyOf := by
    rw [← funext hchain, ← Chain.toOption_traverse, Option.map_map, Resolved.condition,
      Resolved.negated]
    cases Chain.traverse (Chain.traverse Factor.negated) row <;> rfl
  rw [← onePass_eq, onePass_cells, hrow, conjoined_none, Chain.toList, map_mapM_cons]
  exact congrArg _ (funext fun c => disjoined_eq c row.2)

theorem Resolved.reduce_eq_ok_iff {row : Resolved} {c : Condition} :
    reduce row.cells = .ok c ↔ row.condition = .ok c := by
  rw [← toOption_eq_some, ← toOption_eq_some, row.reduce_cells]

end Grammar

end DocSql
