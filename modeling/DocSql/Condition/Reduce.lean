import DocSql.Fault

/-! # Reducing operands and operators to a condition

A condition is read as a row of cells, operands and operators in the order of the text.  The
operators are then applied by precedence, and from left to right among equals.  Each takes the
nearest operands that are left beside it, whatever operators stand between, and leaves its result in
their place.
-/
namespace DocSql

/-- An operand of a condition. -/
inductive Operand where
  | term (t : Term)
  /-- A condition, and whether it is in parentheses. -/
  | condition (c : Condition) (grouped : Bool)
  | members (m : Members)

/-- An operator of a condition. -/
inductive Connective where
  | isNull (negated : Bool)
  | isBool (value negated : Bool)
  | between (low high : Term) (negated : Bool)
  | like (ignoreCase negated : Bool)
  | member (negated : Bool)
  | not
  | and
  | or

/-- How tight an operator binds. -/
def Connective.precedence : Connective → Nat
  | .isNull _ | .isBool .. => 8
  | .between .. => 7
  | .like .. => 6
  | .member false => 5
  | .member true => 4
  | .not => 3
  | .and => 2
  | .or => 1

/-- A cell of a condition. -/
inductive Cell where
  | operand (o : Operand)
  | operator (op : Connective)

/-! ### Operands -/

namespace Operand

/-- The operand as a condition: a comparison, a column or an alias can stand for one. -/
def toCondition : Operand → Compiled Condition
  | .condition c _ => .ok c
  | .term (.compare lhs op rhs) => .ok (.compare lhs op rhs)
  | .term (.column c) => .ok (.truth (.column c) false)
  | .term (.field name) => .ok (.truth (.field name) false)
  | .term t => undecodable (.valueForCondition t)
  | .members _ => undecodable .listOutsideIn

/-- The operand as a term. -/
def toTerm : Operand → Compiled Term
  | .term t => .ok t
  | _ => undecodable .conditionForValue

/-- The operand as what a term is looked for in. -/
def toMembers : Operand → Compiled Members
  | .members m => .ok m
  | .term t => .ok (.list [t])
  | .condition .. => undecodable .inWithoutList

end Operand

/-! ### Conditions -/

mutual

/-- Negates a condition by negating its tests.  A LIKE inside parentheses cannot be negated
(`grouped`). -/
def Condition.negate (grouped : Bool) : Condition → Compiled Condition
  | .all cs => do
    let cs ← negateAll grouped cs
    return .any cs
  | .any cs => do
    let cs ← negateAll grouped cs
    return .all cs
  | .compare lhs op rhs => .ok (.compare lhs op.negate rhs)
  | .member t m n => .ok (.member t m (!n))
  | .isNull t n => .ok (.isNull t (!n))
  | .between t low high n => .ok (.between t low high (!n))
  | .like t p i n => if grouped then unsupported .negatedGroupedLike else .ok (.like t p i (!n))
  | .truth t n => .ok (.truth t (!n))

/-- Negates each of the conditions. -/
def negateAll (grouped : Bool) : List Condition → Compiled (List Condition)
  | [] => .ok []
  | c :: cs => do
    let c ← c.negate grouped
    let cs ← negateAll grouped cs
    return c :: cs

end

/-- The conditions that a conjunction adds to another one. -/
def Condition.conjuncts : Condition → List Condition
  | .all cs => cs
  | c => [c]

/-- The conditions that a disjunction adds to another one. -/
def Condition.disjuncts : Condition → List Condition
  | .any cs => cs
  | c => [c]

/-- Both conditions. -/
def Condition.and (lhs rhs : Condition) : Condition := .all (lhs.conjuncts ++ rhs.conjuncts)

/-- One of the conditions. -/
def Condition.or (lhs rhs : Condition) : Condition := .any (lhs.disjuncts ++ rhs.disjuncts)

/-! ### Applying operators -/

/-- The nearest operand in a row of cells: the cells before it, the operand, and the cells beyond
it. -/
def nearest? : List Cell → Option (List Cell × Operand × List Cell)
  | [] => none
  | .operand o :: rest => some ([], o, rest)
  | .operator op :: rest =>
    (nearest? rest).map fun (skipped, o, beyond) => (.operator op :: skipped, o, beyond)

theorem nearest?_eq_some {cells skipped beyond : List Cell} {o : Operand}
    (h : nearest? cells = some (skipped, o, beyond)) :
    cells = skipped ++ .operand o :: beyond := by
  induction cells generalizing skipped with
  | nil => simp [nearest?] at h
  | cons c rest ih =>
      cases c with
      | operand o' =>
          simp only [nearest?, Option.some.injEq, Prod.mk.injEq] at h
          obtain ⟨rfl, rfl, rfl⟩ := h
          rfl
      | operator op =>
          simp only [nearest?, Option.map_eq_some_iff, Prod.exists, Prod.mk.injEq] at h
          obtain ⟨skipped', o', beyond', hrest, rfl, rfl, rfl⟩ := h
          rw [ih hrest, List.cons_append]

/-- The nearest operand, which must be there. -/
def nearest (cells : List Cell) : Compiled (List Cell × Operand × List Cell) :=
  match nearest? cells with
  | some found => .ok found
  | none => undecodable .missingOperand

/-- A condition as a cell. -/
def Cell.ofCondition (c : Condition) : Cell := .operand (.condition c false)

/-- Applies an operator.  `left` holds the cells before it, the nearest first, and `right` those
after it. -/
def Connective.apply (op : Connective) (left right : List Cell) :
    Compiled (List Cell × List Cell) :=
  match op with
  | .not => do
    let (skipped, o, beyond) ← nearest right
    let c ← match o with
      | .condition c grouped => c.negate grouped
      | o => do (← o.toCondition).negate false
    return (left, skipped ++ .ofCondition c :: beyond)
  | .isNull negated => do
    let (skipped, o, beyond) ← nearest left
    let t ← o.toTerm
    return (skipped ++ .ofCondition (.isNull t negated) :: beyond, right)
  | .isBool value negated => do
    let (skipped, o, beyond) ← nearest left
    let t ← o.toTerm
    let c := Condition.compare t (if negated then .ne else .eq) (.const (.bool value))
    return (skipped ++ .ofCondition c :: beyond, right)
  | .between low high negated => do
    let (skipped, o, beyond) ← nearest left
    let t ← o.toTerm
    return (skipped ++ .ofCondition (.between t low high negated) :: beyond, right)
  | .like ignoreCase negated => do
    let (skipped, o, beyond) ← nearest left
    let (skipped', o', beyond') ← nearest right
    let pattern ← o'.toTerm
    let t ← o.toTerm
    let c := Condition.like t pattern ignoreCase negated
    return (skipped ++ .ofCondition c :: beyond, skipped' ++ beyond')
  | .member negated => do
    let (skipped, o, beyond) ← nearest left
    let (skipped', o', beyond') ← nearest right
    let m ← o'.toMembers
    let t ← o.toTerm
    return (skipped ++ .ofCondition (.member t m negated) :: beyond, skipped' ++ beyond')
  | .and => do
    let (skipped, o, beyond) ← nearest left
    let (skipped', o', beyond') ← nearest right
    let rhs ← o'.toCondition
    let lhs ← o.toCondition
    return (skipped ++ .ofCondition (lhs.and rhs) :: beyond, skipped' ++ beyond')
  | .or => do
    let (skipped, o, beyond) ← nearest left
    let (skipped', o', beyond') ← nearest right
    let rhs ← o'.toCondition
    let lhs ← o.toCondition
    return (skipped ++ .ofCondition (lhs.or rhs) :: beyond, skipped' ++ beyond')

/-- Applies the operators of one precedence from left to right.  An operator is taken away when it is
applied and no cell is added, so the number of cells on the right is fuel enough. -/
def sweep (precedence : Nat) : Nat → List Cell → List Cell → Compiled (List Cell)
  | 0, left, right => .ok (left.reverse ++ right)
  | _, left, [] => .ok left.reverse
  | fuel + 1, left, .operand o :: right => sweep precedence fuel (.operand o :: left) right
  | fuel + 1, left, .operator op :: right =>
    if op.precedence = precedence then do
      let (left, right) ← op.apply left right
      sweep precedence fuel left right
    else sweep precedence fuel (.operator op :: left) right

/-- The precedences, from the tightest. -/
def precedences : List Nat := [8, 7, 6, 5, 4, 3, 2, 1]

/-- The operands of a row of cells. -/
def operandsOf (cells : List Cell) : List Operand :=
  cells.filterMap fun
    | .operand o => some o
    | .operator _ => none

/-- Applies all operators. -/
def sweepAll (cells : List Cell) : Compiled (List Cell) :=
  precedences.foldlM (fun cells precedence => sweep precedence cells.length [] cells) cells

/-- Reduces a row of cells to one condition. -/
def reduce (cells : List Cell) : Compiled Condition := do
  match operandsOf (← sweepAll cells) with
  | [] => undecodable .emptyCondition
  | [o] => o.toCondition
  | _ => undecodable .operandsWithoutOperator

end DocSql
