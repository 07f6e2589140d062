import DocSql.Term.Basic

/-! # The parts of terms and conditions

A term stands inside another at any depth: as the argument of a call, in a branch of a CASE, in the
test of such a branch.  `Term.parts` and `Condition.parts` list all of them from left to right, each
with its route, the places that lead to it from the outside.

A search that does not go everywhere is described by the places that it passes through: it sees the
parts whose route has no other places (`seen`).
-/
namespace DocSql

/-- What a part is to the term or the condition around it. -/
inductive Place where
  /-- An operand of a comparison or of arithmetic, or what a test is about. -/
  | operand
  /-- The argument of a call. -/
  | argument
  /-- The condition of a CASE branch. -/
  | test
  /-- The result of a CASE branch, or of ELSE. -/
  | result
  /-- A term of the list that another term is looked for in. -/
  | member
  /-- A bound of BETWEEN. -/
  | bound
  /-- The pattern of LIKE. -/
  | pattern
  deriving DecidableEq

/-- A term inside another term or a condition. -/
structure Part where
  /-- The places that lead to it, the outermost first. -/
  route : List Place
  term : Term

/-- The part, seen from one place further out. -/
def Part.under (place : Place) (p : Part) : Part := ⟨place :: p.route, p.term⟩

mutual

/-- The parts of a term, itself first. -/
def Term.parts : Term → List Part
  | .compare l op r => ⟨[], .compare l op r⟩ :: (l.parts ++ r.parts).map (.under .operand)
  | .arith op l r => ⟨[], .arith op l r⟩ :: (l.parts ++ r.parts).map (.under .operand)
  | .aggregate fn d arg => ⟨[], .aggregate fn d arg⟩ :: arg.parts.map (.under .argument)
  | .dateTrunc unit arg => ⟨[], .dateTrunc unit arg⟩ :: arg.parts.map (.under .argument)
  | .caseOf arms => ⟨[], .caseOf arms⟩ :: arms.parts
  | .column c => [⟨[], .column c⟩]
  | .countAll => [⟨[], .countAll⟩]
  | .param i v => [⟨[], .param i v⟩]
  | .const v => [⟨[], .const v⟩]
  | .field name => [⟨[], .field name⟩]

/-- The parts of branches. -/
def Arms.parts : Arms → List Part
  | .done => []
  | .otherwise t => t.parts.map (.under .result)
  | .arm c t rest => c.parts.map (.under .test) ++ t.parts.map (.under .result) ++ rest.parts

/-- The parts of a condition. -/
def Condition.parts : Condition → List Part
  | .all cs => conditionParts cs
  | .any cs => conditionParts cs
  | .compare l _ r => (l.parts ++ r.parts).map (.under .operand)
  | .member t m _ => t.parts.map (.under .operand) ++ m.parts
  | .isNull t _ => t.parts.map (.under .operand)
  | .between t low high _ =>
    t.parts.map (.under .operand) ++ (low.parts ++ high.parts).map (.under .bound)
  | .like t pattern _ _ => t.parts.map (.under .operand) ++ pattern.parts.map (.under .pattern)
  | .truth t _ => t.parts.map (.under .operand)

/-- The parts of what a term is looked for in. -/
def Members.parts : Members → List Part
  | .list ts => (termParts ts).map (.under .member)
  | .subselect _ => []
  | .nested _ => []

/-- The parts of terms. -/
def termParts : List Term → List Part
  | [] => []
  | t :: ts => t.parts ++ termParts ts

/-- The parts of conditions. -/
def conditionParts : List Condition → List Part
  | [] => []
  | c :: cs => c.parts ++ conditionParts cs

end

/-! ### Searches -/

/-- Whether a search that passes through the given places comes to the part. -/
def Part.isReached (passes : Place → Bool) (p : Part) : Bool := p.route.all passes

/-- The terms that a search sees which passes through the given places. -/
def seen (passes : Place → Bool) (parts : List Part) : List Term :=
  (parts.filter (·.isReached passes)).map (·.term)

section

variable {passes : Place → Bool} {parts parts' : List Part}

@[simp] theorem seen_nil : seen passes [] = [] := rfl

/-- A term is seen by every search that starts at it. -/
@[simp] theorem seen_cons (t : Term) :
    seen passes (⟨[], t⟩ :: parts) = t :: seen passes parts := rfl

@[simp] theorem seen_append :
    seen passes (parts ++ parts') = seen passes parts ++ seen passes parts' := by
  simp [seen]

/-- A search goes below a place exactly if it passes through it. -/
@[simp] theorem seen_under (place : Place) : seen passes (parts.map (.under place)) =
    if passes place then seen passes parts else [] := by
  have hreached (p : Part) :
      (p.under place).isReached passes = (passes place && p.isReached passes) := rfl
  simp only [seen, List.filter_map, Function.comp_def, hreached, List.map_map]
  cases passes place with
  | true => simp [Part.under]
  | false => simp

theorem mem_seen {t : Term} : t ∈ seen passes parts ↔
    ∃ p ∈ parts, p.isReached passes = true ∧ p.term = t := by
  simp [seen, and_assoc]

end

end DocSql
