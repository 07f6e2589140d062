import DocSql.Condition.Reduce
import DocSql.Proofs.Lowering

/-! # Negation is exact

NOT is not a constructor of conditions: a negated condition has the negation pushed down to its
tests, where an operator turns into the opposite one or a flag is turned over.  This module proves
that what comes out is the negation, in the logic that SQL reads conditions in.  There a test can be
unknown besides true and false (`Kleene`), and a conjunction is unknown if no part is false and one
is unknown.

The truth of the tests is left open: a `Valuation` gives each test any of the three values, as long
as a test and its flipped form have opposite ones.  A document gives such a valuation
(`Valuation.ofDocument`).

The pushing down stops at one place only.  A LIKE under a NOT before parentheses is refused, and
`negate_true` says that this is the one reason to refuse.
-/
namespace DocSql

/-! ### Three truth values -/

/-- A truth value of SQL. -/
inductive Kleene where
  | no
  | unknown
  | yes
  deriving DecidableEq

namespace Kleene

/-- The opposite of a truth value. -/
def not : Kleene → Kleene
  | no => yes
  | unknown => unknown
  | yes => no

/-- The conjunction: the lower of the two values. -/
def and : Kleene → Kleene → Kleene
  | no, _ | _, no => no
  | yes, b => b
  | a, yes => a
  | unknown, unknown => unknown

/-- The disjunction: the higher of the two values. -/
def or : Kleene → Kleene → Kleene
  | yes, _ | _, yes => yes
  | no, b => b
  | a, no => a
  | unknown, unknown => unknown

theorem not_and (a b : Kleene) : (a.and b).not = a.not.or b.not := by
  cases a <;> cases b <;> rfl

theorem not_or (a b : Kleene) : (a.or b).not = a.not.and b.not := by
  cases a <;> cases b <;> rfl

/-- The truth value of an answer that may be missing. -/
def ofOption : Option Bool → Kleene
  | some true => yes
  | some false => no
  | none => unknown

theorem ofOption_map_not (b : Option Bool) : ofOption (b.map (!·)) = (ofOption b).not := by
  rcases b with _ | b
  · rfl
  · cases b <;> rfl

end Kleene

/-! ### Tests and their truth -/

mutual

/-- The tests that a condition is made of by AND and OR. -/
def Condition.tests : Condition → List Condition
  | .all cs => testsOf cs
  | .any cs => testsOf cs
  | c => [c]

/-- The tests of several conditions. -/
def testsOf : List Condition → List Condition
  | [] => []
  | c :: cs => c.tests ++ testsOf cs

end

/-- Whether the condition is a LIKE. -/
def Condition.isLike : Condition → Bool
  | .like .. => true
  | _ => false

/-- The second operator holds exactly where the first one does not. -/
def Comparison.Complements (op op' : Comparison) : Prop :=
  ∀ a b : Int, op'.onInts a b = !op.onInts a b

/-- The second test is the first one with the opposite operator or its flag turned over. -/
inductive Flips : Condition → Condition → Prop
  | compare (lhs rhs : Term) {op op' : Comparison} (h : op.Complements op') :
      Flips (.compare lhs op rhs) (.compare lhs op' rhs)
  | member (t : Term) (m : Members) (n : Bool) : Flips (.member t m n) (.member t m (!n))
  | isNull (t : Term) (n : Bool) : Flips (.isNull t n) (.isNull t (!n))
  | between (t low high : Term) (n : Bool) :
      Flips (.between t low high n) (.between t low high (!n))
  | like (t p : Term) (i n : Bool) : Flips (.like t p i n) (.like t p i (!n))
  | truth (t : Term) (n : Bool) : Flips (.truth t n) (.truth t (!n))

/-- A truth value for each test, opposite ones for a test and its flipped form. -/
structure Valuation where
  test : Condition → Kleene
  flip : ∀ {c c' : Condition}, Flips c c' → test c' = (test c).not

namespace Valuation

variable (v : Valuation)

mutual

/-- The truth value of a condition. -/
def truth : Condition → Kleene
  | .all cs => truthOfAll cs
  | .any cs => truthOfAny cs
  | c => v.test c

/-- The truth value of the conjunction of several conditions. -/
def truthOfAll : List Condition → Kleene
  | [] => .yes
  | c :: cs => (truth c).and (truthOfAll cs)

/-- The truth value of the disjunction of several conditions. -/
def truthOfAny : List Condition → Kleene
  | [] => .no
  | c :: cs => (truth c).or (truthOfAny cs)

end

theorem holds?_of_flips (document : Value) {c c' : Condition} (h : Flips c c') :
    c'.holds? document = (c.holds? document).map (!·) := by
  cases h with
  | compare lhs rhs h =>
    simp only [Condition.holds?]
    cases lhs.number? document <;> cases rhs.number? document <;> simp [h _ _]
  | member t m n =>
    cases m with
    | list ts =>
      simp only [Condition.holds?]
      cases t.number? document <;> cases numbers? document ts <;> cases n <;> simp
    | subselect s => rfl
    | nested name => rfl
  | isNull t n | truth t n =>
    simp only [Condition.holds?]
    cases t.number? document <;> simp
  | between t low high n =>
    simp only [Condition.holds?]
    cases t.number? document <;> cases low.number? document <;> cases high.number? document <;>
      cases n <;> simp
  | like t p i n => rfl

/-- What a document makes of the tests over whole numbers, with the others unknown. -/
def ofDocument (document : Value) : Valuation where
  test c := .ofOption (c.holds? document)
  flip h := by rw [holds?_of_flips document h, Kleene.ofOption_map_not]

end Valuation

/-! ### Negation without refusal -/

mutual

/-- The condition with AND and OR exchanged and every test flipped. -/
def Condition.flipped : Condition → Condition
  | .all cs => .any (flippedAll cs)
  | .any cs => .all (flippedAll cs)
  | .compare lhs op rhs => .compare lhs op.negate rhs
  | .member t m n => .member t m (!n)
  | .isNull t n => .isNull t (!n)
  | .between t low high n => .between t low high (!n)
  | .like t p i n => .like t p i (!n)
  | .truth t n => .truth t (!n)

/-- Each of the conditions flipped. -/
def flippedAll : List Condition → List Condition
  | [] => []
  | c :: cs => c.flipped :: flippedAll cs

end

theorem Comparison.complements_negate (op : Comparison) : op.Complements op.negate := by
  intro a b
  cases op <;> simp only [Comparison.negate, Comparison.onInts, ← decide_not, Int.not_lt,
    Int.not_le, ne_eq, not_not]

mutual

theorem Condition.flipped_flipped : ∀ c : Condition, c.flipped.flipped = c
  | .all cs | .any cs => by simp [Condition.flipped, flippedAll_flippedAll cs]
  | .compare .. | .member .. | .isNull .. | .between .. | .like .. | .truth .. => by
    simp [Condition.flipped]

theorem flippedAll_flippedAll : ∀ cs : List Condition, flippedAll (flippedAll cs) = cs
  | [] => rfl
  | c :: cs => by simp [flippedAll, Condition.flipped_flipped c, flippedAll_flippedAll cs]

end

mutual

/-- Outside parentheses nothing is refused. -/
theorem Condition.negate_false : ∀ c : Condition, c.negate false = .ok c.flipped
  | .all cs | .any cs => by simp [Condition.negate, Condition.flipped, negateAll_false cs]
  | .compare .. | .member .. | .isNull .. | .between .. | .truth .. => by
    simp [Condition.negate, Condition.flipped]
  | .like .. => by
    rw [Condition.negate]
    simp [Condition.flipped]

theorem negateAll_false : ∀ cs : List Condition, negateAll false cs = .ok (flippedAll cs)
  | [] => rfl
  | c :: cs => by simp [negateAll, flippedAll, Condition.negate_false c, negateAll_false cs]

end

mutual

/-- Inside parentheses a LIKE is refused, and nothing else. -/
theorem Condition.negate_true : ∀ c : Condition, c.negate true =
    if c.tests.any Condition.isLike then unsupported .negatedGroupedLike else .ok c.flipped
  | .all cs | .any cs => by
    rw [Condition.negate, Condition.tests, negateAll_true cs]
    split <;> rfl
  | .compare .. | .member .. | .isNull .. | .between .. | .truth .. | .like .. => by
    simp [Condition.negate, Condition.tests, Condition.isLike, Condition.flipped]

theorem negateAll_true : ∀ cs : List Condition, negateAll true cs =
    if (testsOf cs).any Condition.isLike then unsupported .negatedGroupedLike
    else .ok (flippedAll cs)
  | [] => rfl
  | c :: cs => by
    rw [negateAll, testsOf, List.any_append, Condition.negate_true c, negateAll_true cs, flippedAll]
    cases c.tests.any Condition.isLike <;> cases (testsOf cs).any Condition.isLike <;> rfl

end

/-- Whatever NOT makes of a condition is the flipped condition. -/
theorem Condition.eq_flipped_of_negate {c c' : Condition} {grouped : Bool}
    (h : c.negate grouped = .ok c') : c' = c.flipped := by
  cases grouped with
  | false =>
    rw [negate_false] at h
    exact (Except.ok.inj h).symm
  | true =>
    rw [negate_true] at h
    split at h
    · cases h
    · exact (Except.ok.inj h).symm

namespace Valuation

variable (v : Valuation)

mutual

/-- The flipped condition has the opposite truth value, by the laws of De Morgan. -/
theorem truth_flipped : ∀ c : Condition, v.truth c.flipped = (v.truth c).not
  | .all cs => by
    rw [Condition.flipped, truth, truth]
    exact truthOfAny_flippedAll cs
  | .any cs => by
    rw [Condition.flipped, truth, truth]
    exact truthOfAll_flippedAll cs
  | .compare lhs op rhs => v.flip (.compare lhs rhs op.complements_negate)
  | .member t m n => v.flip (.member t m n)
  | .isNull t n => v.flip (.isNull t n)
  | .between t low high n => v.flip (.between t low high n)
  | .like t p i n => v.flip (.like t p i n)
  | .truth t n => v.flip (.truth t n)

theorem truthOfAny_flippedAll : ∀ cs : List Condition,
    v.truthOfAny (flippedAll cs) = (v.truthOfAll cs).not
  | [] => rfl
  | c :: cs => by
    rw [flippedAll, truthOfAny, truthOfAll, Kleene.not_and, truth_flipped c,
      truthOfAny_flippedAll cs]

theorem truthOfAll_flippedAll : ∀ cs : List Condition,
    v.truthOfAll (flippedAll cs) = (v.truthOfAny cs).not
  | [] => rfl
  | c :: cs => by
    rw [flippedAll, truthOfAll, truthOfAny, Kleene.not_or, truth_flipped c,
      truthOfAll_flippedAll cs]

end

end Valuation

/-- Every condition has a negation.  It is the one that NOT makes of the condition, and NOT makes the
condition of it again; it is true, false or unknown where the condition is false, true or unknown,
whatever the truth of the tests.  A NOT before parentheses makes the same unless a LIKE is among the
tests, and is refused then. -/
theorem Condition.negation_exact (c : Condition) :
    ∃ c' : Condition, c.negate false = .ok c' ∧ c'.negate false = .ok c ∧
      (∀ v : Valuation, v.truth c' = (v.truth c).not) ∧
      c.negate true =
        if c.tests.any Condition.isLike then .error (.unsupported .negatedGroupedLike)
        else .ok c' := by
  refine ⟨c.flipped, c.negate_false, ?_, fun v => v.truth_flipped c, c.negate_true⟩
  rw [c.flipped.negate_false, c.flipped_flipped]

/-- In a document without `b`, the test of `b` is unknown and the false test of `a` decides. -/
example : let a : Term := .column ⟨"t", "a", "a"⟩
    let b : Term := .column ⟨"t", "b", "b"⟩
    let v := Valuation.ofDocument (.object [("a", .int 1)])
    let both := Condition.all [.compare a .gt (.const (.int 1)), .isNull b false]
    v.truth (.isNull b false) = .unknown ∧ v.truth both = .no ∧ v.truth both.flipped = .yes := by
  decide

end DocSql
