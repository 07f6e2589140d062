import DocSql.Proofs.ListMembers
import DocSql.Proofs.TermParts

/-! # The search for aggregates

Whether a term or a condition contains an aggregate decides if a query is grouped without GROUP BY,
if a key may be grouped by, and if HAVING is resolved.  The search goes through the operands of
comparisons, arithmetic and tests and through CASE branches.  It does not go into the argument of a
call, the list of an IN, the bounds of a BETWEEN and the pattern of a LIKE, so it is right exactly
if an aggregate in such a place does not stand alone (`aggregates_found_iff`).  What it misses is
not compiled in silence: nothing that has an aggregate at any depth has an expression.
-/
namespace DocSql
open Compiled List

/-- Whether the search for aggregates goes through the place. -/
def Place.isSearched : Place → Bool
  | .operand | .test | .result => true
  | .argument | .member | .bound | .pattern => false

/-! ### What the search finds -/

mutual

/-- The search finds the aggregates that it sees. -/
theorem Term.containsAggregate_eq : ∀ t : Term,
    t.containsAggregate = (seen Place.isSearched t.parts).any Term.isAggregate
  | .compare l op r | .arith op l r => by
    simp [Term.containsAggregate, Term.parts, Place.isSearched, Term.isAggregate,
      l.containsAggregate_eq, r.containsAggregate_eq]
  | .caseOf arms => by
    simp [Term.containsAggregate, Term.parts, Term.isAggregate, arms.containsAggregate_eq]
  | .aggregate .. => by simp [Term.containsAggregate, Term.parts, Term.isAggregate]
  | .dateTrunc .. => by
    simp [Term.containsAggregate, Term.parts, Place.isSearched, Term.isAggregate]
  | .countAll | .column _ | .param .. | .const _ | .field _ => rfl

theorem Arms.containsAggregate_eq : ∀ arms : Arms,
    arms.containsAggregate = (seen Place.isSearched arms.parts).any Term.isAggregate
  | .done => rfl
  | .otherwise t => by
    simp [Arms.containsAggregate, Arms.parts, Place.isSearched, t.containsAggregate_eq]
  | .arm c t rest => by
    simp [Arms.containsAggregate, Arms.parts, Place.isSearched, c.containsAggregate_eq,
      t.containsAggregate_eq, rest.containsAggregate_eq, Bool.or_assoc]

theorem Condition.containsAggregate_eq : ∀ c : Condition,
    c.containsAggregate = (seen Place.isSearched c.parts).any Term.isAggregate
  | .all cs | .any cs => by
    simpa only [Condition.containsAggregate, Condition.parts] using anyContainsAggregate_eq cs
  | .compare l _ r => by
    simp [Condition.containsAggregate, Condition.parts, Place.isSearched, l.containsAggregate_eq,
      r.containsAggregate_eq]
  | .member t m _ => by
    -- a list is below a place that is not searched, and the other members have no parts
    have hmembers : seen Place.isSearched m.parts = [] := by
      cases m with
      | list ts => simp [Members.parts, Place.isSearched]
      | subselect | nested => rfl
    simp [Condition.containsAggregate, Condition.parts, Place.isSearched, hmembers,
      t.containsAggregate_eq]
  | .isNull t _ | .between t .. | .like t .. | .truth t _ => by
    simp [Condition.containsAggregate, Condition.parts, Place.isSearched, t.containsAggregate_eq]

theorem anyContainsAggregate_eq : ∀ cs : List Condition,
    anyContainsAggregate cs = (seen Place.isSearched (conditionParts cs)).any Term.isAggregate
  | [] => rfl
  | c :: cs => by
    simp [anyContainsAggregate, conditionParts, c.containsAggregate_eq, anyContainsAggregate_eq cs]

end

/-! ### What is there to be found -/

/-- Whether an aggregate is among the parts, at any depth. -/
def haveAggregate (parts : List Part) : Bool := parts.any fun p => p.term.isAggregate

section

variable {parts parts' : List Part}

@[simp] theorem haveAggregate_nil : haveAggregate [] = false := rfl

@[simp] theorem haveAggregate_cons (p : Part) :
    haveAggregate (p :: parts) = (p.term.isAggregate || haveAggregate parts) := rfl

@[simp] theorem haveAggregate_append :
    haveAggregate (parts ++ parts') = (haveAggregate parts || haveAggregate parts') :=
  any_append

@[simp] theorem haveAggregate_under (place : Place) :
    haveAggregate (parts.map (.under place)) = haveAggregate parts := any_map

/-- How far a search is right that finds what it sees: it finds nothing that is not there, and all
there is to find unless every aggregate is out of its sight. -/
theorem found_eq_haveAggregate_iff {found : Bool}
    (h : found = (seen Place.isSearched parts).any Term.isAggregate) :
    (found = true ↔ ∃ p ∈ parts, p.isReached Place.isSearched = true ∧ p.term.isAggregate = true) ∧
    (found = haveAggregate parts ↔ ∀ p ∈ parts, p.term.isAggregate = true →
      ∃ p' ∈ parts, p'.isReached Place.isSearched = true ∧ p'.term.isAggregate = true) := by
  have hfound : found = true ↔
      ∃ p ∈ parts, p.isReached Place.isSearched = true ∧ p.term.isAggregate = true := by
    rw [h, any_eq_true]
    constructor
    · rintro ⟨t, ht, hcall⟩
      obtain ⟨p, hp, hreached, rfl⟩ := mem_seen.mp ht
      exact ⟨p, hp, hreached, hcall⟩
    · rintro ⟨p, hp, hreached, hcall⟩
      exact ⟨p.term, mem_seen.mpr ⟨p, hp, hreached, rfl⟩, hcall⟩
  have hhave : haveAggregate parts = true ↔ ∃ p ∈ parts, p.term.isAggregate = true := any_eq_true
  refine ⟨hfound, ?_⟩
  rw [Bool.eq_iff_iff, hfound, hhave]
  constructor
  · intro hiff p hp hcall
    exact hiff.mpr ⟨p, hp, hcall⟩
  · intro hsight
    constructor
    · rintro ⟨p, hp, -, hcall⟩
      exact ⟨p, hp, hcall⟩
    · rintro ⟨p, hp, hcall⟩
      exact hsight p hp hcall

end

/-! ### What has an expression -/

theorem Term.haveAggregate_of_constant {t : Term} {v : Value} (h : t.constant? = some v) :
    haveAggregate t.parts = false := by
  cases t with
  | const | param => rfl
  | _ => cases h

theorem haveAggregate_of_constants {ts : List Term}
    (h : ∀ t ∈ ts, t.constant?.isSome = true) : haveAggregate (termParts ts) = false := by
  induction ts with
  | nil => rfl
  | cons t ts ih =>
    obtain ⟨hfirst, hrest⟩ := forall_mem_cons.mp h
    obtain ⟨v, hv⟩ := Option.isSome_iff_exists.mp hfirst
    simp [termParts, Term.haveAggregate_of_constant hv, ih hrest]

mutual

/-- A term with an aggregate at any depth has no expression. -/
theorem Term.haveAggregate_of_expression : ∀ {t : Term} {e : Value}, t.expression = .ok e →
    haveAggregate t.parts = false
  | .column _, _, _ | .field _, _, _ | .const _, _, _ | .param .., _, _ => rfl
  | .compare l op r, _, h | .arith op l r, _, h => by
    obtain ⟨l', hl, r', hr, -⟩ := bind₂_eq_ok.mp h
    simp [Term.parts, Term.isAggregate, l.haveAggregate_of_expression hl,
      r.haveAggregate_of_expression hr]
  | .countAll, _, h | .aggregate .., _, h => by
    rw [Term.expression] at h
    cases h
  | .dateTrunc unit arg, _, h => by
    obtain ⟨arg', harg, -⟩ := bind_eq_ok.mp h
    simp [Term.parts, Term.isAggregate, arg.haveAggregate_of_expression harg]
  | .caseOf arms, _, h => by
    rw [Term.expression] at h
    simp [Term.parts, Term.isAggregate, arms.haveAggregate_of_expression h]

theorem Arms.haveAggregate_of_expression : ∀ {arms : Arms} {e : Value}, arms.expression = .ok e →
    haveAggregate arms.parts = false
  | .done, _, _ => rfl
  | .otherwise t, _, h => by
    rw [Arms.expression] at h
    simp [Arms.parts, t.haveAggregate_of_expression h]
  | .arm c t rest, _, h => by
    obtain ⟨rest', hrest, c', hc, t', ht, -⟩ := bind₃_eq_ok.mp h
    simp [Arms.parts, c.haveAggregate_of_expression hc, t.haveAggregate_of_expression ht,
      rest.haveAggregate_of_expression hrest]

theorem Condition.haveAggregate_of_expression : ∀ {c : Condition} {e : Value},
    c.expression = .ok e → haveAggregate c.parts = false
  | .all cs, _, h | .any cs, _, h => by
    obtain ⟨es, hes, -⟩ := bind_eq_ok.mp h
    rw [Condition.parts]
    exact haveAggregate_of_expressions hes
  | .compare l op r, _, h => by
    obtain ⟨l', hl, r', hr, -⟩ := bind₂_eq_ok.mp h
    simp [Condition.parts, l.haveAggregate_of_expression hl, r.haveAggregate_of_expression hr]
  | .member t m negated, _, h => by
    obtain ⟨m', hm, t', ht, -⟩ := bind₂_eq_ok.mp h
    simp [Condition.parts, t.haveAggregate_of_expression ht, m.haveAggregate_of_expression hm]
  | .isNull t negated, _, h | .truth t negated, _, h => by
    obtain ⟨t', ht, -⟩ := bind_eq_ok.mp h
    simp [Condition.parts, t.haveAggregate_of_expression ht]
  | .between t low high negated, _, h => by
    obtain ⟨t', ht, low', hlow, high', hhigh, -⟩ := bind₃_eq_ok.mp h
    simp [Condition.parts, t.haveAggregate_of_expression ht, low.haveAggregate_of_expression hlow,
      high.haveAggregate_of_expression hhigh]
  | .like t pattern ignoreCase negated, _, h => by
    obtain ⟨t', ht, regex, hregex, -⟩ := bind₂_eq_ok.mp h
    obtain ⟨s, hpattern, -⟩ := Term.likeRegex_eq_ok.mp hregex
    simp [Condition.parts, t.haveAggregate_of_expression ht, Term.haveAggregate_of_constant hpattern]

theorem Members.haveAggregate_of_expression : ∀ {m : Members} {e : Value}, m.expression = .ok e →
    haveAggregate m.parts = false
  | .list ts, _, h => by
    rw [Members.expression] at h
    rw [Members.parts, haveAggregate_under]
    split at h
    · rename_i hconstants
      exact haveAggregate_of_constants (constants?_eq_some_iff.mp hconstants).1
    · obtain ⟨es, hes, -⟩ := bind_eq_ok.mp h
      exact haveAggregate_of_termExpressions hes
  | .subselect _, _, _ | .nested _, _, _ => rfl

theorem haveAggregate_of_termExpressions : ∀ {ts : List Term} {es : List Value},
    termExpressions ts = .ok es → haveAggregate (termParts ts) = false
  | [], _, _ => rfl
  | t :: ts, _, h => by
    obtain ⟨e, he, es, hes, -⟩ := bind₂_eq_ok.mp h
    simp [termParts, t.haveAggregate_of_expression he, haveAggregate_of_termExpressions hes]

theorem haveAggregate_of_expressions : ∀ {cs : List Condition} {es : List Value},
    expressions cs = .ok es → haveAggregate (conditionParts cs) = false
  | [], _, _ => rfl
  | c :: cs, _, h => by
    obtain ⟨e, he, es, hes, -⟩ := bind₂_eq_ok.mp h
    simp [conditionParts, c.haveAggregate_of_expression he, haveAggregate_of_expressions hes]

end

/-! ### The extent of the search -/

/-- **What the search for aggregates finds, and what is there.**  A term is said to contain an
aggregate exactly if one of its parts is an aggregate whose route has no argument of a call, no
list, no bound and no pattern.  So the answer is right exactly if the term has no aggregate or has
one on such a route, whatever others it has.  A term with an aggregate at any depth has no
expression.  The same holds of conditions. -/
theorem aggregates_found_iff (t : Term) (c : Condition) :
    (t.containsAggregate = true ↔
      ∃ p ∈ t.parts, p.isReached Place.isSearched = true ∧ p.term.isAggregate = true) ∧
    (t.containsAggregate = haveAggregate t.parts ↔ ∀ p ∈ t.parts, p.term.isAggregate = true →
      ∃ p' ∈ t.parts, p'.isReached Place.isSearched = true ∧ p'.term.isAggregate = true) ∧
    (haveAggregate t.parts = true → ∃ fault, t.expression = .error fault) ∧
    (c.containsAggregate = true ↔
      ∃ p ∈ c.parts, p.isReached Place.isSearched = true ∧ p.term.isAggregate = true) ∧
    (c.containsAggregate = haveAggregate c.parts ↔ ∀ p ∈ c.parts, p.term.isAggregate = true →
      ∃ p' ∈ c.parts, p'.isReached Place.isSearched = true ∧ p'.term.isAggregate = true) ∧
    (haveAggregate c.parts = true → ∃ fault, c.expression = .error fault) := by
  obtain ⟨hterm, hterm'⟩ := found_eq_haveAggregate_iff t.containsAggregate_eq
  obtain ⟨hcondition, hcondition'⟩ := found_eq_haveAggregate_iff c.containsAggregate_eq
  refine ⟨hterm, hterm', fun hhave => ?_, hcondition, hcondition', fun hhave => ?_⟩
  · cases he : t.expression with
    | error fault => exact ⟨fault, rfl⟩
    | ok e => exact absurd hhave (by simp [Term.haveAggregate_of_expression he])
  · cases he : c.expression with
    | error fault => exact ⟨fault, rfl⟩
    | ok e => exact absurd hhave (by simp [Condition.haveAggregate_of_expression he])

namespace AggregateSearch

/-- A test with an aggregate as a bound: `1 BETWEEN 0 AND COUNT(a)`. -/
def inBound : Condition := .between (.const (.int 1)) (.const (.int 0))
    (.aggregate .count false (.column ⟨"t", "a", "a"⟩)) false

/-- A CASE that chooses by that test. -/
def choice : Term := .caseOf (.arm inBound (.const (.int 1)) .done)

/-- The aggregate in the bound is there and is not found, neither in the test nor in the CASE. -/
theorem inBound_not_found : haveAggregate choice.parts = true ∧ choice.containsAggregate = false ∧
    haveAggregate inBound.parts = true ∧ inBound.containsAggregate = false ∧
    (∃ fault, choice.expression = .error fault) ∧
    ¬∀ p ∈ choice.parts, p.term.isAggregate = true →
      ∃ p' ∈ choice.parts, p'.isReached Place.isSearched = true ∧ p'.term.isAggregate = true := by
  obtain ⟨-, hright, hrefused, -⟩ := aggregates_found_iff choice inBound
  refine ⟨rfl, rfl, rfl, rfl, hrefused rfl, fun hsight => ?_⟩
  exact absurd (hright.mpr hsight) (by decide)

end AggregateSearch

end DocSql
