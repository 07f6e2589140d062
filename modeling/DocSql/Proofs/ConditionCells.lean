import DocSql.Proofs.Sweeps
import DocSql.Clause.Filter

/-! # The cells of a condition, and its sub-selects

The tokens of a condition are laid out as cells, by the keyword or the parenthesis that they start
with.  A sub-select can stand in the condition only as what a term is looked for in; negating and
joining conditions keeps their sub-selects, and at last each is given a field of its own.
-/
namespace DocSql
open Compiled List

/-! ### Names -/

/-- A name stands for a column of the first table or of the table that its qualifier refers to, or
for an alias. -/
theorem Reading.name_eq_ok {r : Reading} {qualifier : Option String} {name : String} {t : Term}
    (h : r.name qualifier name = .ok t) :
    (∃ table, t = .column ⟨table, name, if r.scope.isLeft table then name else table ++ "." ++ name⟩ ∧
      (r.scope.leftTable = .ok table ∨ ∃ q, r.scope.resolveTable q = .ok table)) ∨
    t = .field name ∧ r.aliases = true ∧ r.scope.aliases.contains name = true := by
  unfold Reading.name at h
  split at h
  · cases h
  · split at h
    · obtain ⟨table, htable, rfl⟩ := bind₁_eq_ok.mp h
      exact .inl ⟨table, rfl, .inr ⟨_, htable⟩⟩
    · split at h
      · rename_i halias
        cases h
        exact .inr ⟨rfl, Bool.and_eq_true_iff.mp halias⟩
      · obtain ⟨table, htable, rfl⟩ := bind₁_eq_ok.mp h
        exact .inl ⟨table, rfl, .inl htable⟩

/-! ### Cells that start with a keyword -/

/-- Whether the operator brings no terms along. -/
def Connective.isBare : Connective → Bool
  | .between .. => false
  | _ => true

namespace Reading

/-- What the cells of a condition are that starts with a keyword: an operator before the cells of what
is left behind it, unless the keyword does not fit. -/
inductive KeywordCells (r : Reading) (rest : List Token) : Compiled (List Cell) → Prop
  | keyword (k : Keyword) : KeywordCells r rest (undecodable (.keywordInCondition k))
  | isWithoutValue : KeywordCells r rest (undecodable .isWithoutValue)
  | betweenWithoutBounds : KeywordCells r rest (undecodable .betweenWithoutBounds)
  | operator {rest' : List Token} (op : Connective) (afterIn : Bool) (h : rest' <:+ rest)
    (bare : op.isBare = true) :
    KeywordCells r rest (do return .operator op :: (← r.cells afterIn rest'))
  | between {low high : Token} {rest' : List Token} (negated : Bool) (hlow : low ∈ rest)
    (hhigh : high ∈ rest) (h : rest' <:+ rest) :
    KeywordCells r rest (do
      let low ← r.resolve low
      let high ← r.resolve high
      return .operator (.between low high negated) :: (← r.cells false rest'))

theorem keywordCells (r : Reading) (afterIn : Bool) (k : Keyword) (rest : List Token) :
    KeywordCells r rest (r.cells afterIn (.keyword k :: rest)) := by
  rw [cells.eq_def]
  simp only
  split
  · exact .operator _ _ suffix_rfl rfl
  · exact .operator _ _ suffix_rfl rfl
  · exact .operator _ _ suffix_rfl rfl
  · exact .operator _ _ suffix_rfl rfl
  · exact .operator _ _ suffix_rfl rfl
  · exact .between _ (by simp) (by simp) ⟨[_, _, _], rfl⟩
  · exact .betweenWithoutBounds
  · exact .operator _ _ ⟨[_], rfl⟩ rfl
  · exact .operator _ _ ⟨[_], rfl⟩ rfl
  · exact .operator _ _ ⟨[_], rfl⟩ rfl
  · exact .between _ (by simp) (by simp) ⟨[_, _, _, _], rfl⟩
  · exact .betweenWithoutBounds
  · exact .operator _ _ suffix_rfl rfl
  · exact .operator _ _ ⟨[_], rfl⟩ rfl
  · exact .operator _ _ ⟨[_], rfl⟩ rfl
  · exact .operator _ _ ⟨[_, _], rfl⟩ rfl
  · exact .operator _ _ ⟨[_, _], rfl⟩ rfl
  · exact .isWithoutValue
  · exact .keyword _

/-- The operand that a parenthesis stands for. -/
def parenOperand (r : Reading) (afterIn : Bool) (inner : List Token) : Compiled Operand :=
  if afterIn then
    if Token.startsSelect inner then do
      let s ← r.subselect inner
      return .members (.subselect s)
    else match inner with
      | [] => return .members (.list [])
      | t :: more => do
        let terms ← r.resolveList (t :: more)
        return .members (.list terms)
  else if Token.startsSelect inner then unsupported .subselectOutsideIn
  else do
    let c ← r.condition inner
    return .condition c true

theorem cells_paren (r : Reading) (afterIn : Bool) (inner rest : List Token) :
    r.cells afterIn (.paren inner :: rest) = do
      let o ← r.parenOperand afterIn inner
      return .operand o :: (← r.cells false rest) := by
  rw [cells.eq_def, parenOperand.eq_def, condition]
  cases afterIn with
  | false => cases hselect : Token.startsSelect inner <;> simp [hselect, unsupported]
  | true =>
    cases hselect : Token.startsSelect inner with
    | false => cases inner <;> simp [hselect]
    | true => simp [hselect]

theorem sizeOf_le_of_suffix {rest tokens : List Token} (h : rest <:+ tokens) :
    sizeOf rest ≤ sizeOf tokens := by
  obtain ⟨before, rfl⟩ := h
  induction before with
  | nil => exact Nat.le_refl _
  | cons t before ih =>
    simp only [cons_append, cons.sizeOf_spec]
    omega

end Reading

/-! ### The sub-selects of a condition -/

mutual

/-- The sub-selects that terms of a condition are looked for in, from left to right. -/
def Condition.subselects : Condition → List Subselect
  | .all cs => subselectsOf cs
  | .any cs => subselectsOf cs
  | .member _ (.subselect s) _ => [s]
  | _ => []

/-- The sub-selects of conditions. -/
def subselectsOf : List Condition → List Subselect
  | [] => []
  | c :: cs => c.subselects ++ subselectsOf cs

end

@[simp] theorem subselectsOf_append (cs cs' : List Condition) :
    subselectsOf (cs ++ cs') = subselectsOf cs ++ subselectsOf cs' := by
  induction cs with
  | nil => rfl
  | cons c cs ih => simp [subselectsOf, ih]

namespace Condition

theorem subselectsOf_conjuncts (c : Condition) : subselectsOf c.conjuncts = c.subselects := by
  unfold conjuncts
  split
  · rw [subselects]
  · simp [subselectsOf]

theorem subselectsOf_disjuncts (c : Condition) : subselectsOf c.disjuncts = c.subselects := by
  unfold disjuncts
  split
  · rw [subselects]
  · simp [subselectsOf]

@[simp] theorem subselects_and (lhs rhs : Condition) :
    (lhs.and rhs).subselects = lhs.subselects ++ rhs.subselects := by
  simp [Condition.and, subselects, subselectsOf_conjuncts]

@[simp] theorem subselects_or (lhs rhs : Condition) :
    (lhs.or rhs).subselects = lhs.subselects ++ rhs.subselects := by
  simp [Condition.or, subselects, subselectsOf_disjuncts]

end Condition

mutual

theorem Condition.subselects_negate {grouped : Bool} : ∀ {c c' : Condition},
    c.negate grouped = .ok c' → c'.subselects = c.subselects
  | .all cs, _, h | .any cs, _, h => by
    obtain ⟨cs', hcs, rfl⟩ := bind₁_eq_ok.mp h
    simpa only [Condition.subselects] using subselectsOf_negateAll hcs
  | .compare .., _, h | .isNull .., _, h | .between .., _, h | .truth .., _, h => by
    cases h
    simp [Condition.subselects]
  | .member t m n, _, h => by
    cases h
    cases m <;> simp [Condition.subselects]
  | .like .., _, h => by
    rw [Condition.negate] at h
    split at h
    · cases h
    · cases h
      simp [Condition.subselects]

theorem subselectsOf_negateAll {grouped : Bool} : ∀ {cs cs' : List Condition},
    negateAll grouped cs = .ok cs' → subselectsOf cs' = subselectsOf cs
  | [], _, h => by
    cases h
    rfl
  | c :: cs, _, h => by
    obtain ⟨c', hc, cs', hcs, rfl⟩ := bind₂_eq_ok.mp h
    simp only [subselectsOf, Condition.subselects_negate hc, subselectsOf_negateAll hcs]

end

/-! ### Fields of their own -/

/-- Sub-selects with fields of their own, which are numbered from a place on. -/
def numbered (place : Nat) : List Subselect → List NestedList
  | [] => []
  | s :: rest => ⟨s!"_nested_in_{place}", s⟩ :: numbered (place + 1) rest

@[simp] theorem map_subselect_numbered (place : Nat) (subselects : List Subselect) :
    (numbered place subselects).map (·.subselect) = subselects := by
  induction subselects generalizing place with
  | nil => rfl
  | cons s rest ih => rw [numbered, map_cons, ih]

@[simp] theorem length_numbered (place : Nat) (subselects : List Subselect) :
    (numbered place subselects).length = subselects.length := by
  rw [← length_map (·.subselect), map_subselect_numbered]

theorem numbered_append (place : Nat) (first second : List Subselect) :
    numbered place (first ++ second) =
      numbered place first ++ numbered (place + first.length) second := by
  induction first generalizing place with
  | nil => rfl
  | cons s rest ih =>
    rw [cons_append, numbered, ih, numbered, cons_append, length_cons,
      Nat.add_right_comm, Nat.add_assoc]

mutual

/-- The sub-selects of a condition are given fields in their order, and nothing else in the scope
changes. -/
theorem Condition.scope_registerNested : ∀ (c : Condition) (s : Scope), (c.registerNested s).2 =
      { s with nested := s.nested ++ numbered s.nested.length c.subselects }
  | .all cs, s | .any cs, s => by
    simpa only [Condition.registerNested, Condition.subselects] using scope_registerAll cs s
  | .member _ (.subselect _) _, _ => rfl
  | .member _ (.list _) _, _ | .member _ (.nested _) _, _
  | .compare .., _ | .isNull .., _ | .between .., _ | .like .., _ | .truth .., _ => by
    simp [Condition.registerNested, Condition.subselects, numbered]

theorem scope_registerAll : ∀ (cs : List Condition) (s : Scope), (registerAll cs s).2 =
      { s with nested := s.nested ++ numbered s.nested.length (subselectsOf cs) }
  | [], _ => by simp [registerAll, subselectsOf, numbered]
  | c :: cs, s => by
    rw [subselectsOf, numbered_append, ← append_assoc]
    show (registerAll cs (c.registerNested s).2).2 = _
    simp only [scope_registerAll cs, Condition.scope_registerNested c, length_append,
      length_numbered]

end

/-! ### WHERE clauses -/

/-- A WHERE clause is absent, or the condition up to the next clause is read and its sub-selects are
given fields. -/
theorem Filter.read?_eq_ok {r : Reading} {c after : TokenCursor} {clause : Option Filter}
    {scope : Scope} (h : Filter.read? r c = .ok (clause, scope, after)) :
    (clause = none ∧ scope = r.scope ∧ after = c) ∨
      ∃ afterWhere condition, c.eat? .WHERE = some afterWhere ∧
        Reading.condition { r with aliases := false } (afterWhere.takeUntil isClauseKeyword).1 =
          .ok condition ∧
        after = (afterWhere.takeUntil isClauseKeyword).2 ∧
        clause = some ⟨(condition.registerNested r.scope).1, .between c after⟩ ∧
        scope = (condition.registerNested r.scope).2 := by
  unfold Filter.read? at h
  split at h
  · cases h
    exact .inl ⟨rfl, rfl, rfl⟩
  · rename_i afterWhere heat
    obtain ⟨condition, hcondition, h⟩ := bind_eq_ok.mp h
    cases h
    exact .inr ⟨afterWhere, condition, heat, hcondition, rfl, rfl, rfl⟩

end DocSql
