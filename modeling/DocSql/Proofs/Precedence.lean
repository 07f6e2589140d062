import DocSql.Proofs.ConditionCells
import DocSql.Proofs.SentenceRows

/-! # Precedence of conditions

The compiler of conditions does not parse, it reduces a row of cells.  On every sentence of the
grammar the result is nevertheless that of recursive descent: the sentence is laid out as the cells
of its resolved form, whose reduction is known, and resolving all tokens before all negations are
applied makes no difference to what is accepted.
-/
namespace DocSql
open Compiled List

namespace Grammar

/-! ### Laying a sentence out -/

/-- The atom that a test of a term is. -/
def Test.leaf (r : Reading) (t : Term) : Test → Compiled Leaf
  | .isNull negated =>
    return .test t (.isNull negated) [] (.isNull t negated) (by simp [Connective.precedence])
      fun _ _ => rfl
  | .isBool value negated =>
    return .test t (.isBool value negated) []
      (.compare t (if negated then .ne else .eq) (.const (.bool value))) (by simp [Connective.precedence])
      fun _ _ => rfl
  | .between low high negated => do
    let low ← r.resolve low.val
    let high ← r.resolve high.val
    return .test t (.between low high negated) [] (.between t low high negated)
      (by simp [Connective.precedence]) fun _ _ => rfl
  | .like pattern ignoreCase negated => do
    let pattern ← r.resolve pattern.val
    return .test t (.like ignoreCase negated) [.term pattern] (.like t pattern ignoreCase negated)
      (by simp [Connective.precedence]) fun _ _ => rfl
  | .inside inner negated => do
    let m ← members r inner
    return .test t (.member negated) [.members m] (.member t m negated) (by cases negated <;> decide)
      fun _ _ => rfl
  | .inTerm value negated => do
    let value ← r.resolve value.val
    return .test t (.member negated) [.term value] (.member t (.list [value]) negated)
      (by cases negated <;> decide) fun _ _ => rfl

/-- An atom with its tokens resolved. -/
def Atom.leaf (r : Reading) : Atom → Compiled Leaf
  | .comparison left op right => do
    let lhs ← r.resolve left
    let rhs ← r.resolve right
    return .operand ⟨.term (.compare lhs op rhs), .compare lhs op rhs, rfl⟩
  | .name qualifier column => do
    match ← r.name qualifier column with
    | .column c => return .operand ⟨.term (.column c), .truth (.column c) false, rfl⟩
    | .field f => return .operand ⟨.term (.field f), .truth (.field f) false, rfl⟩
    | t => undecodable (.valueForCondition t)
  | .paren inner => do
    let c ← r.condition inner.tokens
    return .operand ⟨.condition c true, c, rfl⟩
  | .test operand asked => do
    let t ← r.resolve operand.val
    asked.leaf r t

/-- A factor with its tokens resolved. -/
def Negation.factor (r : Reading) : Negation → Compiled Factor
  | .atom a => do
    let l ← a.leaf r
    return (0, l)
  | .not n => do
    let f ← n.factor r
    return (f.1 + 1, f.2)

/-- Factors joined by AND, with their tokens resolved. -/
def Conjunction.factors (r : Reading) : Conjunction → Compiled (Chain Factor)
  | .one n => do
    let f ← n.factor r
    return (f, [])
  | .and n rest => do
    let f ← n.factor r
    let fs ← rest.factors r
    return (f, fs.toList)

/-- A sentence with its tokens resolved. -/
def Disjunction.row (r : Reading) : Disjunction → Compiled Resolved
  | .one c => do
    let fs ← c.factors r
    return (fs, [])
  | .or c rest => do
    let fs ← c.factors r
    let row ← rest.row r
    return (fs, row.toList)

variable (r : Reading)

/-- The values of a list are those of its pieces. -/
theorem resolveList_eq (r : Reading) (tokens : List Token) :
    r.resolveList tokens = (Token.splitCommas.pieces tokens).mapM r.resolveOne := by
  match tokens with
  | [] => rfl
  | [t] =>
    by_cases ht : t.isPunctuation ','
    · simp [Reading.resolveList, Token.splitCommas.pieces, ht, Reading.resolveOne, undecodable]
    · simp [Reading.resolveList, Token.splitCommas.pieces, ht, Reading.resolveOne]
  | t :: next :: rest =>
    by_cases ht : t.isPunctuation ','
    · simp [Reading.resolveList, Token.splitCommas.pieces, ht, Reading.resolveOne, undecodable]
    · by_cases hnext : next.isPunctuation ','
      · simp [Reading.resolveList, Token.splitCommas.pieces, ht, hnext, Reading.resolveOne,
          resolveList_eq r rest]
      · -- the first piece has two tokens or more
        have hpieces : ∃ piece more,
            Token.splitCommas.pieces (t :: next :: rest) = (t :: next :: piece) :: more := by
          simp only [Token.splitCommas.pieces, if_neg ht, if_neg hnext]
          cases Token.splitCommas.pieces rest with
          | nil => exact ⟨[], [], rfl⟩
          | cons piece more => exact ⟨piece, more, rfl⟩
        obtain ⟨piece, more, hpieces⟩ := hpieces
        simp [Reading.resolveList, ht, hnext, hpieces, Reading.resolveOne, undecodable]

theorem cells_term (afterIn : Bool) (t : TermToken) (rest : List Token) :
    r.cells afterIn (t.val :: rest) = do
      let t ← r.resolve t.val
      return .operand (.term t) :: (← r.cells false rest) := by
  obtain ⟨t, ht⟩ := t
  rw [Reading.cells]
  · rintro k rfl
    cases ht
  · rintro inner rfl
    cases ht
  · rintro c rfl
    cases ht

/-- A parenthesis behind IN holds what the term is looked for in. -/
theorem cells_inside (inner rest : List Token) :
    r.cells true (.paren inner :: rest) = do
      let m ← members r inner
      return .operand (.members m) :: (← r.cells false rest) := by
  rw [Reading.cells.eq_def, members]
  simp only [↓reduceIte]
  by_cases hselect : Token.startsSelect inner
  · rw [if_pos hselect, if_pos hselect]
    cases r.subselect inner <;> rfl
  · rw [if_neg hselect, if_neg hselect]
    cases inner with
    | nil => rfl
    | cons t more =>
      show _ = ((Token.splitCommas.pieces (t :: more)).mapM r.resolveOne >>= _) >>= _
      rw [← resolveList_eq]
      dsimp only
      cases r.resolveList (t :: more) <;> rfl

theorem cells_in (afterIn negated : Bool) (rest : List Token) :
    r.cells afterIn (notToken negated ++ .keyword .IN :: rest) = do
      return .operator (.member negated) :: (← r.cells true rest) := by
  cases negated <;> exact Reading.cells.eq_def ..

/-- The tokens of a test put its operator and what that takes into the row. -/
theorem Test.cells_append (t : Term) (test : Test) (rest : List Token) :
    (do return .operand (.term t) :: (← r.cells false (test.tokens ++ rest))) = do
      let l ← test.leaf r t
      return l.cellsFrom 9 ++ (← r.cells false rest) := by
  cases test with
  | isNull negated | isBool value negated | between low high negated =>
    cases negated <;>
      simp [Test.tokens, notToken, Test.leaf, Reading.cells, Leaf.cellsFrom, Connective.precedence]
  | like pattern ignoreCase negated =>
    cases ignoreCase <;> cases negated <;>
      simp [Test.tokens, notToken, Test.leaf, Reading.cells, Leaf.cellsFrom, Connective.precedence,
        cells_term]
  | inside inner negated =>
    cases negated <;>
      simp [Test.tokens, cells_in, cells_inside, Test.leaf, Leaf.cellsFrom, Connective.precedence]
  | inTerm value negated =>
    cases negated <;>
      simp [Test.tokens, cells_in, cells_term, Test.leaf, Leaf.cellsFrom, Connective.precedence]

/-- Whether a token can open a sentence. -/
def opens : Token → Bool
  | .keyword k => k = .NOT
  | _ => true

theorem Negation.tokens_eq_cons (n : Negation) : ∃ t ts, n.tokens = t :: ts ∧ opens t = true := by
  cases n with
  | not n => exact ⟨_, _, rfl, rfl⟩
  | atom a =>
    cases a with
    | test operand asked =>
      obtain ⟨t, ht⟩ := operand
      refine ⟨t, asked.tokens, rfl, ?_⟩
      cases t with
      | keyword k => cases ht
      | _ => rfl
    | _ => exact ⟨_, _, rfl, rfl⟩

theorem Disjunction.tokens_eq_cons (e : Disjunction) :
    ∃ t ts, e.tokens = t :: ts ∧ opens t = true := by
  obtain ⟨n, ts, hts⟩ : ∃ (n : Negation) (ts : List Token), e.tokens = n.tokens ++ ts := by
    cases e with
    | one c =>
      cases c with
      | one n => exact ⟨n, [], (append_nil _).symm⟩
      | and n rest => exact ⟨n, _, rfl⟩
    | or c rest =>
      cases c with
      | one n => exact ⟨n, _, rfl⟩
      | and n more => exact ⟨n, _, append_assoc ..⟩
  obtain ⟨t, more, hn, ht⟩ := n.tokens_eq_cons
  exact ⟨t, more ++ ts, by rw [hts, hn, cons_append], ht⟩

theorem Disjunction.not_startsSelect (e : Disjunction) : Token.startsSelect e.tokens = false := by
  obtain ⟨t, ts, he, ht⟩ := e.tokens_eq_cons
  rw [he]
  cases t with
  | keyword k =>
    have hk : k = .NOT := of_decide_eq_true ht
    rw [hk]
    rfl
  | _ => rfl

/-- A NOT before a token that opens a sentence is an operator of its own. -/
theorem cells_not (afterIn : Bool) {t : Token} (ht : opens t = true)
    (rest : List Token) :
    r.cells afterIn (.keyword .NOT :: t :: rest) = do
      return .operator .not :: (← r.cells false (t :: rest)) := by
  have hne : ∀ k, k ≠ .NOT → t ≠ .keyword k := by
    rintro k hk rfl
    exact hk (of_decide_eq_true ht)
  rw [Reading.cells]
  all_goals simp [hne]

theorem Atom.cells_append (r : Reading) (a : Atom) (rest : List Token) :
    r.cells false (a.tokens ++ rest) = do
      let l ← a.leaf r
      return l.cellsFrom 9 ++ (← r.cells false rest) := by
  cases a with
  | comparison left op right =>
    simp [Atom.tokens, Reading.cells, Reading.resolve, Atom.leaf, Leaf.cellsFrom]
  | name qualifier column =>
    simp only [Atom.tokens, cons_append, nil_append, Reading.cells, Reading.resolve, Atom.leaf]
    cases h : r.name qualifier column with
    | error e => rfl
    | ok t =>
      rcases Reading.name_eq_ok h with ⟨_, rfl, -⟩ | ⟨rfl, -⟩ <;> rfl
  | paren inner =>
    simp [Atom.tokens, Reading.cells, inner.not_startsSelect, Reading.condition, Atom.leaf,
      Leaf.cellsFrom]
  | test operand asked =>
    simp only [Atom.tokens, cons_append, cells_term, Atom.leaf, bind_assoc, Test.cells_append]

theorem Negation.cells_append (r : Reading) (rest : List Token) : ∀ n : Negation,
    r.cells false (n.tokens ++ rest) = do
      let f ← n.factor r
      return f.cellsFrom 9 ++ (← r.cells false rest)
  | .atom a => by
    simp [Negation.tokens, a.cells_append, Negation.factor, Factor.cellsFrom]
  | .not n => by
    obtain ⟨t, ts, hn, ht⟩ := n.tokens_eq_cons
    have ih := Negation.cells_append r rest n
    rw [hn, cons_append] at ih
    rw [Negation.tokens, hn, cons_append, cons_append, cells_not r false ht, ih]
    simp [Negation.factor, Factor.cellsFrom, replicate_succ]

theorem Conjunction.cells_append (r : Reading) (rest : List Token) : ∀ c : Conjunction,
    r.cells false (c.tokens ++ rest) = do
      let fs ← c.factors r
      return fs.cells .and (Factor.cellsFrom 9) ++ (← r.cells false rest)
  | .one n => by
    simp [Conjunction.tokens, n.cells_append, Conjunction.factors, Chain.cells]
  | .and n more => by
    simp [Conjunction.tokens, n.cells_append, Reading.cells, Conjunction.cells_append r rest more,
      Conjunction.factors, Chain.cells, Chain.toList]

/-- A sentence is laid out as the cells of its resolved form. -/
theorem Disjunction.cells_append (r : Reading) (rest : List Token) : ∀ e : Disjunction,
    r.cells false (e.tokens ++ rest) = do
      let row ← e.row r
      return row.cells ++ (← r.cells false rest)
  | .one c => by
    simp [Disjunction.tokens, c.cells_append, Disjunction.row, Resolved.cells, Resolved.cellsFrom,
      Chain.cells]
  | .or c more => by
    simp [Disjunction.tokens, c.cells_append, Reading.cells, Disjunction.cells_append r rest more,
      Disjunction.row, Resolved.cells, Resolved.cellsFrom, Chain.cells, Chain.toList]

/-- The compiler's condition of a sentence is the condition of its resolved form. -/
theorem Disjunction.condition_eq (e : Disjunction) :
    (r.condition e.tokens).toOption = (e.row r >>= Resolved.condition).toOption := by
  have hcells := e.cells_append r []
  rw [append_nil] at hcells
  rw [Reading.condition, hcells]
  cases e.row r with
  | error f => rfl
  | ok row => simp [Reading.cells, Resolved.reduce_cells]

/-! ### Recursive descent -/

/-- Whether an operand is a parenthesis. -/
def isGrouped : Operand → Bool
  | .condition _ grouped => grouped
  | _ => false

namespace Tested

theorem negate_eq (o : Tested) : o.operand.negate = o.condition.negate (isGrouped o.operand) := by
  obtain ⟨operand, c, h⟩ := o
  cases operand with
  | condition c' grouped =>
    cases h
    rfl
  | term t | members m =>
    simp only [Operand.negate, h, ok_bind]
    rfl

/-- The last negation can be taken off instead of the first. -/
theorem negateTimes_succ (k : Nat) (o : Tested) : o.negateTimes (k + 1) = do
      let o' ← o.negateTimes k
      let c ← o'.operand.negate
      return .ofCondition c := by
  induction k generalizing o with
  | zero => rfl
  | succ k ih =>
    rw [negateTimes, negateTimes]
    cases o.operand.negate with
    | error e => rfl
    | ok c => exact ih (.ofCondition c)

end Tested

theorem Atom.isGrouped_result {r : Reading} {a : Atom} {l : Leaf} (h : a.leaf r = .ok l) :
    isGrouped l.result.operand = (Negation.atom a).isParen := by
  cases a with
  | comparison left op right =>
    obtain ⟨lhs, _, rhs, _, rfl⟩ := bind₂_eq_ok.mp h
    rfl
  | name qualifier column =>
    obtain ⟨t, ht, h⟩ := bind_eq_ok.mp h
    rcases Reading.name_eq_ok ht with ⟨_, rfl, -⟩ | ⟨rfl, -⟩ <;>
    · cases h
      rfl
  | paren inner =>
    obtain ⟨c, _, rfl⟩ := bind₁_eq_ok.mp h
    rfl
  | test operand asked =>
    obtain ⟨t, _, h⟩ := bind_eq_ok.mp h
    cases asked with
    | isNull negated | isBool value negated =>
      cases h
      rfl
    | between low high negated =>
      obtain ⟨low, _, high, _, rfl⟩ := bind₂_eq_ok.mp h
      rfl
    | like pattern ignoreCase negated | inside inner negated | inTerm value negated =>
      obtain ⟨x, _, rfl⟩ := bind₁_eq_ok.mp h
      rfl

/-- A NOT sees a parenthesis exactly where it stands directly before one. -/
theorem Negation.isGrouped_negated {r : Reading} {n : Negation} {f : Factor} {o : Tested}
    (hf : n.factor r = .ok f) (ho : f.negated = .ok o) : isGrouped o.operand = n.isParen := by
  cases n with
  | atom a =>
    obtain ⟨l, hl, rfl⟩ := bind₁_eq_ok.mp hf
    cases ho
    exact Atom.isGrouped_result hl
  | not n =>
    obtain ⟨g, _, rfl⟩ := bind₁_eq_ok.mp hf
    rw [Factor.negated, Tested.negateTimes_succ] at ho
    obtain ⟨o', _, c, _, rfl⟩ := bind₂_eq_ok.mp ho
    rfl

/-- The condition of a factor: its tokens are resolved, then its NOTs applied. -/
def Negation.settled (r : Reading) (n : Negation) : Compiled Condition := do
  let f ← n.factor r
  let o ← f.negated
  return o.condition

/-- One NOT more negates the condition once more. -/
theorem Negation.settled_not (n : Negation) :
    (Negation.not n).settled r = n.settled r >>= fun c => c.negate n.isParen := by
  rw [Negation.settled, Negation.settled, Negation.factor]
  cases hf : n.factor r with
  | error e => rfl
  | ok f =>
    simp only [ok_bind, Compiled.pure_def, Factor.negated, Tested.negateTimes_succ]
    cases ho : f.2.result.negateTimes f.1 with
    | error e => rfl
    | ok o =>
      have hgrouped := Negation.isGrouped_negated hf ho
      simp only [ok_bind, o.negate_eq, hgrouped]
      cases o.condition.negate n.isParen <;> rfl

/-- The conditions of factors: all their tokens are resolved, then all their NOTs applied. -/
def Conjunction.settled (r : Reading) (c : Conjunction) : Compiled (List Condition) := do
  let fs ← c.factors r
  let os ← fs.traverse Factor.negated
  return os.toList.map Tested.condition

theorem Conjunction.settled_and (n : Negation) (rest : Conjunction) :
    ((Conjunction.and n rest).settled r).toOption =
      (do return (← n.settled r) :: (← rest.settled r) : Compiled _).toOption := by
  have h := toOption_interleave (n.factor r) (rest.factors r) Factor.negated
    (Chain.traverse Factor.negated) (fun o os => o.condition :: os.toList.map Tested.condition)
  simpa [Conjunction.settled, Negation.settled, Conjunction.factors, Chain.traverse, Chain.toList,
    Chain.mapM_toList, mapM_cons] using h

/-- The conditions of alternatives: all their tokens are resolved, then all their NOTs applied. -/
def Disjunction.settled (r : Reading) (e : Disjunction) : Compiled (List Condition) := do
  let row ← e.row r
  let oss ← row.negated
  return oss.toList.map fun os => allOf (os.toList.map Tested.condition)

theorem Disjunction.condition_settled (e : Disjunction) :
    (r.condition e.tokens).toOption =
      (do return anyOf (← e.settled r) : Compiled Condition).toOption := by
  rw [e.condition_eq, Disjunction.settled]
  cases e.row r <;> simp [Resolved.condition]

theorem Disjunction.settled_or (c : Conjunction) (rest : Disjunction) :
    ((Disjunction.or c rest).settled r).toOption =
      (do return allOf (← c.settled r) :: (← rest.settled r) : Compiled _).toOption := by
  have h := toOption_interleave (c.factors r) (rest.row r)
    (Chain.traverse Factor.negated) Resolved.negated
    (fun os oss => allOf (os.toList.map Tested.condition) ::
      oss.toList.map fun os => allOf (os.toList.map Tested.condition))
  simpa [Disjunction.settled, Conjunction.settled, Disjunction.row, Resolved.negated, Chain.traverse,
    Chain.toList, Chain.mapM_toList, mapM_cons] using h

/-- A test is resolved to the condition that it reads as. -/
theorem Test.leaf_read (t : Term) (asked : Test) :
    (do return (← asked.leaf r t).result.condition) = asked.read r t := by
  cases asked with
  | isNull negated | isBool value negated => rfl
  | between low high negated
  | like pattern ignoreCase negated | inside inner negated | inTerm value negated =>
    simp [Test.leaf, Test.read, Leaf.result, Tested.ofCondition]

mutual

/-- An atom is resolved to the condition that it reads as. -/
theorem Atom.leaf_read (r : Reading) : ∀ a : Atom,
    (do return (← a.leaf r).result.condition : Compiled Condition).toOption = (a.read r).toOption
  | .comparison left op right => by
    simp [Atom.leaf, Atom.read, Leaf.result]
  | .name qualifier column => by
    cases h : r.name qualifier column with
    | error e => simp [Atom.leaf, Atom.read, h]
    | ok t =>
      rcases Reading.name_eq_ok h with ⟨_, rfl, -⟩ | ⟨rfl, -⟩ <;>
        simp [Atom.leaf, Atom.read, h, Leaf.result]
  | .paren inner => by
    have hleaf : (do return (← (Atom.paren inner).leaf r).result.condition) =
        r.condition inner.tokens := by
      simp [Atom.leaf, Leaf.result]
    rw [hleaf, inner.condition_settled, Atom.read, toOption_bind, toOption_bind,
      Disjunction.settled_read r inner]
  | .test operand asked => by
    have hleaf : (do return (← (Atom.test operand asked).leaf r).result.condition) =
        (Atom.test operand asked).read r := by
      simp only [Atom.leaf, Atom.read, bind_assoc, Test.leaf_read]
    rw [hleaf]

theorem Negation.settled_read (r : Reading) : ∀ n : Negation,
    (n.settled r).toOption = (n.read r).toOption
  | .atom a => by
    have hleaf : (Negation.atom a).settled r = do return (← a.leaf r).result.condition := by
      simp [Negation.settled, Negation.factor, Factor.negated, Tested.negateTimes]
    rw [hleaf, Negation.read, Atom.leaf_read r a]
  | .not n => by
    rw [Negation.settled_not, Negation.read, toOption_bind, toOption_bind,
      Negation.settled_read r n]

theorem Conjunction.settled_read (r : Reading) : ∀ c : Conjunction,
    (c.settled r).toOption = (c.readAll r).toOption
  | .one n => by
    have hone : (Conjunction.one n).settled r = do return [← n.settled r] := by
      simp [Conjunction.settled, Conjunction.factors, Negation.settled, Chain.traverse,
        Chain.toList]
    rw [hone, Conjunction.readAll, toOption_bind, toOption_bind, Negation.settled_read r n]
  | .and n rest => by
    rw [Conjunction.settled_and, Conjunction.readAll]
    simp only [toOption_bind, Negation.settled_read r n, Conjunction.settled_read r rest]

theorem Disjunction.settled_read (r : Reading) : ∀ e : Disjunction,
    (e.settled r).toOption = (e.readAll r).toOption
  | .one c => by
    have hone : (Disjunction.one c).settled r = do return [allOf (← c.settled r)] := by
      simp [Disjunction.settled, Disjunction.row, Conjunction.settled, Resolved.negated,
        Chain.traverse, Chain.toList]
    rw [hone, Disjunction.readAll, toOption_bind, toOption_bind, Conjunction.settled_read r c]
  | .or c rest => by
    rw [Disjunction.settled_or, Disjunction.readAll]
    simp only [toOption_bind, Conjunction.settled_read r c, Disjunction.settled_read r rest]

end

/-- **Precedence.**  On every sentence of the grammar, in every scope, the compiler of conditions
gives a result exactly if recursive descent does, and then the same condition. -/
theorem condition_eq_descent (r : Reading) (e : Disjunction) :
    (r.condition e.tokens).toOption = (e.read r).toOption := by
  rw [e.condition_settled, Disjunction.read, Compiled.toOption_bind, Compiled.toOption_bind,
    e.settled_read]

end Grammar

end DocSql
